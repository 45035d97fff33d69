import GmragApi.DocumentText
import GmragApi.WordprocessingSpelling

/-! Which documents come apart in chunks, and what their chunks show. -/

namespace GmragApi.DocumentText

open TextCover (Piece Covers visible)
open Upload (DocumentFormat Service detectUpload isValidText pdfMagic zipMagic)

section Documents

variable {libs : Libraries} {parsing : Parsing} {format : DocumentFormat} {doc : PdfDocument}
  {bytes : List UInt8} {pages chunks : List (List Char)}

/-- What the libraries read out of a document: the output of each page by ascending number, nothing
where it fails, the text of a DOCX, or the decoded bytes. -/
def rawPages (libs : Libraries) (format : DocumentFormat) (bytes : List UInt8) :
    List (List Char) :=
  match format with
  | .pdf =>
    match libs.loadMem bytes with
    | none => []
    | some doc => (doc.getPages.insertionSort (· ≤ ·)).map fun n => (doc.outputDocPage n).getD []
  | .docx => (extractDocxText libs bytes).toOption.toList
  | .text | .markdown => (Utf8.fromUtf8 bytes).toOption.toList

theorem words_cleanExtractedText (text : List Char) :
    Words.words isWhitespace (Pdf.cleanExtractedText text) = Words.words isWhitespace text := by
  rw [Pdf.cleanExtractedText, Words.words_intercalate Pdf.isWhitespace_newline,
    Pdf.cleanLines_words, Words.words_lines Pdf.isWhitespace_newline (by decide)]

theorem visible_extractPageText (doc : PdfDocument) (pageNumber : Nat) :
    visible isWhitespace (extractPageText doc pageNumber) =
      visible isWhitespace ((doc.outputDocPage pageNumber).getD []) := by
  unfold extractPageText
  cases doc.outputDocPage pageNumber with
  | none => rfl
  | some text =>
    show visible isWhitespace (Pdf.cleanExtractedText text) = visible isWhitespace text
    rw [← TextCover.flatten_words, words_cleanExtractedText, TextCover.flatten_words]

/-- A cleaned text that is not empty has something to see. -/
theorem not_blank_of_cleaned {text : List Char} (h : Pdf.cleanExtractedText text ≠ []) :
    ¬Blank (Pdf.cleanExtractedText text) := by
  intro hblank
  have hwords : (Words.words isWhitespace (Pdf.cleanExtractedText text)).flatten = [] := by
    rw [TextCover.flatten_words]
    exact TextCover.visible_eq_nil_iff.mpr hblank
  have hclean := Pdf.cleanLines_clean (Words.lines text)
  unfold Pdf.cleanExtractedText at h hwords
  rw [Words.words_intercalate Pdf.isWhitespace_newline] at hwords
  cases hlines : Pdf.cleanLines (Words.lines text) with
  | nil =>
    rw [hlines] at h
    exact h rfl
  | cons line lines =>
    rw [hlines] at hclean hwords
    have hfirst : line.isEmpty = false := hclean.tidy.first line rfl
    have hblankLine := (hclean.normal line List.mem_cons_self).blankLine_eq
    rw [hfirst] at hblankLine
    have hnone : visible isWhitespace line = [] := by
      rw [← TextCover.flatten_words]
      rw [List.flatMap_cons, List.flatten_append] at hwords
      exact (List.append_eq_nil_iff.mp hwords).1
    have hall : Pdf.blankLine line = true :=
      List.all_eq_true.mpr (TextCover.visible_eq_nil_iff.mp hnone)
    rw [hblankLine] at hall
    cases hall

theorem resolvePage_eq (page : PageExtract) :
    resolvePage page = if page.needsOcr then .error .needsOcr else .ok page.text := by
  unfold resolvePage finalizePageText visionOcrFallback
  cases page.needsOcr <;> rfl

theorem resolvePagesForChunking_ok (extracts : List PageExtract) :
    resolvePagesForChunking extracts = .ok pages ↔
      (∀ page ∈ extracts, page.needsOcr = false) ∧ pages = extracts.map PageExtract.text := by
  induction extracts generalizing pages with
  | nil =>
    refine ⟨fun h => ⟨fun _ hmem => absurd hmem List.not_mem_nil, (Except.ok.inj h).symm⟩, ?_⟩
    rintro ⟨-, rfl⟩
    rfl
  | cons page extracts ih =>
    unfold resolvePagesForChunking
    rw [resolvePage_eq]
    cases hocr : page.needsOcr with
    | true => simp [hocr]
    | false =>
      cases hrest : resolvePagesForChunking extracts with
      | error e =>
        have hnot := fun texts => (@ih texts).not.mp (by rw [hrest]; simp)
        simp only [List.forall_mem_cons, hocr, true_and, Bool.false_eq_true, if_false]
        refine iff_of_false (by simp) ?_
        rintro ⟨hall, -⟩
        exact hnot (extracts.map PageExtract.text) ⟨hall, rfl⟩
      | ok texts =>
        obtain ⟨hall, htexts⟩ := ih.mp hrest
        simp only [Bool.false_eq_true, if_false, List.forall_mem_cons, hocr, true_and,
          List.map_cons, Except.ok.injEq, htexts]
        exact ⟨fun h => ⟨hall, h.symm⟩, fun h => h.2.symm⟩

theorem Shows.of_visible {raw : List (List Char)} (h : Shows pages chunks)
    (hsame : pages.flatMap (visible isWhitespace) = raw.flatMap (visible isWhitespace)) :
    Shows raw chunks := by
  obtain ⟨text, pieces, hvisible, hpieces⟩ := h
  exact ⟨text, pieces, hvisible.trans hsame, hpieces⟩

/-- A PDF whose text is taken has pages, each with enough text to be seen. -/
theorem pageTexts_pdf (h : pageTexts libs parsing .pdf bytes = .ok pages) :
    ∃ doc, libs.loadMem bytes = some doc ∧ (doc.encrypted = true → doc.decrypts = true) ∧
      doc.getPages ≠ [] ∧ (∀ n ∈ doc.getPages, minTextChars ≤ (extractPageText doc n).length) ∧
      pages = (doc.getPages.insertionSort (· ≤ ·)).map (extractPageText doc) := by
  unfold pageTexts extractPdfFromBytes at h
  cases parsing with
  | panicked => cases h
  | timedOut => cases h
  | finished =>
    cases hload : libs.loadMem bytes with
    | none =>
      rw [hload] at h
      cases h
    | some doc =>
      rw [hload] at h
      simp only [extractPdfFromDocument] at h
      split at h
      next => cases h
      next hopen =>
        split at h
        next => cases h
        next hpages =>
          obtain ⟨hocr, htexts⟩ := (resolvePagesForChunking_ok _).mp h
          refine ⟨doc, rfl, ?_, ?_, ?_, ?_⟩
          · intro hencrypted
            simpa [hencrypted] using hopen
          · intro hnone
            rw [hnone] at hpages
            exact hpages rfl
          · intro n hn
            have hmem := (List.mem_insertionSort (· ≤ ·)).mpr hn
            have hneeds := hocr (pageExtract doc n) (List.mem_map_of_mem hmem)
            exact Nat.le_of_not_lt (of_decide_eq_false hneeds)
          · rw [htexts, List.map_map]
            rfl

theorem extractDocxText_not_blank {text : List Char} (h : extractDocxText libs bytes = .ok text) :
    ¬Blank text := by
  have hfinish : ∀ s : Docx.Extraction, Docx.finish s = .ok text → ¬Blank text := by
    intro s hs
    unfold Docx.finish at hs
    dsimp only at hs
    split at hs
    next => cases hs
    next hsolid =>
      cases hs
      intro hblank
      rw [trim_eq_nil_iff.mpr hblank] at hsolid
      exact hsolid rfl
  unfold extractDocxText at h
  split at h
  next => cases h
  next =>
    split at h
    next => cases h
    next =>
      split at h
      next =>
        unfold Docx.extractWordprocessingText at h
        cases hread : Docx.readEvents libs.quickXml (libs.readXml _) ⟨[], false⟩ with
        | error e =>
          rw [hread] at h
          cases h
        | ok s =>
          rw [hread] at h
          exact hfinish s h
      next => cases h

theorem not_blank_of_enough {n : Nat} (h : minTextChars ≤ (extractPageText doc n).length) :
    ¬Blank (extractPageText doc n) := by
  have hne : extractPageText doc n ≠ [] := by
    intro hnil
    rw [hnil] at h
    exact absurd h (by decide)
  unfold extractPageText at hne ⊢
  cases hpage : doc.outputDocPage n with
  | none =>
    rw [hpage] at hne
    exact absurd rfl hne
  | some text =>
    rw [hpage] at hne
    exact not_blank_of_cleaned hne

theorem decodeText_pages (h : (decodeText bytes).map (fun text => [text]) = .ok pages) :
    ∃ text, Utf8.fromUtf8 bytes = .ok text ∧ pages = [text] := by
  unfold decodeText at h
  split at h
  next => cases h
  next =>
    cases htext : Utf8.fromUtf8 bytes with
    | error e =>
      rw [htext] at h
      cases h
    | ok text =>
      rw [htext] at h
      exact ⟨text, rfl, (Except.ok.inj h).symm⟩

/-- The texts that are chunked have the visible characters that the libraries read, and all of them
can be blank only in a text file. -/
theorem pageTexts_ok (h : pageTexts libs parsing format bytes = .ok pages) :
    pages.flatMap (visible isWhitespace) =
        (rawPages libs format bytes).flatMap (visible isWhitespace) ∧
      ((∀ page ∈ pages, Blank page) ↔
        (format = .text ∨ format = .markdown) ∧
          ∀ page ∈ rawPages libs format bytes, Blank page) := by
  cases format with
  | pdf =>
    obtain ⟨doc, hload, -, hne, henough, rfl⟩ := pageTexts_pdf h
    have hraw : rawPages libs .pdf bytes =
        (doc.getPages.insertionSort (· ≤ ·)).map fun n => (doc.outputDocPage n).getD [] := by
      simp only [rawPages, hload]
    refine ⟨?_, iff_of_false ?_ ?_⟩
    · rw [hraw, List.flatMap_map, List.flatMap_map]
      exact List.flatMap_congr fun n _ => visible_extractPageText doc n
    · intro hblank
      obtain ⟨n, rest, hpages⟩ := List.exists_cons_of_ne_nil hne
      have hn : n ∈ doc.getPages := by
        rw [hpages]
        exact List.mem_cons_self
      have hmem := (List.mem_insertionSort (· ≤ ·)).mpr hn
      exact not_blank_of_enough (henough n hn) (hblank _ (List.mem_map_of_mem hmem))
    · rintro ⟨htext | htext, -⟩ <;> cases htext
  | docx =>
    unfold pageTexts at h
    cases htext : extractDocxText libs bytes with
    | error e =>
      rw [htext] at h
      cases parsing <;> cases h
    | ok text =>
      rw [htext] at h
      have hpages : pages = [text] := by
        cases parsing with
        | finished => exact (Except.ok.inj h).symm
        | panicked => cases h
        | timedOut => cases h
      have hraw : rawPages libs .docx bytes = [text] := by
        simp only [rawPages, htext]
        rfl
      rw [hraw, hpages]
      refine ⟨rfl, iff_of_false ?_ ?_⟩
      · intro hblank
        exact extractDocxText_not_blank htext (hblank text List.mem_cons_self)
      · rintro ⟨hformat | hformat, -⟩ <;> cases hformat
  | text =>
    obtain ⟨text, htext, rfl⟩ := decodeText_pages h
    have hraw : rawPages libs .text bytes = [text] := by
      simp only [rawPages, htext]
      rfl
    rw [hraw]
    exact ⟨rfl, by simp⟩
  | markdown =>
    obtain ⟨text, htext, rfl⟩ := decodeText_pages h
    have hraw : rawPages libs .markdown bytes = [text] := by
      simp only [rawPages, htext]
      rfl
    rw [hraw]
    exact ⟨rfl, by simp⟩

/-- The chunks of a document show what the libraries read out of it, all of it and in order, and
none comes out only for a text file with nothing to see. -/
theorem chunks_show_document {contentType : Option (List Char)}
    (hsplit : ∀ text, Covers isWhitespace text (libs.chunkIndices text))
    (h : documentChunks libs parsing contentType bytes = .ok chunks) :
    ∃ format, contentType.bind fromContentType = some format ∧
      Shows (rawPages libs format bytes) chunks ∧
      (chunks = [] ↔ (format = .text ∨ format = .markdown) ∧
        ∀ page ∈ rawPages libs format bytes, Blank page) := by
  unfold documentChunks at h
  cases hformat : contentType.bind fromContentType with
  | none =>
    rw [hformat] at h
    cases h
  | some format =>
    rw [hformat] at h
    cases hpages : pageTexts libs parsing format bytes with
    | error e =>
      simp only [hpages] at h
      cases h
    | ok pages =>
      simp only [hpages] at h
      cases hchunks : chunkPageTexts libs pages with
      | error e =>
        simp only [Except.bind, hchunks] at h
        cases h
      | ok found =>
        simp only [Except.bind, hchunks] at h
        cases Except.ok.inj h
        obtain ⟨hsame, hblank⟩ := pageTexts_ok hpages
        obtain ⟨hshows, hnone⟩ := chunkPageTexts_shows hsplit hchunks
        exact ⟨format, rfl, hshows.of_visible hsame, hnone.trans hblank⟩

/-- Libraries that know neither PDF nor DOCX, and keep a short text in one chunk. -/
def reportLibraries : Libraries where
  loadMem _ := none
  openZip _ := none
  readXml _ := []
  quickXml := Docx.quickXml
  cl100kBase := true
  chunkIndices text := [⟨0, text⟩]

theorem covers_whole (text : List Char) :
    Covers isWhitespace text (reportLibraries.chunkIndices text) where
  within p hp := by
    rw [List.mem_singleton.mp hp]
    exact List.prefix_rfl
  ordered := List.pairwise_singleton _ _
  visible i c hc _ := by
    refine ⟨⟨0, text⟩, List.mem_cons_self, Nat.zero_le i, ?_⟩
    show i < 0 + text.length
    rw [Nat.zero_add]
    exact (List.getElem?_eq_some_iff.mp hc).1

def reportText : List Char := "\n Yearly  report:\n\nall is well. \n".toList

def reportBytes : List UInt8 := reportText.map fun c => c.toNat.toUInt8

def reportChunk : List Char := "Yearly  report:\n\nall is well.".toList

theorem chunks_show_document_report :
    ∃ format, (some DocumentFormat.text.contentType).bind fromContentType = some format ∧
      Shows (rawPages reportLibraries format reportBytes) [reportChunk] ∧
      ([reportChunk] = [] ↔ (format = .text ∨ format = .markdown) ∧
        ∀ page ∈ rawPages reportLibraries format reportBytes, Blank page) :=
  @chunks_show_document reportLibraries .finished reportBytes [reportChunk] _ covers_whole
    (by decide +kernel)

/-- What an accepted document must be like for its chunks to come out. -/
def Chunkable (libs : Libraries) (format : DocumentFormat) (bytes : List UInt8) : Prop :=
  match format with
  | .pdf =>
    ∀ doc, libs.loadMem bytes = some doc →
      (doc.encrypted = true → doc.decrypts = true) ∧ doc.getPages ≠ [] ∧
        ∀ n ∈ doc.getPages, minTextChars ≤ (extractPageText doc n).length
  | .docx =>
    ∀ archive, libs.openZip bytes = some archive →
      ∃ documentXml text, archive.byName documentEntry = some (some documentXml) ∧
        Docx.extractWordprocessingText libs.quickXml (libs.readXml documentXml) = .ok text
  | .text | .markdown => True

theorem fromContentType_contentType (format : DocumentFormat) :
    fromContentType format.contentType = some format := by
  cases format <;> decide

/-- What the upload has checked of a document that it takes for this format. -/
def checked (libs : Libraries) (format : DocumentFormat) (bytes : List UInt8) : Bool :=
  match format with
  | .pdf => pdfMagic.isPrefixOf bytes && (libs.loadMem bytes).isSome
  | .docx => zipMagic.isPrefixOf bytes && (libs.openZip bytes).any ZipArchive.holdsDocx
  | .text | .markdown => isValidText bytes

theorem detectUpload_checked {base : Service} {filename : List Char}
    (h : detectUpload (libs.service base) filename bytes = some format) :
    checked libs format bytes = true := by
  unfold detectUpload at h
  split at h
  next hpdf =>
    cases h
    exact hpdf
  next =>
    split at h
    next hdocx =>
      cases h
      exact hdocx
    next =>
      split at h
      next => cases h
      next htext =>
        have hvalid : isValidText bytes = true := by simpa using htext
        split at h
        next =>
          cases h
          exact hvalid
        next =>
          split at h
          next =>
            cases h
            exact hvalid
          next => cases h

theorem readFile_checked {base : Service} {field : Upload.Field} {file : Upload.PendingUploadFile}
    (h : Upload.readFile (libs.service base) field = .ok file) :
    checked libs file.format file.bytes = true := by
  unfold Upload.readFile at h
  split at h
  next => cases h
  next =>
    split at h
    next => cases h
    next =>
      split at h
      next => cases h
      next hdetect =>
        cases h
        exact detectUpload_checked hdetect

theorem chunkPageTexts_isOk (htokenizer : libs.cl100kBase = true) (pages : List (List Char)) :
    ∃ chunks, chunkPageTexts libs pages = .ok chunks := by
  unfold chunkPageTexts
  rw [htokenizer]
  split
  next => exact ⟨_, rfl⟩
  next =>
    rw [if_neg (by decide), if_neg (by decide)]
    exact ⟨_, rfl⟩

/-- Once the texts are there, the chunks are. -/
theorem documentChunks_isOk_iff (htokenizer : libs.cl100kBase = true) :
    (∃ chunks, documentChunks libs parsing (some format.contentType) bytes = .ok chunks) ↔
      ∃ pages, pageTexts libs parsing format bytes = .ok pages := by
  unfold documentChunks
  rw [Option.bind_some, fromContentType_contentType]
  cases hpages : pageTexts libs parsing format bytes with
  | error e =>
    refine iff_of_false ?_ ?_
    · rintro ⟨chunks, hchunks⟩
      simp only [hpages] at hchunks
      cases hchunks
    · rintro ⟨pages, h⟩
      cases h
  | ok pages =>
    obtain ⟨chunks, hchunks⟩ := chunkPageTexts_isOk htokenizer pages
    refine iff_of_true ⟨chunks, ?_⟩ ⟨pages, rfl⟩
    simp only [hpages, Except.bind, hchunks]
    rfl

theorem pageTexts_pdf_isOk_iff (hload : libs.loadMem bytes = some doc) :
    (∃ pages, pageTexts libs .finished .pdf bytes = .ok pages) ↔ Chunkable libs .pdf bytes := by
  constructor
  · rintro ⟨pages, hpages⟩ found hfound
    obtain ⟨doc, hdoc, hopen, hne, henough, -⟩ := pageTexts_pdf hpages
    rw [hdoc] at hfound
    cases hfound
    exact ⟨hopen, hne, henough⟩
  · intro h
    obtain ⟨hopen, hne, henough⟩ := h doc hload
    have hencrypted : (doc.encrypted && !doc.decrypts) = false := by
      cases he : doc.encrypted with
      | false => rfl
      | true => rw [hopen he]; rfl
    have hpages : (doc.getPages.insertionSort (· ≤ ·)).isEmpty = false := by
      rw [List.isEmpty_eq_false_iff]
      intro hnil
      have hperm := List.perm_insertionSort (· ≤ ·) doc.getPages
      rw [hnil] at hperm
      exact hne (List.nil_perm.mp hperm)
    refine ⟨((doc.getPages.insertionSort (· ≤ ·)).map (pageExtract doc)).map PageExtract.text, ?_⟩
    unfold pageTexts extractPdfFromBytes extractPdfFromDocument
    simp only [hload, hencrypted, hpages, Bool.false_eq_true, if_false]
    refine (resolvePagesForChunking_ok _).mpr ⟨fun page hpage => ?_, rfl⟩
    obtain ⟨n, hn, rfl⟩ := List.mem_map.mp hpage
    have hlength := henough n ((List.mem_insertionSort (· ≤ ·)).mp hn)
    exact decide_eq_false (Nat.not_lt_of_le hlength)

theorem pageTexts_docx_isOk_iff (hchecked : checked libs .docx bytes = true) :
    (∃ pages, pageTexts libs .finished .docx bytes = .ok pages) ↔ Chunkable libs .docx bytes := by
  obtain ⟨hmagic, hentries⟩ := Bool.and_eq_true_iff.mp hchecked
  have hextract : (∃ pages, pageTexts libs .finished .docx bytes = .ok pages) ↔
      ∃ text, extractDocxText libs bytes = .ok text := by
    unfold pageTexts
    cases extractDocxText libs bytes with
    | error e =>
      refine iff_of_false ?_ ?_
      · rintro ⟨pages, h⟩
        cases h
      · rintro ⟨text, h⟩
        cases h
    | ok text => exact iff_of_true ⟨[text], rfl⟩ ⟨text, rfl⟩
  rw [hextract]
  unfold extractDocxText Chunkable
  cases hzip : libs.openZip bytes with
  | none =>
    rw [hzip] at hentries
    cases hentries
  | some archive =>
    rw [hzip, Option.any_some] at hentries
    obtain ⟨htypes, hdocument⟩ := Bool.and_eq_true_iff.mp hentries
    obtain ⟨typesXml, htypes⟩ := Option.isSome_iff_exists.mp htypes
    obtain ⟨read, hread⟩ := Option.isSome_iff_exists.mp hdocument
    simp only [hmagic, htypes, hread, Bool.not_true, Bool.false_eq_true, if_false]
    cases read with
    | none =>
      refine iff_of_false ?_ fun h => ?_
      · rintro ⟨text, h⟩
        cases h
      obtain ⟨documentXml, text, hxml, -⟩ := h archive rfl
      rw [hread] at hxml
      cases hxml
    | some documentXml =>
      constructor
      · rintro ⟨text, htext⟩ found hfound
        cases hfound
        exact ⟨documentXml, text, hread, htext⟩
      · intro h
        obtain ⟨xml, text, hxml, htext⟩ := h archive rfl
        rw [hread] at hxml
        cases hxml
        exact ⟨text, htext⟩

theorem decodeText_valid (hvalid : isValidText bytes = true) :
    ∃ text, decodeText bytes = .ok text := by
  unfold decodeText
  rw [hvalid]
  cases htext : Utf8.fromUtf8 bytes with
  | ok text => exact ⟨text, rfl⟩
  | error e =>
    have hok := (Bool.and_eq_true_iff.mp hvalid).2
    rw [htext] at hok
    cases hok

/-- Of an accepted upload, a text file always comes apart in chunks; a PDF does exactly when the
empty password opens it and each of its pages has enough text, and a DOCX when its text does. -/
theorem accepted_upload_is_chunked_iff {base : Service} {field : Upload.Field}
    {file : Upload.PendingUploadFile} (ctx : Upload.UploadContext) (calls : Upload.FileCalls)
    (etag : Option (List Char)) (htokenizer : libs.cl100kBase = true)
    (hread : Upload.readFile (libs.service base) field = .ok file) :
    (∃ chunks, documentChunks libs .finished (some (Upload.rowOf ctx calls file etag).contentType)
        (Upload.objectOf ctx calls file).bytes = .ok chunks) ↔
      Chunkable libs file.format file.bytes := by
  have hchecked := readFile_checked hread
  have hrow : (Upload.rowOf ctx calls file etag).contentType = file.format.contentType := rfl
  have hobject : (Upload.objectOf ctx calls file).bytes = file.bytes := rfl
  rw [hrow, hobject, documentChunks_isOk_iff htokenizer]
  cases hformat : file.format with
  | pdf =>
    rw [hformat] at hchecked
    obtain ⟨-, hload⟩ := Bool.and_eq_true_iff.mp hchecked
    obtain ⟨doc, hdoc⟩ := Option.isSome_iff_exists.mp hload
    exact pageTexts_pdf_isOk_iff hdoc
  | docx =>
    rw [hformat] at hchecked
    exact pageTexts_docx_isOk_iff hchecked
  | text =>
    rw [hformat] at hchecked
    obtain ⟨text, htext⟩ := decodeText_valid hchecked
    refine iff_of_true ⟨[text], ?_⟩ trivial
    simp only [pageTexts, htext, Except.map]
  | markdown =>
    rw [hformat] at hchecked
    obtain ⟨text, htext⟩ := decodeText_valid hchecked
    refine iff_of_true ⟨[text], ?_⟩ trivial
    simp only [pageTexts, htext, Except.map]

def reportField : Upload.Field :=
  ⟨some "file".toList, some "report.txt".toList, none, some reportBytes⟩

def reportFile : Upload.PendingUploadFile := ⟨"report.txt".toList, .text, reportBytes⟩

def reportService : Service where
  documentMaxUploadBytes := 100
  bucket := ['b']
  maxAttempts := 5
  loadsPdf _ := false
  holdsDocx _ := false
  checksumSha256Hex _ := []

def reportContext : Upload.UploadContext where
  service := reportLibraries.service reportService
  tenantId := .ofNat 1
  workspaceId := .ofNat 2
  userId := ['u']
  accessMode := .workspaceDefault

def reportCalls : Upload.FileCalls where
  documentId := .ofNat 3
  putObject := .ok none
  beginTransaction := true
  insertDocument := true
  enqueueJob := true
  commit := .ok ()
  writeTuple := .ok ()
  deleteDocument := .ok ()
  deleteObject := .ok ()
  auditEvent := .ok ()

theorem accepted_upload_is_chunked_iff_report :
    (∃ chunks, documentChunks reportLibraries .finished
        (some (Upload.rowOf reportContext reportCalls reportFile none).contentType)
        (Upload.objectOf reportContext reportCalls reportFile).bytes = .ok chunks) ↔
      Chunkable reportLibraries .text reportBytes :=
  @accepted_upload_is_chunked_iff reportLibraries reportService reportField reportFile
    reportContext reportCalls none rfl (by decide +kernel)

end Documents

end GmragApi.DocumentText

import Mathlib.Data.List.Sort
import GmragApi.DocumentUpload
import GmragApi.ExtractedText
import GmragApi.TextCover
import GmragApi.WordprocessingText

/-! From the bytes of an uploaded document to the chunks that are embedded and stored. -/

namespace GmragApi.DocumentText

open TextCover (Piece Covers visible)
open Upload (DocumentFormat Service detectUpload isValidText pdfMagic zipMagic)

/-- A loaded PDF; the pages are those of the document after its decryption, which may fail, and the
text of a page is missing where its output fails. -/
structure PdfDocument where
  encrypted : Bool
  decrypts : Bool
  getPages : List Nat
  outputDocPage : Nat → Option (List Char)

/-- A ZIP archive: its entries by name, and the text that reading one yields. -/
structure ZipArchive where
  byName : List Char → Option (Option (List Char))

/-- The libraries behind extraction and chunking. -/
structure Libraries where
  loadMem : List UInt8 → Option PdfDocument
  openZip : List UInt8 → Option ZipArchive
  readXml : List Char → List (Option Docx.Event)
  quickXml : Docx.QuickXml
  cl100kBase : Bool
  chunkIndices : List Char → List (Piece Char)

inductive PdfParseError
  | load
  | decrypt
  | noPages
  deriving DecidableEq

inductive ChunkError
  | tokenizer
  | config
  deriving DecidableEq

inductive ProcessError
  | unsupportedContentType (contentType : Option (List Char))
  | join
  | pdfParseTimeout
  | pdfParse (e : PdfParseError)
  | needsOcr
  | docxParseTimeout
  | docxParse
  | textDecode
  | chunk (format : DocumentFormat) (source : ChunkError)
  deriving DecidableEq

def fromContentType (contentType : List Char) : Option DocumentFormat :=
  if contentType = DocumentFormat.pdf.contentType then some .pdf
  else if contentType = DocumentFormat.docx.contentType then some .docx
  else if contentType = DocumentFormat.text.contentType then some .text
  else if contentType = DocumentFormat.markdown.contentType then some .markdown
  else none

def contentTypesEntry : List Char := "[Content_Types].xml".toList

def documentEntry : List Char := "word/document.xml".toList

section Extraction

variable (libs : Libraries)

/-- Both entries of a DOCX are there. -/
def ZipArchive.holdsDocx (archive : ZipArchive) : Bool :=
  (archive.byName contentTypesEntry).isSome && (archive.byName documentEntry).isSome

/-- The service with these libraries. -/
def Libraries.service (base : Service) : Service :=
  { base with
    loadsPdf := fun data => (libs.loadMem data).isSome
    holdsDocx := fun data => (libs.openZip data).any ZipArchive.holdsDocx }

structure PageExtract where
  pageNumber : Nat
  text : List Char
  needsOcr : Bool
  imageBytes : List UInt8

def minTextChars : Nat := 50

def extractPageText (doc : PdfDocument) (pageNumber : Nat) : List Char :=
  match doc.outputDocPage pageNumber with
  | none => []
  | some text => Pdf.cleanExtractedText text

def pageExtract (doc : PdfDocument) (pageNumber : Nat) : PageExtract :=
  let text := extractPageText doc pageNumber
  ⟨pageNumber, text, decide (text.length < minTextChars), []⟩

def extractPdfFromDocument (doc : PdfDocument) : Except PdfParseError (List PageExtract) :=
  if doc.encrypted && !doc.decrypts then .error .decrypt
  else
    let pageNumbers := doc.getPages.insertionSort (· ≤ ·)
    if pageNumbers.isEmpty then .error .noPages else .ok (pageNumbers.map (pageExtract doc))

def extractPdfFromBytes (bytes : List UInt8) : Except PdfParseError (List PageExtract) :=
  match libs.loadMem bytes with
  | none => .error .load
  | some doc => extractPdfFromDocument doc

def extractDocxText (data : List UInt8) : Except Docx.DocxParseError (List Char) :=
  if !zipMagic.isPrefixOf data then .error ⟨⟩
  else
    match libs.openZip data with
    | none => .error ⟨⟩
    | some archive =>
      match archive.byName contentTypesEntry, archive.byName documentEntry with
      | some _, some (some documentXml) =>
        Docx.extractWordprocessingText libs.quickXml (libs.readXml documentXml)
      | _, _ => .error ⟨⟩

def decodeText (data : List UInt8) : Except ProcessError (List Char) :=
  if !isValidText data then .error .textDecode
  else
    match Utf8.fromUtf8 data with
    | .ok text => .ok text
    | .error _ => .error .textDecode

/-- No provider of optical character recognition is built in. -/
def visionOcrFallback (_imageBytes : List UInt8) : Option (List Char) := none

def finalizePageText (page : PageExtract) (ocrText : Option (List Char)) :
    Except ProcessError (List Char) :=
  if !page.needsOcr then .ok page.text
  else
    match ocrText with
    | none => .error .needsOcr
    | some ocr =>
      if (trim ocr).isEmpty then .error .needsOcr
      else .ok (page.text ++ (if page.text.isEmpty then [] else ['\n']) ++ ocr)

def resolvePage (page : PageExtract) : Except ProcessError (List Char) :=
  finalizePageText page (if page.needsOcr then visionOcrFallback page.imageBytes else none)

def resolvePagesForChunking : List PageExtract → Except ProcessError (List (List Char))
  | [] => .ok []
  | page :: pages =>
    match resolvePage page with
    | .error e => .error e
    | .ok text =>
      match resolvePagesForChunking pages with
      | .error e => .error e
      | .ok texts => .ok (text :: texts)

/-- What becomes of the blocking task that parses: it ends in time, panics, or does not end in
time. -/
inductive Parsing
  | finished
  | panicked
  | timedOut

def Parsing.await {ε β : Type} (parsing : Parsing) (timeout : ProcessError)
    (wrap : ε → ProcessError) (result : Except ε β) : Except ProcessError β :=
  match parsing with
  | finished => result.mapError wrap
  | panicked => .error .join
  | timedOut => .error timeout

def pageTexts (parsing : Parsing) (format : DocumentFormat) (bytes : List UInt8) :
    Except ProcessError (List (List Char)) :=
  match format with
  | .pdf =>
    (parsing.await .pdfParseTimeout .pdfParse (extractPdfFromBytes libs bytes)).bind
      resolvePagesForChunking
  | .docx =>
    (parsing.await .docxParseTimeout (fun _ => .docxParse) (extractDocxText libs bytes)).map
      fun text => [text]
  | .text | .markdown => (decodeText bytes).map fun text => [text]

def chunkSizeTokens : Nat := 1200

def chunkOverlapTokens : Nat := 100

def joinPages (pages : List (List Char)) : List Char :=
  ['\n', '\n'].intercalate ((pages.map trim).filter fun page => !page.isEmpty)

/-- `with_overlap` refuses an overlap that is not smaller than a chunk. -/
def chunkPageTexts (pages : List (List Char)) : Except ChunkError (List (List Char)) :=
  if (joinPages pages).isEmpty then .ok []
  else if !libs.cl100kBase then .error .tokenizer
  else if chunkSizeTokens ≤ chunkOverlapTokens then .error .config
  else
    .ok (((libs.chunkIndices (joinPages pages)).map fun p => trim p.content).filter
      fun chunk => !chunk.isEmpty)

/-- The part of `process_document` from the downloaded bytes to the chunks. -/
def documentChunks (parsing : Parsing) (contentType : Option (List Char)) (bytes : List UInt8) :
    Except ProcessError (List (List Char)) :=
  match contentType.bind fromContentType with
  | none => .error (.unsupportedContentType contentType)
  | some format =>
    (pageTexts libs parsing format bytes).bind fun pages =>
      (chunkPageTexts libs pages).mapError (.chunk format)

end Extraction

section Pages

variable {libs : Libraries} {pages : List (List Char)} {chunks : List (List Char)}

/-- The chunks are slices in reading order of a text whose visible characters are those of the
pages. Each of these is in a chunk, and no chunk is empty or has a blank at an end. -/
def Shows (pages chunks : List (List Char)) : Prop :=
  ∃ text pieces, visible isWhitespace text = pages.flatMap (visible isWhitespace) ∧
    Covers isWhitespace text pieces ∧ chunks = pieces.map Piece.content ∧
    ∀ chunk ∈ chunks, chunk ≠ [] ∧ trim chunk = chunk

theorem visible_trim (s : List Char) : visible isWhitespace (trim s) = visible isWhitespace s :=
  TextCover.visible_strip s

theorem visible_joinPages (pages : List (List Char)) :
    visible isWhitespace (joinPages pages) = pages.flatMap (visible isWhitespace) := by
  have hbreak : ∀ c ∈ ['\n', '\n'], isWhitespace c = true :=
    List.forall_mem_cons.mpr ⟨rfl, List.forall_mem_singleton.mpr rfl⟩
  rw [joinPages, TextCover.visible_intercalate hbreak]
  induction pages with
  | nil => rfl
  | cons page pages ih =>
    rw [List.map_cons, List.filter_cons, List.flatMap_cons]
    split
    next => rw [List.flatMap_cons, visible_trim, ih]
    next hblank =>
      have hnil : trim page = [] := by simpa using hblank
      rw [ih, ← visible_trim page, hnil]
      rfl

theorem joinPages_eq_nil_iff : joinPages pages = [] ↔ ∀ page ∈ pages, Blank page := by
  have hblank : ∀ page, visible isWhitespace page = [] ↔ Blank page := fun page =>
    TextCover.visible_eq_nil_iff
  constructor
  · intro h page hpage
    have hvisible := visible_joinPages pages
    rw [h] at hvisible
    exact (hblank page).mp (List.flatMap_eq_nil_iff.mp hvisible.symm page hpage)
  · intro h
    have hnone : ((pages.map trim).filter fun page => !page.isEmpty) = [] := by
      rw [List.filter_eq_nil_iff]
      intro page hpage
      obtain ⟨page, hmem, rfl⟩ := List.mem_map.mp hpage
      simp [trim_eq_nil_iff.mpr (h page hmem)]
    rw [joinPages, hnone]
    rfl

theorem stripped_contents (pieces : List (Piece Char)) :
    ((pieces.map fun p => trim p.content).filter fun chunk => !chunk.isEmpty) =
      (TextCover.stripped isWhitespace pieces).map Piece.content := by
  rw [TextCover.stripped, List.filter_map, List.filter_map, List.map_map]
  rfl

theorem chunkPageTexts_shows
    (hsplit : ∀ text, Covers isWhitespace text (libs.chunkIndices text))
    (h : chunkPageTexts libs pages = .ok chunks) :
    Shows pages chunks ∧ (chunks = [] ↔ ∀ page ∈ pages, Blank page) := by
  unfold chunkPageTexts at h
  by_cases hempty : (joinPages pages).isEmpty = true
  · rw [if_pos hempty] at h
    cases h
    have hnil : joinPages pages = [] := List.isEmpty_iff.mp hempty
    refine ⟨⟨[], [], ?_, ⟨?_, ?_, ?_⟩, rfl, ?_⟩, iff_of_true rfl (joinPages_eq_nil_iff.mp hnil)⟩
    · rw [← visible_joinPages, hnil]
    · exact fun p hp => absurd hp List.not_mem_nil
    · exact .nil
    · intro i c hc
      simp at hc
    · exact fun chunk hchunk => absurd hchunk List.not_mem_nil
  · rw [if_neg hempty] at h
    split at h
    next => cases h
    next =>
      rw [if_neg (by decide)] at h
      have hchunks := Except.ok.inj h
      have hcovers := (hsplit (joinPages pages)).stripped
      rw [stripped_contents] at hchunks
      refine ⟨⟨_, _, visible_joinPages pages, hcovers, hchunks.symm, ?_⟩, ?_⟩
      · intro chunk hchunk
        rw [← hchunks] at hchunk
        obtain ⟨q, hq, rfl⟩ := List.mem_map.mp hchunk
        obtain ⟨p, -, rfl, hne⟩ := TextCover.mem_stripped.mp hq
        exact ⟨hne, trim_trim p.content⟩
      · rw [← joinPages_eq_nil_iff]
        refine iff_of_false ?_ fun hnil => hempty (List.isEmpty_iff.mpr hnil)
        intro hnone
        rw [hnone] at hchunks
        refine hcovers.ne_nil ?_ (List.map_eq_nil_iff.mp hchunks)
        intro hblank
        have hpages : ∀ page ∈ pages, Blank page := by
          have hvisible := visible_joinPages pages
          rw [TextCover.visible_eq_nil_iff.mpr hblank] at hvisible
          intro page hpage
          have hnone := List.flatMap_eq_nil_iff.mp hvisible.symm page hpage
          exact TextCover.visible_eq_nil_iff.mp hnone
        exact hempty (List.isEmpty_iff.mpr (joinPages_eq_nil_iff.mpr hpages))

end Pages

end GmragApi.DocumentText

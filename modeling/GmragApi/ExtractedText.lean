import GmragApi.Text
import GmragApi.Words

/-! The cleaning of the text of a page: words stay, blanks and blank lines are reduced to one. -/

namespace GmragApi.Pdf

open Words

/-- `line.split_whitespace().collect().join(" ")` -/
def normalizeLine (line : List Char) : List Char := [' '].intercalate (words isWhitespace line)

structure CleanState where
  kept : List (List Char)
  lastWasBlank : Bool

def cleanLine (s : CleanState) (line : List Char) : CleanState :=
  let normalized := normalizeLine line
  if normalized.isEmpty then
    if !s.lastWasBlank && !s.kept.isEmpty then ⟨s.kept ++ [[]], true⟩ else s
  else ⟨s.kept ++ [normalized], false⟩

/-- `while lines.last().is_some_and(|line| line.is_empty())` -/
def popBlankLines (kept : List (List Char)) : List (List Char) := kept.rdropWhile List.isEmpty

def cleanLines (ls : List (List Char)) : List (List Char) :=
  popBlankLines (ls.foldl cleanLine ⟨[], false⟩).kept

def cleanExtractedText (text : List Char) : List Char :=
  ['\n'].intercalate (cleanLines (lines text))

section Normal

theorem isWhitespace_space : isWhitespace ' ' = true := by decide

theorem isWhitespace_newline : isWhitespace '\n' = true := by decide

theorem words_normalizeLine (line : List Char) :
    words isWhitespace (normalizeLine line) = words isWhitespace line :=
  words_intercalate_plain isWhitespace_space fun _ hw => plain_of_mem_words hw

/-- A line as the cleaning leaves it. -/
def Normal (line : List Char) : Prop := normalizeLine line = line

theorem normal_normalizeLine (line : List Char) : Normal (normalizeLine line) := by
  rw [Normal, normalizeLine, words_normalizeLine]
  rfl

theorem normal_nil : Normal [] := rfl

theorem Normal.tidy {line : List Char} (h : Normal line) : Tidy isWhitespace line := by
  have htidy : Tidy isWhitespace (normalizeLine line) :=
    tidy_intercalate ' ' fun _ hw => plain_of_mem_words hw
  rwa [h] at htidy

/-- The only blanks of a normal line are spaces. -/
theorem Normal.not_mem {line : List Char} (h : Normal line) {c : Char} (hc : isWhitespace c = true)
    (hspace : c ≠ ' ') : c ∉ line := by
  have hjoin : ∀ ws : List (List Char), (∀ w ∈ ws, Plain isWhitespace w) →
      c ∉ [' '].intercalate ws := by
    intro ws
    induction ws with
    | nil => exact fun _ => List.not_mem_nil
    | cons w ws ih =>
      intro hws
      have hw := hws w List.mem_cons_self
      have hout : c ∉ w := fun hmem => by
        rw [hw.2 c hmem] at hc
        cases hc
      cases ws with
      | nil => rwa [List.intercalate_singleton]
      | cons w' ws =>
        have hrest := ih fun v hv => hws v (List.mem_cons_of_mem w hv)
        rw [List.intercalate_cons_cons]
        simp only [List.mem_append, List.mem_singleton, not_or]
        exact ⟨⟨hout, hspace⟩, hrest⟩
  rw [← h]
  exact hjoin _ fun _ hw => plain_of_mem_words hw

theorem Normal.getLast_solid {line : List Char} (h : Normal line) {c : Char}
    (hc : isWhitespace c = true) : line.getLast? ≠ some c := by
  intro hlast
  rw [h.tidy.last c hlast] at hc
  cases hc

end Normal

section Loop

/-- What the loop has kept so far: normal lines, with one blank line at most between two of them. -/
structure Kept (s : CleanState) : Prop where
  normal : ∀ l ∈ s.kept, Normal l
  first : ∀ l, s.kept.head? = some l → l.isEmpty = false
  single : s.kept.IsChain fun a b => ¬(a.isEmpty = true ∧ b.isEmpty = true)
  flag : s.lastWasBlank = true ↔ s.kept.getLast? = some []

theorem kept_start : Kept ⟨[], false⟩ where
  normal := fun _ hl => absurd hl List.not_mem_nil
  first := fun _ hl => by cases hl
  single := List.IsChain.nil
  flag := by simp

/-- A line is pushed unless it would be a second blank line, or a blank first one. -/
theorem Kept.push {s : CleanState} (h : Kept s) {line : List Char} (hline : Normal line)
    (hblank : line.isEmpty = true → s.lastWasBlank = false ∧ s.kept ≠ []) :
    Kept ⟨s.kept ++ [line], line.isEmpty⟩ := by
  refine ⟨fun l hl => ?_, fun l hl => ?_, ?_, ?_⟩
  · rcases List.mem_append.mp hl with hl | hl
    · exact h.normal l hl
    · rwa [List.mem_singleton.mp hl]
  · dsimp only at hl
    cases hkept : s.kept with
    | nil =>
      rw [hkept, List.nil_append, List.head?_cons] at hl
      rw [← Option.some.inj hl]
      by_contra hempty
      rw [Bool.not_eq_false] at hempty
      exact (hblank hempty).2 hkept
    | cons first rest =>
      rw [hkept, List.cons_append, List.head?_cons] at hl
      exact h.first l (by rw [hkept, List.head?_cons, hl])
  · refine List.isChain_append.mpr ⟨h.single, List.isChain_singleton line, ?_⟩
    intro l hl l' hl' hboth
    rw [List.head?_singleton, Option.mem_def] at hl'
    rw [← Option.some.inj hl'] at hboth
    have hflag := h.flag.mpr (by rw [Option.mem_def.mp hl, List.isEmpty_iff.mp hboth.1])
    rw [(hblank hboth.2).1] at hflag
    cases hflag
  · rw [List.getLast?_concat, Option.some.injEq, List.isEmpty_iff]

theorem cleanLine_kept {s : CleanState} (h : Kept s) (line : List Char) :
    Kept (cleanLine s line) := by
  unfold cleanLine
  dsimp only
  split
  next hempty =>
    split
    next hpush =>
      rw [Bool.and_eq_true, Bool.not_eq_true', Bool.not_eq_true', List.isEmpty_eq_false_iff] at hpush
      exact h.push normal_nil fun _ => hpush
    next => exact h
  next hfilled =>
    have hpush := h.push (normal_normalizeLine line) fun hempty => absurd hempty hfilled
    rw [Bool.not_eq_true] at hfilled
    rwa [hfilled] at hpush

theorem foldl_cleanLine_kept {s : CleanState} (h : Kept s) (ls : List (List Char)) :
    Kept (ls.foldl cleanLine s) := by
  induction ls generalizing s with
  | nil => exact h
  | cons line ls ih => exact ih (cleanLine_kept h line)

theorem words_of_normalizeLine_empty {line : List Char}
    (h : (normalizeLine line).isEmpty = true) : words isWhitespace line = [] := by
  rw [← words_normalizeLine, List.isEmpty_iff.mp h]
  rfl

/-- A line adds its words and no others. -/
theorem cleanLine_words (s : CleanState) (line : List Char) :
    (cleanLine s line).kept.flatMap (words isWhitespace) =
      s.kept.flatMap (words isWhitespace) ++ words isWhitespace line := by
  unfold cleanLine
  dsimp only
  split
  next hempty =>
    rw [words_of_normalizeLine_empty hempty, List.append_nil]
    split
    next => rw [List.flatMap_append, List.flatMap_singleton, words_nil, List.append_nil]
    next => rfl
  next => rw [List.flatMap_append, List.flatMap_singleton, words_normalizeLine]

theorem foldl_cleanLine_words (s : CleanState) (ls : List (List Char)) :
    (ls.foldl cleanLine s).kept.flatMap (words isWhitespace) =
      s.kept.flatMap (words isWhitespace) ++ ls.flatMap (words isWhitespace) := by
  induction ls generalizing s with
  | nil => exact (List.append_nil _).symm
  | cons line ls ih =>
    rw [List.foldl_cons, ih, cleanLine_words, List.flatMap_cons, List.append_assoc]

end Loop

section Clean

/-- The lines of a cleaned text. -/
structure CleanLines (ls : List (List Char)) : Prop where
  normal : ∀ l ∈ ls, Normal l
  tidy : Tidy List.isEmpty ls

theorem popBlankLines_words (ls : List (List Char)) :
    (popBlankLines ls).flatMap (words isWhitespace) = ls.flatMap (words isWhitespace) := by
  have hsplit : ls = ls.rdropWhile List.isEmpty ++ ls.rtakeWhile List.isEmpty :=
    List.rdropWhile_append_rtakeWhile.symm
  have hblank : (ls.rtakeWhile List.isEmpty).flatMap (words isWhitespace) = [] := by
    refine List.flatMap_eq_nil_iff.mpr fun l hl => ?_
    rw [List.isEmpty_iff.mp (List.mem_rtakeWhile_imp hl)]
    rfl
  rw [popBlankLines]
  conv_rhs => rw [hsplit]
  rw [List.flatMap_append, hblank, List.append_nil]

theorem popBlankLines_clean {s : CleanState} (h : Kept s) : CleanLines (popBlankLines s.kept) := by
  have hfront : popBlankLines s.kept <+: s.kept := List.rdropWhile_prefix List.isEmpty _
  obtain ⟨back, hback⟩ := hfront
  refine ⟨fun l hl => h.normal l (hback ▸ List.mem_append_left back hl), fun l hl => ?_,
    fun l hl => ?_, ?_⟩
  · refine h.first l ?_
    rw [← hback, List.head?_append, hl]
    rfl
  · have hne : popBlankLines s.kept ≠ [] := fun hnil => by
      rw [hnil] at hl
      cases hl
    have hfilled := List.rdropWhile_last_not List.isEmpty s.kept hne
    rw [List.getLast?_eq_some_getLast hne] at hl
    rw [← Option.some.inj hl]
    exact Bool.eq_false_iff.mpr hfilled
  · have hsingle := h.single
    rw [← hback] at hsingle
    exact (List.isChain_append.mp hsingle).1

theorem cleanLines_clean (ls : List (List Char)) : CleanLines (cleanLines ls) :=
  popBlankLines_clean (foldl_cleanLine_kept kept_start ls)

theorem cleanLines_words (ls : List (List Char)) :
    (cleanLines ls).flatMap (words isWhitespace) = ls.flatMap (words isWhitespace) := by
  rw [cleanLines, popBlankLines_words, foldl_cleanLine_words]
  rfl

theorem CleanLines.lines {ls : List (List Char)} (h : CleanLines ls) :
    lines (['\n'].intercalate ls) = ls := by
  refine lines_intercalate (fun l hl => ?_) (fun l hl => ?_) fun hlast => ?_
  · exact (h.normal l hl).not_mem isWhitespace_newline (by decide)
  · exact (h.normal l hl).getLast_solid (by decide)
  · have hfilled := h.tidy.last [] hlast
    cases hfilled

/-- Clean lines pass through the loop unchanged. -/
theorem foldl_cleanLine_clean {s : CleanState} (hs : Kept s) {ls : List (List Char)}
    (hnormal : ∀ l ∈ ls, Normal l)
    (hfirst : ∀ l, (s.kept ++ ls).head? = some l → l.isEmpty = false)
    (hsingle : (s.kept ++ ls).IsChain fun a b => ¬(a.isEmpty = true ∧ b.isEmpty = true)) :
    (ls.foldl cleanLine s).kept = s.kept ++ ls := by
  induction ls generalizing s with
  | nil => exact (List.append_nil _).symm
  | cons line ls ih =>
    have hline := hnormal line List.mem_cons_self
    have hpush : line.isEmpty = true → s.lastWasBlank = false ∧ s.kept ≠ [] := by
      intro hempty
      refine ⟨?_, fun hnil => ?_⟩
      · by_contra hflag
        rw [Bool.not_eq_false] at hflag
        have hadjacent := (List.isChain_append.mp hsingle).2.2 [] (hs.flag.mp hflag) line rfl
        exact hadjacent ⟨rfl, hempty⟩
      · rw [hnil] at hfirst
        have hfilled := hfirst line rfl
        rw [hempty] at hfilled
        cases hfilled
    have hstep : cleanLine s line = ⟨s.kept ++ [line], line.isEmpty⟩ := by
      unfold cleanLine
      dsimp only
      rw [hline]
      by_cases hempty : line.isEmpty = true
      · obtain ⟨hflag, hne⟩ := hpush hempty
        rw [if_pos hempty, hflag, List.isEmpty_iff.mp hempty, if_pos (by simpa using hne)]
        rfl
      · rw [if_neg hempty, Bool.not_eq_true] at *
        rw [hempty]
    have hsplit : s.kept ++ line :: ls = s.kept ++ [line] ++ ls := by
      rw [List.append_assoc, List.singleton_append]
    rw [List.foldl_cons, hstep, hsplit]
    rw [hsplit] at hfirst hsingle
    exact ih (hs.push hline hpush) (fun l hl => hnormal l (List.mem_cons_of_mem line hl)) hfirst
      hsingle

theorem cleanLines_of_clean {ls : List (List Char)} (h : CleanLines ls) : cleanLines ls = ls := by
  have hkept := foldl_cleanLine_clean kept_start h.normal (by exact h.tidy.first) h.tidy.single
  rw [cleanLines, hkept, List.nil_append, popBlankLines, List.rdropWhile_eq_self_iff]
  intro hne
  rw [h.tidy.last _ (List.getLast?_eq_some_getLast hne)]
  exact Bool.false_ne_true

end Clean

section Text

def blankLine (line : List Char) : Bool := line.all isWhitespace

theorem Normal.blankLine_eq {line : List Char} (h : Normal line) :
    blankLine line = line.isEmpty := by
  cases line with
  | nil => rfl
  | cons c line =>
    have hfirst := h.tidy.first c rfl
    rw [blankLine, List.all_cons, hfirst]
    rfl

/-- The lines make up the text; no blank line stands at an end of it or next to another one, and no
blank at an end of a line or next to another one. -/
structure CleanText (text : List Char) : Prop where
  joined : text = ['\n'].intercalate (lines text)
  lines : Tidy blankLine (lines text)
  inner : ∀ l ∈ Words.lines text, Tidy isWhitespace l

theorem CleanLines.text {ls : List (List Char)} (h : CleanLines ls) :
    CleanText (['\n'].intercalate ls) := by
  have hlines := h.lines
  have hblank : ∀ l ∈ ls, blankLine l = l.isEmpty := fun l hl => (h.normal l hl).blankLine_eq
  refine ⟨by rw [hlines], ?_, fun l hl => ?_⟩
  · rw [hlines]
    refine ⟨fun l hl => ?_, fun l hl => ?_, ?_⟩
    · rw [hblank l (List.mem_of_head? hl)]
      exact h.tidy.first l hl
    · rw [hblank l (List.mem_of_getLast? hl)]
      exact h.tidy.last l hl
    · refine h.tidy.single.imp_of_mem_imp fun a b ha hb hnot => ?_
      rw [hblank a ha, hblank b hb]
      exact hnot
  · rw [hlines] at hl
    exact (h.normal l hl).tidy

/-- The cleaning keeps the words, is done after one pass, and leaves no blank and no blank line more
than it takes to separate. -/
theorem cleanExtractedText_clean (text : List Char) :
    words isWhitespace (cleanExtractedText text) = words isWhitespace text ∧
      cleanExtractedText (cleanExtractedText text) = cleanExtractedText text ∧
      CleanText (cleanExtractedText text) := by
  have hclean := cleanLines_clean (lines text)
  refine ⟨?_, ?_, hclean.text⟩
  · rw [cleanExtractedText, words_intercalate isWhitespace_newline, cleanLines_words,
      words_lines isWhitespace_newline (by decide)]
  · unfold cleanExtractedText
    rw [hclean.lines, cleanLines_of_clean hclean]

example : cleanExtractedText "  Published   as\t a  \r\n\r\n conference   paper  ".toList =
    "Published as a\n\nconference paper".toList := by decide +kernel

end Text

end GmragApi.Pdf

import GmragApi.Erasure
import GmragApi.Uuid
import Mathlib.Data.List.Nodup

/-! Citation markers in the text of an answer: how they are found, resolved and removed. -/

namespace GmragApi.Citations

def opening : Char := '['

def closing : Char := ']'

def chunkPrefix : List Char := ['c', 'h', 'u', 'n', 'k', ':']

/-- `[chunk:…]`. -/
def marker (value : List Char) : List Char := opening :: (chunkPrefix ++ value) ++ [closing]

/-- A text as a regular expression for markers goes over it. -/
inductive Piece
  | letter (c : Char)
  | marked (value : List Char)
  deriving DecidableEq

/-- The value of a marker at the head of the text. -/
def markedHere (isValue : List Char → Bool) (s : List Char) : Option (List Char) :=
  let value := (s.drop (chunkPrefix.length + 1)).takeWhile (· != closing)
  if (marker value).isPrefixOf s && isValue value then some value else none

/-- The matches from left to right, none within another; the first `skip` characters are the rest
of one. -/
def pieces (isValue : List Char → Bool) : Nat → List Char → List Piece
  | _, [] => []
  | skip + 1, _ :: s => pieces isValue skip s
  | 0, c :: s =>
    match markedHere isValue (c :: s) with
    | some value => .marked value :: pieces isValue ((marker value).length - 1) s
    | none => .letter c :: pieces isValue 0 s

/-- `\d` of the regular expressions. -/
structure DigitClass where
  isDigit : Char → Bool
  ascii : ∀ c, c.toNat < 128 → isDigit c = c.isDigit

/-- `\d+`. -/
def isIndex (digits : DigitClass) (value : List Char) : Bool :=
  !value.isEmpty && value.all digits.isDigit

/-- `[0-9a-fA-F\-]{36}`. -/
def isUuidValue (value : List Char) : Bool :=
  value.length == 36 && value.all fun c => (hexDigit c).isSome || c == '-'

def usizeLimit : Nat := 2 ^ 64

/-- `str::parse::<usize>` of a text of digits. -/
def parseUsize (s : List Char) : Option Nat :=
  if !s.isEmpty && s.all Char.isDigit then
    if Nat.ofDigitChars 10 s 0 < usizeLimit then some (Nat.ofDigitChars 10 s 0) else none
  else none

/-- A vector has a `usize` of elements. -/
structure ChunkIds where
  ids : List Uuid
  length_lt : ids.length < usizeLimit

/-- `seen.insert`, with the new ones in order. -/
def insertNew (seen : List Uuid) (id : Uuid) : List Uuid := if id ∈ seen then seen else seen ++ [id]

def extractChunkCitations (text : List Char) : List Uuid :=
  ((pieces isUuidValue 0 text).filterMap fun
    | .marked value => Uuid.parseStr value
    | .letter _ => none).foldl insertNew []

/-- The chunk that an index marker stands for. -/
def chunkOfIndex (chunkIds : ChunkIds) (value : List Char) : Option Uuid :=
  (parseUsize value).bind fun index =>
    if index = 0 ∨ chunkIds.ids.length < index then none else chunkIds.ids[index - 1]?

def Piece.resolve (chunkIds : ChunkIds) : Piece → List Char
  | letter c => [c]
  | marked value =>
    match chunkOfIndex chunkIds value with
    | some id => marker id.display
    | none => marker value

def resolveChunkIndexCitations (digits : DigitClass) (text : List Char) (chunkIds : ChunkIds) :
    List Char × List Uuid :=
  let found := pieces (isIndex digits) 0 text
  let resolved := found.flatMap (Piece.resolve chunkIds)
  let citations := (found.filterMap fun
    | .marked value => chunkOfIndex chunkIds value
    | .letter _ => none).foldl insertNew []
  (resolved, (extractChunkCitations resolved).foldl insertNew citations)

/-- `replace` with an empty text takes the markers of one citation out. -/
def filterCitationsForAllowedIds (assistantText : List Char) (citations allowed : List Uuid) :
    List Char × List Uuid :=
  (citations.foldl (fun sanitized citation =>
      if citation ∈ allowed then sanitized
      else Erasure.erase (marker citation.display) 0 sanitized)
    assistantText,
    citations.foldl (fun visible citation =>
      if citation ∈ allowed then insertNew visible citation else visible) [])

section Pieces

variable {isValue : List Char → Bool} {value : List Char}

/-- The values that the expression finds have no bracket. -/
def PlainValues (isValue : List Char → Bool) : Prop :=
  ∀ value, isValue value = true → Erasure.Plain opening closing value

theorem plainValues_isIndex (digits : DigitClass) : PlainValues (isIndex digits) := by
  intro value hvalue
  have hall := List.all_eq_true.mp (Bool.and_eq_true_iff.mp hvalue).2
  have hbracket : ∀ c : Char, c.toNat < 128 → c.isDigit = false → c ∉ value := by
    intro c hascii hdigit hmem
    have hyes := hall c hmem
    rw [digits.ascii c hascii, hdigit] at hyes
    cases hyes
  exact ⟨hbracket opening (by decide) (by decide), hbracket closing (by decide) (by decide)⟩

theorem plain_chunkPrefix_append (h : Erasure.Plain opening closing value) :
    Erasure.Plain opening closing (chunkPrefix ++ value) := by
  have hpre : Erasure.Plain opening closing chunkPrefix := by
    constructor <;> decide
  simp only [Erasure.Plain, List.mem_append, not_or] at h hpre ⊢
  exact ⟨⟨hpre.1, h.1⟩, hpre.2, h.2⟩

theorem markedHere_eq_some_iff (hplain : PlainValues isValue) {s : List Char} :
    markedHere isValue s = some value ↔ isValue value = true ∧ marker value <+: s := by
  constructor
  · intro h
    obtain ⟨hif, heq⟩ := Option.ite_none_right_eq_some.mp h
    rw [Option.some.inj heq, Bool.and_eq_true, List.isPrefixOf_iff_prefix] at hif
    exact ⟨hif.2, hif.1⟩
  · rintro ⟨hvalue, r, rfl⟩
    have htake : ((marker value ++ r).drop (chunkPrefix.length + 1)).takeWhile (· != closing) =
        value := by
      have hdrop : (marker value ++ r).drop (chunkPrefix.length + 1) = value ++ closing :: r := by
        simp [marker]
      rw [hdrop, List.takeWhile_append_of_pos]
      · simp
      · intro c hc
        have hne : c ≠ closing := fun heq => (hplain value hvalue).2 (heq ▸ hc)
        simpa using hne
    simp only [markedHere]
    rw [htake, if_pos]
    simp [hvalue, List.isPrefixOf_iff_prefix]

theorem pieces_skip (front s : List Char) :
    pieces isValue front.length (front ++ s) = pieces isValue 0 s := by
  induction front with
  | nil => rfl
  | cons c front ih => exact ih

theorem pieces_marker (hplain : PlainValues isValue) (hvalue : isValue value = true)
    (s : List Char) :
    pieces isValue 0 (marker value ++ s) = .marked value :: pieces isValue 0 s := by
  have hhere : markedHere isValue (opening :: (chunkPrefix ++ value ++ [closing] ++ s)) =
      some value := (markedHere_eq_some_iff hplain).mpr ⟨hvalue, s, by simp [marker]⟩
  have hskip : pieces isValue ((marker value).length - 1) (chunkPrefix ++ value ++ [closing] ++ s) =
      pieces isValue 0 s := pieces_skip (chunkPrefix ++ value ++ [closing]) s
  have hcons : marker value ++ s = opening :: (chunkPrefix ++ value ++ [closing] ++ s) := by
    simp [marker]
  rw [hcons]
  simp only [pieces, hhere, hskip]

/-- No match goes over an opening bracket. -/
theorem pieces_append_opening (hplain : PlainValues isValue) {skip : Nat} (s t : List Char)
    (hskip : skip ≤ s.length) :
    pieces isValue skip (s ++ opening :: t) =
      pieces isValue skip s ++ pieces isValue 0 (opening :: t) := by
  induction s generalizing skip with
  | nil =>
    obtain rfl := Nat.le_zero.mp hskip
    rfl
  | cons c s ih =>
    cases skip with
    | succ skip => exact ih (Nat.le_of_succ_le_succ hskip)
    | zero =>
      have hhere : markedHere isValue (c :: (s ++ opening :: t)) = markedHere isValue (c :: s) := by
        refine Option.ext fun value => ?_
        rw [markedHere_eq_some_iff hplain, markedHere_eq_some_iff hplain]
        refine and_congr_right fun hvalue => ?_
        have htail : opening ∉ chunkPrefix ++ value ++ [closing] := by
          have hopen := (plain_chunkPrefix_append (hplain value hvalue)).1
          simpa [opening, closing] using hopen
        simp only [marker, List.cons_append, List.cons_prefix_cons,
          Erasure.prefix_append_opening htail]
      cases hmatch : markedHere isValue (c :: s) with
      | none =>
        rw [hmatch] at hhere
        simp only [List.cons_append, pieces, hhere, hmatch, ih (Nat.zero_le _)]
      | some value =>
        have hlength := ((markedHere_eq_some_iff hplain).mp hmatch).2.length_le
        have hrest : (marker value).length - 1 ≤ s.length := by
          simp only [List.length_cons] at hlength
          omega
        rw [hmatch] at hhere
        simp only [List.cons_append, pieces, hhere, hmatch, ih hrest]

/-- The expression finds every marker of the text. -/
theorem marked_mem_pieces_iff (hplain : PlainValues isValue) {s : List Char} :
    .marked value ∈ pieces isValue 0 s ↔
      isValue value = true ∧ ∃ left right, s = left ++ (marker value ++ right) := by
  constructor
  · generalize 0 = skip
    induction s generalizing skip with
    | nil => exact fun h => absurd h List.not_mem_nil
    | cons c s ih =>
      have hlater : ∀ skip, .marked value ∈ pieces isValue skip s → isValue value = true ∧
          ∃ left right, c :: s = left ++ (marker value ++ right) := by
        intro skip h
        obtain ⟨hvalue, left, right, rfl⟩ := ih skip h
        exact ⟨hvalue, c :: left, right, rfl⟩
      intro h
      cases skip with
      | succ skip => exact hlater skip h
      | zero =>
        cases hmatch : markedHere isValue (c :: s) with
        | none =>
          simp only [pieces, hmatch] at h
          rcases List.mem_cons.mp h with h | h
          · cases h
          · exact hlater 0 h
        | some found =>
          simp only [pieces, hmatch] at h
          rcases List.mem_cons.mp h with h | h
          · cases h
            obtain ⟨hvalue, r, hr⟩ := (markedHere_eq_some_iff hplain).mp hmatch
            exact ⟨hvalue, [], r, hr.symm⟩
          · exact hlater _ h
  · rintro ⟨hvalue, left, right, rfl⟩
    have hcons :
        marker value ++ right = opening :: (chunkPrefix ++ value ++ [closing] ++ right) := by
      simp [marker]
    have hmarker := pieces_marker hplain hvalue right
    rw [hcons] at hmarker ⊢
    rw [pieces_append_opening hplain _ _ (Nat.zero_le _), hmarker]
    exact List.mem_append_right _ List.mem_cons_self

end Pieces

end GmragApi.Citations

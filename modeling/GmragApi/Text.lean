import Mathlib.Data.List.Infix
import Mathlib.Data.List.DropRight
import Mathlib.Data.List.TakeWhile

namespace GmragApi

/-- The code points with the Unicode `White_Space` property, which `str::trim` strips. -/
def isWhitespace (c : Char) : Bool :=
  let n := c.toNat
  (0x09 ≤ n && n ≤ 0x0D) || n == 0x20 || n == 0x85 || n == 0xA0 || n == 0x1680 ||
    (0x2000 ≤ n && n ≤ 0x200A) || n == 0x2028 || n == 0x2029 || n == 0x202F || n == 0x205F ||
    n == 0x3000

theorem isWhitespace_of_printable {c : Char} (h : 0x20 < c.toNat ∧ c.toNat < 0x7F) :
    isWhitespace c = false := by
  simp [isWhitespace]
  omega

def trim (s : List Char) : List Char :=
  ((s.dropWhile isWhitespace).reverse.dropWhile isWhitespace).reverse

/-- A text that begins with no blank has only such texts at its front. -/
theorem dropWhile_of_front {p : Char → Bool} {s t : List Char} (hs : s.dropWhile p = s)
    (ht : t <+: s) : t.dropWhile p = t := by
  obtain ⟨rest, rfl⟩ := ht
  refine List.dropWhile_eq_self_iff.mpr (fun hl => ?_)
  have hfirst := List.dropWhile_eq_self_iff.mp hs (by simp only [List.length_append]; omega)
  rwa [List.getElem_append_left hl] at hfirst

theorem trim_front (s : List Char) : (trim s).dropWhile isWhitespace = trim s := by
  have hfront : trim s <+: s.dropWhile isWhitespace := by
    rw [trim, ← List.reverse_suffix, List.reverse_reverse]
    exact List.dropWhile_suffix isWhitespace
  exact dropWhile_of_front (List.dropWhile_idempotent _ s) hfront

theorem trim_back (s : List Char) : (trim s).reverse.dropWhile isWhitespace = (trim s).reverse := by
  rw [trim, List.reverse_reverse]
  exact List.dropWhile_idempotent _ _

theorem trim_trim (s : List Char) : trim (trim s) = trim s := by
  calc trim (trim s)
      = (((trim s).dropWhile isWhitespace).reverse.dropWhile isWhitespace).reverse := rfl
    _ = trim s := by rw [trim_front, trim_back, List.reverse_reverse]

def Blank (s : List Char) : Prop := ∀ c ∈ s, isWhitespace c = true

/-- A text is what `trim` leaves of it between blanks. -/
theorem trim_parts (s : List Char) :
    ∃ front back, s = front ++ trim s ++ back ∧ Blank front ∧ Blank back := by
  refine ⟨s.takeWhile isWhitespace,
    ((s.dropWhile isWhitespace).reverse.takeWhile isWhitespace).reverse, ?_, ?_, ?_⟩
  · rw [List.append_assoc, trim, ← List.reverse_append, List.takeWhile_append_dropWhile,
      List.reverse_reverse, List.takeWhile_append_dropWhile]
  · exact fun c hc => List.mem_takeWhile_imp hc
  · exact fun c hc => List.mem_takeWhile_imp (List.mem_reverse.mp hc)

/-- Blanks go from the front only up to a text that does not begin with one. -/
theorem dropWhile_between {p : Char → Bool} {core : List Char} (hne : core ≠ [])
    (hcore : core.dropWhile p = core) (before after : List Char) :
    (before ++ core ++ after).dropWhile p = before.dropWhile p ++ core ++ after := by
  rw [List.append_assoc, List.dropWhile_append]
  split
  next hempty =>
    rw [List.isEmpty_iff.mp hempty, List.dropWhile_append, hcore, if_neg (by simpa using hne)]
    rfl
  next => rw [List.append_assoc]

theorem trim_between {core : List Char} (hne : core ≠ [])
    (hhead : core.dropWhile isWhitespace = core)
    (hlast : core.reverse.dropWhile isWhitespace = core.reverse) (before after : List Char) :
    trim (before ++ core ++ after) = before.dropWhile isWhitespace ++ core ++
      (after.reverse.dropWhile isWhitespace).reverse := by
  have hreverse : (before.dropWhile isWhitespace ++ core ++ after).reverse =
      after.reverse ++ core.reverse ++ (before.dropWhile isWhitespace).reverse := by
    simp only [List.reverse_append, List.append_assoc]
  rw [trim, dropWhile_between hne hhead, hreverse,
    dropWhile_between (mt List.reverse_eq_nil_iff.mp hne) hlast]
  simp only [List.reverse_append, List.reverse_reverse, List.append_assoc]

theorem trim_of_parts {front core back : List Char} (hfront : Blank front) (hback : Blank back)
    (hcore : core ≠ []) (hhead : core.dropWhile isWhitespace = core)
    (hlast : core.reverse.dropWhile isWhitespace = core.reverse) :
    trim (front ++ core ++ back) = core := by
  have hstart : front.dropWhile isWhitespace = [] := List.dropWhile_eq_nil_iff.mpr hfront
  have hend : back.reverse.dropWhile isWhitespace = [] :=
    List.dropWhile_eq_nil_iff.mpr fun c hc => hback c (List.mem_reverse.mp hc)
  rw [trim_between hcore hhead hlast, hstart, hend, List.nil_append, List.reverse_nil,
    List.append_nil]

/-- What is trimmed from a part of a text is not less than what is trimmed from the whole. -/
theorem trim_infix {part s : List Char} (h : part <:+: s) : trim part <:+: trim s := by
  by_cases hnil : trim part = []
  · rw [hnil]
    exact List.nil_infix
  · obtain ⟨before, after, rfl⟩ := h
    obtain ⟨front, back, hpart, -, -⟩ := trim_parts part
    have hsplit : before ++ part ++ after = before ++ front ++ trim part ++ (back ++ after) := by
      conv_lhs => rw [hpart]
      simp only [List.append_assoc]
    rw [hsplit, trim_between hnil (trim_front part) (trim_back part)]
    exact ⟨_, _, rfl⟩

theorem blank_append {a b : List Char} : Blank (a ++ b) ↔ Blank a ∧ Blank b := by
  simp only [Blank, List.mem_append, or_imp, forall_and]

theorem trim_eq_nil_iff {s : List Char} : trim s = [] ↔ Blank s := by
  refine ⟨fun h => ?_, fun h => ?_⟩
  · obtain ⟨front, back, hs, hfront, hback⟩ := trim_parts s
    rw [h, List.append_nil] at hs
    rw [hs]
    exact blank_append.mpr ⟨hfront, hback⟩
  · have hdrop : s.dropWhile isWhitespace = [] := List.dropWhile_eq_nil_iff.mpr h
    rw [trim, hdrop]
    rfl

theorem trim_of_plain {s : List Char} (h : ∀ c ∈ s, isWhitespace c = false) : trim s = s := by
  obtain ⟨front, back, hs, hfront, hback⟩ := trim_parts s
  have none : ∀ t : List Char, Blank t → (∀ c ∈ t, c ∈ s) → t = [] := by
    intro t ht hts
    refine List.eq_nil_iff_forall_not_mem.mpr fun c hc => ?_
    have := h c (hts c hc)
    rw [ht c hc] at this
    cases this
  have hf := none front hfront fun c hc => by rw [hs]; simp [hc]
  have hb := none back hback fun c hc => by rw [hs]; simp [hc]
  rw [hf, hb, List.nil_append, List.append_nil] at hs
  exact hs.symm

/-- Texts are looked up in a list by comparing them. -/
instance decidableTextMem (text : List Char) (texts : List (List Char)) :
    Decidable (text ∈ texts) :=
  List.instDecidableMemOfLawfulBEq text texts

def toAsciiLowercase (s : List Char) : List Char := s.map Char.toLower

/-- `hay.contains(needle)`. -/
def containsText (hay needle : List Char) : Bool := decide (needle <:+: hay)

end GmragApi

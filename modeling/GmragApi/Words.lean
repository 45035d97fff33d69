import Mathlib.Data.List.Infix
import Mathlib.Data.List.DropRight
import Mathlib.Data.List.Chain

/-! Texts as words between separators, and as lines: what joining and splitting them keeps. -/

namespace Words

variable {α : Type} {sep : α → Bool}

/-- The runs of elements between the separators that are not empty. -/
def words (sep : α → Bool) (s : List α) : List (List α) :=
  (s.splitOnP sep).filter fun w => !w.isEmpty

def Plain (sep : α → Bool) (w : List α) : Prop := w ≠ [] ∧ ∀ c ∈ w, sep c = false

/-- No separator stands at an end or next to another one. -/
structure Tidy (sep : α → Bool) (s : List α) : Prop where
  first : ∀ c, s.head? = some c → sep c = false
  last : ∀ c, s.getLast? = some c → sep c = false
  single : s.IsChain fun a b => ¬(sep a = true ∧ sep b = true)

section Split

@[simp] theorem words_nil : words sep [] = [] := rfl

theorem words_append_cons {c : α} (hc : sep c = true) (a b : List α) :
    words sep (a ++ c :: b) = words sep a ++ words sep b := by
  rw [words, List.splitOnP_append_cons a b hc, List.filter_append]
  rfl

theorem words_cons {c : α} (hc : sep c = true) (s : List α) : words sep (c :: s) = words sep s := by
  have happend := words_append_cons hc [] s
  simpa using happend

theorem words_of_plain {w : List α} (h : Plain sep w) : words sep w = [w] := by
  rw [words, List.splitOnP_eq_singleton h.2, List.filter_eq_self]
  intro v hv
  rw [List.mem_singleton.mp hv]
  simpa using h.1

theorem words_of_separators {s : List α} (h : ∀ c ∈ s, sep c = true) : words sep s = [] := by
  induction s with
  | nil => rfl
  | cons c s ih =>
    rw [words_cons (h c List.mem_cons_self)]
    exact ih fun d hd => h d (List.mem_cons_of_mem c hd)

theorem words_append_separators {s : List α} (h : ∀ c ∈ s, sep c = true) (a : List α) :
    words sep (a ++ s) = words sep a := by
  cases s with
  | nil => rw [List.append_nil]
  | cons c s =>
    rw [words_append_cons (h c List.mem_cons_self),
      words_of_separators fun d hd => h d (List.mem_cons_of_mem c hd), List.append_nil]

theorem not_sep_of_mem_splitOnP {s w : List α} (hw : w ∈ s.splitOnP sep) :
    ∀ c ∈ w, sep c = false := by
  induction s generalizing w with
  | nil =>
    rw [List.splitOnP_nil, List.mem_singleton] at hw
    rw [hw]
    exact fun _ hc => absurd hc List.not_mem_nil
  | cons d s ih =>
    rw [List.splitOnP_cons_eq_if_modifyHead] at hw
    split at hw
    next =>
      rcases List.mem_cons.mp hw with rfl | hw
      · exact fun _ hc => absurd hc List.not_mem_nil
      · exact ih hw
    next hd =>
      obtain ⟨first, rest, hsplit⟩ := List.exists_cons_of_ne_nil (List.splitOnP_ne_nil sep s)
      rw [hsplit, List.modifyHead_cons] at hw
      rw [hsplit] at ih
      rcases List.mem_cons.mp hw with rfl | hw
      · intro c hc
        rcases List.mem_cons.mp hc with rfl | hc
        · simpa using hd
        · exact ih List.mem_cons_self c hc
      · exact ih (List.mem_cons_of_mem first hw)

theorem plain_of_mem_words {s w : List α} (hw : w ∈ words sep s) : Plain sep w := by
  obtain ⟨hsplit, hne⟩ := List.mem_filter.mp hw
  exact ⟨by simpa using hne, not_sep_of_mem_splitOnP hsplit⟩

end Split

section Join

/-- The words of a joined list of texts are those of the texts. -/
theorem words_intercalate {c : α} (hc : sep c = true) (ls : List (List α)) :
    words sep ([c].intercalate ls) = ls.flatMap (words sep) := by
  induction ls with
  | nil => rfl
  | cons l ls ih =>
    cases ls with
    | nil => rw [List.intercalate_singleton, List.flatMap_singleton]
    | cons l' ls =>
      rw [List.intercalate_cons_cons, List.append_assoc, List.singleton_append,
        words_append_cons hc, ih]
      rfl

theorem words_intercalate_plain {c : α} (hc : sep c = true) {ws : List (List α)}
    (h : ∀ w ∈ ws, Plain sep w) : words sep ([c].intercalate ws) = ws := by
  rw [words_intercalate hc]
  induction ws with
  | nil => rfl
  | cons w ws ih =>
    rw [List.flatMap_cons, words_of_plain (h w List.mem_cons_self),
      ih fun v hv => h v (List.mem_cons_of_mem w hv), List.singleton_append]

theorem Plain.isChain {w : List α} (h : Plain sep w) :
    w.IsChain fun a b => ¬(sep a = true ∧ sep b = true) := by
  refine List.Pairwise.isChain (List.pairwise_of_forall_mem_list fun a ha b _ hboth => ?_)
  rw [h.2 a ha] at hboth
  cases hboth.1

theorem Plain.first {w : List α} (h : Plain sep w) {c : α} (hc : w.head? = some c) :
    sep c = false :=
  h.2 c (List.mem_of_head? hc)

theorem Plain.last {w : List α} (h : Plain sep w) {c : α} (hc : w.getLast? = some c) :
    sep c = false :=
  h.2 c (List.mem_of_getLast? hc)

/-- A word and one separator in front of a tidy text that is not empty. -/
theorem Tidy.cons_word {w s : List α} (hw : Plain sep w) (c : α) (hs : Tidy sep s) (hne : s ≠ []) :
    Tidy sep (w ++ [c] ++ s) := by
  obtain ⟨d, rest, rfl⟩ := List.exists_cons_of_ne_nil hne
  obtain ⟨e, rest', rfl⟩ := List.exists_cons_of_ne_nil hw.1
  refine ⟨fun x hx => hw.2 x ?_, fun x hx => hs.last x ?_, ?_⟩
  · simp only [List.cons_append, List.head?_cons, Option.some.injEq] at hx
    rw [← hx]
    exact List.mem_cons_self
  · rw [List.getLast?_append_of_ne_nil _ (List.cons_ne_nil d rest)] at hx
    exact hx
  · rw [List.append_assoc, List.isChain_append]
    refine ⟨hw.isChain, ?_, fun x hx y _ hboth => ?_⟩
    · rw [List.singleton_append, List.isChain_cons_cons]
      refine ⟨fun hboth => ?_, hs.single⟩
      rw [hs.first d rfl] at hboth
      cases hboth.2
    · rw [hw.last hx] at hboth
      cases hboth.1

/-- Words joined by one separator each. -/
theorem tidy_intercalate (c : α) {ws : List (List α)} (h : ∀ w ∈ ws, Plain sep w) :
    Tidy sep ([c].intercalate ws) := by
  induction ws with
  | nil =>
    exact ⟨fun _ hx => (by cases hx), fun _ hx => (by cases hx), List.IsChain.nil⟩
  | cons w ws ih =>
    have hw := h w List.mem_cons_self
    cases ws with
    | nil =>
      rw [List.intercalate_singleton]
      exact ⟨fun _ => hw.first, fun _ => hw.last, hw.isChain⟩
    | cons w' ws =>
      have hrest := ih fun v hv => h v (List.mem_cons_of_mem w hv)
      have hw' := h w' (List.mem_cons_of_mem w List.mem_cons_self)
      rw [List.intercalate_cons_cons]
      refine hrest.cons_word hw c ?_
      obtain ⟨e, rest, rfl⟩ := List.exists_cons_of_ne_nil hw'.1
      rw [List.intercalate_cons_cons_left]
      exact List.cons_ne_nil _ _

end Join

section Lines

def stripCarriageReturn (l : List Char) : List Char :=
  if l.getLast? = some '\r' then l.dropLast else l

/-- `str::lines`: a line ends in a newline or in a carriage return and a newline; behind the last
newline there is a line only if anything stands there. -/
def lines (s : List Char) : List (List Char) :=
  let pieces := s.splitOn '\n'
  pieces.dropLast.map stripCarriageReturn ++ pieces.getLast?.toList.filter fun l => !l.isEmpty

theorem words_stripCarriageReturn {sep : Char → Bool} (hreturn : sep '\r' = true) (l : List Char) :
    words sep (stripCarriageReturn l) = words sep l := by
  unfold stripCarriageReturn
  split
  next h =>
    obtain ⟨front, hl⟩ := List.getLast?_eq_some_iff.mp h
    have hcut : ∀ c ∈ ['\r'], sep c = true := fun c hc => by rwa [List.mem_singleton.mp hc]
    rw [hl, List.dropLast_concat, words_append_separators hcut]
  next => rfl

/-- The words of a text are those of its lines. -/
theorem words_lines {sep : Char → Bool} (hnewline : sep '\n' = true) (hreturn : sep '\r' = true)
    (s : List Char) : (lines s).flatMap (words sep) = words sep s := by
  have hne := List.splitOn_ne_nil '\n' s
  have hstrip : ∀ ls : List (List Char),
      (ls.map stripCarriageReturn).flatMap (words sep) = ls.flatMap (words sep) := fun ls => by
    rw [List.flatMap_map]
    exact List.flatMap_congr fun l _ => words_stripCarriageReturn hreturn l
  have hlast : ∀ l : List Char,
      ([l].filter fun l => !l.isEmpty).flatMap (words sep) = words sep l := by
    intro l
    cases l with
    | nil => rfl
    | cons c l => exact List.flatMap_singleton ..
  calc (lines s).flatMap (words sep)
      = ((s.splitOn '\n').dropLast ++ [(s.splitOn '\n').getLast hne]).flatMap (words sep) := by
        rw [lines, List.flatMap_append, hstrip, List.getLast?_eq_some_getLast hne, Option.toList_some,
          hlast, List.flatMap_append, List.flatMap_singleton]
    _ = words sep (['\n'].intercalate (s.splitOn '\n')) := by
        rw [List.dropLast_append_getLast, words_intercalate hnewline]
    _ = words sep s := by rw [List.intercalate_splitOn]

/-- Joined lines are split again, if none of them breaks and the last one is not empty. -/
theorem lines_intercalate {ls : List (List Char)} (hnewline : ∀ l ∈ ls, '\n' ∉ l)
    (hreturn : ∀ l ∈ ls, l.getLast? ≠ some '\r') (hlast : ls.getLast? ≠ some []) :
    lines (['\n'].intercalate ls) = ls := by
  by_cases hnil : ls = []
  · rw [hnil]
    rfl
  · have hkept : ∀ l ∈ ls.dropLast, stripCarriageReturn l = l := fun l hl =>
      if_neg (hreturn l (List.mem_of_mem_dropLast hl))
    have hfilled : (!(ls.getLast hnil).isEmpty) = true := by
      rw [List.getLast?_eq_some_getLast hnil] at hlast
      simpa using hlast
    rw [lines, List.splitOn_intercalate '\n' hnewline hnil, List.map_congr_left hkept,
      List.getLast?_eq_some_getLast hnil]
    simp only [Option.toList_some, List.map_id', List.filter_cons, hfilled, if_true, List.filter_nil,
      List.dropLast_append_getLast]

end Lines

end Words

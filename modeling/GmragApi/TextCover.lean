import Mathlib.Data.List.Infix
import Mathlib.Data.List.DropRight
import Mathlib.Data.List.TakeWhile
import GmragApi.Words

/-! Pieces cut out of a text, with the separators at their ends taken off: what of the text is in
one of them. -/

namespace TextCover

variable {α : Type}

/-- What a text reads from a position on. -/
structure Piece (α : Type) where
  start : Nat
  content : List α

def Piece.stop (p : Piece α) : Nat := p.start + p.content.length

def Piece.In (p : Piece α) (text : List α) : Prop := p.content <+: text.drop p.start

/-- `s` without the separators at its ends. -/
def strip (sep : α → Bool) (s : List α) : List α := (s.dropWhile sep).rdropWhile sep

def Piece.strip (sep : α → Bool) (p : Piece α) : Piece α :=
  ⟨p.start + (p.content.takeWhile sep).length, TextCover.strip sep p.content⟩

/-- The pieces stand in the text in the order of their starts, and no visible character of it is
outside of all of them. -/
structure Covers (sep : α → Bool) (text : List α) (pieces : List (Piece α)) : Prop where
  within : ∀ p ∈ pieces, p.In text
  ordered : pieces.Pairwise fun p q => p.start ≤ q.start
  visible : ∀ i c, text[i]? = some c → sep c = false → ∃ p ∈ pieces, p.start ≤ i ∧ i < p.stop

variable {sep : α → Bool} {text : List α} {p q : Piece α}

theorem Piece.In.getElem? (h : p.In text) {i : Nat} (hstart : p.start ≤ i) (hstop : i < p.stop) :
    text[i]? = p.content[i - p.start]? := by
  obtain ⟨rest, hrest⟩ := h
  have hin : i - p.start < p.content.length := by
    have hlt : i < p.start + p.content.length := hstop
    omega
  have hdrop : (text.drop p.start)[i - p.start]? = text[i]? := by
    rw [List.getElem?_drop]
    congr 1
    omega
  rw [← hdrop, ← hrest, List.getElem?_append_left hin]

/-- What stripping leaves stands between separators. -/
theorem strip_parts (sep : α → Bool) (s : List α) :
    ∃ back, s = s.takeWhile sep ++ strip sep s ++ back ∧ ∀ c ∈ back, sep c = true := by
  refine ⟨(s.dropWhile sep).rtakeWhile sep, ?_, fun c hc => List.mem_rtakeWhile_imp hc⟩
  rw [List.append_assoc, strip, List.rdropWhile_append_rtakeWhile,
    List.takeWhile_append_dropWhile]

/-- The characters of a text that are no separators. -/
def visible (sep : α → Bool) (s : List α) : List α := s.filter fun c => !sep c

@[simp] theorem visible_append (a b : List α) :
    visible sep (a ++ b) = visible sep a ++ visible sep b := List.filter_append _ _

theorem visible_eq_nil_iff {s : List α} : visible sep s = [] ↔ ∀ c ∈ s, sep c = true := by
  rw [visible, List.filter_eq_nil_iff]
  refine forall_congr' fun c => forall_congr' fun _ => ?_
  cases sep c <;> simp

theorem visible_strip (s : List α) : visible sep (strip sep s) = visible sep s := by
  obtain ⟨back, hparts, hback⟩ := strip_parts sep s
  have hfront : visible sep (s.takeWhile sep) = [] :=
    visible_eq_nil_iff.mpr fun c hc => List.mem_takeWhile_imp hc
  conv => rhs; rw [hparts]
  rw [visible_append, visible_append, hfront, visible_eq_nil_iff.mpr hback, List.append_nil,
    List.nil_append]

theorem flatten_splitOnP (s : List α) : (s.splitOnP sep).flatten = visible sep s := by
  induction s with
  | nil => rfl
  | cons c s ih =>
    rw [List.splitOnP_cons_eq_if_modifyHead]
    by_cases hc : sep c = true
    · simp [visible, hc] at ih ⊢
      exact ih
    · obtain ⟨w, ws, hws⟩ := List.exists_cons_of_ne_nil (List.splitOnP_ne_nil sep s)
      rw [hws, List.flatten_cons] at ih
      simp [visible, hc, hws, ih]

/-- The words of a text are made of its visible characters. -/
theorem flatten_words (s : List α) : (Words.words sep s).flatten = visible sep s := by
  rw [Words.words, List.flatten_filter_not_isEmpty, flatten_splitOnP]

theorem visible_intercalate {s : List α} (hs : ∀ c ∈ s, sep c = true) (ls : List (List α)) :
    visible sep (s.intercalate ls) = ls.flatMap (visible sep) := by
  induction ls with
  | nil => rfl
  | cons l ls ih =>
    cases ls with
    | nil => rw [List.intercalate_singleton, List.flatMap_singleton]
    | cons l' ls =>
      rw [List.intercalate_cons_cons, visible_append, visible_append, visible_eq_nil_iff.mpr hs,
        List.append_nil, ih]
      rfl

/-- A stripped piece that is not empty begins with a visible character. -/
theorem strip_first {s : List α} (h : strip sep s ≠ []) :
    ∃ c, (strip sep s)[0]? = some c ∧ sep c = false := by
  have hprefix : strip sep s <+: s.dropWhile sep := List.rdropWhile_prefix sep _
  obtain ⟨c, rest, hc⟩ := List.exists_cons_of_ne_nil h
  obtain ⟨tail, htail⟩ := hprefix
  refine ⟨c, by rw [hc]; rfl, ?_⟩
  have hdrop : s.dropWhile sep = c :: (rest ++ tail) := by
    rw [← htail, hc]
    rfl
  have hhead := List.head?_dropWhile_not sep s
  rw [hdrop] at hhead
  exact hhead

theorem Piece.In.strip (sep : α → Bool) (h : p.In text) : (p.strip sep).In text := by
  obtain ⟨back, hparts, -⟩ := strip_parts sep p.content
  obtain ⟨rest, hrest⟩ := h
  refine ⟨back ++ rest, ?_⟩
  rw [← List.append_assoc]
  have hfront : text.drop p.start =
      p.content.takeWhile sep ++ (TextCover.strip sep p.content ++ back ++ rest) := by
    rw [← hrest]
    conv => lhs; rw [hparts]
    simp only [List.append_assoc]
  show TextCover.strip sep p.content ++ back ++ rest = text.drop (p.start + _)
  rw [← List.drop_drop, hfront, List.drop_left]

/-- Before the start of the stripped piece, the piece has separators only. -/
theorem Piece.In.skipped (sep : α → Bool) (h : p.In text) {i : Nat} (hstart : p.start ≤ i)
    (hi : i < (p.strip sep).start) {c : α} (hc : text[i]? = some c) : sep c = true := by
  have hlead : i - p.start < (p.content.takeWhile sep).length := by
    have hlt : i < p.start + (p.content.takeWhile sep).length := hi
    omega
  have hlength : (p.content.takeWhile sep).length ≤ p.content.length :=
    (List.takeWhile_sublist sep).length_le
  have hstop : i < p.stop := by
    have hlt : i < p.start + (p.content.takeWhile sep).length := hi
    show i < p.start + p.content.length
    omega
  rw [h.getElem? hstart hstop] at hc
  obtain ⟨rest, hrest⟩ := List.takeWhile_prefix sep (l := p.content)
  rw [← hrest, List.getElem?_append_left hlead] at hc
  exact List.mem_takeWhile_imp (List.mem_of_getElem? hc)

/-- Two pieces keep their order when both are stripped. -/
theorem Piece.In.strip_start_le (hp : p.In text) (hq : q.In text) (h : p.start ≤ q.start)
    (hne : TextCover.strip sep q.content ≠ []) : (p.strip sep).start ≤ (q.strip sep).start := by
  by_contra hlt
  obtain ⟨c, hc, hvisible⟩ := strip_first hne
  have hpos : 0 < (TextCover.strip sep q.content).length := List.length_pos_of_ne_nil hne
  have hat : text[(q.strip sep).start]? = some c := by
    rw [(hq.strip sep).getElem? (Nat.le_refl _) (Nat.lt_add_of_pos_right hpos),
      Nat.sub_self]
    exact hc
  have hq' : q.start ≤ (q.strip sep).start := Nat.le_add_right _ _
  have hskipped := hp.skipped sep (Nat.le_trans h hq') (Nat.lt_of_not_le hlt) hat
  rw [hvisible] at hskipped
  cases hskipped

/-- The pieces that are left when each is stripped and the empty ones are dropped. -/
def stripped (sep : α → Bool) (pieces : List (Piece α)) : List (Piece α) :=
  (pieces.map (Piece.strip sep)).filter fun p => !p.content.isEmpty

theorem mem_stripped {pieces : List (Piece α)} : q ∈ stripped sep pieces ↔
    ∃ p ∈ pieces, p.strip sep = q ∧ TextCover.strip sep p.content ≠ [] := by
  rw [stripped, List.mem_filter, List.mem_map]
  constructor
  · rintro ⟨⟨p, hp, rfl⟩, hne⟩
    refine ⟨p, hp, rfl, ?_⟩
    simpa [Piece.strip] using hne
  · rintro ⟨p, hp, rfl, hne⟩
    exact ⟨⟨p, hp, rfl⟩, by simpa [Piece.strip] using hne⟩

theorem Covers.stripped {pieces : List (Piece α)} (h : Covers sep text pieces) :
    Covers sep text (stripped sep pieces) where
  within := by
    intro q hq
    obtain ⟨p, hp, rfl, -⟩ := mem_stripped.mp hq
    exact (h.within p hp).strip sep
  ordered := by
    rw [TextCover.stripped, List.pairwise_filter, List.pairwise_map]
    refine h.ordered.imp_of_mem ?_
    intro p q hp hq hle _ hne
    refine (h.within p hp).strip_start_le (h.within q hq) hle ?_
    simpa [Piece.strip] using hne
  visible := by
    intro i c hc hvisible
    obtain ⟨p, hp, hstart, hstop⟩ := h.visible i c hc hvisible
    obtain ⟨back, hparts, hback⟩ := strip_parts sep p.content
    have hin := h.within p hp
    have hmem := hin.getElem? hstart hstop
    rw [hc] at hmem
    have hfrom : (p.strip sep).start ≤ i := by
      by_contra hlt
      have hskipped := hin.skipped sep hstart (Nat.lt_of_not_le hlt) hc
      rw [hvisible] at hskipped
      cases hskipped
    have hto : i < (p.strip sep).stop := by
      by_contra hge
      have hend : (p.content.takeWhile sep ++ TextCover.strip sep p.content).length ≤
          i - p.start := by
        have hle : p.start + (p.content.takeWhile sep).length +
            (TextCover.strip sep p.content).length ≤ i := Nat.le_of_not_lt hge
        rw [List.length_append]
        omega
      rw [hparts, List.getElem?_append_right hend] at hmem
      have hsep := hback c (List.mem_of_getElem? hmem.symm)
      rw [hvisible] at hsep
      cases hsep
    refine ⟨p.strip sep, mem_stripped.mpr ⟨p, hp, rfl, ?_⟩, hfrom, hto⟩
    intro hnil
    have hempty : (p.strip sep).stop = (p.strip sep).start := by
      show _ + (TextCover.strip sep p.content).length = _
      rw [hnil]
      rfl
    omega

/-- Pieces that cover a text with something visible in it are not none. -/
theorem Covers.ne_nil {pieces : List (Piece α)} (h : Covers sep text pieces)
    (hvisible : ¬∀ c ∈ text, sep c = true) : pieces ≠ [] := by
  intro hnil
  apply hvisible
  intro c hc
  by_contra hsep
  obtain ⟨i, hi⟩ := List.mem_iff_getElem?.mp hc
  obtain ⟨p, hp, -⟩ := h.visible i c hi (Bool.eq_false_iff.mpr hsep)
  rw [hnil] at hp
  cases hp

end TextCover

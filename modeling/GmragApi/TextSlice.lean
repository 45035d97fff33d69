import Mathlib.Data.List.Infix
import Mathlib.Tactic.Common

/-! Texts cut at byte offsets: a slice exists when both offsets stand between characters. -/

namespace TextSlice

/-- The bytes that the characters take in UTF-8. -/
def size : List Char → ℕ
  | [] => 0
  | c :: cs => c.utf8Size + size cs

def skip : ℕ → List Char → Option (List Char)
  | 0, cs => some cs
  | _ + 1, [] => none
  | n + 1, c :: cs => if c.utf8Size ≤ n + 1 then skip (n + 1 - c.utf8Size) cs else none

def front : ℕ → List Char → Option (List Char)
  | 0, _ => some []
  | _ + 1, [] => none
  | n + 1, c :: cs =>
    if c.utf8Size ≤ n + 1 then (front (n + 1 - c.utf8Size) cs).map (c :: ·) else none

/-- `text[start..stop]`, and nothing where the program would panic. -/
def slice (text : List Char) (start stop : ℕ) : Option (List Char) :=
  if start ≤ stop then (skip start text).bind (front (stop - start)) else none

@[simp] theorem size_nil : size [] = 0 := rfl

@[simp] theorem size_cons (c : Char) (cs : List Char) : size (c :: cs) = c.utf8Size + size cs := rfl

@[simp] theorem size_append (a b : List Char) : size (a ++ b) = size a + size b := by
  induction a with
  | nil => rw [List.nil_append, size_nil, Nat.zero_add]
  | cons c a ih => rw [List.cons_append, size_cons, size_cons, ih, Nat.add_assoc]

theorem length_le_size (cs : List Char) : cs.length ≤ size cs := by
  induction cs with
  | nil => exact le_rfl
  | cons c cs ih =>
    have hc := c.utf8Size_pos
    rw [List.length_cons, size_cons]
    omega

theorem size_eq_zero {cs : List Char} : size cs = 0 ↔ cs = [] := by
  refine ⟨fun h => ?_, fun h => by rw [h, size_nil]⟩
  have hlen := length_le_size cs
  exact List.length_eq_zero_iff.mp (by omega)

theorem skip_size (a b : List Char) : skip (size a) (a ++ b) = some b := by
  induction a with
  | nil => rw [size_nil, List.nil_append, skip]
  | cons c a ih =>
    have hc := c.utf8Size_pos
    obtain ⟨n, hn⟩ := Nat.exists_eq_succ_of_ne_zero (show c.utf8Size + size a ≠ 0 by omega)
    rw [size_cons, List.cons_append, hn, skip, if_pos (by omega), ← ih]
    congr 1
    omega

theorem front_size (a b : List Char) : front (size a) (a ++ b) = some a := by
  induction a with
  | nil => rw [size_nil, List.nil_append, front]
  | cons c a ih =>
    have hc := c.utf8Size_pos
    obtain ⟨n, hn⟩ := Nat.exists_eq_succ_of_ne_zero (show c.utf8Size + size a ≠ 0 by omega)
    have hrest : n.succ - c.utf8Size = size a := by omega
    rw [size_cons, List.cons_append, hn, front, if_pos (by omega), hrest, ih, Option.map_some]

theorem slice_parts (a b c : List Char) :
    slice (a ++ b ++ c) (size a) (size a + size b) = some b := by
  rw [slice, if_pos (Nat.le_add_right ..), List.append_assoc, skip_size, Option.bind_some,
    Nat.add_sub_cancel_left, front_size]

/-- The offset stands between two characters, or at an end of the text. -/
def Boundary (text : List Char) (n : ℕ) : Prop := ∃ a, a <+: text ∧ size a = n

theorem boundary_size {text a b : List Char} (h : text = a ++ b) : Boundary text (size a) :=
  ⟨a, ⟨b, h.symm⟩, rfl⟩

/-- Of two fronts of a text, the one of fewer bytes is a front of the other. -/
theorem prefix_of_size_le {text a b : List Char} (ha : a <+: text) (hb : b <+: text)
    (hsize : size a ≤ size b) : a <+: b := by
  rcases List.prefix_or_prefix_of_prefix ha hb with h | ⟨rest, hrest⟩
  · exact h
  · rw [← hrest, size_append] at hsize
    have hnil : rest = [] := size_eq_zero.mp (by omega)
    rw [← hrest, hnil, List.append_nil]

/-- The parts of a text between two boundaries. -/
structure Parts (text : List Char) (start stop : ℕ) (before content after : List Char) : Prop where
  text : text = before ++ content ++ after
  start : start = size before
  stop : stop = size before + size content

theorem exists_parts {text : List Char} {start stop : ℕ} (hstart : Boundary text start)
    (hstop : Boundary text stop) (hle : start ≤ stop) :
    ∃ before content after, Parts text start stop before content after := by
  obtain ⟨a, ha, rfl⟩ := hstart
  obtain ⟨b, hb, rfl⟩ := hstop
  obtain ⟨content, rfl⟩ := prefix_of_size_le ha hb hle
  obtain ⟨after, rfl⟩ := hb
  exact ⟨a, content, after, rfl, rfl, size_append ..⟩

namespace Parts

variable {text before content after : List Char} {start stop : ℕ}

theorem slice (h : Parts text start stop before content after) :
    slice text start stop = some content := by
  rw [h.text, h.start, h.stop]
  exact slice_parts before content after

theorem before_slice (h : Parts text start stop before content after) :
    TextSlice.slice text 0 start = some before := by
  rw [h.text, h.start, List.append_assoc]
  simpa using slice_parts [] before (content ++ after)

theorem after_slice (h : Parts text start stop before content after) :
    TextSlice.slice text stop (size text) = some after := by
  have hall := slice_parts (before ++ content) after []
  rw [List.append_nil] at hall
  rw [h.text, h.stop, size_append (before ++ content), size_append before]
  rw [size_append before] at hall
  exact hall

theorem front_slice (h : Parts text start stop before content after) :
    TextSlice.slice text 0 stop = some (before ++ content) := by
  rw [h.text, h.stop]
  simpa using slice_parts [] (before ++ content) after

theorem start_boundary (h : Parts text start stop before content after) : Boundary text start := by
  rw [h.start]
  exact boundary_size (h.text.trans (List.append_assoc ..))

theorem stop_boundary (h : Parts text start stop before content after) : Boundary text stop := by
  rw [h.stop, ← size_append]
  exact boundary_size h.text

theorem start_le_stop (h : Parts text start stop before content after) : start ≤ stop := by
  rw [h.start, h.stop]
  exact Nat.le_add_right ..

theorem lt_of_content {c : Char} (h : Parts text start stop before content after)
    (hc : c ∈ content) : start < stop := by
  have hsize := length_le_size content
  have hpos := List.length_pos_of_mem hc
  rw [h.start, h.stop]
  omega

theorem not_lt_of_nil (h : Parts text start stop before [] after) : ¬start < stop := by
  rw [h.start, h.stop, size_nil]
  omega

/-- The start moves behind the first character of the content. -/
theorem move_start {c : Char} (h : Parts text start stop before (c :: content) after) :
    Parts text (start + c.utf8Size) stop (before ++ [c]) content after := by
  refine ⟨?_, ?_, ?_⟩
  · rw [h.text]
    simp only [List.append_assoc, List.cons_append, List.nil_append]
  · rw [h.start, size_append, size_cons, size_nil, Nat.add_zero]
  · rw [h.stop, size_append, size_cons, size_cons, size_nil]
    omega

/-- The stop moves in front of the last character of the content. -/
theorem move_stop {c : Char} (h : Parts text start stop before (content ++ [c]) after) :
    Parts text start (stop - c.utf8Size) before content ([c] ++ after) := by
  refine ⟨?_, h.start, ?_⟩
  · rw [h.text]
    simp only [List.append_assoc]
  · rw [h.stop, size_append, size_cons, size_nil]
    omega

/-- The parts are those of the two offsets. -/
theorem unique {before' content' after' : List Char}
    (h : Parts text start stop before content after)
    (h' : Parts text start stop before' content' after') :
    before = before' ∧ content = content' ∧ after = after' :=
  ⟨Option.some.inj (h.before_slice.symm.trans h'.before_slice),
    Option.some.inj (h.slice.symm.trans h'.slice),
    Option.some.inj (h.after_slice.symm.trans h'.after_slice)⟩

/-- A range inside another takes its content from the content of the other. -/
theorem nested {start' stop' : ℕ} {before' content' after' : List Char}
    (h : Parts text start stop before content after)
    (h' : Parts text start' stop' before' content' after') (hstart : start' ≤ start)
    (hstop : stop ≤ stop') :
    ∃ front back, before = before' ++ front ∧ content' = front ++ content ++ back ∧
      after = back ++ after' := by
  have hbefore : before' <+: before := by
    have hfront' : before' <+: text := ⟨content' ++ after', by rw [h'.text, List.append_assoc]⟩
    have hfront : before <+: text := ⟨content ++ after, by rw [h.text, List.append_assoc]⟩
    refine prefix_of_size_le hfront' hfront ?_
    rw [← h'.start, ← h.start]
    exact hstart
  have hinner : before ++ content <+: before' ++ content' := by
    refine prefix_of_size_le ⟨after, h.text.symm⟩ ⟨after', h'.text.symm⟩ ?_
    rw [size_append, size_append, ← h.stop, ← h'.stop]
    exact hstop
  obtain ⟨front, rfl⟩ := hbefore
  obtain ⟨back, hback⟩ := hinner
  have hcontent : content' = front ++ content ++ back := by
    refine List.append_cancel_left (?_ : before' ++ content' = before' ++ (front ++ content ++ back))
    rw [← hback]
    simp only [List.append_assoc]
  refine ⟨front, back, rfl, hcontent, ?_⟩
  have htext := h.text.symm.trans h'.text
  rw [← hback, List.append_assoc _ back] at htext
  exact List.append_cancel_left htext

end Parts

end TextSlice

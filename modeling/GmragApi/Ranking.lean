import Mathlib.Data.List.Nodup
import Mathlib.Data.List.Sort
import Mathlib.Order.Lattice

/-! The first rows of a ranking: which rows they are when rows of equal rank may stand in any
order. -/

namespace Ranking

variable {α δ : Type*} [LinearOrder δ] (rank : α → δ)

/-- The rows stand by their ranks. -/
def Sorted (rows : List α) : Prop := rows.Pairwise fun a b => rank a ≤ rank b

/-- How many rows stand before all rows of the rank. -/
def before (rows : List α) (r : δ) : Nat := rows.countP fun a => rank a < r

def upTo (rows : List α) (r : δ) : Nat := rows.countP fun a => rank a ≤ r

/-- Rows of one rank stand on both sides of the cut after the first `k`. -/
def TiesAt (rows : List α) (k : Nat) : Prop :=
  ∃ a ∈ rows, before rank rows (rank a) < k ∧ k < upTo rank rows (rank a)

variable {rank} {rows other : List α} {k : Nat}

/-- In a sorted list, what a lower row inherits holds of a segment at the front. -/
theorem Sorted.lt_countP_iff (hs : Sorted rank rows) {p : α → Bool}
    (hp : ∀ a b, rank a ≤ rank b → p b = true → p a = true) (i : Nat) :
    i < rows.countP p ↔ ∃ h : i < rows.length, p rows[i] = true := by
  induction rows generalizing i with
  | nil => simp
  | cons a rows ih =>
    obtain ⟨hfirst, hrest⟩ := List.pairwise_cons.mp hs
    by_cases ha : p a = true
    · rw [List.countP_cons_of_pos ha]
      cases i with
      | zero => simp [ha]
      | succ i => simpa using ih hrest i
    · have hnone : rows.countP p = 0 := List.countP_eq_zero.mpr fun b hb hpb =>
        ha (hp a b (hfirst b hb) hpb)
      rw [List.countP_cons_of_neg ha, hnone]
      refine iff_of_false (Nat.not_lt_zero i) ?_
      rintro ⟨hi, hpi⟩
      cases i with
      | zero => exact ha hpi
      | succ i => exact ha (hp a _ (hfirst _ (List.getElem_mem _)) hpi)

theorem sorted_insertionSort (rank : α → δ) (rows : List α) :
    Sorted rank (rows.insertionSort fun a b => rank a ≤ rank b) := by
  have : Std.Total fun a b => rank a ≤ rank b := ⟨fun a b => le_total (rank a) (rank b)⟩
  have : IsTrans α fun a b => rank a ≤ rank b := ⟨fun _ _ _ => le_trans⟩
  exact List.pairwise_insertionSort _ rows

theorem exists_sorted (rank : α → δ) (rows : List α) :
    ∃ ranked : List α, ranked.Perm rows ∧ Sorted rank ranked :=
  ⟨_, List.perm_insertionSort _ rows, sorted_insertionSort rank rows⟩

theorem Sorted.lt_before_iff (hs : Sorted rank rows) (r : δ) (i : Nat) :
    i < before rank rows r ↔ ∃ h : i < rows.length, rank rows[i] < r := by
  have hdown : ∀ a b, rank a ≤ rank b → decide (rank b < r) = true → decide (rank a < r) = true :=
    fun a b hab hb => decide_eq_true (hab.trans_lt (of_decide_eq_true hb))
  rw [before, hs.lt_countP_iff hdown]
  simp only [decide_eq_true_eq]

theorem Sorted.lt_upTo_iff (hs : Sorted rank rows) (r : δ) (i : Nat) :
    i < upTo rank rows r ↔ ∃ h : i < rows.length, rank rows[i] ≤ r := by
  have hdown : ∀ a b, rank a ≤ rank b → decide (rank b ≤ r) = true → decide (rank a ≤ r) = true :=
    fun a b hab hb => decide_eq_true (hab.trans (of_decide_eq_true hb))
  rw [upTo, hs.lt_countP_iff hdown]
  simp only [decide_eq_true_eq]

theorem Sorted.before_lt_of_mem_take (hs : Sorted rank rows) {a : α} (ha : a ∈ rows.take k) :
    before rank rows (rank a) < k := by
  obtain ⟨i, hi, rfl⟩ := List.mem_iff_getElem.mp ha
  simp only [List.length_take, Nat.lt_min] at hi
  rw [List.getElem_take]
  refine Nat.lt_of_not_le fun hle => ?_
  obtain ⟨_, hlt⟩ := (hs.lt_before_iff _ i).mp (Nat.lt_of_lt_of_le hi.1 hle)
  exact lt_irrefl _ hlt

/-- A row that is not among the first ones has all of them at or before its rank. -/
theorem Sorted.le_of_notMem_take (hs : Sorted rank rows) {a b : α} (ha : a ∈ rows)
    (hout : a ∉ rows.take k) (hb : b ∈ rows.take k) : rank b ≤ rank a := by
  rw [← List.take_append_drop k rows] at ha hs
  have hdrop := (List.mem_append.mp ha).resolve_left hout
  exact (List.pairwise_append.mp hs).2.2 b hb a hdrop

/-- Without a tie at the cut, the first rows are those with few enough rows before them. -/
theorem Sorted.mem_take_iff (hs : Sorted rank rows) (hk : ¬ TiesAt rank rows k) {a : α} :
    a ∈ rows.take k ↔ a ∈ rows ∧ before rank rows (rank a) < k := by
  constructor
  · intro ha
    exact ⟨List.mem_of_mem_take ha, hs.before_lt_of_mem_take ha⟩
  · rintro ⟨ha, hbefore⟩
    obtain ⟨i, hi, rfl⟩ := List.mem_iff_getElem.mp ha
    have hupTo : upTo rank rows (rank rows[i]) ≤ k :=
      Nat.le_of_not_lt fun hlt => hk ⟨_, ha, hbefore, hlt⟩
    have hik : i < k :=
      Nat.lt_of_lt_of_le ((hs.lt_upTo_iff _ i).mpr ⟨hi, le_refl _⟩) hupTo
    rw [List.mem_take_iff_getElem]
    exact ⟨i, by omega, rfl⟩

theorem not_tiesAt_of_length_le (h : rows.length ≤ k) : ¬ TiesAt rank rows k := by
  rintro ⟨a, -, -, hupTo⟩
  have hle : upTo rank rows (rank a) ≤ rows.length := List.countP_le_length
  omega

theorem tiesAt_perm (h : rows.Perm other) : TiesAt rank rows k ↔ TiesAt rank other k := by
  unfold TiesAt before upTo
  refine exists_congr fun a => ?_
  rw [h.mem_iff, h.countP_eq, h.countP_eq]

theorem tiesAt_map {β : Type*} (f : β → α) (rows : List β) :
    TiesAt rank (rows.map f) k ↔ TiesAt (rank ∘ f) rows k := by
  simp only [TiesAt, before, upTo, List.mem_map, exists_exists_and_eq_and, List.countP_map,
    Function.comp_def]

/-- Then the first rows do not depend on how equal ranks are ordered. -/
theorem Sorted.mem_take_congr (hs : Sorted rank rows) (ho : Sorted rank other)
    (hperm : rows.Perm other) (hk : ¬ TiesAt rank rows k) (a : α) :
    a ∈ rows.take k ↔ a ∈ other.take k := by
  rw [hs.mem_take_iff hk, ho.mem_take_iff (fun h => hk ((tiesAt_perm hperm).mpr h)), hperm.mem_iff,
    before, before, hperm.countP_eq]

/-- With one, the last of the first rows and the row after it can change places. -/
theorem Sorted.exists_swap (hs : Sorted rank rows) (hk : TiesAt rank rows k) :
    ∃ front a b back, rows = front ++ a :: b :: back ∧ front.length + 1 = k ∧
      rank a = rank b := by
  obtain ⟨x, -, hbefore, hupTo⟩ := hk
  obtain ⟨hlt, hle⟩ := (hs.lt_upTo_iff _ k).mp hupTo
  have hpos : 0 < k := Nat.lt_of_le_of_lt (Nat.zero_le _) hbefore
  have hge : rank x ≤ rank rows[k - 1] := by
    refine le_of_not_gt fun hgt => ?_
    have := (hs.lt_before_iff (rank x) (k - 1)).mpr ⟨by omega, hgt⟩
    omega
  have hmono : rank rows[k - 1] ≤ rank rows[k] :=
    List.pairwise_iff_getElem.mp hs (k - 1) k (by omega) hlt (by omega)
  refine ⟨rows.take (k - 1), rows[k - 1], rows[k], rows.drop (k + 1), ?_, ?_, ?_⟩
  · have hdrop : rows.drop (k - 1) = rows[k - 1] :: rows.drop k := by
      rw [List.drop_eq_getElem_cons (by omega), Nat.sub_add_cancel hpos]
    rw [← List.drop_eq_getElem_cons hlt, ← hdrop, List.take_append_drop]
  · rw [List.length_take]
    omega
  · exact le_antisymm hmono (hle.trans hge)

theorem Sorted.swap {front back : List α} {a b : α} (hs : Sorted rank (front ++ a :: b :: back))
    (hab : rank a = rank b) : Sorted rank (front ++ b :: a :: back) := by
  obtain ⟨hfront, hrest, hcross⟩ := List.pairwise_append.mp hs
  obtain ⟨ha, hrest⟩ := List.pairwise_cons.mp hrest
  obtain ⟨hb, hback⟩ := List.pairwise_cons.mp hrest
  refine List.pairwise_append.mpr ⟨hfront, ?_, fun x hx y hy => hcross x hx y ?_⟩
  · refine List.pairwise_cons.mpr ⟨fun y hy => ?_, List.pairwise_cons.mpr ⟨fun y hy => ?_, hback⟩⟩
    · rcases List.mem_cons.mp hy with rfl | hy
      · exact hab.ge
      · exact hb y hy
    · exact hab.trans_le (hb y hy)
  · simp only [List.mem_cons] at hy ⊢
    tauto

end Ranking

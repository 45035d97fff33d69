import Mathlib.Data.List.Perm.Basic
import Mathlib.Data.List.Sort
import Mathlib.Data.Prod.Lex

/-! Queries over the rows of a table: filtered, put in an order and cut into pages. The rows of a
table stand in no order, so that what a query returns must not depend on one. -/

namespace Query

variable {α β κ : Type*} [LinearOrder κ]

/-- `ORDER BY key`. -/
def orderBy (key : α → κ) (rows : List α) : List α := rows.mergeSort fun a b => decide (key a ≤ key b)

/-- `LIMIT limit OFFSET offset`. -/
def page (limit offset : Nat) (rows : List α) : List α := (rows.drop offset).take limit

/-- The rows of both tables that satisfy the condition are joined on it. -/
def join (on : α → β → Bool) (left : List α) (right : List β) : List (α × β) :=
  left.flatMap fun a => (right.filter (on a)).map fun b => (a, b)

variable {key : α → κ} {rows other : List α} {p : α → Bool}

theorem orderBy_perm (key : α → κ) (rows : List α) : (orderBy key rows).Perm rows :=
  List.mergeSort_perm _ _

@[simp] theorem mem_orderBy {a : α} : a ∈ orderBy key rows ↔ a ∈ rows := List.mem_mergeSort

theorem orderBy_sorted (key : α → κ) (rows : List α) :
    (orderBy key rows).Pairwise fun a b => key a ≤ key b := by
  have hsorted := @List.pairwise_mergeSort _ (fun a b => decide (key a ≤ key b))
    (fun a b c hab hbc => by
      simp only [decide_eq_true_eq] at hab hbc ⊢
      exact hab.trans hbc)
    (fun a b => by simpa using le_total (key a) (key b)) rows
  exact hsorted.imp fun h => of_decide_eq_true h

/-- Two rows of one key are the same row. -/
def KeyedBy (key : α → κ) (rows : List α) : Prop :=
  ∀ a ∈ rows, ∀ b ∈ rows, key a = key b → a = b

omit [LinearOrder κ] in
theorem KeyedBy.subset (h : KeyedBy key rows) (hsub : ∀ a ∈ other, a ∈ rows) :
    KeyedBy key other :=
  fun a ha b hb heq => h a (hsub a ha) b (hsub b hb) heq

omit [LinearOrder κ] in
theorem keyedBy_of_nodup (h : (rows.map key).Nodup) : KeyedBy key rows :=
  fun _ ha _ hb heq => List.inj_on_of_nodup_map h ha hb heq

/-- The order by a key is one order of the rows, whichever order the table has them in. -/
theorem orderBy_congr (hkey : KeyedBy key rows) (h : rows.Perm other) :
    orderBy key rows = orderBy key other := by
  have hperm : (orderBy key rows).Perm (orderBy key other) :=
    (orderBy_perm key rows).trans (h.trans (orderBy_perm key other).symm)
  refine hperm.eq_of_pairwise ?_ (orderBy_sorted key rows)
    (orderBy_sorted key other)
  intro a b ha hb hab hba
  exact hkey a (mem_orderBy.mp ha) b (h.mem_iff.mpr (mem_orderBy.mp hb)) (le_antisymm hab hba)

/-- Some of the rows, put in the order in which all of them stand. -/
theorem orderBy_sublist (hrows : rows.Pairwise fun a b => key a < key b)
    (h : other.Subperm rows) : (orderBy key other).Sublist rows := by
  obtain ⟨kept, hperm, hsub⟩ := h
  have hkept := hrows.sublist hsub
  have hkey : KeyedBy key kept := keyedBy_of_nodup (List.pairwise_map.mpr (hkept.imp ne_of_lt))
  have heq : orderBy key other = kept := by
    refine ((orderBy_perm key other).trans hperm.symm).eq_of_pairwise ?_
      (orderBy_sorted key other) (hkept.imp le_of_lt)
    intro a b ha hb hab hba
    exact hkey a (hperm.mem_iff.mpr (mem_orderBy.mp ha)) b hb (le_antisymm hab hba)
  rw [heq]
  exact hsub

/-- Rows may be left out before they are put in their order or after. -/
theorem filter_orderBy (hkey : KeyedBy key rows) (p : α → Bool) :
    (orderBy key rows).filter p = orderBy key (rows.filter p) := by
  have hperm : ((orderBy key rows).filter p).Perm (orderBy key (rows.filter p)) :=
    ((orderBy_perm key rows).filter p).trans (orderBy_perm key _).symm
  refine hperm.eq_of_pairwise ?_
    ((orderBy_sorted key rows).filter p) (orderBy_sorted key _)
  intro a b ha hb hab hba
  have ha := mem_orderBy.mp (List.mem_of_mem_filter ha)
  have hb := List.mem_of_mem_filter (mem_orderBy.mp hb)
  exact hkey a ha b hb (le_antisymm hab hba)

/-- A condition that one row at most satisfies finds the same row in either order. -/
theorem find?_congr (hone : ∀ a ∈ rows, ∀ b ∈ rows, p a = true → p b = true → a = b)
    (h : rows.Perm other) : rows.find? p = other.find? p := by
  cases hfind : rows.find? p with
  | none =>
    have hnone := List.find?_eq_none.mp hfind
    exact (List.find?_eq_none.mpr fun a ha => hnone a (h.mem_iff.mpr ha)).symm
  | some a =>
    have ha := List.mem_of_find?_eq_some hfind
    have hpa := List.find?_some hfind
    cases hother : other.find? p with
    | none => exact absurd hpa (List.find?_eq_none.mp hother a (h.mem_iff.mp ha))
    | some b =>
      have hb := h.mem_iff.mpr (List.mem_of_find?_eq_some hother)
      rw [hone a ha b hb hpa (List.find?_some hother)]

theorem find?_of_mem (hone : ∀ a ∈ rows, ∀ b ∈ rows, p a = true → p b = true → a = b) {a : α}
    (ha : a ∈ rows) (hpa : p a = true) : rows.find? p = some a := by
  cases hfind : rows.find? p with
  | none => exact absurd hpa (List.find?_eq_none.mp hfind a ha)
  | some b => rw [hone a ha b (List.mem_of_find?_eq_some hfind) hpa (List.find?_some hfind)]

/-- What is found among the rows of a condition is what is found among all of them, if it satisfies
the condition. -/
theorem find?_filter_eq {q : α → Bool}
    (hone : ∀ a ∈ rows, ∀ b ∈ rows, p a = true → p b = true → a = b) :
    (rows.filter q).find? p = (rows.find? p).filter q := by
  cases hfind : rows.find? p with
  | none =>
    have hnone := List.find?_eq_none.mp hfind
    exact List.find?_eq_none.mpr fun a ha => hnone a (List.mem_of_mem_filter ha)
  | some a =>
    have ha := List.mem_of_find?_eq_some hfind
    have hpa := List.find?_some hfind
    cases hq : q a with
    | true =>
      rw [Option.filter_some_pos hq]
      cases hother : (rows.filter q).find? p with
      | none =>
        have hmem := List.mem_filter.mpr ⟨ha, hq⟩
        exact absurd hpa (List.find?_eq_none.mp hother a hmem)
      | some b =>
        have hb := List.mem_of_mem_filter (List.mem_of_find?_eq_some hother)
        rw [hone a ha b hb hpa (List.find?_some hother)]
    | false =>
      rw [Option.filter_some_neg (by simp [hq])]
      refine List.find?_eq_none.mpr fun b hb hpb => ?_
      obtain ⟨hb, hqb⟩ := List.mem_filter.mp hb
      rw [hone b hb a ha hpb hpa, hq] at hqb
      cases hqb

/-- A condition that one row at most satisfies selects the row that it finds. -/
theorem filter_eq_find? (hone : ∀ a ∈ rows, ∀ b ∈ rows, p a = true → p b = true → a = b)
    (hrows : rows.Nodup) : rows.filter p = (rows.find? p).toList := by
  cases hfind : rows.find? p with
  | none => exact List.filter_eq_nil_iff.mpr (List.find?_eq_none.mp hfind)
  | some a =>
    have ha := List.mem_of_find?_eq_some hfind
    have hpa := List.find?_some hfind
    have heq : ∀ b ∈ rows.filter p, b = a := fun b hb =>
      hone b (List.mem_of_mem_filter hb) a ha (List.mem_filter.mp hb).2 hpa
    have hmem : a ∈ rows.filter p := List.mem_filter.mpr ⟨ha, hpa⟩
    have hnodup := hrows.filter p
    cases hrest : rows.filter p with
    | nil =>
      rw [hrest] at hmem
      cases hmem
    | cons b rest =>
      rw [hrest] at heq hnodup
      cases rest with
      | nil => rw [heq b List.mem_cons_self, Option.toList_some]
      | cons b' rest =>
        have hb := heq b List.mem_cons_self
        have hb' := heq b' (List.mem_cons_of_mem _ List.mem_cons_self)
        rw [hb, hb'] at hnodup
        exact absurd List.mem_cons_self (List.nodup_cons.mp hnodup).1

/-- Rows outside of what the condition implies do not change which rows satisfy it. -/
theorem filter_filter_of_imp {q : α → Bool} (h : ∀ a ∈ rows, p a = true → q a = true) :
    (rows.filter q).filter p = rows.filter p := by
  rw [List.filter_filter]
  refine List.filter_congr fun a ha => ?_
  cases hp : p a with
  | false => rfl
  | true => simp [h a ha hp]

/-- The first pages of one size are the rows up to where they end. -/
theorem flatMap_page (size count : Nat) (rows : List α) :
    (List.range count).flatMap (fun k => page size (k * size) rows) = rows.take (count * size) := by
  induction count with
  | zero => simp
  | succ count ih =>
    rw [List.range_succ, List.flatMap_append, ih, List.flatMap_singleton, page, Nat.succ_mul,
      List.take_add]

theorem flatMap_page_eq {size count : Nat} (h : rows.length ≤ count * size) :
    (List.range count).flatMap (fun k => page size (k * size) rows) = rows := by
  rw [flatMap_page, List.take_of_length_le h]

theorem mem_join {on : α → β → Bool} {left : List α} {right : List β} {pair : α × β} :
    pair ∈ join on left right ↔ pair.1 ∈ left ∧ pair.2 ∈ right ∧ on pair.1 pair.2 = true := by
  obtain ⟨a, b⟩ := pair
  simp only [join, List.mem_flatMap, List.mem_map, List.mem_filter, Prod.mk.injEq]
  constructor
  · rintro ⟨a', ha, b', ⟨hb, hon⟩, rfl, rfl⟩
    exact ⟨ha, hb, hon⟩
  · rintro ⟨ha, hb, hon⟩
    exact ⟨a, ha, b, ⟨hb, hon⟩, rfl, rfl⟩

theorem join_perm {on : α → β → Bool} {left left' : List α} {right right' : List β}
    (hleft : left.Perm left') (hright : right.Perm right') :
    (join on left right).Perm (join on left' right') := by
  unfold join
  exact hleft.flatMap fun a _ => (hright.filter (on a)).map _

theorem join_nodup {on : α → β → Bool} {left : List α} {right : List β} (hleft : left.Nodup)
    (hright : right.Nodup) : (join on left right).Nodup := by
  refine List.nodup_flatMap.mpr ⟨fun a _ => ?_, ?_⟩
  · exact (hright.filter _).map fun b b' heq => (Prod.mk.inj heq).2
  · refine hleft.imp fun hne pair hpair hpair' => hne ?_
    obtain ⟨b, -, rfl⟩ := List.mem_map.mp hpair
    obtain ⟨b', -, heq⟩ := List.mem_map.mp hpair'
    exact (Prod.mk.inj heq).1.symm

theorem join_filter {on : α → β → Bool} {left : List α} {right : List β} {q : α → Bool}
    {r : β → Bool} (h : ∀ a ∈ left, ∀ b ∈ right, on a b = true → q a = r b) :
    join on (left.filter q) (right.filter r) = (join on left right).filter fun pair => r pair.2 := by
  induction left with
  | nil => rfl
  | cons a left ih =>
    have hrest := ih fun a ha => h a (List.mem_cons_of_mem _ ha)
    have hrow : ((right.filter r).filter (on a)).map (fun b => (a, b)) =
        ((right.filter (on a)).map fun b => (a, b)).filter fun pair => r pair.2 := by
      rw [List.filter_map, List.filter_filter, List.filter_filter]
      refine congrArg _ (List.filter_congr fun b _ => ?_)
      exact Bool.and_comm _ _
    cases hq : q a with
    | true =>
      rw [List.filter_cons_of_pos hq]
      simp only [join, List.flatMap_cons, List.filter_append] at hrest ⊢
      rw [hrow, hrest]
    | false =>
      have hnone : ((right.filter (on a)).map fun b => (a, b)).filter (fun pair => r pair.2) =
          [] := by
        refine List.filter_eq_nil_iff.mpr fun pair hpair => ?_
        obtain ⟨b, hb, rfl⟩ := List.mem_map.mp hpair
        obtain ⟨hb, hon⟩ := List.mem_filter.mp hb
        rw [← h a List.mem_cons_self b hb hon, hq]
        exact Bool.false_ne_true
      rw [List.filter_cons_of_neg (by simp [hq])]
      simp only [join, List.flatMap_cons, List.filter_append] at hrest ⊢
      rw [hnone, hrest, List.nil_append]

end Query

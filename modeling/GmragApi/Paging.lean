import Mathlib.Data.List.Basic

/-! Listings that come in pages: each page names the cursor of the next one, and the last page
names none. -/

namespace GmragApi.Paging

variable {κ α β ε σ : Type}

structure Page (κ α : Type) where
  items : List α
  next : Option κ

def Page.map (f : List α → List β) (page : Page κ α) : Page κ β := ⟨f page.items, page.next⟩

/-- Following the cursors from the given one shows these pages and ends. -/
inductive Follows (fetch : Option κ → Except ε (Page κ α)) : Option κ → List (List α) → Prop
  | last {cursor : Option κ} {items : List α} :
      fetch cursor = .ok ⟨items, none⟩ → Follows fetch cursor [items]
  | more {cursor : Option κ} {items : List α} {next : κ} {pages : List (List α)} :
      fetch cursor = .ok ⟨items, some next⟩ → Follows fetch (some next) pages →
        Follows fetch cursor (items :: pages)

/-- The loop over the pages. It ends at the page without a cursor, and at a page without items. -/
def scan (fetch : Option κ → Except ε (Page κ α)) (visit : σ → α → σ) :
    Nat → Option κ → σ → Option (Except ε σ)
  | 0, _, _ => none
  | fuel + 1, cursor, acc =>
    match fetch cursor with
    | .error e => some (.error e)
    | .ok page =>
      if page.items.isEmpty then some (.ok acc)
      else
        let acc := page.items.foldl visit acc
        match page.next with
        | some next => scan fetch visit fuel (some next) acc
        | none => some (.ok acc)

/-- The items that the loop gets to see. -/
def seen (pages : List (List α)) : List α := (pages.takeWhile fun items => !items.isEmpty).flatten

variable {fetch : Option κ → Except ε (Page κ α)} {cursor : Option κ} {pages : List (List α)}
  {fuel : Nat}

/-- Pages that are filtered on arrival follow one another as before. -/
theorem Follows.map (f : List α → List β) (h : Follows fetch cursor pages) :
    Follows (fun c => (fetch c).map (Page.map f)) cursor (pages.map f) := by
  induction h with
  | last hfetch => exact .last (by simp [hfetch, Except.map, Page.map])
  | more hfetch _ ih => exact .more (by simp [hfetch, Except.map, Page.map]) ih

/-- With a step for each page the loop ends, with what it makes of the items that it has seen. -/
theorem scan_eq (visit : σ → α → σ) (acc : σ) (h : Follows fetch cursor pages)
    (hfuel : pages.length ≤ fuel) :
    scan fetch visit fuel cursor acc = some (.ok ((seen pages).foldl visit acc)) := by
  induction h generalizing fuel acc with
  | @last _ items hfetch =>
    obtain ⟨fuel, rfl⟩ : ∃ n, fuel = n + 1 := Nat.exists_eq_add_one.mpr hfuel
    cases items with
    | nil => simp [scan, hfetch, seen]
    | cons item items => simp [scan, hfetch, seen]
  | @more _ items _ pages hfetch _ ih =>
    have hpos : 0 < fuel := by
      rw [List.length_cons] at hfuel
      omega
    obtain ⟨fuel, rfl⟩ := Nat.exists_eq_add_one.mpr hpos
    cases items with
    | nil => simp [scan, hfetch, seen]
    | cons item items =>
      have hrest := ih ((item :: items).foldl visit acc) (Nat.le_of_succ_le_succ hfuel)
      simp only [scan, hfetch, List.isEmpty_cons, Bool.false_eq_true, if_false, hrest, seen,
        List.takeWhile_cons, Bool.not_false, if_true, List.flatten_cons, List.foldl_append]

/-- The loop gets to see all the items just when none comes behind a page without items. -/
theorem seen_eq_flatten_iff (pages : List (List α)) :
    seen pages = pages.flatten ↔
      ∀ before after, pages = before ++ [] :: after → after.flatten = [] := by
  induction pages with
  | nil =>
    refine ⟨fun _ before after h => ?_, fun _ => rfl⟩
    exact absurd h.symm (List.append_ne_nil_of_right_ne_nil _ (List.cons_ne_nil _ _))
  | cons page pages ih =>
    cases page with
    | nil =>
      have hseen : seen ([] :: pages) = [] := rfl
      rw [hseen, List.flatten_cons, List.nil_append]
      constructor
      · intro h before after hparts
        cases before with
        | nil =>
          rw [← (List.cons.inj hparts).2]
          exact h.symm
        | cons first before =>
          have hrest : pages = before ++ [] :: after := (List.cons.inj hparts).2
          rw [hrest, List.flatten_append, List.flatten_cons, List.nil_append] at h
          exact (List.append_eq_nil_iff.mp h.symm).2
      · intro h
        exact (h [] pages rfl).symm
    | cons item items =>
      have hseen : seen ((item :: items) :: pages) = (item :: items) ++ seen pages := by
        simp [seen]
      rw [hseen, List.flatten_cons, List.append_cancel_left_eq, ih]
      constructor
      · intro h before after hparts
        cases before with
        | nil => cases (List.cons.inj hparts).1
        | cons first before => exact h before after (List.cons.inj hparts).2
      · intro h before after hparts
        exact h ((item :: items) :: before) after (by rw [hparts, List.cons_append])

theorem seen_subset (pages : List (List α)) : ∀ item ∈ seen pages, item ∈ pages.flatten := by
  intro item h
  obtain ⟨items, hitems, hmem⟩ := List.mem_flatten.mp h
  have hpage := (List.takeWhile_prefix (fun items : List α => !items.isEmpty)).subset hitems
  exact List.mem_flatten.mpr ⟨items, hpage, hmem⟩

end GmragApi.Paging

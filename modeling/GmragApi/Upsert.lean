import Mathlib.Data.List.Nodup
import Mathlib.Data.List.Basic

/-! `INSERT … ON CONFLICT (key) DO UPDATE` on a table with a unique key: a proposed row is merged
into the row that has its key, or appended. -/

namespace Upsert

variable {α κ : Type*} [DecidableEq κ] (key : α → κ) (merge : α → α → α)

/-- What becomes of a row of the table. -/
def updated (rows : List α) (old : α) : α :=
  match rows.find? fun new => key new = key old with
  | some new => merge old new
  | none => old

/-- The proposed rows that are inserted. -/
def fresh (table rows : List α) : List α := rows.filter fun new => key new ∉ table.map key

/-- The statement fails when it would affect one row twice. -/
def statement (table rows : List α) : Option (List α) :=
  if (rows.map key).Nodup then
    some (table.map (updated key merge rows) ++ fresh key table rows)
  else none

variable {key merge} {table rows result : List α}

theorem find?_key_iff (hn : (rows.map key).Nodup) {k : κ} {x : α} :
    (rows.find? fun new => key new = k) = some x ↔ x ∈ rows ∧ key x = k := by
  constructor
  · intro h
    exact ⟨List.mem_of_find?_eq_some h, by simpa using List.find?_some h⟩
  · rintro ⟨hx, rfl⟩
    obtain ⟨y, hy⟩ : ∃ y, (rows.find? fun new => key new = key x) = some y := by
      refine Option.isSome_iff_exists.mp (List.find?_isSome.mpr ⟨x, hx, ?_⟩)
      exact decide_eq_true rfl
    have hkey : key y = key x := by simpa using List.find?_some hy
    rw [hy, List.inj_on_of_nodup_map hn (List.mem_of_find?_eq_some hy) hx hkey]

theorem find?_beq_iff [BEq κ] [LawfulBEq κ] (hn : (rows.map key).Nodup) {k : κ} {x : α} :
    (rows.find? fun new => key new == k) = some x ↔ x ∈ rows ∧ key x = k := by
  have hdecide : (fun new => key new == k) = fun new => decide (key new = k) :=
    funext fun new => Bool.eq_iff_iff.mpr (by simp)
  rw [hdecide, find?_key_iff hn]

theorem updated_of_forall_ne {old : α} (h : ∀ new ∈ rows, key new ≠ key old) :
    updated key merge rows old = old := by
  have hnone : (rows.find? fun new => key new = key old) = none := by
    refine List.find?_eq_none.mpr (fun new hnew => ?_)
    simpa using h new hnew
  rw [updated, hnone]

/-- Merging keeps what it keeps of each row. -/
theorem updated_keeps {β : Type*} {f : α → β} (hf : ∀ old new, f (merge old new) = f old)
    (old : α) : f (updated key merge rows old) = f old := by
  unfold updated
  split
  · exact hf _ _
  · rfl

theorem mem_fresh {new : α} :
    new ∈ fresh key table rows ↔ new ∈ rows ∧ key new ∉ table.map key := by
  rw [fresh, List.mem_filter, decide_eq_true_iff]

theorem statement_nodup (h : statement key merge table rows = some result) :
    (rows.map key).Nodup := (Option.ite_none_right_eq_some.mp h).1

theorem statement_eq (h : statement key merge table rows = some result) :
    result = table.map (updated key merge rows) ++ fresh key table rows :=
  (Option.some.inj (Option.ite_none_right_eq_some.mp h).2).symm

theorem map_statement {β : Type*} {f : α → β} (hf : ∀ old new, f (merge old new) = f old)
    (h : statement key merge table rows = some result) :
    result.map f = table.map f ++ (fresh key table rows).map f := by
  rw [statement_eq h, List.map_append, List.map_map]
  congr 1
  exact List.map_congr_left fun old _ => updated_keeps hf old

theorem statement_keys_nodup (hkey : ∀ old new, key (merge old new) = key old)
    (ht : (table.map key).Nodup) (h : statement key merge table rows = some result) :
    (result.map key).Nodup := by
  rw [map_statement hkey h, List.nodup_append]
  refine ⟨ht, ?_, ?_⟩
  · exact (statement_nodup h).sublist (List.filter_sublist.map key)
  · intro k hk l hl hkl
    obtain ⟨new, hnew, rfl⟩ := List.mem_map.mp hl
    exact (mem_fresh.mp hnew).2 (hkl ▸ hk)

/-- Each proposed row is in the result, itself or merged. -/
theorem exists_of_proposed (hkey : ∀ old new, key (merge old new) = key old)
    (h : statement key merge table rows = some result) {new : α} (hnew : new ∈ rows) :
    ∃ y ∈ result, key y = key new := by
  have hmem : key new ∈ result.map key := by
    rw [map_statement hkey h]
    by_cases hold : key new ∈ table.map key
    · exact List.mem_append_left _ hold
    · refine List.mem_append_right _ (List.mem_map_of_mem ?_)
      exact mem_fresh.mpr ⟨hnew, hold⟩
  exact List.mem_map.mp hmem

/-- A row whose key is not proposed is neither changed nor new. -/
theorem mem_statement_of_notMem (hkey : ∀ old new, key (merge old new) = key old)
    (h : statement key merge table rows = some result) {x : α} (hx : key x ∉ rows.map key) :
    x ∈ result ↔ x ∈ table := by
  rw [statement_eq h, List.mem_append, List.mem_map]
  constructor
  · rintro (⟨old, hold, rfl⟩ | hfresh)
    · have hsame : updated key merge rows old = old := by
        refine updated_of_forall_ne fun new hnew heq => hx ?_
        rw [updated_keeps hkey, ← heq]
        exact List.mem_map_of_mem hnew
      rwa [hsame]
    · exact absurd (List.mem_map_of_mem (mem_fresh.mp hfresh).1) hx
  · intro htable
    refine .inl ⟨x, htable, updated_of_forall_ne fun new hnew heq => hx ?_⟩
    rw [← heq]
    exact List.mem_map_of_mem hnew

/-- A row whose key is proposed has what merging takes from the proposed row. -/
theorem field_of_proposed {β : Type*} {f : α → β} (hkey : ∀ old new, key (merge old new) = key old)
    (hf : ∀ old new, f (merge old new) = f new)
    (h : statement key merge table rows = some result) {new x : α} (hnew : new ∈ rows)
    (hx : x ∈ result) (heq : key x = key new) : f x = f new := by
  have hn := statement_nodup h
  rw [statement_eq h, List.mem_append, List.mem_map] at hx
  rcases hx with ⟨old, -, rfl⟩ | hfresh
  · rw [updated_keeps hkey] at heq
    rw [updated, (find?_key_iff hn).mpr ⟨hnew, heq.symm⟩, hf]
  · rw [List.inj_on_of_nodup_map hn (mem_fresh.mp hfresh).1 hnew heq]

/-- A second unique column stays unique when no row with another key has a proposed value. -/
theorem statement_column_nodup {β : Type*} {f : α → β}
    (hkey : ∀ old new, key (merge old new) = key old) (hf : ∀ old new, f (merge old new) = f new)
    (ht : (table.map key).Nodup) (hcolumn : (table.map f).Nodup) (hrows : (rows.map f).Nodup)
    (hfree : ∀ new ∈ rows, ∀ old ∈ table, f old = f new → key old = key new)
    (h : statement key merge table rows = some result) : (result.map f).Nodup := by
  have hkeys := statement_keys_nodup hkey ht h
  have hproposed : ∀ x ∈ result, key x ∈ rows.map key →
      ∃ new ∈ rows, key new = key x ∧ f new = f x := by
    intro x hx hmem
    obtain ⟨new, hnew, heq⟩ := List.mem_map.mp hmem
    exact ⟨new, hnew, heq, (field_of_proposed hkey hf h hnew hx heq.symm).symm⟩
  have hmixed : ∀ x ∈ result, ∀ y ∈ result, key x ∈ rows.map key → key y ∉ rows.map key →
      f x ≠ f y := by
    intro x hx y hy hmem hnot hsame
    obtain ⟨new, hnew, -, hvalue⟩ := hproposed x hx hmem
    have hold := (mem_statement_of_notMem hkey h hnot).mp hy
    have hclash := hfree new hnew y hold (hsame.symm.trans hvalue.symm)
    exact hnot (List.mem_map.mpr ⟨new, hnew, hclash.symm⟩)
  refine (List.Nodup.of_map _ hkeys).map_on ?_
  intro x hx y hy hsame
  by_cases hxp : key x ∈ rows.map key
  · by_cases hyp : key y ∈ rows.map key
    · obtain ⟨new, hnew, hkx, hfx⟩ := hproposed x hx hxp
      obtain ⟨new', hnew', hky, hfy⟩ := hproposed y hy hyp
      have heq := List.inj_on_of_nodup_map hrows hnew hnew' (hfx.trans (hsame.trans hfy.symm))
      rw [heq] at hkx
      exact List.inj_on_of_nodup_map hkeys hx hy (hkx.symm.trans hky)
    · exact absurd hsame (hmixed x hx y hy hxp hyp)
  · by_cases hyp : key y ∈ rows.map key
    · exact absurd hsame.symm (hmixed y hy x hx hyp hxp)
    · have hx' := (mem_statement_of_notMem hkey h hxp).mp hx
      have hy' := (mem_statement_of_notMem hkey h hyp).mp hy
      exact List.inj_on_of_nodup_map hcolumn hx' hy' hsame

/-- Rows with keys of their own are appended. -/
theorem statement_append (hnew : ∀ new ∈ rows, ∀ old ∈ table, key new ≠ key old)
    (h : statement key merge table rows = some result) : result = table ++ rows := by
  rw [statement_eq h]
  congr 1
  · refine (List.map_congr_left fun old hold => ?_).trans table.map_id
    exact updated_of_forall_ne fun new hn => hnew new hn old hold
  · refine List.filter_eq_self.mpr (fun new hn => decide_eq_true ?_)
    intro hmem
    obtain ⟨old, hold, heq⟩ := List.mem_map.mp hmem
    exact hnew new hn old hold heq.symm

/-- Where merging takes all of the proposed row, a statement puts the proposed rows in the place of
the old ones. -/
theorem mem_statement_of_replace (hmerge : ∀ old new, key old = key new → merge old new = new)
    (h : statement key merge table rows = some result) {x : α} :
    x ∈ result ↔ x ∈ rows ∨ x ∈ table ∧ key x ∉ rows.map key := by
  have hn := statement_nodup h
  rw [statement_eq h, List.mem_append, List.mem_map, mem_fresh]
  constructor
  · rintro (⟨old, hold, rfl⟩ | ⟨hnew, -⟩)
    · unfold updated
      split
      next new hfind =>
        obtain ⟨hnew, hkey⟩ := (find?_key_iff hn).mp hfind
        rw [hmerge old new hkey.symm]
        exact .inl hnew
      next hfind =>
        refine .inr ⟨hold, fun hmem => ?_⟩
        obtain ⟨new, hnew, hkey⟩ := List.mem_map.mp hmem
        exact absurd hkey (by simpa using List.find?_eq_none.mp hfind new hnew)
    · exact .inl hnew
  · rintro (hnew | ⟨hold, hkey⟩)
    · by_cases hmem : key x ∈ table.map key
      · obtain ⟨old, hold, heq⟩ := List.mem_map.mp hmem
        refine .inl ⟨old, hold, ?_⟩
        rw [updated, (find?_key_iff hn).mpr ⟨hnew, heq.symm⟩]
        exact hmerge old x heq
      · exact .inr ⟨hnew, hmem⟩
    · refine .inl ⟨x, hold, updated_of_forall_ne fun new hnew heq => hkey ?_⟩
      rw [← heq]
      exact List.mem_map_of_mem hnew

end Upsert

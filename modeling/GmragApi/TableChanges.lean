import Mathlib.Data.List.Nodup
import Mathlib.Data.List.Basic

/-! What an open transaction has made of a table with row ids: the rows it deleted and the rows it
wrote. It sees them over the committed rows, the others see them when it commits. -/

structure TableChanges (α : Type*) where
  deleted : List α
  written : List α

namespace TableChanges

variable {α β ι κ : Type*}

def empty : TableChanges α := ⟨[], []⟩

/-- The rows that the transaction holds. -/
def rows (c : TableChanges α) : List α := c.deleted ++ c.written

def delete (c : TableChanges α) (gone : List α) : TableChanges α :=
  { c with deleted := c.deleted ++ gone }

def write (c : TableChanges α) (new : List α) : TableChanges α :=
  { c with written := c.written ++ new }

@[simp] theorem delete_deleted (c : TableChanges α) (gone : List α) :
    (c.delete gone).deleted = c.deleted ++ gone := rfl

@[simp] theorem delete_written (c : TableChanges α) (gone : List α) :
    (c.delete gone).written = c.written := rfl

@[simp] theorem write_deleted (c : TableChanges α) (new : List α) :
    (c.write new).deleted = c.deleted := rfl

@[simp] theorem write_written (c : TableChanges α) (new : List α) :
    (c.write new).written = c.written ++ new := rfl

variable {c d : TableChanges α} {a : α}

theorem mem_rows : a ∈ c.rows ↔ a ∈ c.deleted ∨ a ∈ c.written := List.mem_append

theorem mem_rows_of_written (h : a ∈ c.written) : a ∈ c.rows := mem_rows.mpr (.inr h)

theorem mem_rows_delete {gone : List α} : a ∈ (c.delete gone).rows ↔ a ∈ c.rows ∨ a ∈ gone := by
  simp only [mem_rows, delete_deleted, delete_written, List.mem_append]
  exact or_right_comm

theorem mem_rows_write {new : List α} : a ∈ (c.write new).rows ↔ a ∈ c.rows ∨ a ∈ new := by
  simp only [mem_rows, write_deleted, write_written, List.mem_append, or_assoc]

/-- What holds of the rows held so far and of one more. -/
theorem forall_rows_delete {p : α → Prop} {gone : List α} (h : ∀ r ∈ c.rows, p r)
    (hgone : ∀ r ∈ gone, p r) : ∀ r ∈ (c.delete gone).rows, p r := fun r hr =>
  (mem_rows_delete.mp hr).elim (h r) (hgone r)

theorem forall_rows_write {p : α → Prop} {new : List α} (h : ∀ r ∈ c.rows, p r)
    (hnew : ∀ r ∈ new, p r) : ∀ r ∈ (c.write new).rows, p r := fun r hr =>
  (mem_rows_write.mp hr).elim (h r) (hnew r)

/-- The changes leave the row of an id alone. -/
def Spares (id : α → ι) (c : TableChanges α) (i : ι) : Prop := ∀ r ∈ c.rows, id r ≠ i

variable {id : α → ι} {label : α → β} {key : α → κ}

theorem Spares.of_write {i : ι} {new : List α} (h : (c.write new).Spares id i) : c.Spares id i :=
  fun r hr => h r (mem_rows_write.mpr (.inl hr))

theorem Spares.of_delete {i : ι} {gone : List α} (h : (c.delete gone).Spares id i) :
    c.Spares id i := fun r hr => h r (mem_rows_delete.mpr (.inl hr))

/-- No row of the one has the id or the key of a row that the other wrote. -/
def Apart (id : α → ι) (key : α → κ) (c d : TableChanges α) : Prop :=
  ∀ r ∈ c.rows, ∀ r' ∈ d.written, id r ≠ id r' ∧ key r ≠ key r'

theorem Apart.delete (h : Apart id key c d) {gone : List α}
    (hgone : ∀ r ∈ gone, ∀ r' ∈ d.written, id r ≠ id r' ∧ key r ≠ key r') :
    Apart id key (c.delete gone) d := forall_rows_delete h hgone

theorem Apart.write (h : Apart id key c d) {new : List α}
    (hnew : ∀ r ∈ new, ∀ r' ∈ d.written, id r ≠ id r' ∧ key r ≠ key r') :
    Apart id key (c.write new) d := forall_rows_write h hnew

/-- A row that shares nothing with those of the other transaction. -/
theorem free_of_unheld {r : α} (h : ∀ r' ∈ d.rows, id r' ≠ id r ∧ key r' ≠ key r) :
    ∀ a ∈ [r], ∀ r' ∈ d.written, id a ≠ id r' ∧ key a ≠ key r' := by
  intro a ha r' hr'
  have hne := h r' (mem_rows_of_written hr')
  rw [List.mem_singleton.mp ha]
  exact ⟨hne.1.symm, hne.2.symm⟩

theorem Apart.write_right (h : Apart id key c d) {new : List α}
    (hnew : ∀ r ∈ c.rows, ∀ r' ∈ new, id r ≠ id r' ∧ key r ≠ key r') :
    Apart id key c (d.write new) := fun r hr r' hr' =>
  (List.mem_append.mp hr').elim (h r hr r') (hnew r hr r')

/-- The changes of a transaction fit the committed table: a row it holds has kept its label, and a
row it wrote takes no key that another row has. -/
structure Fits (id : α → ι) (label : α → β) (key : α → κ) (c : TableChanges α)
    (table : List α) : Prop where
  ids : (c.written.map id).Nodup
  keys : (c.written.map key).Nodup
  same : ∀ r ∈ c.rows, ∀ a ∈ table, id a = id r → label a = label r
  free : ∀ r ∈ c.written, ∀ a ∈ table, key a = key r → ¬ c.Spares id (id a)

section Fits

variable {table : List α}

theorem fits_empty : (empty : TableChanges α).Fits id label key table where
  ids := List.nodup_nil
  keys := List.nodup_nil
  same _ h := absurd h List.not_mem_nil
  free _ h := absurd h List.not_mem_nil

theorem Fits.delete (h : c.Fits id label key table) {gone : List α}
    (hgone : ∀ r ∈ gone, ∀ a ∈ table, id a = id r → label a = label r) :
    (c.delete gone).Fits id label key table where
  ids := h.ids
  keys := h.keys
  same r hr := (mem_rows_delete.mp hr).elim (h.same r) (hgone r)
  free r hr a ha heq hspares := h.free r hr a ha heq hspares.of_delete

theorem nodup_map_append_singleton {f : α → κ} {rows : List α} (h : (rows.map f).Nodup)
    (hne : ∀ b ∈ rows, f b ≠ f a) : ((rows ++ [a]).map f).Nodup := by
  rw [List.map_append, List.map_singleton]
  refine List.nodup_append.mpr ⟨h, List.nodup_singleton _, fun k hk l hl heq => ?_⟩
  obtain ⟨b, hb, rfl⟩ := List.mem_map.mp hk
  exact hne b hb (heq.trans (List.mem_singleton.mp hl))

theorem Fits.write_one (h : c.Fits id label key table) {r : α} (hid : ∀ b ∈ c.written, id b ≠ id r)
    (hkey : ∀ b ∈ c.written, key b ≠ key r)
    (hsame : ∀ a ∈ table, id a = id r → label a = label r)
    (hfree : ∀ a ∈ table, key a = key r → ¬ (c.write [r]).Spares id (id a)) :
    (c.write [r]).Fits id label key table := by
  refine ⟨nodup_map_append_singleton h.ids hid, nodup_map_append_singleton h.keys hkey,
    fun b hb a ha heq => ?_, fun b hb a ha heq => ?_⟩
  · rcases mem_rows_write.mp hb with hb | hb
    · exact h.same b hb a ha heq
    · rw [List.mem_singleton.mp hb] at heq ⊢
      exact hsame a ha heq
  · rcases List.mem_append.mp hb with hb | hb
    · exact fun hspares => h.free b hb a ha heq hspares.of_write
    · rw [List.mem_singleton.mp hb] at heq
      exact hfree a ha heq

end Fits

section Apply

variable [DecidableEq ι] {table : List α}

/-- The table as the transaction sees it. -/
def apply (id : α → ι) (c : TableChanges α) (table : List α) : List α :=
  (table.filter fun a => !c.rows.any (id · == id a)) ++ c.written

theorem mem_apply : a ∈ c.apply id table ↔ (a ∈ table ∧ c.Spares id (id a)) ∨ a ∈ c.written := by
  simp only [apply, List.mem_append, List.mem_filter, Bool.not_eq_true', List.any_eq_false,
    beq_iff_eq, Spares, ne_eq]

/-- Whatever the changed table holds was in it or is written. -/
theorem mem_or_written (h : a ∈ c.apply id table) : a ∈ table ∨ a ∈ c.written :=
  (mem_apply.mp h).imp_left And.left

/-- The labels of the changed table: those of the rows that are spared or kept their label, and the
written ones. -/
theorem Fits.mem_map_apply (h : c.Fits id label key table) (kept : β → Prop)
    (hspared : ∀ a ∈ table, c.Spares id (id a) → kept (label a))
    (hdeleted : ∀ r ∈ c.deleted, ¬ kept (label r)) {l : β} :
    l ∈ (c.apply id table).map label ↔
      (l ∈ table.map label ∧ kept l) ∨ ∃ r ∈ c.written, label r = l := by
  constructor
  · intro hl
    obtain ⟨a, ha, rfl⟩ := List.mem_map.mp hl
    rcases mem_apply.mp ha with ⟨ha, hspares⟩ | hnew
    · exact .inl ⟨List.mem_map_of_mem ha, hspared a ha hspares⟩
    · exact .inr ⟨a, hnew, rfl⟩
  · rintro (⟨hl, hkept⟩ | ⟨r, hr, rfl⟩)
    · obtain ⟨a, ha, rfl⟩ := List.mem_map.mp hl
      by_cases hspares : c.Spares id (id a)
      · exact List.mem_map_of_mem (mem_apply.mpr (.inl ⟨ha, hspares⟩))
      · simp only [Spares, not_forall, ne_eq, not_not] at hspares
        obtain ⟨r, hr, hid⟩ := hspares
        have hlabel := h.same r hr a ha hid.symm
        rcases mem_rows.mp hr with hgone | hwritten
        · exact absurd (hlabel ▸ hkept) (hdeleted r hgone)
        · rw [hlabel]
          exact List.mem_map_of_mem (mem_apply.mpr (.inr hwritten))
    · exact List.mem_map_of_mem (mem_apply.mpr (.inr hr))

/-- A row that was seen when all like it were deleted is not spared. -/
theorem not_spares_delete_filter {p : α → Bool} (ha : a ∈ table) (hp : p a = true) :
    ¬ (c.delete ((c.apply id table).filter p)).Spares id (id a) := by
  intro hspares
  have hseen : a ∈ c.apply id table := mem_apply.mpr (.inl ⟨ha, hspares.of_delete⟩)
  exact hspares a (mem_rows_delete.mpr (.inr (List.mem_filter.mpr ⟨hseen, hp⟩))) rfl

/-- Values that no two rows share stay so, if a row with the value of a written one is changed. -/
theorem map_apply_nodup {f : α → κ} (htable : (table.map f).Nodup)
    (hwritten : (c.written.map f).Nodup)
    (hfree : ∀ r ∈ c.written, ∀ a ∈ table, f a = f r → ¬ c.Spares id (id a)) :
    ((c.apply id table).map f).Nodup := by
  rw [apply, List.map_append, List.nodup_append]
  refine ⟨htable.sublist (List.filter_sublist.map f), hwritten, fun k hk l hl heq => ?_⟩
  obtain ⟨a, ha, rfl⟩ := List.mem_map.mp hk
  obtain ⟨r, hr, rfl⟩ := List.mem_map.mp hl
  obtain ⟨hmem, hspares⟩ := List.mem_filter.mp ha
  refine hfree r hr a hmem heq fun b hb => ?_
  have hnone := List.any_eq_false.mp (Bool.not_eq_true' _ ▸ hspares) b hb
  simpa using hnone

theorem Fits.apply_ids (h : c.Fits id label key table) (htable : (table.map id).Nodup) :
    ((c.apply id table).map id).Nodup :=
  map_apply_nodup htable h.ids fun r hr _ _ heq hspares =>
    hspares r (mem_rows_of_written hr) heq.symm

theorem Fits.apply_keys (h : c.Fits id label key table) (htable : (table.map key).Nodup) :
    ((c.apply id table).map key).Nodup :=
  map_apply_nodup htable h.keys h.free

/-- Another transaction that commits leaves them fitting. -/
theorem Fits.other (h : c.Fits id label key table) (hapart : Apart id key c d) :
    c.Fits id label key (d.apply id table) where
  ids := h.ids
  keys := h.keys
  same r hr a ha heq := by
    rcases mem_or_written ha with ha | ha
    · exact h.same r hr a ha heq
    · exact absurd heq.symm (hapart r hr a ha).1
  free r hr a ha heq := by
    rcases mem_or_written ha with ha | ha
    · exact h.free r hr a ha heq
    · exact absurd heq.symm (hapart r (mem_rows_of_written hr) a ha).2

end Apply

section Upsert

variable [DecidableEq ι] {table : List α} {merge : α → α → α} {has : α → Bool} {proposed : α}

/-- The row that an upsert leaves: the one that it finds, merged, or the proposed one. -/
def upserted (id : α → ι) (merge : α → α → α) (c : TableChanges α) (table : List α)
    (has : α → Bool) (proposed : α) : α :=
  ((c.apply id table).find? has).elim proposed fun old => merge old proposed

theorem upserted_key (hhas : ∀ a, has a = true ↔ key a = key proposed)
    (hmerge : ∀ old new, key (merge old new) = key old) :
    key (upserted id merge c table has proposed) = key proposed := by
  rw [upserted]
  cases hfind : (c.apply id table).find? has with
  | none => rfl
  | some old => exact (hmerge old proposed).trans ((hhas old).mp (List.find?_some hfind))

/-- What an upsert finds of a key that the transaction has not written yet. -/
theorem upserted_cases (id : α → ι) (merge : α → α → α) (table : List α)
    (hhas : ∀ a, has a = true ↔ key a = key proposed)
    (hnew : ∀ r ∈ c.written, key r ≠ key proposed) :
    (∃ old ∈ table, c.Spares id (id old) ∧ key old = key proposed ∧
        upserted id merge c table has proposed = merge old proposed) ∨
      (∀ a ∈ table, key a = key proposed → ¬ c.Spares id (id a)) ∧
        upserted id merge c table has proposed = proposed := by
  rw [upserted]
  cases hfind : (c.apply id table).find? has with
  | none =>
    refine .inr ⟨fun a ha heq hspares => ?_, rfl⟩
    exact List.find?_eq_none.mp hfind a (mem_apply.mpr (.inl ⟨ha, hspares⟩)) ((hhas a).mpr heq)
  | some old =>
    have hkey := (hhas old).mp (List.find?_some hfind)
    rcases mem_apply.mp (List.mem_of_find?_eq_some hfind) with ⟨hold, hspares⟩ | hown
    · exact .inl ⟨old, hold, hspares, hkey, rfl⟩
    · exact absurd hkey (hnew old hown)

theorem Fits.write_upserted (h : c.Fits id label key table)
    (hhas : ∀ a, has a = true ↔ key a = key proposed)
    (hlabel : ∀ old new, label (merge old new) = label old)
    (hid : ∀ a b, label a = label b → id a = id b)
    (hkey : ∀ a b, label a = label b → key a = key b)
    (hids : (table.map id).Nodup) (hkeys : (table.map key).Nodup)
    (hnew : ∀ r ∈ c.written, key r ≠ key proposed)
    (hfresh : ∀ a ∈ table, id a ≠ id proposed) (hspare : c.Spares id (id proposed)) :
    (c.write [upserted id merge c table has proposed]).Fits id label key table := by
  rcases upserted_cases id merge table hhas hnew with
    ⟨old, hmem, hspares, holdKey, heq⟩ | ⟨hnone, heq⟩
  · have hmergedId : id (merge old proposed) = id old := hid _ _ (hlabel old proposed)
    have hmergedKey : key (merge old proposed) = key old := hkey _ _ (hlabel old proposed)
    rw [heq]
    refine h.write_one (fun b hb => ?_) (fun b hb => ?_) (fun a ha hidEq => ?_)
      (fun a ha hkeyEq hsp => ?_)
    · exact hmergedId ▸ hspares b (mem_rows_of_written hb)
    · exact (hmergedKey.trans holdKey) ▸ hnew b hb
    · rw [List.inj_on_of_nodup_map hids ha hmem (hidEq.trans hmergedId), hlabel]
    · have ha : a = old := List.inj_on_of_nodup_map hkeys ha hmem (hkeyEq.trans hmergedKey)
      exact hsp _ (mem_rows_write.mpr (.inr (List.mem_singleton_self _))) (ha ▸ hmergedId)
  · rw [heq]
    refine h.write_one (fun b hb => hspare b (mem_rows_of_written hb)) hnew (fun a ha hidEq => ?_)
      (fun a ha hkeyEq hsp => ?_)
    · exact absurd hidEq (hfresh a ha)
    · exact hnone a ha hkeyEq hsp.of_write

end Upsert

end TableChanges

import Mathlib.Data.List.Basic
import Mathlib.Data.List.Induction

/-! Events gathered by key: the first event of a key makes its value, and every event of the key,
the first one too, is taken into it. -/

namespace Gather

variable {κ α β : Type*} [BEq κ] (start : α → β) (take : β → α → β)

def put (table : List (κ × β)) (event : κ × α) : List (κ × β) :=
  if table.any fun entry => entry.1 == event.1 then
    table.map fun entry =>
      if entry.1 == event.1 then (entry.1, take entry.2 event.2) else entry
  else table ++ [(event.1, take (start event.2) event.2)]

def gather (events : List (κ × α)) : List (κ × β) := events.foldl (put start take) []

/-- The events of one key, in their order. -/
def eventsAt (events : List (κ × α)) (key : κ) : List α :=
  (events.filter fun event => event.1 == key).map Prod.snd

/-- What the events of one key come to. -/
def total : List α → Option β
  | [] => none
  | first :: rest => some ((first :: rest).foldl take (start first))

variable {start take} {table : List (κ × β)} {key : κ} {value : β} {event : κ × α}

section Keep

variable (h : ∀ value event, take value event = value)
include h

theorem put_of_keep :
    put start take table event =
      if table.any fun entry => entry.1 == event.1 then table
      else table ++ [(event.1, start event.2)] := by
  unfold put
  split
  · refine (List.map_congr_left fun entry _ => ?_).trans (List.map_id table)
    rw [h]
    split <;> rfl
  · rw [h]

/-- Where nothing is added to the first event, its value stands. -/
theorem total_of_keep (events : List α) : total start take events = events.head?.map start := by
  cases events with
  | nil => rfl
  | cons first rest =>
    have hkeep : ∀ (l : List α) (value : β), l.foldl take value = value := by
      intro l
      induction l with
      | nil => exact fun value => rfl
      | cons a l ih => exact fun value => by rw [List.foldl_cons, h, ih]
    rw [total, hkeep]
    rfl

end Keep

theorem total_append_of_none {events : List α} (h : total start take events = none) (last : α) :
    total start take (events ++ [last]) = some (take (start last) last) := by
  cases events with
  | nil => rfl
  | cons first rest => cases h

theorem total_append_of_some {events : List α} (h : total start take events = some value)
    (last : α) : total start take (events ++ [last]) = some (take value last) := by
  cases events with
  | nil => cases h
  | cons first rest =>
    cases Option.some.inj h
    simp only [total, List.cons_append, List.foldl_cons, List.foldl_append, List.foldl_nil]

section Lawful

variable [LawfulBEq κ]

theorem mem_put_of_ne (h : key ≠ event.1) :
    (key, value) ∈ put start take table event ↔ (key, value) ∈ table := by
  unfold put
  split
  · constructor
    · intro hmem
      obtain ⟨old, hold, heq⟩ := List.mem_map.mp hmem
      split at heq
      next hkey =>
        refine absurd ?_ h
        rw [← beq_iff_eq.mp hkey]
        exact (congrArg Prod.fst heq).symm
      next => exact heq ▸ hold
    · intro hmem
      refine List.mem_map.mpr ⟨(key, value), hmem, ?_⟩
      rw [if_neg (by simpa using h)]
  · simp [h]

theorem mem_put_self :
    (event.1, value) ∈ put start take table event ↔
      (∃ old, (event.1, old) ∈ table ∧ value = take old event.2) ∨
        (∀ entry ∈ table, entry.1 ≠ event.1) ∧ value = take (start event.2) event.2 := by
  unfold put
  split
  next hany =>
    obtain ⟨held, hheld, hkey⟩ := List.any_eq_true.mp hany
    have hthere : ¬ ∀ entry ∈ table, entry.1 ≠ event.1 := fun h =>
      h held hheld (beq_iff_eq.mp hkey)
    rw [or_iff_left fun h => hthere h.1]
    constructor
    · intro hmem
      obtain ⟨old, hold, heq⟩ := List.mem_map.mp hmem
      split at heq
      next hsame =>
        refine ⟨old.2, ?_, (congrArg Prod.snd heq).symm⟩
        rw [← beq_iff_eq.mp hsame]
        exact hold
      next hother =>
        refine absurd ?_ hother
        rw [heq]
        exact beq_self_eq_true _
    · rintro ⟨old, hold, rfl⟩
      exact List.mem_map.mpr ⟨_, hold, if_pos (beq_self_eq_true _)⟩
  next hany =>
    have hnone : ∀ entry ∈ table, entry.1 ≠ event.1 := by
      intro entry hentry hkey
      exact hany (List.any_eq_true.mpr ⟨entry, hentry, beq_iff_eq.mpr hkey⟩)
    have habsent : ∀ old, (event.1, old) ∉ table := fun old hold => hnone _ hold rfl
    simp only [List.mem_append, List.mem_singleton, Prod.mk.injEq, true_and]
    constructor
    · rintro (hold | hnew)
      · exact absurd hold (habsent value)
      · exact Or.inr ⟨hnone, hnew⟩
    · rintro (⟨old, hold, -⟩ | ⟨-, hnew⟩)
      · exact absurd hold (habsent old)
      · exact Or.inr hnew

theorem put_keys_nodup (h : (table.map Prod.fst).Nodup) :
    ((put start take table event).map Prod.fst).Nodup := by
  unfold put
  split
  next =>
    have hkeys : (table.map fun entry =>
        if entry.1 == event.1 then (entry.1, take entry.2 event.2) else entry).map Prod.fst =
          table.map Prod.fst := by
      rw [List.map_map]
      refine List.map_congr_left fun entry _ => ?_
      rw [Function.comp_apply]
      split <;> rfl
    rwa [hkeys]
  next hany =>
    rw [List.map_append, List.map_singleton, List.nodup_append]
    refine ⟨h, List.pairwise_singleton _ _, fun key hkey last hlast heq => hany ?_⟩
    obtain ⟨entry, hentry, rfl⟩ := List.mem_map.mp hkey
    have hsame : entry.1 = event.1 := heq.trans (List.mem_singleton.mp hlast)
    exact List.any_eq_true.mpr ⟨entry, hentry, beq_iff_eq.mpr hsame⟩

/-- Every key stands in the table once. -/
theorem gather_keys_nodup (start : α → β) (take : β → α → β) (events : List (κ × α)) :
    ((gather start take events).map Prod.fst).Nodup := by
  have hrun : ∀ table : List (κ × β), (table.map Prod.fst).Nodup →
      ((events.foldl (put start take) table).map Prod.fst).Nodup := by
    induction events with
    | nil => exact fun _ h => h
    | cons event events ih => exact fun table h => ih _ (put_keys_nodup h)
  exact hrun [] List.nodup_nil

theorem eventsAt_append_self (events : List (κ × α)) :
    eventsAt (events ++ [event]) event.1 = eventsAt events event.1 ++ [event.2] := by
  simp [eventsAt]

theorem eventsAt_append_of_ne (events : List (κ × α)) (h : key ≠ event.1) :
    eventsAt (events ++ [event]) key = eventsAt events key := by
  simp [eventsAt, Ne.symm h]

theorem mem_eventsAt {events : List (κ × α)} {a : α} :
    a ∈ eventsAt events key ↔ (key, a) ∈ events := by
  simp [eventsAt]

/-- The table has each key with what its own events come to. -/
theorem mem_gather_iff (events : List (κ × α)) (key : κ) (value : β) :
    (key, value) ∈ gather start take events ↔
      total start take (eventsAt events key) = some value := by
  induction events using List.reverseRecOn generalizing key value with
  | nil => simp [gather, eventsAt, total]
  | append_singleton events event ih =>
    have hstep : gather start take (events ++ [event]) =
        put start take (gather start take events) event := by
      simp only [gather, List.foldl_append, List.foldl_cons, List.foldl_nil]
    rw [hstep]
    by_cases hkey : key = event.1
    · subst hkey
      rw [mem_put_self, eventsAt_append_self]
      cases htotal : total start take (eventsAt events event.1) with
      | none =>
        have habsent : ∀ entry ∈ gather start take events, entry.1 ≠ event.1 := by
          rintro ⟨k, v⟩ hentry rfl
          rw [(ih event.1 v).mp hentry] at htotal
          cases htotal
        have hold : ¬ ∃ old, (event.1, old) ∈ gather start take events ∧
            value = take old event.2 := fun ⟨_, h, _⟩ => habsent _ h rfl
        rw [total_append_of_none htotal, or_iff_right hold, Option.some_inj]
        exact ⟨fun h => h.2.symm, fun h => ⟨habsent, h.symm⟩⟩
      | some held =>
        have hheld : (event.1, held) ∈ gather start take events := (ih _ _).mpr htotal
        have hthere : ¬ ∀ entry ∈ gather start take events, entry.1 ≠ event.1 := fun h =>
          h _ hheld rfl
        rw [total_append_of_some htotal, or_iff_left fun h => hthere h.1, Option.some_inj]
        constructor
        · rintro ⟨old, hold, rfl⟩
          rw [(ih _ _).mp hold] at htotal
          rw [Option.some.inj htotal]
        · rintro rfl
          exact ⟨held, hheld, rfl⟩
    · rw [mem_put_of_ne hkey, eventsAt_append_of_ne events hkey]
      exact ih key value

/-- What holds at the key of every event is what holds of every key's events. -/
theorem forall_eventsAt_iff {P : List α → Prop} {events : List (κ × α)} :
    (∀ event ∈ events, P (eventsAt events event.1)) ↔
      ∀ key first rest, eventsAt events key = first :: rest → P (first :: rest) := by
  constructor
  · intro h key first rest hevents
    have hfirst : first ∈ eventsAt events key := hevents ▸ List.mem_cons_self
    obtain ⟨event, hevent, rfl⟩ := List.mem_map.mp hfirst
    obtain ⟨hmem, hkey⟩ := List.mem_filter.mp hevent
    rw [← hevents, ← beq_iff_eq.mp hkey]
    exact h event hmem
  · intro h event hmem
    have hself : event.2 ∈ eventsAt events event.1 :=
      List.mem_map_of_mem (List.mem_filter.mpr ⟨hmem, beq_self_eq_true event.1⟩)
    cases hevents : eventsAt events event.1 with
    | nil =>
      rw [hevents] at hself
      exact absurd hself List.not_mem_nil
    | cons first rest => exact h event.1 first rest hevents

end Lawful

end Gather

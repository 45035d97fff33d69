import GmragApi.Transition
import Mathlib.Data.List.Basic
import Mathlib.Data.List.Perm.Basic
import Mathlib.Tactic.Ring

/-! A list cut into batches, a buffer that runs some of them at a time and lets them end in any
order, and what puts their outputs back in place. -/

namespace Batching

section Batches

variable {α β : Type*}

def batchCount (size : ℕ) (l : List α) : ℕ := (l.length + size - 1) / size

/-- The batches with the positions at which they start; the last may be shorter. -/
def batches (size : ℕ) (l : List α) : List (ℕ × List α) :=
  (List.range (batchCount size l)).map fun k => (k * size, (l.drop (k * size)).take size)

theorem batchCount_bounds {size : ℕ} (hsize : 0 < size) (l : List α) :
    l.length ≤ batchCount size l * size ∧
      ∀ k, k < batchCount size l ↔ k * size < l.length := by
  have hdiv := Nat.div_add_mod (l.length + size - 1) size
  have hmod := Nat.mod_lt (l.length + size - 1) hsize
  rw [Nat.mul_comm] at hdiv
  refine ⟨by unfold batchCount; omega, fun k => ?_⟩
  rw [batchCount, Nat.lt_iff_add_one_le, Nat.le_div_iff_mul_le hsize, Nat.succ_mul]
  omega

/-- All batches but the last are full. -/
theorem batch_length {size : ℕ} (hsize : 0 < size) {l : List α} {k : ℕ}
    (hk : k + 1 < batchCount size l) : ((l.drop (k * size)).take size).length = size := by
  have hstart := ((batchCount_bounds hsize l).2 (k + 1)).mp hk
  rw [Nat.succ_mul] at hstart
  rw [List.length_take, List.length_drop]
  omega

theorem flatMap_length {size m : ℕ} {out : ℕ → List β} (hout : ∀ k < m, (out k).length = size) :
    ((List.range m).flatMap out).length = m * size := by
  induction m with
  | zero => rw [List.range_zero, List.flatMap_nil, List.length_nil, Nat.zero_mul]
  | succ m ih =>
    rw [List.range_succ, List.flatMap_append, List.length_append, ih fun k hk => hout k (by omega),
      List.flatMap_singleton, hout m (by omega), Nat.succ_mul]

/-- Outputs as long as their batches stand at the positions of their inputs. -/
theorem flatMap_zipIdx {size m : ℕ} {out : ℕ → List β}
    (hout : ∀ k, k + 1 < m → (out k).length = size) :
    (List.range m).flatMap (fun k => (out k).zipIdx (k * size)) =
      ((List.range m).flatMap out).zipIdx := by
  induction m with
  | zero => rfl
  | succ m ih =>
    have hlen : ((List.range m).flatMap out).length = m * size :=
      flatMap_length fun k hk => hout k (by omega)
    rw [List.range_succ, List.flatMap_append, List.flatMap_append, List.zipIdx_append,
      ih fun k hk => hout k (by omega), hlen, List.flatMap_singleton, List.flatMap_singleton,
      Nat.zero_add]

/-- The element at a position stands in the batch of its quotient, at its remainder. -/
theorem flatMap_getElem? {size m : ℕ} {out : ℕ → List β}
    (hout : ∀ k, k + 1 < m → (out k).length = size) {k j : ℕ} (hk : k < m) {b : β}
    (hj : (out k)[j]? = some b) : ((List.range m).flatMap out)[k * size + j]? = some b := by
  have hentry : (b, k * size + j) ∈ (out k).zipIdx (k * size) := by
    rw [List.mk_mem_zipIdx_iff_le_and_getElem?_sub]
    exact ⟨Nat.le_add_right .., by rwa [Nat.add_sub_cancel_left]⟩
  have hall : (b, k * size + j) ∈ (List.range m).flatMap fun k => (out k).zipIdx (k * size) :=
    List.mem_flatMap.mpr ⟨k, List.mem_range.mpr hk, hentry⟩
  rw [flatMap_zipIdx hout] at hall
  exact List.mem_zipIdx_iff_getElem?.mp hall

/-- The lengths of the batches add up to the length of the list. -/
theorem flatMap_batch_length {size : ℕ} (hsize : 0 < size) {l : List α} {out : ℕ → List β}
    (hout : ∀ k < batchCount size l, (out k).length = ((l.drop (k * size)).take size).length) :
    ((List.range (batchCount size l)).flatMap out).length = l.length := by
  obtain ⟨hcover, hstart⟩ := batchCount_bounds hsize l
  rcases Nat.eq_zero_or_pos (batchCount size l) with hzero | hpos
  · rw [hzero, Nat.zero_mul] at hcover
    rw [hzero, List.range_zero, List.flatMap_nil, List.length_nil]
    omega
  · obtain ⟨m, hm⟩ := Nat.exists_eq_add_of_lt hpos
    rw [Nat.zero_add] at hm
    have hlast := (hstart m).mp (by omega)
    have hfull : ∀ k < m, (out k).length = size := fun k hk => by
      rw [hout k (by omega), batch_length hsize (by omega)]
    rw [hm, Nat.succ_mul] at hcover
    rw [hm, List.range_succ, List.flatMap_append, List.length_append, flatMap_length hfull,
      List.flatMap_singleton, hout m (by omega), List.length_take, List.length_drop]
    omega

end Batches

section Placing

variable {α : Type*}

/-- Every entry is written to its position; one beyond the end is dropped. -/
def place (slots : List (Option α)) (entries : List (α × ℕ)) : List (Option α) :=
  entries.foldl (fun slots entry => slots.set entry.2 (some entry.1)) slots

theorem place_length (slots : List (Option α)) (entries : List (α × ℕ)) :
    (place slots entries).length = slots.length := by
  induction entries generalizing slots with
  | nil => rfl
  | cons entry entries ih =>
    have hrest := ih (slots.set entry.2 (some entry.1))
    rw [List.length_set] at hrest
    exact hrest

theorem place_other (slots : List (Option α)) {entries : List (α × ℕ)} {i : ℕ}
    (h : i ∉ entries.map Prod.snd) : (place slots entries)[i]? = slots[i]? := by
  induction entries generalizing slots with
  | nil => rfl
  | cons entry entries ih =>
    rw [List.map_cons, List.mem_cons, not_or] at h
    have hrest := ih (slots.set entry.2 (some entry.1)) h.2
    rw [List.getElem?_set_ne (Ne.symm h.1)] at hrest
    exact hrest

/-- Where no two entries have the same position, the order in which they come is of no account. -/
theorem place_getElem? {slots : List (Option α)} {entries : List (α × ℕ)}
    (hnodup : (entries.map Prod.snd).Nodup) {a : α} {i : ℕ} (hi : i < slots.length)
    (h : (a, i) ∈ entries) : (place slots entries)[i]? = some (some a) := by
  induction entries generalizing slots with
  | nil => cases h
  | cons entry entries ih =>
    rw [List.map_cons, List.nodup_cons] at hnodup
    rcases List.mem_cons.mp h with rfl | h
    · have hrest := place_other (slots.set i (some a)) hnodup.1
      rw [List.getElem?_set_self hi] at hrest
      exact hrest
    · exact ih hnodup.2 (by rwa [List.length_set]) h

/-- The elements of a list, come in any order with their positions, fill the slots as the list
has them. -/
theorem place_of_perm {l : List α} {entries : List (α × ℕ)} (h : entries.Perm l.zipIdx) :
    place (List.replicate l.length none) entries = l.map some := by
  have hpositions : (entries.map Prod.snd).Nodup := by
    rw [(h.map Prod.snd).nodup_iff, List.zipIdx_map_snd]
    exact List.nodup_range'
  refine List.ext_getElem? fun i => ?_
  rcases Nat.lt_or_ge i l.length with hi | hi
  · have hentry : (l[i], i) ∈ entries :=
      h.mem_iff.mpr (List.mem_zipIdx_iff_getElem?.mpr (List.getElem?_eq_getElem hi))
    rw [place_getElem? hpositions (by rwa [List.length_replicate]) hentry, List.getElem?_map,
      List.getElem?_eq_getElem hi]
    rfl
  · rw [List.getElem?_eq_none (by rwa [place_length, List.length_replicate]),
      List.getElem?_eq_none (by rwa [List.length_map])]

end Placing

section Buffer

variable {α β : Type*}

/-- The inputs that wait, those that run, and the outputs in the order in which they came. -/
structure Buffer (α β : Type*) where
  waiting : List α
  running : List α
  done : List β

namespace Buffer

def ofList (inputs : List α) : Buffer α β := ⟨inputs, [], []⟩

/-- Inputs start as long as fewer than `limit` run. -/
def fill (limit : ℕ) (s : Buffer α β) : Buffer α β :=
  let free := limit - s.running.length
  ⟨s.waiting.drop free, s.running ++ s.waiting.take free, s.done⟩

/-- One of the running inputs ends. -/
def complete (limit : ℕ) (f : α → β) (s : Buffer α β) (i : ℕ) : Option (Buffer α β) :=
  let s := s.fill limit
  s.running[i]?.map fun a => ⟨s.waiting, s.running.eraseIdx i, s.done ++ [f a]⟩

def finished (s : Buffer α β) : Bool := s.waiting.isEmpty && s.running.isEmpty

/-- What has come and what is to come. -/
def outputs (f : α → β) (s : Buffer α β) : List β := s.done ++ (s.running ++ s.waiting).map f

variable {limit : ℕ} {f : α → β} {s t : Buffer α β}

theorem fill_outputs (limit : ℕ) (f : α → β) (s : Buffer α β) :
    (s.fill limit).outputs f = s.outputs f := by
  unfold outputs fill
  dsimp only
  rw [List.append_assoc, List.take_append_drop]

theorem complete_outputs {i : ℕ} (h : complete limit f s i = some t) :
    (t.outputs f).Perm (s.outputs f) := by
  obtain ⟨a, ha, rfl⟩ := Option.map_eq_some_iff.mp h
  rw [← fill_outputs limit f s]
  obtain ⟨hi, hget⟩ := List.getElem?_eq_some_iff.mp ha
  have hperm : (a :: (s.fill limit).running.eraseIdx i).Perm (s.fill limit).running := by
    rw [← hget]
    exact List.getElem_cons_eraseIdx_perm hi
  unfold outputs
  dsimp only
  rw [List.append_assoc]
  exact ((hperm.append_right _).map f).append_left _

/-- Whatever the order in which they end, every input gives its output once. -/
theorem run_outputs {schedule : List ℕ}
    (h : Transition.run (complete limit f) s schedule = some t) :
    (t.outputs f).Perm (s.outputs f) := by
  have keep : ∀ u v i, (u.outputs f).Perm (s.outputs f) → Transition.anyStep u i →
      complete limit f u i = some v → (v.outputs f).Perm (s.outputs f) :=
    fun _ _ _ hi _ hstep => (complete_outputs hstep).trans hi
  exact Transition.run_invariant keep (.refl _) (Transition.meets_anyStep s schedule) h

theorem run_done {inputs : List α} {schedule : List ℕ}
    (h : Transition.run (complete limit f) (ofList inputs) schedule = some t)
    (hfinished : t.finished = true) : t.done.Perm (inputs.map f) := by
  obtain ⟨hwaiting, hrunning⟩ := Bool.and_eq_true_iff.mp hfinished
  have hperm := run_outputs h
  rw [outputs, List.isEmpty_iff.mp hwaiting, List.isEmpty_iff.mp hrunning] at hperm
  simpa [outputs, ofList] using hperm

/-- At any time the outputs that have come are some of those to come. -/
theorem run_subperm {inputs : List α} {schedule : List ℕ}
    (h : Transition.run (complete limit f) (ofList inputs) schedule = some t) :
    t.done.Subperm (inputs.map f) := by
  have hperm := run_outputs h
  have hsub : t.done.Sublist (t.outputs f) := List.sublist_append_left _ _
  have hall : (ofList inputs : Buffer α β).outputs f = inputs.map f := by
    simp [outputs, ofList]
  rw [hall] at hperm
  exact hsub.subperm.trans hperm.subperm

theorem fill_running (h : s.running.length ≤ limit) : (s.fill limit).running.length ≤ limit := by
  simp only [fill, List.length_append, List.length_take]
  omega

/-- Never do more inputs run than the limit allows. -/
theorem run_running {inputs : List α} {schedule : List ℕ}
    (h : Transition.run (complete limit f) (ofList inputs) schedule = some t) :
    t.running.length ≤ limit := by
  have keep : ∀ u v i, u.running.length ≤ limit → Transition.anyStep u i →
      complete limit f u i = some v → v.running.length ≤ limit := by
    intro u v i hu _ hstep
    obtain ⟨a, -, rfl⟩ := Option.map_eq_some_iff.mp hstep
    exact (List.length_eraseIdx_le _ _).trans (fill_running hu)
  exact Transition.run_invariant keep (Nat.zero_le _) (Transition.meets_anyStep _ schedule) h

/-- How many inputs have not ended. -/
def left (s : Buffer α β) : ℕ := s.running.length + s.waiting.length

theorem finished_iff_left : s.finished = true ↔ s.left = 0 := by
  rw [finished, Bool.and_eq_true_iff, List.isEmpty_iff, List.isEmpty_iff, left,
    Nat.add_eq_zero_iff, List.length_eq_zero_iff, List.length_eq_zero_iff, and_comm]

theorem complete_left {i : ℕ} (h : complete limit f s i = some t) : t.left + 1 = s.left := by
  obtain ⟨a, ha, rfl⟩ := Option.map_eq_some_iff.mp h
  obtain ⟨hi, -⟩ := List.getElem?_eq_some_iff.mp ha
  have herase := List.length_eraseIdx_add_one hi
  simp only [fill, List.length_append, List.length_take, List.length_drop, left] at hi herase ⊢
  omega

/-- A buffer that lets one input run goes on until all have ended. -/
theorem complete_exists (hlimit : 0 < limit) (f : α → β) (h : s.finished = false) :
    ∃ t, complete limit f s 0 = some t := by
  have hleft : s.left ≠ 0 := fun hzero => by
    rw [finished_iff_left.mpr hzero] at h
    cases h
  have hrunning : 0 < (s.fill limit).running.length := by
    simp only [fill, List.length_append, List.length_take, left] at hleft ⊢
    omega
  unfold complete
  dsimp only
  rw [List.getElem?_eq_getElem hrunning]
  exact ⟨_, rfl⟩

theorem run_finishes (hlimit : 0 < limit) (f : α → β) (s : Buffer α β) :
    ∃ schedule t, Transition.run (complete limit f) s schedule = some t ∧ t.finished = true := by
  induction hn : s.left generalizing s with
  | zero => exact ⟨[], s, rfl, finished_iff_left.mpr hn⟩
  | succ n ih =>
    have hopen : s.finished = false := by
      rw [← Bool.not_eq_true, finished_iff_left, hn]
      exact Nat.succ_ne_zero n
    obtain ⟨u, hu⟩ := complete_exists hlimit f hopen
    have hleft := complete_left hu
    obtain ⟨schedule, t, hrun, hfinished⟩ := ih u (by omega)
    refine ⟨0 :: schedule, t, ?_, hfinished⟩
    rw [Transition.run, hu]
    exact hrun

end Buffer

end Buffer

end Batching

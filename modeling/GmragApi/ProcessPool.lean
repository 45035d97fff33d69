import Mathlib.Data.List.Basic

/-! A pool of processes is a list: a process keeps its position for ever, a step replaces the
entry of one process, and a new process is appended. -/

namespace ProcessPool

variable {α : Type*} {pool : List α} {i : ℕ} {old new : α}

theorem getElem?_set_iff (h : pool[i]? = some old) {j : ℕ} {c : α} :
    (pool.set i new)[j]? = some c ↔ (j = i ∧ c = new) ∨ (j ≠ i ∧ pool[j]? = some c) := by
  have hi := (List.getElem?_eq_some_iff.mp h).1
  by_cases hj : j = i
  · subst hj
    rw [List.getElem?_set_self hi]
    simp [eq_comm]
  · rw [List.getElem?_set_ne (Ne.symm hj)]
    simp [hj]

theorem getElem?_set_own (new : α) (h : pool[i]? = some old) : (pool.set i new)[i]? = some new :=
  (getElem?_set_iff h).mpr (.inl ⟨rfl, rfl⟩)

theorem eq_of_getElem?_set_self (h : pool[i]? = some old) {c : α}
    (hc : (pool.set i new)[i]? = some c) : c = new := by
  rcases (getElem?_set_iff h).mp hc with ⟨-, hc⟩ | ⟨hne, -⟩
  · exact hc
  · exact absurd rfl hne

theorem getElem?_push_iff {j : ℕ} {c : α} :
    (pool ++ [new])[j]? = some c ↔ pool[j]? = some c ∨ (j = pool.length ∧ c = new) := by
  rcases Nat.lt_trichotomy j pool.length with h | h | h
  · simp [List.getElem?_append_left h, Nat.ne_of_lt h]
  · subst h
    simp [eq_comm]
  · have hj : ¬ j < pool.length := by omega
    simp [List.getElem?_append_right (Nat.le_of_lt h), List.getElem?_eq_none (Nat.le_of_lt h),
      Nat.ne_of_gt h, show j - pool.length ≠ 0 by omega]

/-- One process moves: its new entry is checked, the others are carried over. -/
theorem forall_set {P : ℕ → α → Prop} (h : pool[i]? = some old) (moved : P i new)
    (others : ∀ j c, j ≠ i → pool[j]? = some c → P j c) :
    ∀ j c, (pool.set i new)[j]? = some c → P j c := by
  intro j c hc
  rcases (getElem?_set_iff h).mp hc with ⟨rfl, rfl⟩ | ⟨hj, hc⟩
  · exact moved
  · exact others j c hj hc

theorem forall_push {P : ℕ → α → Prop} (started : P pool.length new)
    (others : ∀ j c, pool[j]? = some c → P j c) :
    ∀ j c, (pool ++ [new])[j]? = some c → P j c := by
  intro j c hc
  rcases getElem?_push_iff.mp hc with hc | ⟨rfl, rfl⟩
  · exact others j c hc
  · exact started

/-- How many processes satisfy `P`, after one of them has moved. -/
theorem countP_set (h : pool[i]? = some old) (new : α) (P : α → Bool) :
    (pool.set i new).countP P + (if P old then 1 else 0) =
      pool.countP P + (if P new then 1 else 0) := by
  obtain ⟨hi, rfl⟩ := List.getElem?_eq_some_iff.mp h
  rw [List.countP_set hi]
  have hpos : P pool[i] = true → 0 < pool.countP P := fun hp =>
    List.countP_pos_iff.mpr ⟨_, List.getElem_mem hi, hp⟩
  split
  next hp =>
    have := hpos hp
    omega
  next => omega

end ProcessPool

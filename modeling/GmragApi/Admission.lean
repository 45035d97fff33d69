import GmragApi.ProcessPool
import GmragApi.Transition

/-! Admission of chats: a semaphore for those that run, and a counter with drop guards for those
that wait for it. Each request is a future that can be dropped where it awaits. -/

namespace GmragApi.Admission

open Transition

inductive AdmissionRejection
  | queueFull
  | waitTimeout
  deriving DecidableEq

/-- Where a request stands. From `checking` to `leaving` it owns a `WaitingGuard`; `previous` is
what its `fetch_add` returned. -/
inductive Phase
  | arriving
  | counting
  | checking (previous : Nat)
  -- awaits the semaphore, which has given it no permit yet
  | waiting (previous : Nat)
  -- has been given a permit, and has not been polled since
  | granted (previous : Nat)
  -- gives the guard back; no rejection when the future was dropped
  | leaving (previous : Nat) (rejection : Option AdmissionRejection)
  | running
  | ended (rejection : Option AdmissionRejection)
  deriving DecidableEq

namespace Phase

/-- Of the phases with a live guard. -/
def previous? : Phase → Option Nat
  | checking previous | waiting previous | granted previous | leaving previous _ => some previous
  | _ => none

def holds : Phase → Bool
  | granted _ | running => true
  | _ => false

def blocked : Phase → Bool
  | waiting _ | granted _ => true
  | _ => false

def live : Phase → Bool
  | ended _ => false
  | _ => true

end Phase

/-- `available` are the permits of the semaphore that are free, `waitingCount` is the counter. -/
structure State where
  available : Nat
  waitingCount : Nat
  requests : List Phase

def initial (concurrency : Nat) : State := ⟨max concurrency 1, 0, []⟩

def State.goto (s : State) (i : Nat) (p : Phase) : State :=
  { s with requests := s.requests.set i p }

def State.takePermit (s : State) : State := { s with available := s.available - 1 }

/-- The drop of an `OwnedSemaphorePermit`, or of an acquire future that had been given one. -/
def State.givePermitBack (s : State) : State := { s with available := s.available + 1 }

def State.fetchAdd (s : State) : State := { s with waitingCount := s.waitingCount + 1 }

/-- The drop of a `WaitingGuard`. -/
def State.dropGuard (s : State) : State := { s with waitingCount := s.waitingCount - 1 }

inductive Act
  | arrive
  | advance (i : Nat)
  | grant (i : Nat)
  | timeOut (i : Nat)
  | cancel (i : Nat)

/-- The next atomic operation of the request itself. -/
def advance (queueDepth : Nat) (s : State) (i : Nat) : Phase → Option State
  | .arriving =>
    some (if 0 < s.available then s.takePermit.goto i .running else s.goto i .counting)
  | .counting => some (s.fetchAdd.goto i (.checking s.waitingCount))
  | .checking previous =>
    some (s.goto i (if queueDepth ≤ previous then .leaving previous (some .queueFull)
      else .waiting previous))
  | .granted _ => some (s.dropGuard.goto i .running)
  | .leaving _ rejection => some (s.dropGuard.goto i (.ended rejection))
  | .running => some (s.givePermitBack.goto i (.ended none))
  | .waiting _ | .ended _ => none

/-- The wait ends without a permit: one that had been given is given back before the guard. -/
def giveUp (s : State) (i : Nat) (rejection : Option AdmissionRejection) : Phase → Option State
  | .waiting previous => some (s.goto i (.leaving previous rejection))
  | .granted previous => some (s.givePermitBack.goto i (.leaving previous rejection))
  | _ => none

/-- Futures are dropped before they are first polled, where they await the semaphore, and while
their chat runs. -/
def cancel (s : State) (i : Nat) : Phase → Option State
  | .arriving => some (s.goto i (.ended none))
  | .running => some (s.givePermitBack.goto i (.ended none))
  | p => giveUp s i none p

/-- A free permit may go to any request that waits; no code closes the semaphore. -/
def step (queueDepth : Nat) (s : State) : Act → Option State
  | .arrive => some { s with requests := s.requests ++ [.arriving] }
  | .advance i => (s.requests[i]?).bind fun p => advance queueDepth s i p
  | .grant i =>
    match s.requests[i]? with
    | some (.waiting previous) =>
      if 0 < s.available then some (s.takePermit.goto i (.granted previous)) else none
    | _ => none
  | .timeOut i => (s.requests[i]?).bind fun p => giveUp s i (some .waitTimeout) p
  | .cancel i => (s.requests[i]?).bind fun p => cancel s i p

def State.held (s : State) : Nat := s.requests.countP Phase.holds
def State.blocked (s : State) : Nat := s.requests.countP Phase.blocked
def State.guards (s : State) : Nat := s.requests.countP (·.previous?.isSome)

/-- The guards whose request found fewer than `n` others before it. -/
def State.guardsBelow (s : State) (n : Nat) : Nat :=
  s.requests.countP (·.previous?.any (· < n))

/-- Guards are ranked: of those that found fewer than `n` others there are at most `n`. -/
structure Inv (concurrency queueDepth : Nat) (s : State) : Prop where
  conserved : s.held + s.available = max concurrency 1
  counted : s.waitingCount = s.guards
  ranked : ∀ n, s.guardsBelow n ≤ n
  admitted : ∀ p ∈ s.requests, p.blocked = true → ∀ n, p.previous? = some n → n < queueDepth

/-- What an operation does for the request at `i`, to the permits and to the counter. -/
structure Moves (s t : State) (i : Nat) (p p' : Phase) : Prop where
  requests : t.requests = s.requests.set i p'
  permits : t.available + (if p'.holds then 1 else 0) = s.available + (if p.holds then 1 else 0)
  counter : t.waitingCount + (if p.previous?.isSome then 1 else 0) =
    s.waitingCount + (if p'.previous?.isSome then 1 else 0)

section Step

variable {concurrency queueDepth : Nat} {s t : State} {i : Nat} {p p' : Phase}

theorem blocked_previous (h : p.blocked = true) : ∃ n, p.previous? = some n := by
  cases p with
  | waiting previous => exact ⟨previous, rfl⟩
  | granted previous => exact ⟨previous, rfl⟩
  | _ => cases h

/-- One move keeps the invariant: a new guard counts those before it, and who starts to wait has
found room. -/
theorem Inv.move (hi : Inv concurrency queueDepth s) (hp : s.requests[i]? = some p)
    (hm : Moves s t i p p')
    (hguard : p'.previous? = p.previous? ∨ p'.previous? = none ∨ p'.previous? = some s.waitingCount)
    (hblocked : p'.blocked = true → ∀ n, p'.previous? = some n → n < queueDepth) :
    Inv concurrency queueDepth t := by
  have hheld := ProcessPool.countP_set hp p' Phase.holds
  have hguards := ProcessPool.countP_set hp p' (·.previous?.isSome)
  have hpermits := hm.permits
  have hcounter := hm.counter
  refine ⟨?_, ?_, ?_, ?_⟩
  · have := hi.conserved
    simp only [State.held, hm.requests] at this ⊢
    omega
  · have := hi.counted
    simp only [State.guards, hm.requests] at this ⊢
    omega
  · intro n
    have hbelow := ProcessPool.countP_set hp p' (·.previous?.any (· < n))
    have hold := hi.ranked n
    have hall : s.guardsBelow n ≤ s.guards := by
      refine List.countP_mono_left fun q _ hq => ?_
      obtain ⟨m, hm, -⟩ := (Option.any_eq_true _ _).mp hq
      exact Option.isSome_of_eq_some hm
    have hcounted := hi.counted
    simp only [State.guardsBelow, State.guards, hm.requests] at hall hold hcounted ⊢
    rcases hguard with hsame | hnone | hnew
    · rw [hsame] at hbelow
      omega
    · rw [hnone] at hbelow
      simp only [Option.any_none, Bool.false_eq_true, if_false] at hbelow
      omega
    · rw [hnew] at hbelow
      simp only [Option.any_some, decide_eq_true_eq] at hbelow
      split at hbelow <;> split at hbelow <;> omega
  · intro q hq
    rw [hm.requests] at hq
    rcases List.mem_or_eq_of_mem_set hq with hq | rfl
    · exact hi.admitted q hq
    · exact hblocked

/-- The counter is not zero when a guard is dropped. -/
theorem Inv.dropGuard (hi : Inv concurrency queueDepth s) (hp : s.requests[i]? = some p)
    (hguarded : p.previous?.isSome = true) : s.dropGuard.waitingCount + 1 = s.waitingCount := by
  have hpos : 0 < s.guards := List.countP_pos_iff.mpr ⟨p, List.mem_of_getElem? hp, hguarded⟩
  have := hi.counted
  simp only [State.dropGuard]
  omega

theorem State.takePermit_available (h : 0 < s.available) :
    s.takePermit.available + 1 = s.available := by
  simp only [State.takePermit]
  omega

theorem advance_inv (hi : Inv concurrency queueDepth s) (hp : s.requests[i]? = some p)
    (h : advance queueDepth s i p = some t) : Inv concurrency queueDepth t := by
  cases p with
  | arriving =>
    simp only [advance, Option.some.injEq] at h
    split at h
    next hfree =>
      subst h
      exact hi.move hp ⟨rfl, State.takePermit_available hfree, rfl⟩ (.inl rfl) (fun hb => by cases hb)
    next =>
      subst h
      exact hi.move hp ⟨rfl, rfl, rfl⟩ (.inl rfl) (fun hb => by cases hb)
  | counting =>
    cases Option.some.inj h
    exact hi.move hp ⟨rfl, rfl, rfl⟩ (.inr (.inr rfl)) (fun hb => by cases hb)
  | checking previous =>
    simp only [advance, Option.some.injEq] at h
    split at h
    next =>
      subst h
      exact hi.move hp ⟨rfl, rfl, rfl⟩ (.inl rfl) (fun hb => by cases hb)
    next hroom =>
      subst h
      refine hi.move hp ⟨rfl, rfl, rfl⟩ (.inl rfl) fun _ n hn => ?_
      obtain rfl := Option.some.inj hn
      omega
  | granted previous =>
    cases Option.some.inj h
    exact hi.move hp ⟨rfl, rfl, hi.dropGuard hp rfl⟩ (.inr (.inl rfl)) (fun hb => by cases hb)
  | leaving previous rejection =>
    cases Option.some.inj h
    exact hi.move hp ⟨rfl, rfl, hi.dropGuard hp rfl⟩ (.inr (.inl rfl)) (fun hb => by cases hb)
  | running =>
    cases Option.some.inj h
    exact hi.move hp ⟨rfl, rfl, rfl⟩ (.inl rfl) (fun hb => by cases hb)
  | waiting previous => cases h
  | ended rejection => cases h

theorem giveUp_inv {rejection : Option AdmissionRejection} (hi : Inv concurrency queueDepth s)
    (hp : s.requests[i]? = some p) (h : giveUp s i rejection p = some t) :
    Inv concurrency queueDepth t := by
  cases p with
  | waiting previous =>
    cases Option.some.inj h
    exact hi.move hp ⟨rfl, rfl, rfl⟩ (.inl rfl) (fun hb => by cases hb)
  | granted previous =>
    cases Option.some.inj h
    exact hi.move hp ⟨rfl, rfl, rfl⟩ (.inl rfl) (fun hb => by cases hb)
  | _ => cases h

theorem cancel_inv (hi : Inv concurrency queueDepth s) (hp : s.requests[i]? = some p)
    (h : cancel s i p = some t) : Inv concurrency queueDepth t := by
  cases p with
  | arriving =>
    cases Option.some.inj h
    exact hi.move hp ⟨rfl, rfl, rfl⟩ (.inl rfl) (fun hb => by cases hb)
  | running =>
    cases Option.some.inj h
    exact hi.move hp ⟨rfl, rfl, rfl⟩ (.inl rfl) (fun hb => by cases hb)
  | _ => exact @giveUp_inv _ _ _ _ _ _ none hi hp h

theorem arrive_inv (hi : Inv concurrency queueDepth s) :
    Inv concurrency queueDepth { s with requests := s.requests ++ [.arriving] } := by
  have same : ∀ P : Phase → Bool, P .arriving = false →
      (s.requests ++ [Phase.arriving]).countP P = s.requests.countP P := by
    intro P hP
    simp [hP]
  refine ⟨?_, ?_, ?_, ?_⟩
  · have := hi.conserved
    simpa only [State.held, same Phase.holds rfl] using this
  · have := hi.counted
    simpa only [State.guards, same (·.previous?.isSome) rfl] using this
  · intro n
    have := hi.ranked n
    simpa only [State.guardsBelow, same (·.previous?.any (· < n)) rfl] using this
  · intro p hp hb
    rcases List.mem_append.mp hp with hp | hp
    · exact hi.admitted p hp hb
    · rw [List.mem_singleton.mp hp] at hb
      cases hb

theorem step_inv {a : Act} (hi : Inv concurrency queueDepth s)
    (h : step queueDepth s a = some t) : Inv concurrency queueDepth t := by
  cases a with
  | arrive =>
    cases Option.some.inj h
    exact arrive_inv hi
  | advance i =>
    obtain ⟨p, hp, h⟩ := Option.bind_eq_some_iff.mp h
    exact advance_inv hi hp h
  | grant i =>
    simp only [step] at h
    split at h
    next previous hp =>
      split at h
      next hfree =>
        cases Option.some.inj h
        have hroom := hi.admitted _ (List.mem_of_getElem? hp) rfl
        exact hi.move hp ⟨rfl, State.takePermit_available hfree, rfl⟩ (.inl rfl) fun _ => hroom
      next => cases h
    next => cases h
  | timeOut i =>
    obtain ⟨p, hp, h⟩ := Option.bind_eq_some_iff.mp h
    exact giveUp_inv hi hp h
  | cancel i =>
    obtain ⟨p, hp, h⟩ := Option.bind_eq_some_iff.mp h
    exact cancel_inv hi hp h

theorem initial_inv (concurrency queueDepth : Nat) :
    Inv concurrency queueDepth (initial concurrency) := by
  constructor <;> simp [initial, State.held, State.guards, State.guardsBelow]

/-- Who waits is among the first `queueDepth` guards. -/
theorem Inv.blocked_le (hi : Inv concurrency queueDepth s) : s.blocked ≤ queueDepth := by
  have hbelow : s.blocked ≤ s.guardsBelow queueDepth := by
    refine List.countP_mono_left fun p hp hb => ?_
    obtain ⟨n, hn⟩ := blocked_previous hb
    have hlt := hi.admitted p hp hb n hn
    simp [hn, hlt]
  exact Nat.le_trans hbelow (hi.ranked queueDepth)

/-- When every request has ended, nothing is held and nobody is counted. -/
theorem Inv.idle (hi : Inv concurrency queueDepth s) (h : ∀ p ∈ s.requests, p.live = false) :
    s.waitingCount = 0 ∧ s.available = max concurrency 1 := by
  have hheld : s.held = 0 := by
    refine List.countP_eq_zero.mpr fun p hp => ?_
    have := h p hp
    cases p <;> simp_all [Phase.live, Phase.holds]
  have hguards : s.guards = 0 := by
    refine List.countP_eq_zero.mpr fun p hp => ?_
    have := h p hp
    cases p <;> simp_all [Phase.live, Phase.previous?]
  have hcounted := hi.counted
  have hconserved := hi.conserved
  omega

end Step

theorem admission_conserves_slots {concurrency queueDepth : Nat} {as : List Act} {s : State}
    (h : run (step queueDepth) (initial concurrency) as = some s) :
    s.held ≤ max concurrency 1 ∧ s.held + s.available = max concurrency 1 ∧
      s.blocked ≤ queueDepth ∧ s.waitingCount = s.guards ∧
      ((∀ p ∈ s.requests, p.live = false) →
        s.waitingCount = 0 ∧ s.available = max concurrency 1) := by
  have hreach : Reach (· = initial concurrency) (step queueDepth) anyStep s := .of_free_run rfl h
  have hi : Inv concurrency queueDepth s := by
    refine hreach.invariant ?_ fun _ _ _ hi _ hs => step_inv hi hs
    rintro _ rfl
    exact initial_inv concurrency queueDepth
  have hconserved := hi.conserved
  exact ⟨by omega, hconserved, hi.blocked_le, hi.counted, hi.idle⟩

/-- One slot and one place in the queue: the second request is given the slot as it times out, the
third is turned away, and the slot is free again at the end. -/
def crowdedRun : List Act :=
  [.arrive, .arrive, .arrive, .advance 0, .advance 1, .advance 2, .advance 1, .advance 2, .advance 1,
    .advance 2, .cancel 0, .grant 1, .timeOut 1, .advance 1, .advance 2]

theorem admission_conserves_slots_crowded :
    ∃ s, run (step 1) (initial 1) crowdedRun = some s ∧ s.held + s.available = 1 ∧
      s.requests = [.ended none, .ended (some .waitTimeout), .ended (some .queueFull)] ∧
      s.waitingCount = 0 ∧ s.available = 1 := by
  have hrun : (run (step 1) (initial 1) crowdedRun).any (fun s =>
      s.requests = [.ended none, .ended (some .waitTimeout), .ended (some .queueFull)]) = true := by
    decide
  obtain ⟨s, hs, h⟩ := (Option.any_eq_true _ _).mp hrun
  have hrequests := of_decide_eq_true h
  have hall : ∀ p ∈ s.requests, p.live = false := by
    rw [hrequests]
    decide
  obtain ⟨-, hconserved, -, -, hidle⟩ := admission_conserves_slots hs
  exact ⟨s, hs, hconserved, hrequests, hidle hall⟩

end GmragApi.Admission

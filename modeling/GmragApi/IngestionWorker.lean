import Mathlib.Data.List.Basic
import Mathlib.Data.Nat.Init

/-! The loop of the ingestion worker and the signals that stop it. Between any two steps of the loop
the signal monitor may publish a signal. -/

namespace GmragApi.IngestionWorker

inductive ShutdownSignal
  | sigterm
  | sigint
  deriving DecidableEq

structure ShutdownState where
  count : Nat
  first : Option ShutdownSignal
  latest : Option ShutdownSignal
  recorded : 0 < count → first.isSome = true ∧ latest.isSome = true

namespace ShutdownState

def quiet : ShutdownState := ⟨0, none, none, fun h => absurd h (Nat.lt_irrefl 0)⟩

def publishSignal (state : ShutdownState) (signal : ShutdownSignal) : ShutdownState where
  count := state.count + 1
  first := some (state.first.getD signal)
  latest := some signal
  recorded := fun _ => ⟨rfl, rfl⟩

def received (state : ShutdownState) : Bool := decide (1 ≤ state.count)

/-- A poll of `wait_for_count`. -/
def waitForCount (state : ShutdownState) (count : Nat) (hcount : 0 < count) :
    Option ShutdownSignal :=
  if h : count ≤ state.count then
    let recorded := state.recorded (Nat.lt_of_lt_of_le hcount h)
    some (if count = 1 then state.first.get recorded.1 else state.latest.get recorded.2)
  else none

def shutdownSignal (state : ShutdownState) : Option ShutdownSignal :=
  state.waitForCount 1 Nat.one_pos

def secondShutdownSignal (state : ShutdownState) : Option ShutdownSignal :=
  state.waitForCount 2 Nat.two_pos

end ShutdownState

inductive ProcessOutcome
  | succeeded
  | retried
  | dead
  | leaseConflict
  deriving DecidableEq

structure RunSummary where
  claimed : Nat
  succeeded : Nat
  retried : Nat
  dead : Nat
  leaseConflicts : Nat

def RunSummary.record (summary : RunSummary) : ProcessOutcome → RunSummary
  | .succeeded => { summary with succeeded := summary.succeeded + 1 }
  | .retried => { summary with retried := summary.retried + 1 }
  | .dead => { summary with dead := summary.dead + 1 }
  | .leaseConflict => { summary with leaseConflicts := summary.leaseConflicts + 1 }

variable {Job : Type}

/-- Where the loop stands. A future in flight is the number of polls that it still leaves pending;
a biased select polls the signal first, at `claim` and `process`, and then the future. -/
inductive Place (Job : Type)
  | top
  | claim (polls : Nat)
  | claimPoll (polls : Nat)
  | drainClaim (polls : Nat)
  | sleeping (polls : Nat)
  | jobs (rest : List Job)
  | process (job : Job) (polls : Nat) (rest : List Job)
  | processPoll (job : Job) (polls : Nat) (rest : List Job)
  | drainProcess (job : Job) (polls : Nat) (rest : List Job)
  | ended

/-- `issued` and `completed` count the calls of `claim_jobs`, `claimed` and `finished` are all jobs
that they gave and all that were processed to their outcome, in order. -/
structure State (Job : Type) where
  place : Place Job
  shutdown : ShutdownState
  draining : Bool
  summary : RunSummary
  logged : List ShutdownSignal
  issued : Nat
  completed : Nat
  claimed : List Job
  finished : List (Job × ProcessOutcome)

/-- What the loop meets: the signals by the step they come before, the future that an unbiased
select polls first, and how long the calls take and what they give. -/
structure Surroundings (Job : Type) where
  once : Bool
  signal : Nat → Option ShutdownSignal
  signalFirst : Nat → Bool
  /-- None where the call fails. -/
  claimJobs : Nat → Nat × Option (List Job)
  sleep : Nat → Nat
  processOne : Nat → Nat × ProcessOutcome

inductive Selected
  | signal (s : ShutdownSignal)
  | work
  | pending

/-- One round of an unbiased select between a signal and a future. -/
def select (signalFirst : Bool) (signal : Option ShutdownSignal) (polls : Nat) : Selected :=
  match signal, polls with
  | some s, 0 => if signalFirst then .signal s else .work
  | some s, _ + 1 => .signal s
  | none, 0 => .work
  | none, _ + 1 => .pending

def State.logShutdownStart (s : State Job) (signal : ShutdownSignal) : State Job :=
  { s with logged := s.logged ++ [signal] }

def State.goto (s : State Job) (place : Place Job) : State Job := { s with place := place }

def State.drain (s : State Job) (signal : ShutdownSignal) (place : Place Job) : State Job :=
  { s.logShutdownStart signal with draining := true, place := place }

/-- The loop after `claim_jobs`. -/
def settleClaim (env : Surroundings Job) (s : State Job) : State Job :=
  let s := { s with completed := s.completed + 1 }
  match (env.claimJobs (s.issued - 1)).2 with
  | none => if env.once then s.goto .ended else s.goto (.sleeping (env.sleep s.completed))
  | some [] =>
    if env.once || s.draining then s.goto .ended
    else s.goto (.sleeping (env.sleep s.completed))
  | some rows => { s with claimed := s.claimed ++ rows, place := .jobs rows }

def settleProcess (s : State Job) (job : Job) (rest : List Job) (outcome : ProcessOutcome) :
    State Job :=
  { s with
    summary := s.summary.record outcome
    finished := s.finished ++ [(job, outcome)]
    place := .jobs rest }

/-- The head of the loop over the claimed jobs. -/
def startJob (env : Surroundings Job) (s : State Job) (job : Job) (rest : List Job) : State Job :=
  let s := match s.draining, s.shutdown.shutdownSignal with
    | false, some signal => s.drain signal s.place
    | _, _ => s
  let s := { s with summary := { s.summary with claimed := s.summary.claimed + 1 } }
  let polls := (env.processOne s.finished.length).1
  if s.draining then s.goto (.drainProcess job polls rest) else s.goto (.process job polls rest)

def work (env : Surroundings Job) (n : Nat) (s : State Job) : State Job :=
  match s.place with
  | .top =>
    match s.shutdown.shutdownSignal with
    | some signal => (s.logShutdownStart signal).goto .ended
    | none => { s with issued := s.issued + 1, place := .claim (env.claimJobs s.issued).1 }
  | .claim polls =>
    match s.shutdown.shutdownSignal with
    | some signal => s.drain signal (.drainClaim polls)
    | none => s.goto (.claimPoll polls)
  | .claimPoll 0 => settleClaim env s
  | .claimPoll (polls + 1) => s.goto (.claim polls)
  | .drainClaim polls =>
    match select (env.signalFirst n) s.shutdown.secondShutdownSignal polls with
    | .signal _ => s.goto .ended
    | .work => settleClaim env s
    | .pending => s.goto (.drainClaim (polls - 1))
  | .sleeping polls =>
    match select (env.signalFirst n) s.shutdown.shutdownSignal polls with
    | .signal signal => (s.logShutdownStart signal).goto .ended
    | .work => s.goto .top
    | .pending => s.goto (.sleeping (polls - 1))
  | .jobs [] => if env.once || s.draining then s.goto .ended else s.goto .top
  | .jobs (job :: rest) => startJob env s job rest
  | .process job polls rest =>
    match s.shutdown.shutdownSignal with
    | some signal => s.drain signal (.drainProcess job polls rest)
    | none => s.goto (.processPoll job polls rest)
  | .processPoll job 0 rest => settleProcess s job rest (env.processOne s.finished.length).2
  | .processPoll job (polls + 1) rest => s.goto (.process job polls rest)
  | .drainProcess job polls rest =>
    match select (env.signalFirst n) s.shutdown.secondShutdownSignal polls with
    | .signal _ => s.goto .ended
    | .work => settleProcess s job rest (env.processOne s.finished.length).2
    | .pending => s.goto (.drainProcess job (polls - 1) rest)
  | .ended => s

/-- The monitor publishes what came in, and the loop goes on to its next poll or check. -/
def step (env : Surroundings Job) (n : Nat) (s : State Job) : State Job :=
  work env n
    { s with shutdown := ((env.signal n).map s.shutdown.publishSignal).getD s.shutdown }

def State.start : State Job where
  place := .top
  shutdown := .quiet
  draining := false
  summary := ⟨0, 0, 0, 0, 0⟩
  logged := []
  issued := 0
  completed := 0
  claimed := []
  finished := []

def after (env : Surroundings Job) : Nat → State Job
  | 0 => .start
  | n + 1 => step env n (after env n)

section Signals

variable {state : ShutdownState}

theorem shutdownSignal_isSome : state.shutdownSignal.isSome = state.received := by
  unfold ShutdownState.shutdownSignal ShutdownState.waitForCount ShutdownState.received
  by_cases h : 1 ≤ state.count
  · rw [dif_pos h, decide_eq_true h]
    rfl
  · rw [dif_neg h, decide_eq_false h]
    rfl

theorem exists_shutdownSignal (h : state.received = true) :
    ∃ signal, state.shutdownSignal = some signal :=
  Option.isSome_iff_exists.mp (shutdownSignal_isSome.trans h)

theorem secondShutdownSignal_eq_none (h : state.count ≤ 1) :
    state.secondShutdownSignal = none := by
  rw [ShutdownState.secondShutdownSignal, ShutdownState.waitForCount, dif_neg (by omega)]

/-- Without a signal the select waits for its future. -/
theorem select_none (signalFirst : Bool) (polls : Nat) :
    select signalFirst none polls = if polls = 0 then .work else .pending := by
  cases polls with
  | zero => rfl
  | succ polls => rfl

end Signals

section Accounting

variable {env : Surroundings Job} {n : Nat} {s : State Job}

/-- The claimed jobs that are still to be processed. -/
def Place.left : Place Job → List Job
  | jobs rest => rest
  | process job _ rest => job :: rest
  | processPoll job _ rest => job :: rest
  | drainProcess job _ rest => job :: rest
  | _ => []

/-- The calls of `claim_jobs` in flight. -/
def Place.inFlight : Place Job → Nat
  | claim _ => 1
  | claimPoll _ => 1
  | drainClaim _ => 1
  | _ => 0

/-- Every job that was claimed has been processed or is still to be, in order. -/
structure Accounted (s : State Job) : Prop where
  jobs : s.claimed = s.finished.map Prod.fst ++ s.place.left
  calls : s.issued = s.completed + s.place.inFlight

/-- What has the same jobs and calls is accounted for as well. -/
theorem Accounted.moved (h : Accounted s) {place : Place Job} (hplace : s.place = place)
    {t : State Job} (hclaimed : t.claimed = s.claimed) (hfinished : t.finished = s.finished)
    (hissued : t.issued = s.issued) (hcompleted : t.completed = s.completed)
    (hleft : t.place.left = place.left) (hflight : t.place.inFlight = place.inFlight) :
    Accounted t := by
  subst hplace
  refine ⟨?_, ?_⟩
  · rw [hclaimed, hfinished, hleft]
    exact h.jobs
  · rw [hissued, hcompleted, hflight]
    exact h.calls

theorem settleClaim_accounted (h : Accounted s) {place : Place Job} (hplace : s.place = place)
    (hleft : place.left = []) (hflight : place.inFlight = 1) :
    Accounted (settleClaim env s) := by
  subst hplace
  have hjobs : s.claimed = s.finished.map Prod.fst := by simpa [hleft] using h.jobs
  have hcalls : s.issued = s.completed + 1 := by simpa [hflight] using h.calls
  unfold settleClaim
  simp only
  generalize (env.claimJobs (s.issued - 1)).2 = result
  rcases result with _ | rows
  · simp only
    split
    · exact ⟨by simpa [State.goto, Place.left] using hjobs, hcalls⟩
    · exact ⟨by simpa [State.goto, Place.left] using hjobs, hcalls⟩
  · rcases rows with _ | ⟨row, rows⟩
    · simp only
      split
      · exact ⟨by simpa [State.goto, Place.left] using hjobs, hcalls⟩
      · exact ⟨by simpa [State.goto, Place.left] using hjobs, hcalls⟩
    · exact ⟨by simp [Place.left, hjobs], hcalls⟩

theorem settleProcess_accounted (h : Accounted s) {place : Place Job} (hplace : s.place = place)
    {job : Job} {rest : List Job} (hleft : place.left = job :: rest) (hflight : place.inFlight = 0)
    (outcome : ProcessOutcome) : Accounted (settleProcess s job rest outcome) := by
  subst hplace
  refine ⟨h.jobs.trans ?_, h.calls.trans (by rw [hflight]; rfl)⟩
  rw [hleft]
  simp [settleProcess, Place.left]

theorem startJob_accounted (h : Accounted s) {job : Job} {rest : List Job}
    (hplace : s.place = .jobs (job :: rest)) : Accounted (startJob env s job rest) := by
  unfold startJob
  simp only
  split <;> split <;> exact h.moved hplace rfl rfl rfl rfl rfl rfl

theorem work_accounted (h : Accounted s) (hcount : s.shutdown.count ≤ 1) :
    Accounted (work env n s) := by
  have hsecond := secondShutdownSignal_eq_none hcount
  unfold work
  cases hplace : s.place with
  | top =>
    simp only
    cases s.shutdown.shutdownSignal with
    | none =>
      have hjobs := h.jobs
      have hcalls := h.calls
      rw [hplace] at hjobs hcalls
      exact ⟨hjobs, congrArg Nat.succ hcalls⟩
    | some signal => exact h.moved hplace rfl rfl rfl rfl rfl rfl
  | claim polls =>
    simp only
    cases s.shutdown.shutdownSignal with
    | none => exact h.moved hplace rfl rfl rfl rfl rfl rfl
    | some signal => exact h.moved hplace rfl rfl rfl rfl rfl rfl
  | claimPoll polls =>
    cases polls with
    | zero => exact settleClaim_accounted h hplace rfl rfl
    | succ polls => exact h.moved hplace rfl rfl rfl rfl rfl rfl
  | drainClaim polls =>
    simp only [hsecond, select_none]
    cases polls with
    | zero => exact settleClaim_accounted h hplace rfl rfl
    | succ polls => exact h.moved hplace rfl rfl rfl rfl rfl rfl
  | sleeping polls =>
    simp only
    cases select (env.signalFirst n) s.shutdown.shutdownSignal polls with
    | signal signal => exact h.moved hplace rfl rfl rfl rfl rfl rfl
    | work => exact h.moved hplace rfl rfl rfl rfl rfl rfl
    | pending => exact h.moved hplace rfl rfl rfl rfl rfl rfl
  | jobs rest =>
    cases rest with
    | nil =>
      simp only
      split
      · exact h.moved hplace rfl rfl rfl rfl rfl rfl
      · exact h.moved hplace rfl rfl rfl rfl rfl rfl
    | cons job rest => exact startJob_accounted h hplace
  | process job polls rest =>
    simp only
    cases s.shutdown.shutdownSignal with
    | none => exact h.moved hplace rfl rfl rfl rfl rfl rfl
    | some signal => exact h.moved hplace rfl rfl rfl rfl rfl rfl
  | processPoll job polls rest =>
    cases polls with
    | zero => exact settleProcess_accounted h hplace rfl rfl _
    | succ polls => exact h.moved hplace rfl rfl rfl rfl rfl rfl
  | drainProcess job polls rest =>
    simp only [hsecond, select_none]
    cases polls with
    | zero => exact settleProcess_accounted h hplace rfl rfl _
    | succ polls => exact h.moved hplace rfl rfl rfl rfl rfl rfl
  | ended => exact h

end Accounting

section Drain

variable {env : Surroundings Job} {n : Nat} {s : State Job}

theorem settleClaim_shutdown : (settleClaim env s).shutdown = s.shutdown := by
  unfold settleClaim
  simp only
  repeat' split
  all_goals rfl

theorem settleClaim_issued : (settleClaim env s).issued = s.issued := by
  unfold settleClaim
  simp only
  repeat' split
  all_goals rfl

theorem startJob_shutdown {job : Job} {rest : List Job} :
    (startJob env s job rest).shutdown = s.shutdown := by
  unfold startJob
  simp only
  split <;> split <;> rfl

theorem startJob_issued {job : Job} {rest : List Job} :
    (startJob env s job rest).issued = s.issued := by
  unfold startJob
  simp only
  split <;> split <;> rfl

theorem work_shutdown : (work env n s).shutdown = s.shutdown := by
  unfold work
  repeat' split
  all_goals first | rfl | exact settleClaim_shutdown | exact startJob_shutdown

/-- Once a signal has come in, `claim_jobs` is not called any more. -/
theorem work_issued (hreceived : s.shutdown.received = true) :
    (work env n s).issued = s.issued := by
  obtain ⟨signal, hsignal⟩ := exists_shutdownSignal hreceived
  unfold work
  rw [hsignal]
  repeat' split
  all_goals first | rfl | exact settleClaim_issued | exact startJob_issued | contradiction

/-- The one signal has come in. -/
structure Stopping (env : Surroundings Job) (n : Nat) (s : State Job) : Prop where
  received : s.shutdown.received = true
  count : s.shutdown.count ≤ 1
  quiet : ∀ m, n ≤ m → env.signal m = none

theorem Stopping.step_eq (h : Stopping env n s) : step env n s = work env n s := by
  rw [step, h.quiet n (Nat.le_refl n)]
  rfl

theorem Stopping.next (h : Stopping env n s) : Stopping env (n + 1) (work env n s) where
  received := by rw [work_shutdown]; exact h.received
  count := by rw [work_shutdown]; exact h.count
  quiet := fun m hm => h.quiet m (by omega)

/-- The state `m` steps on from `s` before step `n`. -/
def advance (env : Surroundings Job) (n : Nat) (s : State Job) : Nat → State Job
  | 0 => s
  | m + 1 => advance env (n + 1) (step env n s) m

def Ends (env : Surroundings Job) (n : Nat) (s : State Job) : Prop :=
  ∃ m, (advance env n s m).place = .ended

theorem Ends.of_ended (h : s.place = .ended) : Ends env n s := ⟨0, h⟩

theorem Stopping.ends_of_work (h : Stopping env n s) (hends : Ends env (n + 1) (work env n s)) :
    Ends env n s := by
  obtain ⟨m, hm⟩ := hends
  refine ⟨m + 1, ?_⟩
  rw [advance, h.step_eq]
  exact hm

theorem Stopping.ends_top (h : Stopping env n s) (hplace : s.place = .top) : Ends env n s := by
  obtain ⟨signal, hsignal⟩ := exists_shutdownSignal h.received
  refine h.ends_of_work (Ends.of_ended ?_)
  unfold work
  rw [hplace, hsignal]
  rfl

theorem Stopping.ends_sleeping (h : Stopping env n s) {polls : Nat}
    (hplace : s.place = .sleeping polls) : Ends env n s := by
  obtain ⟨signal, hsignal⟩ := exists_shutdownSignal h.received
  have hnext : (work env n s).place = .top ∨
      (work env n s).place = .ended := by
    unfold work
    rw [hplace, hsignal]
    cases polls with
    | zero => cases env.signalFirst n <;> simp [select, State.goto]
    | succ polls => simp [select, State.goto]
  rcases hnext with htop | hended
  · exact h.ends_of_work (h.next.ends_top htop)
  · exact h.ends_of_work (Ends.of_ended hended)

/-- A job is processed to its outcome, and then the others are. -/
theorem Stopping.ends_drainProcess {rest : List Job} (hrest : ∀ (n : Nat) (s : State Job),
    Stopping env n s → s.place = .jobs rest → Ends env n s) {job : Job} (polls : Nat) :
    ∀ (n : Nat) (s : State Job), Stopping env n s → s.place = .drainProcess job polls rest →
      Ends env n s := by
  induction polls with
  | zero =>
    intro n s h hplace
    refine h.ends_of_work (hrest _ _ h.next ?_)
    unfold work
    rw [hplace]
    simp [secondShutdownSignal_eq_none h.count, select, settleProcess]
  | succ polls ih =>
    intro n s h hplace
    refine h.ends_of_work (ih _ _ h.next ?_)
    unfold work
    rw [hplace]
    simp [secondShutdownSignal_eq_none h.count, select, State.goto]

theorem startJob_place (env : Surroundings Job) (hreceived : s.shutdown.received = true)
    (job : Job) (rest : List Job) :
    ∃ polls, (startJob env s job rest).place = .drainProcess job polls rest := by
  obtain ⟨signal, hsignal⟩ := exists_shutdownSignal hreceived
  refine ⟨(env.processOne s.finished.length).1, ?_⟩
  unfold startJob
  rw [hsignal]
  cases hdraining : s.draining with
  | false => rfl
  | true => simp [hdraining, State.goto]

theorem Stopping.ends_jobs (rest : List Job) : ∀ (n : Nat) (s : State Job), Stopping env n s →
    s.place = .jobs rest → Ends env n s := by
  induction rest with
  | nil =>
    intro n s h hplace
    have hnext : (work env n s).place = .top ∨
        (work env n s).place = .ended := by
      unfold work
      rw [hplace]
      simp only
      split
      · exact .inr rfl
      · exact .inl rfl
    rcases hnext with htop | hended
    · exact h.ends_of_work (h.next.ends_top htop)
    · exact h.ends_of_work (Ends.of_ended hended)
  | cons job rest ih =>
    intro n s h hplace
    obtain ⟨polls, hstart⟩ := startJob_place env h.received job rest
    have hnext : (work env n s).place = .drainProcess job polls rest := by
      unfold work
      rw [hplace]
      exact hstart
    exact h.ends_of_work (Stopping.ends_drainProcess ih polls _ _ h.next hnext)

theorem Stopping.ends_process (h : Stopping env n s) {job : Job} {polls : Nat} {rest : List Job}
    (hplace : s.place = .process job polls rest) : Ends env n s := by
  obtain ⟨signal, hsignal⟩ := exists_shutdownSignal h.received
  have hnext : (work env n s).place = .drainProcess job polls rest := by
    unfold work
    rw [hplace, hsignal]
    rfl
  exact h.ends_of_work
    (Stopping.ends_drainProcess (Stopping.ends_jobs rest) polls _ _ h.next hnext)

theorem settleClaim_place (env : Surroundings Job) (s : State Job) :
    (settleClaim env s).place = .ended ∨
    (∃ polls, (settleClaim env s).place = .sleeping polls) ∨
      ∃ rows, (settleClaim env s).place = .jobs rows := by
  unfold settleClaim
  simp only
  repeat' split
  all_goals simp [State.goto]

theorem Stopping.ends_settleClaim (h : Stopping env n s)
    (hwork : work env n s = settleClaim env s) : Ends env n s := by
  have hnext := h.next
  rw [hwork] at hnext
  refine h.ends_of_work ?_
  rw [hwork]
  rcases settleClaim_place env s with hended | ⟨polls, hsleeping⟩ | ⟨rows, hjobs⟩
  · exact Ends.of_ended hended
  · exact hnext.ends_sleeping hsleeping
  · exact Stopping.ends_jobs rows _ _ hnext hjobs

/-- The call in flight is not dropped. -/
theorem Stopping.ends_drainClaim (polls : Nat) : ∀ (n : Nat) (s : State Job), Stopping env n s →
    s.place = .drainClaim polls → Ends env n s := by
  induction polls with
  | zero =>
    intro n s h hplace
    refine h.ends_settleClaim ?_
    unfold work
    rw [hplace]
    simp [secondShutdownSignal_eq_none h.count, select]
  | succ polls ih =>
    intro n s h hplace
    refine h.ends_of_work (ih _ _ h.next ?_)
    unfold work
    rw [hplace]
    simp [secondShutdownSignal_eq_none h.count, select, State.goto]

theorem Stopping.ends_claim (h : Stopping env n s) {polls : Nat}
    (hplace : s.place = .claim polls) : Ends env n s := by
  obtain ⟨signal, hsignal⟩ := exists_shutdownSignal h.received
  have hnext : (work env n s).place = .drainClaim polls := by
    unfold work
    rw [hplace, hsignal]
    rfl
  exact h.ends_of_work (Stopping.ends_drainClaim polls _ _ h.next hnext)

/-- Wherever the signal finds the loop, the loop ends. -/
theorem Stopping.ends (h : Stopping env n s) : Ends env n s := by
  cases hplace : s.place with
  | top => exact h.ends_top hplace
  | claim polls => exact h.ends_claim hplace
  | claimPoll polls =>
    cases polls with
    | zero => exact h.ends_settleClaim (by unfold work; rw [hplace])
    | succ polls =>
      have hnext : (work env n s).place = .claim polls := by
        unfold work
        rw [hplace]
        rfl
      exact h.ends_of_work (h.next.ends_claim hnext)
  | drainClaim polls => exact Stopping.ends_drainClaim polls _ _ h hplace
  | sleeping polls => exact h.ends_sleeping hplace
  | jobs rest => exact Stopping.ends_jobs rest _ _ h hplace
  | process job polls rest => exact h.ends_process hplace
  | processPoll job polls rest =>
    cases polls with
    | zero =>
      have hnext : (work env n s).place = .jobs rest := by
        unfold work
        rw [hplace]
        rfl
      exact h.ends_of_work (Stopping.ends_jobs rest _ _ h.next hnext)
    | succ polls =>
      have hnext : (work env n s).place = .process job polls rest := by
        unfold work
        rw [hplace]
        rfl
      exact h.ends_of_work (h.next.ends_process hnext)
  | drainProcess job polls rest =>
    exact Stopping.ends_drainProcess (Stopping.ends_jobs rest) polls _ _ h hplace
  | ended => exact Ends.of_ended hplace

end Drain

section Run

variable {env : Surroundings Job} {k : Nat}

theorem advance_after (env : Surroundings Job) (n m : Nat) :
    advance env n (after env n) m = after env (n + m) := by
  induction m generalizing n with
  | zero => rfl
  | succ m ih =>
    have hnext := ih (n + 1)
    rw [show n + 1 + m = n + (m + 1) by omega] at hnext
    exact hnext

theorem step_shutdown (n : Nat) (s : State Job) : (step env n s).shutdown =
    ((env.signal n).map s.shutdown.publishSignal).getD s.shutdown :=
  work_shutdown

/-- Before its step the signal has not come in, and afterwards it is the only one. -/
theorem after_count (hsignal : (env.signal k).isSome = true)
    (honly : ∀ n, n ≠ k → env.signal n = none) (n : Nat) :
    (after env n).shutdown.count = if n ≤ k then 0 else 1 := by
  induction n with
  | zero => simp [after, State.start, ShutdownState.quiet]
  | succ n ih =>
    rw [after, step_shutdown]
    by_cases hn : n = k
    · subst hn
      obtain ⟨signal, hsome⟩ := Option.isSome_iff_exists.mp hsignal
      rw [if_pos (Nat.le_refl n)] at ih
      rw [if_neg (by omega), hsome]
      simp [ShutdownState.publishSignal, ih]
    · have hsame : (n ≤ k ↔ n + 1 ≤ k) := by omega
      rw [honly n hn]
      simpa [hsame] using ih

theorem after_stopping (hsignal : (env.signal k).isSome = true)
    (honly : ∀ n, n ≠ k → env.signal n = none) {n : Nat} (hn : k < n) :
    Stopping env n (after env n) := by
  have hcount := after_count hsignal honly n
  rw [if_neg (by omega)] at hcount
  exact
    { received := by rw [ShutdownState.received, hcount]; rfl
      count := by omega
      quiet := fun m hm => honly m (by omega) }

theorem after_accounted (hsignal : (env.signal k).isSome = true)
    (honly : ∀ n, n ≠ k → env.signal n = none) (n : Nat) : Accounted (after env n) := by
  induction n with
  | zero => exact ⟨rfl, rfl⟩
  | succ n ih =>
    have hcount := after_count hsignal honly (n + 1)
    rw [after, step_shutdown] at hcount
    have hle : (((env.signal n).map (after env n).shutdown.publishSignal).getD
        (after env n).shutdown).count ≤ 1 := by
      split at hcount <;> omega
    exact work_accounted ⟨ih.jobs, ih.calls⟩ hle

/-- From the signal on no call of `claim_jobs` is made. -/
theorem after_issued (hsignal : (env.signal k).isSome = true)
    (honly : ∀ n, n ≠ k → env.signal n = none) {n : Nat} (hn : k ≤ n) :
    (after env n).issued = (after env k).issued := by
  induction n, hn using Nat.le_induction with
  | base => rfl
  | succ n hn ih =>
    have hreceived := (after_stopping hsignal honly (show k < n + 1 by omega)).received
    rw [after, step_shutdown] at hreceived
    rw [← ih]
    exact work_issued hreceived

theorem after_ended {n m : Nat} (hended : (after env n).place = .ended) (hm : n ≤ m) :
    (after env m).place = .ended := by
  induction m, hm using Nat.le_induction with
  | base => exact hended
  | succ m hm ih =>
    rw [after, step, work]
    simp [ih]

/-- Wherever the one signal comes in, no further batch is claimed, at most the call in flight
completes, and the loop ends with every job it ever claimed processed to its outcome. -/
theorem worker_drains (hsignal : (env.signal k).isSome = true)
    (honly : ∀ n, n ≠ k → env.signal n = none) :
    (∀ n, k ≤ n → (after env n).issued = (after env k).issued ∧
      (after env n).completed ≤ (after env k).completed + 1) ∧
    ∃ n, ∀ m, n ≤ m → (after env m).place = .ended ∧
      (after env m).finished.map Prod.fst = (after env m).claimed := by
  constructor
  · intro n hn
    have hissued := after_issued hsignal honly hn
    have hcalls := (after_accounted hsignal honly n).calls
    have hcallsAtSignal := (after_accounted hsignal honly k).calls
    have hone : (after env k).place.inFlight ≤ 1 := by
      cases (after env k).place <;> simp [Place.inFlight]
    exact ⟨hissued, by omega⟩
  · obtain ⟨m, hm⟩ := (after_stopping hsignal honly (Nat.lt_succ_self k)).ends
    rw [advance_after] at hm
    refine ⟨k + 1 + m, fun n hn => ?_⟩
    have hended := after_ended hm hn
    have hjobs := (after_accounted hsignal honly n).jobs
    rw [hended] at hjobs
    refine ⟨hended, ?_⟩
    rw [hjobs]
    exact (List.append_nil _).symm

/-- The signal comes in while the first batch is being claimed. -/
def signalWhileClaiming : Surroundings Nat where
  once := false
  signal n := if n = 2 then some .sigterm else none
  signalFirst _ := true
  claimJobs _ := (3, some [1, 2])
  sleep _ := 5
  processOne _ := (2, .succeeded)

theorem worker_drains_while_claiming :
    (∀ n, 2 ≤ n → (after signalWhileClaiming n).issued = (after signalWhileClaiming 2).issued ∧
      (after signalWhileClaiming n).completed ≤ (after signalWhileClaiming 2).completed + 1) ∧
    ∃ n, ∀ m, n ≤ m → (after signalWhileClaiming m).place = .ended ∧
      (after signalWhileClaiming m).finished.map Prod.fst =
        (after signalWhileClaiming m).claimed :=
  worker_drains rfl fun _ hn => if_neg hn

/-- Both jobs of the batch are processed before the loop ends. -/
example : (after signalWhileClaiming 20).finished = [(1, .succeeded), (2, .succeeded)] ∧
    (after signalWhileClaiming 20).issued = 1 := by decide

end Run

end GmragApi.IngestionWorker

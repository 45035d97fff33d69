import GmragApi.DeleteOutbox
import Mathlib.Algebra.Order.Ring.Int

/-! The leases of the qdrant outbox, with the configuration that its processor reads: a worker that
records its outcomes within its lease finds each row as its claim left it. -/

namespace GmragApi.DeleteOutbox

open Transition

/-- `parse_env_i64` and `parse_env_i32`, after the variable has been read. -/
def parseEnv (value : Option Int) (default lo hi : Int) : Int := max lo (min (value.getD default) hi)

/-- The variables of the processor's configuration, as far as they are set to numbers. -/
structure EnvVars where
  batchSize : Option Int
  maxRetries : Option Int
  baseBackoffSecs : Option Int
  maxBackoffSecs : Option Int
  claimLeaseSecs : Option Int

def ProcessorConfig.fromEnv (vars : EnvVars) : ProcessorConfig where
  batchSize := parseEnv vars.batchSize 50 1 500
  maxRetries := parseEnv vars.maxRetries 5 1 100
  backoff := ⟨parseEnv vars.baseBackoffSecs 2 0 3600, parseEnv vars.maxBackoffSecs 300 0 86400,
    parseEnv vars.claimLeaseSecs 120 10 3600⟩
  maxRetries_i32 := by
    have : parseEnv vars.maxRetries 5 1 100 ≤ 100 := by simp [parseEnv]
    exact this.trans (by decide)

/-- What `from_env` ensures, as far as a row's life depends on it. -/
structure Configured (config : ProcessorConfig) : Prop where
  batchSize : 1 ≤ config.batchSize
  maxRetries : 1 ≤ config.maxRetries
  lease : 1 ≤ config.backoff.claimLeaseSecs
  cap : config.backoff.maxBackoffSecs ≤ 2 ^ 30

theorem fromEnv_configured (vars : EnvVars) : Configured (.fromEnv vars) := by
  have hcap : parseEnv vars.maxBackoffSecs 300 0 86400 ≤ 86400 := by simp [parseEnv]
  have hlease : 10 ≤ parseEnv vars.claimLeaseSecs 120 10 3600 := by simp [parseEnv]
  exact ⟨by simp [ProcessorConfig.fromEnv, parseEnv], by simp [ProcessorConfig.fromEnv, parseEnv],
    Int.le_trans (by decide) hlease, Int.le_trans hcap (by decide)⟩

/-- An unknown event type, or a payload that its event type does not have. -/
def permanentError (text : UuidText) (eventType : List Char) (payload : Json) : Bool :=
  match QdrantOutboxEventType.parse eventType with
  | none => true
  | some .deleteByDocument => (DeleteByDocumentPayload.fromValue text payload).isNone
  | some .deleteByWorkspace => (DeleteByWorkspacePayload.fromValue text payload).isNone
  | some .deleteByWorkspaces => (DeleteByWorkspacesPayload.fromValue text payload).isNone

/-- A state and, by run, when its last claim was made. -/
structure Leased where
  state : State
  claimedAt : List Int

def leasedStep (text : UuidText) (config : ProcessorConfig) (s : Leased) (a : Act RetrievalError) :
    Option Leased :=
  (step (qdrantAttempt text) config s.state a).map fun t =>
    ⟨t, match a with
      | .startRun => s.claimedAt ++ [s.state.now]
      | .claim w _ stamp => s.claimedAt.set w stamp
      | _ => s.claimedAt⟩

/-- An outcome is recorded by a statement that starts after the claim, and before the lease ends. -/
def WithinLease (config : ProcessorConfig) (s : Leased) : Act RetrievalError → Prop
  | .process w _ stamp => ∀ τ, s.claimedAt[w]? = some τ →
    τ ≤ stamp ∧ s.state.now < τ + config.backoff.claimLeaseSecs
  | _ => True

instance WithinLease.decidable (config : ProcessorConfig) (s : Leased) :
    ∀ a, Decidable (WithinLease config s a)
  | .process w _ stamp =>
    decidable_of_iff ((s.claimedAt[w]?).all fun τ =>
        τ ≤ stamp ∧ s.state.now < τ + config.backoff.claimLeaseSecs) (by
      simp [WithinLease, Option.all_eq_true])
  | .tick _ | .enqueue _ _ _ | .startRun | .claim _ _ _ | .stop _ => isTrue trivial

/-- Run `w` has claimed `c` at `τ` and its lease has not ended. -/
def Holds (config : ProcessorConfig) (s : Leased) (w : Nat) (c : ClaimedRow) (τ : Int) : Prop :=
  s.claimedAt[w]? = some τ ∧ s.state.now < τ + config.backoff.claimLeaseSecs ∧
    ∃ run, s.state.runs[w]? = some (some run) ∧ c ∈ run.batch

/-- The row is as the claim left it. -/
structure LeasedTo (config : ProcessorConfig) (r : Row) (c : ClaimedRow) (τ : Int) : Prop where
  open_ : r.status.terminal = false
  retryCount : r.retryCount = c.retryCount
  nextAttemptAt : r.nextAttemptAt = τ + config.backoff.claimLeaseSecs
  eventType : r.eventType = c.eventType
  payload : r.payload = c.payload

/-- What the status of a row says about its failures. -/
structure RowOk (text : UuidText) (config : ProcessorConfig) (r : Row) : Prop where
  pending : r.status = .pending → r.retryCount = 0
  failed : r.status = .failed → 1 ≤ r.retryCount ∧ r.retryCount < config.maxRetries
  dead : r.status = .dead →
    permanentError text r.eventType r.payload = true ∨ r.retryCount = config.maxRetries

structure LeaseInv (text : UuidText) (config : ProcessorConfig) (s : Leased) : Prop where
  inv : Inv config s.state
  sized : s.claimedAt.length = s.state.runs.length
  rows : ∀ (id : Nat) (r : Row), s.state.rows[id]? = some r → RowOk text config r
  settled : ∀ (id : Nat) (r : Row), s.state.rows[id]? = some r → r.status = .processed →
    (id, .processed) ∈ s.state.recorded
  nodup : ∀ (w : Nat) (run : Run), s.state.runs[w]? = some (some run) →
    (run.batch.map ClaimedRow.id).Nodup
  held : ∀ w c τ, Holds config s w c τ →
    ∃ r, s.state.rows[c.id]? = some r ∧ LeasedTo config r c τ
  apart : ∀ w w' c c' τ τ', Holds config s w c τ → Holds config s w' c' τ' → c.id = c'.id → w = w'

section Refusals

variable {text : UuidText} {config : ProcessorConfig}

theorem qdrantAttempt_refused {eventType message : List Char} {payload : Json}
    {reply : Except RetrievalError Unit} {permanent : Bool}
    (h : qdrantAttempt text eventType payload reply = .refused message permanent) :
    permanent = permanentError text eventType payload := by
  unfold qdrantAttempt at h
  unfold permanentError
  generalize QdrantOutboxEventType.parse eventType = kind at h ⊢
  cases kind with
  | none =>
    cases h
    rfl
  | some kind =>
    cases kind with
    | deleteByDocument =>
      cases hread : DeleteByDocumentPayload.fromValue text payload with
      | none =>
        simp only [hread] at h
        cases h
        rfl
      | some p =>
        simp only [hread] at h
        cases reply with
        | ok done => cases h
        | error err =>
          cases h
          rfl
    | deleteByWorkspace =>
      cases hread : DeleteByWorkspacePayload.fromValue text payload with
      | none =>
        simp only [hread] at h
        cases h
        rfl
      | some p =>
        simp only [hread] at h
        cases reply with
        | ok done => cases h
        | error err =>
          cases h
          rfl
    | deleteByWorkspaces =>
      cases hread : DeleteByWorkspacesPayload.fromValue text payload with
      | none =>
        simp only [hread] at h
        cases h
        rfl
      | some p =>
        simp only [hread] at h
        split at h
        · cases h
        · cases reply with
          | ok done => cases h
          | error err =>
            cases h
            rfl

end Refusals

section Outcome

variable {text : UuidText} {config : ProcessorConfig} {r : Row} {c : ClaimedRow} {τ stamp : Int}

/-- What recording an outcome makes of a row that is as its claim left it. -/
theorem processSingleRow_rowOk {reply : Except RetrievalError Unit} {update : Row → Row}
    {outcome : RowOutcome} (hr : LeasedTo config r c τ) (hpos : 0 ≤ c.retryCount)
    (hlt : c.retryCount < config.maxRetries)
    (h : processSingleRow config stamp c (qdrantAttempt text c.eventType c.payload reply) =
      (update, outcome)) : RowOk text config (update r) := by
  have hmax := config.maxRetries_i32
  have hsat : saturateI32 (c.retryCount + 1) = c.retryCount + 1 :=
    saturateI32_of_range (by simp only [i32Min]; omega) (by omega)
  cases ha : qdrantAttempt text c.eventType c.payload reply with
  | succeeded =>
    rw [ha] at h
    obtain ⟨rfl, -⟩ := Prod.mk.inj h
    constructor <;> intro hs <;> cases hs
  | refused message permanent =>
    rw [ha] at h
    have hperm := qdrantAttempt_refused ha
    simp only [processSingleRow, markOutboxRowFailure] at h
    split at h
    next next secs hd =>
      obtain ⟨-, hnext, hbelow⟩ := disposition_retryable hd
      obtain ⟨rfl, -⟩ := Prod.mk.inj h
      refine ⟨fun hs => (by cases hs), fun _ => ⟨?_, hbelow⟩, fun hs => (by cases hs)⟩
      show 1 ≤ next
      omega
    next next hd =>
      obtain ⟨hnext, hwhy⟩ := disposition_dead hd
      obtain ⟨rfl, -⟩ := Prod.mk.inj h
      refine ⟨fun hs => (by cases hs), fun hs => (by cases hs), fun _ => ?_⟩
      show permanentError text r.eventType r.payload = true ∨ next = config.maxRetries
      rw [hr.eventType, hr.payload]
      rcases hwhy with hp | hlast
      · exact .inl (hperm ▸ hp)
      · exact .inr (by omega)

theorem processSingleRow_processed {result : AttemptResult} {update : Row → Row}
    {outcome : RowOutcome} (h : processSingleRow config stamp c result = (update, outcome))
    (hst : (update r).status = .processed) : outcome = .processed := by
  cases result with
  | succeeded => exact (Prod.mk.inj h).2.symm
  | refused message permanent =>
    obtain ⟨u, o, hu, -, hupd⟩ := processSingleRow_refused config stamp c message permanent
    obtain ⟨rfl, rfl⟩ := Prod.mk.inj (hu.symm.trans h)
    rcases (hupd r).2 with hfailed | hdead
    · rw [hfailed] at hst
      cases hst
    · rw [hdead] at hst
      cases hst

theorem RowOk.lease (h : RowOk text config r) : RowOk text config (r.lease config stamp) :=
  ⟨h.pending, h.failed, h.dead⟩

end Outcome

section Steps

variable {text : UuidText} {config : ProcessorConfig} {s t : Leased} {a : Act RetrievalError}
  {w : Nat} {c : ClaimedRow} {τ : Int}

theorem leasedStep_state (h : leasedStep text config s a = some t) :
    step (qdrantAttempt text) config s.state a = some t.state := by
  obtain ⟨u, hu, rfl⟩ := Option.map_eq_some_iff.mp h
  exact hu

/-- The row that a run is about to record is held by it. -/
theorem LeaseInv.head_holds (h : LeaseInv text config s) {seen : List Nat} {row : ClaimedRow}
    {rest : List ClaimedRow} (hw : s.state.runs[w]? = some (some ⟨seen, row :: rest⟩))
    {reply : Except RetrievalError Unit} {stamp : Int}
    (hl : WithinLease config s (.process w reply stamp)) :
    ∃ τ, Holds config s w row τ ∧ τ ≤ stamp := by
  have hlt := (List.getElem?_eq_some_iff.mp hw).1
  rw [← h.sized] at hlt
  have hτ := List.getElem?_eq_getElem hlt
  obtain ⟨hstamp, hnow⟩ := hl _ hτ
  exact ⟨_, ⟨hτ, hnow, _, hw, List.mem_cons_self ..⟩, hstamp⟩

/-- Within its lease no outcome is overtaken. -/
theorem LeaseInv.notOvertaken (h : LeaseInv text config s) (hl : WithinLease config s a) :
    NotOvertaken (qdrantAttempt text) s.state a := by
  cases a with
  | process w reply stamp =>
    intro seen row rest r hw hr
    obtain ⟨τ, hholds, -⟩ := h.head_holds hw hl
    obtain ⟨r', hr', hleased⟩ := h.held w row τ hholds
    obtain rfl := Option.some.inj (hr.symm.trans hr')
    split
    next =>
      intro hdead
      have hopen := hleased.open_
      rw [hdead] at hopen
      cases hopen
    next => exact ⟨hleased.open_, hleased.retryCount⟩
  | _ => trivial

theorem LeaseInv.step_inv (h : LeaseInv text config s) (hl : WithinLease config s a)
    (hs : leasedStep text config s a = some t) : Inv config t.state :=
  (step_keepsOutcomes h.inv (h.notOvertaken hl) (leasedStep_state hs)).2

/-- A step that changes no row and lets no run hold more than before. -/
structure Fewer (config : ProcessorConfig) (s t : Leased) : Prop where
  sized : t.claimedAt.length = t.state.runs.length
  kept : ∀ (id : Nat) (r : Row), s.state.rows[id]? = some r → t.state.rows[id]? = some r
  fresh : ∀ (id : Nat) (r : Row), t.state.rows[id]? = some r → s.state.rows[id]? = some r ∨
    (s.state.rows.length ≤ id ∧ r.status = .pending ∧ r.retryCount = 0)
  recorded : t.state.recorded = s.state.recorded
  runs : ∀ (w : Nat) (run : Run), t.state.runs[w]? = some (some run) →
    s.state.runs[w]? = some (some run) ∨ run.batch = []
  holds : ∀ w c τ, Holds config t w c τ → Holds config s w c τ

theorem RowOk.fresh {r : Row} (hst : r.status = .pending) (hcount : r.retryCount = 0) :
    RowOk text config r := by
  refine ⟨fun _ => hcount, fun hs => ?_, fun hs => ?_⟩
  · rw [hst] at hs
    cases hs
  · rw [hst] at hs
    cases hs

theorem LeaseInv.of_fewer (h : LeaseInv text config s) (hinv : Inv config t.state)
    (hf : Fewer config s t) : LeaseInv text config t where
  inv := hinv
  sized := hf.sized
  rows := by
    intro id r hr
    rcases hf.fresh id r hr with hr | ⟨-, hst, hcount⟩
    · exact h.rows id r hr
    · exact .fresh hst hcount
  settled := by
    intro id r hr hst
    rw [hf.recorded]
    rcases hf.fresh id r hr with hr | ⟨-, hpending, -⟩
    · exact h.settled id r hr hst
    · rw [hpending] at hst
      cases hst
  nodup := by
    intro w run hw
    rcases hf.runs w run hw with hw | hempty
    · exact h.nodup w run hw
    · simp [hempty]
  held := by
    intro w c τ hc
    obtain ⟨r, hr, hleased⟩ := h.held w c τ (hf.holds w c τ hc)
    exact ⟨r, hf.kept _ _ hr, hleased⟩
  apart := fun w w' c c' τ τ' hc hc' =>
    h.apart w w' c c' τ τ' (hf.holds _ _ _ hc) (hf.holds _ _ _ hc')

theorem leasedStep_fewer (h : s.claimedAt.length = s.state.runs.length)
    (hs : leasedStep text config s a = some t) (hclaim : ∀ w ids stamp, a ≠ .claim w ids stamp)
    (hprocess : ∀ w reply stamp, a ≠ .process w reply stamp) : Fewer config s t := by
  cases a with
  | tick secs =>
    cases Option.some.inj hs
    refine ⟨h, fun _ _ hr => hr, fun _ _ hr => .inl hr, rfl, fun _ _ hw => .inl hw, ?_⟩
    rintro w c τ ⟨hτ, hlease, hrun⟩
    refine ⟨hτ, ?_, hrun⟩
    dsimp only at hlease
    omega
  | enqueue eventType payload stamp =>
    obtain ⟨u, hu, rfl⟩ := Option.map_eq_some_iff.mp hs
    obtain ⟨-, hu⟩ := Option.ite_none_right_eq_some.mp hu
    cases Option.some.inj hu
    refine ⟨h, ?_, ?_, rfl, fun _ _ hw => .inl hw, fun _ _ _ hc => hc⟩
    · exact fun id r hr => ProcessPool.getElem?_push_iff.mpr (.inl hr)
    · intro id r hr
      refine (ProcessPool.getElem?_push_iff.mp hr).imp_right ?_
      rintro ⟨hid, rfl⟩
      exact ⟨Nat.le_of_eq hid.symm, rfl, rfl⟩
  | startRun =>
    cases Option.some.inj hs
    refine ⟨by simp [h], fun _ _ hr => hr, fun _ _ hr => .inl hr, rfl, ?_, ?_⟩
    · intro w run hw
      refine (ProcessPool.getElem?_push_iff.mp hw).imp_right ?_
      rintro ⟨-, hrun⟩
      rw [Option.some.inj hrun]
    · rintro w c τ ⟨hτ, hlease, run, hw, hc⟩
      rcases ProcessPool.getElem?_push_iff.mp hw with hw | ⟨-, hrun⟩
      · have hlt := (List.getElem?_eq_some_iff.mp hw).1
        rw [← h] at hlt
        dsimp only at hτ
        rw [List.getElem?_append_left hlt] at hτ
        exact ⟨hτ, hlease, run, hw, hc⟩
      · rw [Option.some.inj hrun] at hc
        cases hc
  | claim w ids stamp => exact absurd rfl (hclaim w ids stamp)
  | process w reply stamp => exact absurd rfl (hprocess w reply stamp)
  | stop w =>
    obtain ⟨u, hu, rfl⟩ := Option.map_eq_some_iff.mp hs
    simp only [step] at hu
    split at hu
    next run hw =>
      cases Option.some.inj hu
      have hruns : ∀ (v : Nat) (run' : Run), (s.state.runs.set w none)[v]? = some (some run') →
          s.state.runs[v]? = some (some run') := by
        intro v run' hv
        rcases (ProcessPool.getElem?_set_iff hw).mp hv with ⟨-, hrun⟩ | ⟨-, hv⟩
        · cases hrun
        · exact hv
      refine ⟨by simp [h], fun _ _ hr => hr, fun _ _ hr => .inl hr, rfl,
        fun v run' hv => .inl (hruns v run' hv), ?_⟩
      rintro v c τ ⟨hτ, hlease, run', hv, hc⟩
      exact ⟨hτ, hlease, run', hruns v run' hv, hc⟩
    next => cases hu

/-- What a claim does, row by row. -/
theorem step_claim {E : Type} {attempt : List Char → Json → Except E Unit → AttemptResult}
    {s t : State} {ids : List Nat} {stamp : Int}
    (h : step attempt config s (.claim w ids stamp) = some t) :
    ∃ seen batch, s.runs[w]? = some (some ⟨seen, []⟩) ∧ stamp ≤ s.now ∧ t.now = s.now ∧
      ids.Nodup ∧ batch.map ClaimedRow.id = ids ∧
      (∀ c ∈ batch, ∃ r, s.rows[c.id]? = some r ∧ c = r.claimed c.id ∧
        claimable config seen stamp c.id r = true ∧ t.rows[c.id]? = some (r.lease config stamp)) ∧
      (∀ id, id ∉ ids → t.rows[id]? = s.rows[id]?) ∧
      t.runs = s.runs.set w (if batch.isEmpty then none else some ⟨seen, batch⟩) ∧
      t.recorded = s.recorded ∧ t.rows.length = s.rows.length := by
  simp only [step] at h
  split at h
  next seen hw =>
    split at h
    next hstamp =>
      obtain ⟨⟨rows, batch⟩, hclaim, rfl⟩ := Option.map_eq_some_iff.mp h
      obtain ⟨hids, hclaim⟩ := Option.ite_none_right_eq_some.mp hclaim
      obtain ⟨rfl, rfl⟩ := Prod.mk.inj (Option.some.inj hclaim)
      have hsome : ∀ id ∈ ids, (s.rows[id]?).isSome := by
        intro id hid
        obtain ⟨r, hr, -⟩ := (Option.any_eq_true _ _).mp (hids.2.2 id hid)
        exact Option.isSome_of_eq_some hr
      refine ⟨seen, _, hw, hstamp, rfl, hids.1, claimed_ids hsome, ?_, ?_, rfl, rfl,
        List.length_mapIdx⟩
      · intro c hc
        obtain ⟨id, hid, hc⟩ := List.mem_filterMap.mp hc
        obtain ⟨r, hr, rfl⟩ := Option.map_eq_some_iff.mp hc
        have hcl := hids.2.2 id hid
        rw [hr, Option.any_some] at hcl
        exact ⟨r, hr, rfl, hcl, by simp [Row.claimed, hr, hid]⟩
      · intro id hid
        simp [hid]
    next => cases h
  next => cases h

/-- A claim, seen from the leases: it takes rows that no lease protects. -/
structure Claims (config : ProcessorConfig) (s t : Leased) (w : Nat) (ids : List Nat)
    (stamp : Int) : Prop where
  nodup : ids.Nodup
  recorded : t.state.recorded = s.state.recorded
  length : t.state.rows.length = s.state.rows.length
  claimable : ∀ id ∈ ids, ∃ r, s.state.rows[id]? = some r ∧ r.status.terminal = false ∧
    r.nextAttemptAt ≤ stamp ∧ t.state.rows[id]? = some (r.lease config stamp)
  others : ∀ id, id ∉ ids → t.state.rows[id]? = s.state.rows[id]?
  runs : ∀ (v : Nat) (run : Run), t.state.runs[v]? = some (some run) →
    (v = w ∧ run.batch.map ClaimedRow.id = ids) ∨ s.state.runs[v]? = some (some run)
  holds : ∀ v c τ, Holds config t v c τ → (v = w ∧ τ = stamp ∧ c.id ∈ ids ∧
      ∃ r, s.state.rows[c.id]? = some r ∧ c = r.claimed c.id) ∨
    (Holds config s v c τ ∧ c.id ∉ ids)

theorem LeaseInv.claims {ids : List Nat} {stamp : Int} (h : LeaseInv text config s)
    (hs : leasedStep text config s (.claim w ids stamp) = some t) :
    Claims config s t w ids stamp := by
  obtain ⟨u, hu, rfl⟩ := Option.map_eq_some_iff.mp hs
  obtain ⟨seen, batch, hw, hstamp, hnow, hnodup, hbatch, hrows, hother, hruns, hrecorded, hlength⟩ :=
    step_claim hu
  have hlt := (List.getElem?_eq_some_iff.mp hw).1
  rw [← h.sized] at hlt
  have hclaimable : ∀ id ∈ ids, ∃ r, s.state.rows[id]? = some r ∧ r.status.terminal = false ∧
      r.nextAttemptAt ≤ stamp ∧ u.rows[id]? = some (r.lease config stamp) := by
    intro id hid
    rw [← hbatch] at hid
    obtain ⟨c, hc, rfl⟩ := List.mem_map.mp hid
    obtain ⟨r, hr, -, hcl, hleased⟩ := hrows c hc
    simp only [claimable, decide_eq_true_eq] at hcl
    refine ⟨r, hr, ?_, hcl.2.2.1, hleased⟩
    rcases hcl.1 with hst | hst <;> rw [hst] <;> rfl
  refine ⟨hnodup, hrecorded, hlength, hclaimable, hother, ?_, ?_⟩
  · intro v run hv
    simp only [hruns] at hv
    rcases (ProcessPool.getElem?_set_iff hw).mp hv with ⟨rfl, hrun⟩ | ⟨-, hv⟩
    · split at hrun
      next => cases hrun
      next =>
        obtain rfl := Option.some.inj hrun
        exact .inl ⟨rfl, hbatch⟩
    · exact .inr hv
  · rintro v c τ ⟨hτ, hlease, run, hv, hc⟩
    rw [hruns] at hv
    rcases (ProcessPool.getElem?_set_iff hw).mp hv with ⟨rfl, hrun⟩ | ⟨hvw, hv⟩
    · rw [List.getElem?_set_self hlt] at hτ
      split at hrun
      next => cases hrun
      next =>
        obtain rfl := Option.some.inj hrun
        obtain ⟨r, hr, hrow, -⟩ := hrows c hc
        exact .inl ⟨rfl, (Option.some.inj hτ).symm, hbatch ▸ List.mem_map_of_mem hc, r, hr, hrow⟩
    · rw [List.getElem?_set_ne (Ne.symm hvw)] at hτ
      have hold : Holds config s v c τ := ⟨hτ, hnow ▸ hlease, run, hv, hc⟩
      refine .inr ⟨hold, fun hid => ?_⟩
      -- a row under another lease is not claimable
      obtain ⟨r, hr, -, hnext, -⟩ := hclaimable c.id hid
      obtain ⟨r', hr', hleased⟩ := h.held v c τ hold
      obtain rfl := Option.some.inj (hr.symm.trans hr')
      have hend := hleased.nextAttemptAt
      have hnow' := hold.2.1
      omega

theorem Claims.row {ids : List Nat} {stamp : Int} (h : Claims config s t w ids stamp) {id : Nat}
    {r : Row} (hr : t.state.rows[id]? = some r) :
    ∃ r', s.state.rows[id]? = some r' ∧ (r = r' ∨ id ∈ ids ∧ r = r'.lease config stamp) := by
  by_cases hid : id ∈ ids
  · obtain ⟨r', hr', -, -, hleased⟩ := h.claimable id hid
    exact ⟨r', hr', .inr ⟨hid, Option.some.inj (hr.symm.trans hleased)⟩⟩
  · exact ⟨r, (h.others id hid).symm.trans hr, .inl rfl⟩

theorem Claims.leaseInv {ids : List Nat} {stamp : Int} (hc : Claims config s t w ids stamp)
    (h : LeaseInv text config s) (hinv : Inv config t.state)
    (hsized : t.claimedAt.length = t.state.runs.length) : LeaseInv text config t := by
  refine ⟨hinv, hsized, ?_, ?_, ?_, ?_, ?_⟩
  · intro id r hr
    obtain ⟨r', hr', rfl | ⟨-, rfl⟩⟩ := hc.row hr
    · exact h.rows id r hr'
    · exact (h.rows id r' hr').lease
  · intro id r hr hst
    rw [hc.recorded]
    obtain ⟨r', hr', rfl | ⟨-, rfl⟩⟩ := hc.row hr
    · exact h.settled id r hr' hst
    · exact h.settled id r' hr' hst
  · intro v run hv
    rcases hc.runs v run hv with ⟨-, hids⟩ | hv
    · exact hids ▸ hc.nodup
    · exact h.nodup v run hv
  · intro v c τ hhold
    rcases hc.holds v c τ hhold with ⟨-, hτ, hid, r, hr, hrow⟩ | ⟨hold, hid⟩
    · obtain ⟨r', hr', hopen, -, hleased⟩ := hc.claimable c.id hid
      obtain rfl := Option.some.inj (hr.symm.trans hr')
      refine ⟨_, hleased, ?_⟩
      rw [hrow, hτ]
      exact ⟨hopen, rfl, rfl, rfl, rfl⟩
    · obtain ⟨r, hr, hleased⟩ := h.held v c τ hold
      exact ⟨r, (hc.others _ hid).trans hr, hleased⟩
  · intro v v' c c' τ τ' hhold hhold' hid
    rcases hc.holds v c τ hhold with ⟨hv, -, hin, -⟩ | ⟨hold, hout⟩
    · rcases hc.holds v' c' τ' hhold' with ⟨hv', -, -, -⟩ | ⟨-, hout'⟩
      · exact hv.trans hv'.symm
      · exact absurd (hid ▸ hin) hout'
    · rcases hc.holds v' c' τ' hhold' with ⟨-, -, hin', -⟩ | ⟨hold', -⟩
      · exact absurd (hid ▸ hin') hout
      · exact h.apart v v' c c' τ τ' hold hold' hid

/-- Recording an outcome, seen from the leases: run `w` gives its first row up, no other run has
it, and no other row changes. -/
structure Records (config : ProcessorConfig) (s t : Leased) (w : Nat) (row : ClaimedRow)
    (τ stamp : Int) (update : Row → Row) (outcome : RowOutcome) : Prop where
  now : t.state.now = s.state.now
  claimedAt : t.claimedAt = s.claimedAt
  held : Holds config s w row τ
  stamp : τ ≤ stamp
  updated : ∃ r, s.state.rows[row.id]? = some r ∧ LeasedTo config r row τ ∧
    t.state.rows[row.id]? = some (update r)
  others : ∀ id, id ≠ row.id → t.state.rows[id]? = s.state.rows[id]?
  holds : ∀ v c τ', Holds config t v c τ' → Holds config s v c τ' ∧ c.id ≠ row.id
  runs : ∀ (v : Nat) (run : Run), t.state.runs[v]? = some (some run) →
    ∃ run', s.state.runs[v]? = some (some run') ∧ run.batch.Sublist run'.batch
  recorded : t.state.recorded = (row.id, outcome) :: s.state.recorded
  range : 0 ≤ row.retryCount ∧ row.retryCount < config.maxRetries

theorem LeaseInv.process {reply : Except RetrievalError Unit} {stamp : Int}
    (h : LeaseInv text config s) (hl : WithinLease config s (.process w reply stamp))
    (hs : leasedStep text config s (.process w reply stamp) = some t) :
    ∃ row τ update outcome, Records config s t w row τ stamp update outcome ∧
      processSingleRow config stamp row (qdrantAttempt text row.eventType row.payload reply) =
        (update, outcome) := by
  obtain ⟨u, hu, rfl⟩ := Option.map_eq_some_iff.mp hs
  obtain ⟨seen, row, rest, update, outcome, hw, hmark, rfl⟩ := step_process hu
  obtain ⟨τ, hheld, hstamp⟩ := h.head_holds hw hl
  obtain ⟨r, hr, hleased⟩ := h.held w row τ hheld
  obtain ⟨-, -, hpos, hlt, -⟩ := h.inv.held w _ hw row (List.mem_cons_self ..)
  have hnodup : row.id ∉ rest.map ClaimedRow.id ∧ (rest.map ClaimedRow.id).Nodup :=
    List.nodup_cons.mp (h.nodup w _ hw)
  have hruns : ∀ (v : Nat) (run : Run),
      (s.state.runs.set w (some ⟨row.id :: seen, rest⟩))[v]? = some (some run) →
      (v = w ∧ run = ⟨row.id :: seen, rest⟩) ∨ (v ≠ w ∧ s.state.runs[v]? = some (some run)) := by
    intro v run hv
    rcases (ProcessPool.getElem?_set_iff hw).mp hv with ⟨rfl, hrun⟩ | hv
    · exact .inl ⟨rfl, Option.some.inj hrun⟩
    · exact .inr hv
  refine ⟨row, τ, update, outcome, ⟨rfl, rfl, hheld, hstamp, ⟨r, hr, hleased, ?_⟩, ?_, ?_, ?_, rfl,
    hpos, hlt⟩, hmark⟩
  · simp [hr]
  · intro id hid
    simp [Ne.symm hid]
  · rintro v c τ' ⟨hτ, hlease, run, hv, hc⟩
    rcases hruns v run hv with ⟨rfl, rfl⟩ | ⟨hvw, hv⟩
    · refine ⟨⟨hτ, hlease, _, hw, List.mem_cons_of_mem _ hc⟩, fun hid => hnodup.1 ?_⟩
      exact hid ▸ List.mem_map_of_mem hc
    · have hold : Holds config s v c τ' := ⟨hτ, hlease, run, hv, hc⟩
      exact ⟨hold, fun hid => hvw (h.apart v w c row τ' τ hold hheld hid)⟩
  · intro v run hv
    rcases hruns v run hv with ⟨rfl, rfl⟩ | ⟨-, hv⟩
    · exact ⟨_, hw, List.sublist_cons_self ..⟩
    · exact ⟨run, hv, .refl _⟩

theorem Records.leaseInv {row : ClaimedRow} {stamp : Int} {reply : Except RetrievalError Unit}
    {update : Row → Row} {outcome : RowOutcome} (hr : Records config s t w row τ stamp update outcome)
    (h : LeaseInv text config s) (hinv : Inv config t.state)
    (hsized : t.state.runs.length = s.state.runs.length)
    (hmark : processSingleRow config stamp row
      (qdrantAttempt text row.eventType row.payload reply) = (update, outcome)) :
    LeaseInv text config t := by
  obtain ⟨r, -, hleased, hupdated⟩ := hr.updated
  refine ⟨hinv, ?_, ?_, ?_, ?_, ?_, ?_⟩
  · rw [hr.claimedAt, hsized, h.sized]
  · intro id q hq
    by_cases hid : id = row.id
    · subst hid
      obtain rfl := Option.some.inj (hq.symm.trans hupdated)
      exact processSingleRow_rowOk hleased hr.range.1 hr.range.2 hmark
    · exact h.rows id q ((hr.others id hid).symm.trans hq)
  · intro id q hq hst
    rw [hr.recorded]
    by_cases hid : id = row.id
    · subst hid
      obtain rfl := Option.some.inj (hq.symm.trans hupdated)
      rw [processSingleRow_processed hmark hst]
      exact List.mem_cons_self ..
    · exact List.mem_cons_of_mem _ (h.settled id q ((hr.others id hid).symm.trans hq) hst)
  · intro v run hv
    obtain ⟨run', hv', hsub⟩ := hr.runs v run hv
    exact (h.nodup v run' hv').sublist (hsub.map _)
  · intro v c τ' hc
    obtain ⟨hc, hid⟩ := hr.holds v c τ' hc
    obtain ⟨q, hq, hq'⟩ := h.held v c τ' hc
    exact ⟨q, (hr.others _ hid).trans hq, hq'⟩
  · intro v v' c c' τ₁ τ₂ hc hc'
    exact h.apart v v' c c' τ₁ τ₂ (hr.holds v c τ₁ hc).1 (hr.holds v' c' τ₂ hc').1

/-- Each step is one of three kinds. -/
theorem leasedStep_kinds (h : LeaseInv text config s) (hl : WithinLease config s a)
    (hs : leasedStep text config s a = some t) :
    Fewer config s t ∨ (∃ w ids stamp, a = .claim w ids stamp ∧ Claims config s t w ids stamp) ∨
      ∃ w reply stamp row τ update outcome, a = .process w reply stamp ∧
        Records config s t w row τ stamp update outcome ∧
        processSingleRow config stamp row (qdrantAttempt text row.eventType row.payload reply) =
          (update, outcome) := by
  by_cases hclaim : ∃ w ids stamp, a = .claim w ids stamp
  · obtain ⟨w, ids, stamp, rfl⟩ := hclaim
    exact .inr (.inl ⟨w, ids, stamp, rfl, h.claims hs⟩)
  by_cases hprocess : ∃ w reply stamp, a = .process w reply stamp
  · obtain ⟨w, reply, stamp, rfl⟩ := hprocess
    obtain ⟨row, τ, update, outcome, hrec, hmark⟩ := h.process hl hs
    exact .inr (.inr ⟨w, reply, stamp, row, τ, update, outcome, rfl, hrec, hmark⟩)
  · exact .inl (leasedStep_fewer h.sized hs (fun w ids stamp ha => hclaim ⟨w, ids, stamp, ha⟩)
      fun w reply stamp ha => hprocess ⟨w, reply, stamp, ha⟩)

theorem leasedStep_inv (h : LeaseInv text config s) (hl : WithinLease config s a)
    (hs : leasedStep text config s a = some t) : LeaseInv text config t := by
  have hinv := h.step_inv hl hs
  rcases leasedStep_kinds h hl hs with hf | ⟨w, ids, stamp, rfl, hc⟩ |
    ⟨w, reply, stamp, row, τ, update, outcome, rfl, hrec, hmark⟩
  · exact h.of_fewer hinv hf
  · obtain ⟨u, hu, rfl⟩ := Option.map_eq_some_iff.mp hs
    obtain ⟨seen, batch, -, -, -, -, -, -, -, hruns, -, -⟩ := step_claim hu
    exact hc.leaseInv h hinv (by simp [hruns, h.sized])
  · obtain ⟨u, hu, rfl⟩ := Option.map_eq_some_iff.mp hs
    obtain ⟨_, _, _, _, _, -, -, rfl⟩ := step_process hu
    exact hrec.leaseInv h hinv (List.length_set ..) hmark

end Steps

end GmragApi.DeleteOutbox

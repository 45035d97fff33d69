import GmragApi.DeleteEvents
import GmragApi.ProcessPool
import GmragApi.Retry
import GmragApi.Transition

/-! The qdrant and storage outboxes: any number of runs claim batches under a lease and record
the outcome of every row. The two tables differ in what an attempt does, which is a parameter. -/

namespace GmragApi.DeleteOutbox

open Transition

inductive RowStatus
  | pending
  | processed
  | failed
  | dead
  deriving DecidableEq

def RowStatus.terminal : RowStatus → Bool
  | processed => true
  | dead => true
  | _ => false

structure ProcessorConfig where
  batchSize : Int
  maxRetries : Int
  backoff : OutboxBackoffConfig
  maxRetries_i32 : maxRetries ≤ i32Max

structure Row where
  eventType : List Char
  payload : Json
  status : RowStatus
  retryCount : Int
  errorMessage : Option (List Char)
  nextAttemptAt : Int

structure ClaimedRow where
  id : Nat
  eventType : List Char
  payload : Json
  retryCount : Int

structure Run where
  seenIds : List Nat
  batch : List ClaimedRow

inductive RowOutcome
  | processed
  | failed
  | dead
  deriving DecidableEq

/-- A row's id is its position in `rows`; `recorded` is the history of all outcomes. -/
structure State where
  now : Int
  rows : List Row
  runs : List (Option Run)
  recorded : List (Nat × RowOutcome)

def initial (now : Int) : State := ⟨now, [], [], []⟩

def enqueueEvent (eventType : List Char) (payload : Json) (stamp : Int) : Row :=
  ⟨eventType, payload, .pending, 0, none, stamp⟩

def claimable (config : ProcessorConfig) (exclude : List Nat) (stamp : Int) (id : Nat) (r : Row) :
    Bool :=
  decide ((r.status = .pending ∨ r.status = .failed) ∧ r.retryCount < config.maxRetries ∧
    r.nextAttemptAt ≤ stamp ∧ id ∉ exclude)

def Row.claimed (id : Nat) (r : Row) : ClaimedRow := ⟨id, r.eventType, r.payload, r.retryCount⟩

def Row.lease (config : ProcessorConfig) (stamp : Int) (r : Row) : Row :=
  { r with nextAttemptAt := stamp + config.backoff.claimLeaseSecs }

/-- The rows `ids` are those that the statement finds unlocked, in the order it returns them. -/
def claimBatch (config : ProcessorConfig) (exclude : List Nat) (stamp : Int) (rows : List Row)
    (ids : List Nat) : Option (List Row × List ClaimedRow) :=
  if ids.Nodup ∧ (ids.length : Int) ≤ config.batchSize ∧
      ∀ id ∈ ids, (rows[id]?).any (claimable config exclude stamp id) then
    some (rows.mapIdx fun id r => if id ∈ ids then r.lease config stamp else r,
      ids.filterMap fun id => (rows[id]?).map (Row.claimed id))
  else none

def markOutboxRowProcessed : (Row → Row) × RowOutcome :=
  (fun r => { r with status := .processed, errorMessage := none }, .processed)

def markOutboxRowFailure (config : ProcessorConfig) (stamp retryCount : Int)
    (errorMessage : List Char) (permanentError : Bool) : (Row → Row) × RowOutcome :=
  let message := truncateErrorMessage errorMessage
  match dispositionAfterFailure retryCount config.maxRetries permanentError config.backoff with
  | .retryable next secs =>
    (fun r => { r with status := .failed, retryCount := next, errorMessage := some message,
                       nextAttemptAt := stamp + secs }, .failed)
  | .dead next =>
    (fun r => { r with status := .dead, retryCount := next, errorMessage := some message }, .dead)

def processSingleRow (config : ProcessorConfig) (stamp : Int) (row : ClaimedRow) :
    AttemptResult → (Row → Row) × RowOutcome
  | .succeeded => markOutboxRowProcessed
  | .refused message permanent =>
    markOutboxRowFailure config stamp row.retryCount message permanent

inductive Act (E : Type)
  | tick (secs : Nat)
  | enqueue (eventType : List Char) (payload : Json) (stamp : Int)
  | startRun
  | claim (w : Nat) (ids : List Nat) (stamp : Int)
  | process (w : Nat) (reply : Except E Unit) (stamp : Int)
  | stop (w : Nat)

section System

variable {E : Type} (attempt : List Char → Json → Except E Unit → AttemptResult)
  (config : ProcessorConfig)

/-- Time stamps are taken when a statement starts, so they may lie behind the clock. A run that
stops, fails or is killed keeps nothing. -/
def step (s : State) : Act E → Option State
  | .tick secs => some { s with now := s.now + secs }
  | .enqueue eventType payload stamp =>
    if stamp ≤ s.now then some { s with rows := s.rows ++ [enqueueEvent eventType payload stamp] }
    else none
  | .startRun => some { s with runs := s.runs ++ [some ⟨[], []⟩] }
  | .claim w ids stamp =>
    match s.runs[w]? with
    | some (some ⟨seen, []⟩) =>
      if stamp ≤ s.now then
        (claimBatch config seen stamp s.rows ids).map fun (rows, batch) =>
          { s with rows := rows
                   runs := s.runs.set w (if batch.isEmpty then none else some ⟨seen, batch⟩) }
      else none
    | _ => none
  | .process w reply stamp =>
    match s.runs[w]? with
    | some (some ⟨seen, row :: rest⟩) =>
      if stamp ≤ s.now then
        let (update, outcome) :=
          processSingleRow config stamp row (attempt row.eventType row.payload reply)
        some { s with rows := s.rows.modify row.id update
                      runs := s.runs.set w (some ⟨row.id :: seen, rest⟩)
                      recorded := (row.id, outcome) :: s.recorded }
      else none
    | _ => none
  | .stop w =>
    match s.runs[w]? with
    | some (some _) => some { s with runs := s.runs.set w none }
    | _ => none

/-- How many failed attempts were recorded for the row. -/
def failuresRecorded (s : State) (id : Nat) : Nat :=
  s.recorded.countP fun e => e.1 == id && e.2 != .processed

/-- A step that keeps terminal rows, loses no retry and counts each failure. -/
structure KeepsOutcomes (s t : State) : Prop where
  kept : ∀ (id : Nat) (r : Row), s.rows[id]? = some r → ∃ r' : Row, t.rows[id]? = some r' ∧
    (r.status.terminal = true → r'.status = r.status) ∧ r.retryCount ≤ r'.retryCount
  counted : ∀ (id : Nat) (r : Row), t.rows[id]? = some r → r.retryCount = failuresRecorded t id

/-- A failure finds the row unsettled and its `retry_count` as the claim read it; a success finds
the row not `DEAD`. -/
def NotOvertaken (s : State) : Act E → Prop
  | .process w reply _ =>
    ∀ seen row rest (r : Row), s.runs[w]? = some (some ⟨seen, row :: rest⟩) → s.rows[row.id]? = some r →
      match attempt row.eventType row.payload reply with
      | .succeeded => r.status ≠ .dead
      | .refused _ _ => r.status.terminal = false ∧ r.retryCount = row.retryCount
  | _ => True

end System

theorem processSingleRow_refused (config : ProcessorConfig) (stamp : Int) (row : ClaimedRow)
    (message : List Char) (permanent : Bool) :
    ∃ update outcome, processSingleRow config stamp row (.refused message permanent) =
        (update, outcome) ∧ outcome ≠ .processed ∧
      ∀ r, (update r).retryCount = saturateI32 (row.retryCount + 1) ∧
        ((update r).status = .failed ∨ (update r).status = .dead) := by
  have hn := disposition_nextRetryCount row.retryCount config.maxRetries permanent config.backoff
  simp only [processSingleRow, markOutboxRowFailure]
  cases hd : dispositionAfterFailure row.retryCount config.maxRetries permanent config.backoff with
  | retryable next secs =>
    rw [hd] at hn
    exact ⟨_, _, rfl, by simp, fun r => ⟨hn, .inl rfl⟩⟩
  | dead next =>
    rw [hd] at hn
    exact ⟨_, _, rfl, by simp, fun r => ⟨hn, .inr rfl⟩⟩

/-- Every claimed row was read below the retry limit, and lags behind a row that died since. -/
structure Inv (config : ProcessorConfig) (s : State) : Prop where
  counted : ∀ (id : Nat) (r : Row), s.rows[id]? = some r → r.retryCount = failuresRecorded s id
  fresh : ∀ id, s.rows.length ≤ id → failuresRecorded s id = 0
  held : ∀ (w : Nat) (run : Run), s.runs[w]? = some (some run) → ∀ c ∈ run.batch,
    ∃ r : Row, s.rows[c.id]? = some r ∧ 0 ≤ c.retryCount ∧ c.retryCount < config.maxRetries ∧
      c.retryCount ≤ r.retryCount ∧ (r.status = .dead → c.retryCount < r.retryCount)

theorem initial_inv (config : ProcessorConfig) (now : Int) : Inv config (initial now) := by
  constructor <;> simp [initial, failuresRecorded]

/-- What every step but `process` does: statuses and counts stay, and a row enters a batch as
it is read. -/
structure Quiet (config : ProcessorConfig) (s t : State) : Prop where
  recorded : t.recorded = s.recorded
  grows : s.rows.length ≤ t.rows.length
  same : ∀ (id : Nat) (r : Row), s.rows[id]? = some r → ∃ r' : Row, t.rows[id]? = some r' ∧
    r'.status = r.status ∧ r'.retryCount = r.retryCount
  added : ∀ (id : Nat) (r : Row), t.rows[id]? = some r → s.rows.length ≤ id → r.retryCount = 0
  taken : ∀ (w : Nat) (run : Run), t.runs[w]? = some (some run) → ∀ c ∈ run.batch,
    (∃ run', s.runs[w]? = some (some run') ∧ c ∈ run'.batch) ∨
      ∃ r : Row, s.rows[c.id]? = some r ∧ c.retryCount = r.retryCount ∧
        r.retryCount < config.maxRetries ∧ r.status.terminal = false

theorem Quiet.keeps {config : ProcessorConfig} {s t : State} (h : Quiet config s t)
    (hi : Inv config s) : KeepsOutcomes s t ∧ Inv config t := by
  have hf : ∀ id, failuresRecorded t id = failuresRecorded s id := by
    intro id
    rw [failuresRecorded, failuresRecorded, h.recorded]
  have counted : ∀ (id : Nat) (r : Row), t.rows[id]? = some r →
      r.retryCount = failuresRecorded t id := by
    intro id r hr
    rw [hf]
    by_cases hid : id < s.rows.length
    · obtain ⟨r', hr', -, hc⟩ := h.same id _ (List.getElem?_eq_getElem hid)
      cases Option.some.inj (hr.symm.trans hr')
      rw [hc]
      exact hi.counted id _ (List.getElem?_eq_getElem hid)
    · rw [h.added id r hr (by omega), hi.fresh id (by omega)]
      rfl
  refine ⟨⟨?_, counted⟩, counted, ?_, ?_⟩
  · intro id r hr
    obtain ⟨r', hr', hs, hc⟩ := h.same id r hr
    exact ⟨r', hr', fun _ => hs, Int.le_of_eq hc.symm⟩
  · intro id hid
    rw [hf]
    exact hi.fresh id (Nat.le_trans h.grows hid)
  · intro w run hw c hc
    rcases h.taken w run hw c hc with ⟨run', hw', hc'⟩ | ⟨r, hr, hcr, hlt, ht⟩
    · obtain ⟨r, hr, hpos, hlt, hle, hd⟩ := hi.held w run' hw' c hc'
      obtain ⟨r', hr', hs, hr'c⟩ := h.same c.id r hr
      exact ⟨r', hr', hpos, hlt, hr'c ▸ hle, fun hdead => hr'c ▸ hd (hs ▸ hdead)⟩
    · obtain ⟨r', hr', hs, hr'c⟩ := h.same c.id r hr
      have hpos : 0 ≤ c.retryCount := by
        rw [hcr, hi.counted _ _ hr]
        omega
      refine ⟨r', hr', hpos, hcr ▸ hlt, Int.le_of_eq (hcr.trans hr'c.symm), ?_⟩
      intro hdead
      rw [← hs, hdead] at ht
      cases ht

theorem claimBatch_rows {config : ProcessorConfig} {exclude ids : List Nat} {stamp : Int}
    {rows rows' : List Row} {batch : List ClaimedRow}
    (h : claimBatch config exclude stamp rows ids = some (rows', batch)) :
    rows'.length = rows.length ∧
      (∀ (id : Nat) (r : Row), rows[id]? = some r → ∃ r' : Row, rows'[id]? = some r' ∧
        r'.status = r.status ∧ r'.retryCount = r.retryCount) ∧
      ∀ c ∈ batch, ∃ r : Row, rows[c.id]? = some r ∧ c.retryCount = r.retryCount ∧
        r.retryCount < config.maxRetries ∧ r.status.terminal = false := by
  unfold claimBatch at h
  split at h
  next hids =>
    obtain ⟨rfl, rfl⟩ := Prod.mk.inj (Option.some.inj h)
    refine ⟨by simp, ?_, ?_⟩
    · intro id r hr
      refine ⟨if id ∈ ids then r.lease config stamp else r, by simp [hr], ?_⟩
      split <;> exact ⟨rfl, rfl⟩
    · intro c hc
      obtain ⟨id, hid, hc⟩ := List.mem_filterMap.mp hc
      obtain ⟨r, hr, rfl⟩ := Option.map_eq_some_iff.mp hc
      have hcl := hids.2.2 id hid
      simp only [hr, Option.any_some, claimable, decide_eq_true_eq] at hcl
      refine ⟨r, hr, rfl, hcl.2.1, ?_⟩
      rcases hcl.1 with hs | hs <;> rw [hs] <;> rfl
  next => cases h

theorem claimed_ids {rows : List Row} {ids : List Nat} (h : ∀ id ∈ ids, (rows[id]?).isSome) :
    (ids.filterMap fun id => (rows[id]?).map (Row.claimed id)).map ClaimedRow.id = ids := by
  induction ids with
  | nil => rfl
  | cons id ids ih =>
    obtain ⟨r, hr⟩ := Option.isSome_iff_exists.mp (h id (List.mem_cons_self ..))
    have htail := ih fun id' hid' => h id' (List.mem_cons_of_mem _ hid')
    simp only [List.filterMap_cons, hr, Option.map_some, List.map_cons, Row.claimed, htail]

section Steps

variable {E : Type} {attempt : List Char → Json → Except E Unit → AttemptResult}
  {config : ProcessorConfig} {s t : State}

theorem step_quiet {a : Act E} (h : step attempt config s a = some t)
    (other : ∀ w reply stamp, a ≠ .process w reply stamp) : Quiet config s t := by
  have stay : ∀ (id : Nat) (r : Row), s.rows[id]? = some r → ∃ r' : Row, s.rows[id]? = some r' ∧
      r'.status = r.status ∧ r'.retryCount = r.retryCount := fun id r hr => ⟨r, hr, rfl, rfl⟩
  have none_added : ∀ (id : Nat) (r : Row), s.rows[id]? = some r → s.rows.length ≤ id →
      r.retryCount = 0 := by
    intro id r hr hid
    simp [List.getElem?_eq_none hid] at hr
  cases a with
  | tick secs =>
    cases Option.some.inj h
    exact ⟨rfl, Nat.le_refl _, stay, none_added, fun w run hw c hc => .inl ⟨run, hw, hc⟩⟩
  | enqueue eventType payload stamp =>
    simp only [step] at h
    split at h
    next =>
      cases Option.some.inj h
      refine ⟨rfl, by simp, ?_, ?_, fun w run hw c hc => .inl ⟨run, hw, hc⟩⟩
      · intro id r hr
        exact ⟨r, ProcessPool.getElem?_push_iff.mpr (.inl hr), rfl, rfl⟩
      · intro id r hr hid
        rcases ProcessPool.getElem?_push_iff.mp hr with hr | ⟨-, rfl⟩
        · exact none_added id r hr hid
        · rfl
    next => cases h
  | startRun =>
    cases Option.some.inj h
    refine ⟨rfl, Nat.le_refl _, stay, none_added, ?_⟩
    intro w run hw c hc
    rcases ProcessPool.getElem?_push_iff.mp hw with hw | ⟨-, hrun⟩
    · exact .inl ⟨run, hw, hc⟩
    · cases Option.some.inj hrun
      simp at hc
  | claim w ids stamp =>
    simp only [step] at h
    split at h
    next seen hw =>
      split at h
      next =>
        obtain ⟨⟨rows, batch⟩, hb, ht⟩ := Option.map_eq_some_iff.mp h
        subst ht
        obtain ⟨hlen, hsame, hbatch⟩ := claimBatch_rows hb
        refine ⟨rfl, Nat.le_of_eq hlen.symm, hsame, ?_, ?_⟩
        · intro id r hr hid
          have := (List.getElem?_eq_some_iff.mp hr).1
          simp only at this
          omega
        · intro v run hv c hc
          rcases (ProcessPool.getElem?_set_iff hw).mp hv with ⟨rfl, hrun⟩ | ⟨hvw, hv⟩
          · split at hrun
            next => cases hrun
            next =>
              cases Option.some.inj hrun
              exact .inr (hbatch c hc)
          · exact .inl ⟨run, hv, hc⟩
      next => cases h
    next => cases h
  | process w reply stamp => exact absurd rfl (other w reply stamp)
  | stop w =>
    simp only [step] at h
    split at h
    next run hw =>
      cases Option.some.inj h
      refine ⟨rfl, Nat.le_refl _, stay, none_added, ?_⟩
      intro v run' hv c hc
      rcases (ProcessPool.getElem?_set_iff hw).mp hv with ⟨-, hrun⟩ | ⟨-, hv⟩
      · cases hrun
      · exact .inl ⟨run', hv, hc⟩
    next => cases h

theorem step_process {w : Nat} {reply : Except E Unit} {stamp : Int}
    (h : step attempt config s (.process w reply stamp) = some t) :
    ∃ seen row rest update outcome, s.runs[w]? = some (some ⟨seen, row :: rest⟩) ∧
      processSingleRow config stamp row (attempt row.eventType row.payload reply) =
        (update, outcome) ∧
      t = { s with rows := s.rows.modify row.id update
                   runs := s.runs.set w (some ⟨row.id :: seen, rest⟩)
                   recorded := (row.id, outcome) :: s.recorded } := by
  simp only [step] at h
  split at h
  next seen row rest hw =>
    split at h
    next => exact ⟨seen, row, rest, _, _, hw, rfl, (Option.some.inj h).symm⟩
    next => cases h
  next => cases h

end Steps

/-- One recorded outcome, with the update of its row known. -/
theorem process_keeps {config : ProcessorConfig} {s : State} {w : Nat} {seen : List Nat}
    {row : ClaimedRow} {rest : List ClaimedRow} {update : Row → Row} {outcome : RowOutcome} {r : Row}
    (hi : Inv config s) (hw : s.runs[w]? = some (some ⟨seen, row :: rest⟩))
    (hr : s.rows[row.id]? = some r)
    (hterm : r.status.terminal = true → (update r).status = r.status)
    (hcount : (update r).retryCount = r.retryCount + if outcome = .processed then 0 else 1)
    (hdead : outcome = .processed → (update r).status ≠ .dead) :
    let t : State := { s with rows := s.rows.modify row.id update
                              runs := s.runs.set w (some ⟨row.id :: seen, rest⟩)
                              recorded := (row.id, outcome) :: s.recorded }
    KeepsOutcomes s t ∧ Inv config t := by
  intro t
  have hrows : ∀ (id : Nat), t.rows[id]? = if row.id = id then (s.rows[id]?).map update else
      s.rows[id]? := by
    intro id
    simp only [t, List.getElem?_modify]
    split <;> simp
  have hself : t.rows[row.id]? = some (update r) := by simp [hrows, hr]
  have hother : ∀ id, id ≠ row.id → t.rows[id]? = s.rows[id]? := by
    intro id hid
    simp [hrows, Ne.symm hid]
  have hrec : ∀ id, failuresRecorded t id = failuresRecorded s id +
      if row.id = id ∧ outcome ≠ .processed then 1 else 0 := by
    intro id
    simp [t, failuresRecorded, List.countP_cons]
  have counted : ∀ (id : Nat) (q : Row), t.rows[id]? = some q →
      q.retryCount = failuresRecorded t id := by
    intro id q hq
    rw [hrec]
    by_cases hid : id = row.id
    · subst hid
      cases Option.some.inj (hself.symm.trans hq)
      rw [hcount, hi.counted _ _ hr]
      by_cases ho : outcome = .processed <;> simp [ho]
    · rw [hother id hid] at hq
      simpa [Ne.symm hid] using hi.counted id q hq
  have hle : r.retryCount ≤ (update r).retryCount := by
    rw [hcount]
    split <;> omega
  refine ⟨⟨?_, counted⟩, counted, ?_, ?_⟩
  · intro id q hq
    by_cases hid : id = row.id
    · subst hid
      cases Option.some.inj (hr.symm.trans hq)
      exact ⟨_, hself, hterm, hle⟩
    · exact ⟨q, (hother id hid).trans hq, fun _ => rfl, Int.le_refl _⟩
  · intro id hid
    have hlen : t.rows.length = s.rows.length := by simp [t]
    have hne : row.id ≠ id := by
      have := (List.getElem?_eq_some_iff.mp hr).1
      omega
    rw [hrec, hi.fresh id (by omega)]
    simp [hne]
  · intro v run hv c hc
    have hold : ∃ run' : Run, s.runs[v]? = some (some run') ∧ c ∈ run'.batch := by
      rcases (ProcessPool.getElem?_set_iff hw).mp hv with ⟨rfl, hrun⟩ | ⟨-, hv⟩
      · cases Option.some.inj hrun
        exact ⟨_, hw, List.mem_cons_of_mem _ hc⟩
      · exact ⟨run, hv, hc⟩
    obtain ⟨run', hv', hc'⟩ := hold
    obtain ⟨q, hq, hpos, hlt, hcq, hd⟩ := hi.held v run' hv' c hc'
    by_cases hid : c.id = row.id
    · rw [hid] at hq ⊢
      cases Option.some.inj (hr.symm.trans hq)
      refine ⟨_, hself, hpos, hlt, Int.le_trans hcq hle, ?_⟩
      intro hstatus
      have ho : outcome ≠ .processed := fun ho => hdead ho hstatus
      rw [hcount, if_neg ho]
      omega
    · exact ⟨q, (hother c.id hid).trans hq, hpos, hlt, hcq, hd⟩

section Exact

variable {E : Type} {attempt : List Char → Json → Except E Unit → AttemptResult}
  {config : ProcessorConfig} {s t : State} {a : Act E}

/-- The row at the head of a batch, with the count that a failure writes. -/
theorem Inv.head_row (hi : Inv config s) {w : Nat} {seen : List Nat} {row : ClaimedRow}
    {rest : List ClaimedRow} (hw : s.runs[w]? = some (some ⟨seen, row :: rest⟩)) :
    ∃ r : Row, s.rows[row.id]? = some r ∧ saturateI32 (row.retryCount + 1) = row.retryCount + 1 ∧
      (r.status = .dead → row.retryCount < r.retryCount) := by
  obtain ⟨r, hr, hpos, hlt, -, hd⟩ := hi.held w _ hw row (List.mem_cons_self ..)
  have hmax := config.maxRetries_i32
  exact ⟨r, hr, saturateI32_of_range (by simp only [i32Min]; omega) (by omega), hd⟩

theorem step_keepsOutcomes (hi : Inv config s) (ho : NotOvertaken attempt s a)
    (h : step attempt config s a = some t) : KeepsOutcomes s t ∧ Inv config t := by
  by_cases hp : ∃ w reply stamp, a = .process w reply stamp
  · obtain ⟨w, reply, stamp, rfl⟩ := hp
    obtain ⟨seen, row, rest, update, outcome, hw, hmark, rfl⟩ := step_process h
    obtain ⟨r, hr, hsat, -⟩ := hi.head_row hw
    have hok := ho seen row rest r hw hr
    cases ha : attempt row.eventType row.payload reply with
    | succeeded =>
      simp only [ha] at hmark hok
      obtain ⟨rfl, rfl⟩ := Prod.mk.inj hmark
      refine process_keeps hi hw hr ?_ (by simp) (fun _ => by simp)
      intro hterm
      cases hs : r.status <;> simp_all [RowStatus.terminal]
    | refused message permanent =>
      simp only [ha] at hmark hok
      obtain ⟨u, o, hu, hne, hupd⟩ := processSingleRow_refused config stamp row message permanent
      obtain ⟨rfl, rfl⟩ := Prod.mk.inj (hu.symm.trans hmark)
      refine process_keeps hi hw hr ?_ ?_ (fun h => absurd h hne)
      · intro hterm
        rw [hok.1] at hterm
        cases hterm
      · rw [(hupd r).1, hsat, hok.2, if_neg hne]
  · exact (step_quiet h fun w reply stamp ha => hp ⟨w, reply, stamp, ha⟩).keeps hi

theorem keepsOutcomes_notOvertaken (hi : Inv config s) (h : step attempt config s a = some t)
    (hk : KeepsOutcomes s t) : NotOvertaken attempt s a := by
  cases a with
  | process w reply stamp =>
    intro seen row rest r hw hr
    obtain ⟨seen', row', rest', update, outcome, hw', hmark, rfl⟩ := step_process h
    obtain ⟨-, hbatch⟩ := Run.mk.inj (Option.some.inj (Option.some.inj (hw.symm.trans hw')))
    obtain ⟨rfl, rfl⟩ := List.cons.inj hbatch
    obtain ⟨r', hr', hterm, hle'⟩ := hk.kept row.id r hr
    simp only [List.getElem?_modify, hr, Option.map_eq_map, Option.map_some, ↓reduceIte,
      Option.some.injEq] at hr'
    subst hr'
    cases ha : attempt row.eventType row.payload reply with
    | succeeded =>
      simp only [ha] at hmark ⊢
      obtain ⟨rfl, rfl⟩ := Prod.mk.inj hmark
      intro hdead
      have := hterm (by rw [hdead]; rfl)
      rw [hdead] at this
      cases this
    | refused message permanent =>
      simp only [ha] at hmark ⊢
      obtain ⟨u, o, hu, hne, hupd⟩ := processSingleRow_refused config stamp row message permanent
      obtain ⟨rfl, rfl⟩ := Prod.mk.inj (hu.symm.trans hmark)
      obtain ⟨q, hq, hsat, hdead⟩ := hi.head_row hw
      cases Option.some.inj (hr.symm.trans hq)
      have hcount := hk.counted row.id (u r) (by simp [hr])
      have hold := hi.counted row.id r hr
      simp only [failuresRecorded, List.countP_cons] at hcount hold
      rw [(hupd r).1, hsat] at hcount
      have hread : r.retryCount = row.retryCount := by simp [hne] at hcount; omega
      refine ⟨?_, hread⟩
      cases hs : r.status with
      | pending => rfl
      | failed => rfl
      | processed =>
        have := hterm (by rw [hs]; rfl)
        rw [hs] at this
        rcases (hupd r).2 with h | h <;> rw [h] at this <;> cases this
      | dead =>
        have := hdead hs
        omega
  | _ => trivial

theorem keepsOutcomes_iff_notOvertaken {as : List (Act E)} (hi : Inv config s)
    (hr : run (step attempt config) s as = some t) :
    EachStep (step attempt config) KeepsOutcomes s as ↔
      Meets (step attempt config) (NotOvertaken attempt) s as := by
  refine eachStep_iff_meets ?_ ?_ hi hr
  · intro _ _ _ hi ho h
    exact step_keepsOutcomes hi ho h
  · intro _ _ _ hi h hk
    exact keepsOutcomes_notOvertaken hi h hk

end Exact

/-- In a run of either outbox, every step keeps terminal rows, loses no retry and counts each
failure exactly when no recorded outcome was overtaken by another one since its claim. -/
theorem outbox_run_keepsOutcomes_iff (text : UuidText) (config : ProcessorConfig) (now : Int) :
    (∀ as s, run (step (qdrantAttempt text) config) (initial now) as = some s →
      (EachStep (step (qdrantAttempt text) config) KeepsOutcomes (initial now) as ↔
        Meets (step (qdrantAttempt text) config) (NotOvertaken (qdrantAttempt text))
          (initial now) as)) ∧
    ∀ as s, run (step (storageAttempt text) config) (initial now) as = some s →
      (EachStep (step (storageAttempt text) config) KeepsOutcomes (initial now) as ↔
        Meets (step (storageAttempt text) config) (NotOvertaken (storageAttempt text))
          (initial now) as) := by
  have hi := initial_inv config now
  exact ⟨fun as s hr => keepsOutcomes_iff_notOvertaken hi hr,
    fun as s hr => keepsOutcomes_iff_notOvertaken hi hr⟩

def defaultConfig : ProcessorConfig := ⟨50, 5, ⟨2, 300, 120⟩, by decide⟩

def oneWorkspace : Json := DeleteByWorkspacePayload.toJson uuidText ⟨Uuid.ofNat 1⟩

/-- Run 0 outlives its lease; run 1 claims the row again and records success. -/
def overtakenRun : List (Act RetrievalError) :=
  [.enqueue QdrantOutboxEventType.deleteByWorkspace.asStr oneWorkspace 0, .startRun, .startRun,
    .claim 0 [0] 0, .tick 120, .claim 1 [0] 120, .process 1 (.ok ()) 120]

def staleFailure : Act RetrievalError := .process 0 (.error (.timeout 10)) 120

theorem outbox_run_keepsOutcomes_iff_at :
    (∃ s, run (step (qdrantAttempt uuidText) defaultConfig) (initial 0) overtakenRun = some s ∧
      (EachStep (step (qdrantAttempt uuidText) defaultConfig) KeepsOutcomes (initial 0) overtakenRun ↔
        Meets (step (qdrantAttempt uuidText) defaultConfig) (NotOvertaken (qdrantAttempt uuidText))
          (initial 0) overtakenRun)) ∧
    ∃ s, run (step (storageAttempt uuidText) defaultConfig) (initial 0) [.startRun] = some s ∧
      (EachStep (step (storageAttempt uuidText) defaultConfig) KeepsOutcomes (initial 0) [.startRun] ↔
        Meets (step (storageAttempt uuidText) defaultConfig)
          (NotOvertaken (storageAttempt uuidText)) (initial 0) [.startRun]) := by
  have h : (run (step (qdrantAttempt uuidText) defaultConfig) (initial 0) overtakenRun).isSome := by
    decide
  obtain ⟨s, hs⟩ := Option.isSome_iff_exists.mp h
  exact ⟨⟨s, hs, (outbox_run_keepsOutcomes_iff uuidText defaultConfig 0).1 _ s hs⟩,
    ⟨_, rfl, (outbox_run_keepsOutcomes_iff uuidText defaultConfig 0).2 _ _ rfl⟩⟩

def statusOf (s : State) (id : Nat) : Option RowStatus := (s.rows[id]?).map Row.status

theorem stale_run_reopens_processed_row :
    ∃ s t, run (step (qdrantAttempt uuidText) defaultConfig) (initial 0) overtakenRun = some s ∧
      step (qdrantAttempt uuidText) defaultConfig s staleFailure = some t ∧
      statusOf s 0 = some .processed ∧ statusOf t 0 = some .failed := by
  have h : (run (step (qdrantAttempt uuidText) defaultConfig) (initial 0) overtakenRun).map
      (fun s => (statusOf s 0, (step (qdrantAttempt uuidText) defaultConfig s staleFailure).map
        fun t => statusOf t 0)) = some (some .processed, some (some .failed)) := by decide
  obtain ⟨s, hs, h⟩ := Option.map_eq_some_iff.mp h
  obtain ⟨hb, h⟩ := Prod.mk.inj h
  obtain ⟨t, ht, ha⟩ := Option.map_eq_some_iff.mp h
  exact ⟨s, t, hs, ht, hb, ha⟩

end GmragApi.DeleteOutbox

import GmragApi.OutboxLeases

/-! The life of a row of the qdrant outbox while every worker records its outcomes within the
lease: how often a row is attempted, what it ends as, and when it is claimed again. -/

namespace GmragApi.DeleteOutbox

open Transition

/-- How often an outcome was recorded for the row. -/
def attempts (s : State) (id : Nat) : Nat := s.recorded.countP (·.1 == id)

/-- The first claim after the last failure of the row comes at `τ` at the earliest. -/
structure NotBefore (config : ProcessorConfig) (s : Leased) (id : Nat) (τ : Int) : Prop where
  known : id < s.state.rows.length
  next : ∀ r, s.state.rows[id]? = some r → τ ≤ r.nextAttemptAt
  held : ∀ w c τ', Holds config s w c τ' → c.id = id → τ ≤ τ'

section Waits

variable {text : UuidText} {config : ProcessorConfig} {s t : Leased} {a : Act RetrievalError}
  {w id : Nat} {c : ClaimedRow} {τ stamp : Int}

theorem processSingleRow_event {result : AttemptResult} {update : Row → Row} {outcome : RowOutcome}
    (h : processSingleRow config stamp c result = (update, outcome)) (r : Row) :
    (update r).eventType = r.eventType ∧ (update r).payload = r.payload := by
  cases result with
  | succeeded =>
    obtain ⟨rfl, -⟩ := Prod.mk.inj h
    exact ⟨rfl, rfl⟩
  | refused message permanent =>
    simp only [processSingleRow, markOutboxRowFailure] at h
    split at h
    next =>
      obtain ⟨rfl, -⟩ := Prod.mk.inj h
      exact ⟨rfl, rfl⟩
    next =>
      obtain ⟨rfl, -⟩ := Prod.mk.inj h
      exact ⟨rfl, rfl⟩

theorem processSingleRow_dead {result : AttemptResult} {update : Row → Row}
    (h : processSingleRow config stamp c result = (update, .dead)) (r : Row) :
    (update r).status = .dead := by
  cases result with
  | succeeded => cases (Prod.mk.inj h).2
  | refused message permanent =>
    simp only [processSingleRow, markOutboxRowFailure] at h
    split at h
    next => cases (Prod.mk.inj h).2
    next =>
      obtain ⟨rfl, -⟩ := Prod.mk.inj h
      rfl

/-- A failure sets the time of the next attempt anew; nothing else that is recorded does. -/
theorem processSingleRow_nextAttemptAt {result : AttemptResult} {update : Row → Row}
    {outcome : RowOutcome} (h : processSingleRow config stamp c result = (update, outcome)) (r : Row) :
    (update r).nextAttemptAt = r.nextAttemptAt ∨ stamp ≤ (update r).nextAttemptAt := by
  cases result with
  | succeeded =>
    obtain ⟨rfl, -⟩ := Prod.mk.inj h
    exact .inl rfl
  | refused message permanent =>
    simp only [processSingleRow, markOutboxRowFailure] at h
    split at h
    next next secs hd =>
      obtain ⟨rfl, -⟩ := Prod.mk.inj h
      have hsecs := computeBackoffSecs_nonneg next config.backoff.baseBackoffSecs
        config.backoff.maxBackoffSecs
      rw [← disposition_backoff hd] at hsecs
      refine .inr ?_
      show stamp ≤ stamp + secs
      omega
    next =>
      obtain ⟨rfl, -⟩ := Prod.mk.inj h
      exact .inl rfl

/-- Every later claim of the row, and every outcome recorded under it, comes at `τ` or after. -/
theorem leasedStep_notBefore (hconfig : Configured config) (h : LeaseInv text config s)
    (hl : WithinLease config s a) (hn : NotBefore config s id τ)
    (hs : leasedStep text config s a = some t) : NotBefore config t id τ := by
  have hlease := hconfig.lease
  rcases leasedStep_kinds h hl hs with hf | ⟨w, ids, stamp, -, hc⟩ |
    ⟨w, reply, stamp, row, τ', update, outcome, -, hrec, hmark⟩
  · obtain ⟨r, hr⟩ : ∃ r, s.state.rows[id]? = some r := ⟨_, List.getElem?_eq_getElem hn.known⟩
    have hr' := hf.kept id r hr
    refine ⟨(List.getElem?_eq_some_iff.mp hr').1, ?_, fun w c τ' hc => hn.held w c τ' (hf.holds w c τ' hc)⟩
    intro q hq
    obtain rfl := Option.some.inj (hq.symm.trans hr')
    exact hn.next q hr
  · refine ⟨hc.length ▸ hn.known, ?_, ?_⟩
    · intro r hr
      obtain ⟨r', hr', rfl | ⟨hid, rfl⟩⟩ := hc.row hr
      · exact hn.next r hr'
      · obtain ⟨q, hq, -, hnext, -⟩ := hc.claimable id hid
        have hτ := hn.next q hq
        show τ ≤ stamp + config.backoff.claimLeaseSecs
        omega
    · intro v c τ' hhold hid
      rcases hc.holds v c τ' hhold with ⟨-, rfl, hin, -⟩ | ⟨hold, -⟩
      · obtain ⟨q, hq, -, hnext, -⟩ := hc.claimable c.id hin
        rw [hid] at hq
        exact Int.le_trans (hn.next q hq) hnext
      · exact hn.held v c τ' hold hid
  · obtain ⟨r, hr, -, hupdated⟩ := hrec.updated
    refine ⟨?_, ?_, fun v c τ'' hhold => hn.held v c τ'' (hrec.holds v c τ'' hhold).1⟩
    · by_cases hid : id = row.id
      · exact hid ▸ (List.getElem?_eq_some_iff.mp hupdated).1
      · have hq := (hrec.others id hid).trans (List.getElem?_eq_getElem hn.known)
        exact (List.getElem?_eq_some_iff.mp hq).1
    · intro q hq
      by_cases hid : id = row.id
      · subst hid
        obtain rfl := Option.some.inj (hq.symm.trans hupdated)
        have hτ := hn.held w row τ' hrec.held rfl
        have hstamp := hrec.stamp
        rcases processSingleRow_nextAttemptAt hmark r with hsame | hlater
        · rw [hsame]
          exact hn.next r hr
        · omega
      · exact hn.next q ((hrec.others id hid).symm.trans hq)

/-- The time that a failure leaves before the next claim. -/
theorem Records.notBefore {row : ClaimedRow} {reply : Except RetrievalError Unit}
    {update : Row → Row} (hconfig : Configured config) (h : LeaseInv text config t)
    (hrec : Records config s t w row τ stamp update .failed)
    (hmark : processSingleRow config stamp row
      (qdrantAttempt text row.eventType row.payload reply) = (update, .failed)) :
    NotBefore config t row.id (stamp + min (config.backoff.baseBackoffSecs *
      2 ^ (failuresRecorded t.state row.id - 1)) config.backoff.maxBackoffSecs) := by
  obtain ⟨r, -, -, hupdated⟩ := hrec.updated
  have hmax := config.maxRetries_i32
  have hrange := hrec.range
  have hcount := h.inv.counted _ _ hupdated
  have hsat : saturateI32 (row.retryCount + 1) = row.retryCount + 1 :=
    saturateI32_of_range (by simp only [i32Min]; omega) (by omega)
  refine ⟨(List.getElem?_eq_some_iff.mp hupdated).1, ?_,
    fun v c τ' hhold hid => absurd hid (hrec.holds v c τ' hhold).2⟩
  intro q hq
  obtain rfl := Option.some.inj (hq.symm.trans hupdated)
  cases ha : qdrantAttempt text row.eventType row.payload reply with
  | succeeded =>
    rw [ha] at hmark
    cases (Prod.mk.inj hmark).2
  | refused message permanent =>
    rw [ha] at hmark
    simp only [processSingleRow, markOutboxRowFailure] at hmark
    split at hmark
    next next secs hd =>
      obtain ⟨-, hnext, -⟩ := disposition_retryable hd
      have hsecs := disposition_backoff hd
      obtain ⟨rfl, -⟩ := Prod.mk.inj hmark
      obtain ⟨k, hk⟩ : ∃ k : Nat, (k : Int) = row.retryCount :=
        ⟨row.retryCount.toNat, Int.toNat_of_nonneg hrange.1⟩
      have hnext' : next = k + 1 := by omega
      have hfailures : failuresRecorded t.state row.id - 1 = k := by
        have hcount' : next = failuresRecorded t.state row.id := hcount
        omega
      have hbound := @computeBackoffSecs_ge k config.backoff.baseBackoffSecs
        config.backoff.maxBackoffSecs (by omega) hconfig.cap
      rw [hfailures]
      show stamp + _ ≤ stamp + secs
      rw [hsecs, hnext']
      omega
    next => cases (Prod.mk.inj hmark).2

end Waits

section Runs

variable {text : UuidText} {config : ProcessorConfig} {s t : Leased} {as : List (Act RetrievalError)}

theorem run_leaseInv (h : LeaseInv text config s)
    (hm : Meets (leasedStep text config) (WithinLease config) s as)
    (hr : run (leasedStep text config) s as = some t) : LeaseInv text config t :=
  run_invariant (fun _ _ _ hi ho hs => leasedStep_inv hi ho hs) h hm hr

/-- The row is dead and has had `n` attempts. -/
def Buried (s : Leased) (id n : Nat) : Prop :=
  (∃ r, s.state.rows[id]? = some r ∧ r.status = .dead) ∧ attempts s.state id = n

theorem leasedStep_buried {id n : Nat} {a : Act RetrievalError} (h : LeaseInv text config s)
    (hl : WithinLease config s a) (hb : Buried s id n) (hs : leasedStep text config s a = some t) :
    Buried t id n := by
  obtain ⟨⟨r, hr, hdead⟩, hattempts⟩ := hb
  rcases leasedStep_kinds h hl hs with hf | ⟨w, ids, stamp, -, hc⟩ |
    ⟨w, reply, stamp, row, τ, update, outcome, -, hrec, -⟩
  · refine ⟨⟨r, hf.kept id r hr, hdead⟩, ?_⟩
    rw [attempts, hf.recorded]
    exact hattempts
  · have hout : id ∉ ids := by
      intro hid
      obtain ⟨q, hq, hopen, -⟩ := hc.claimable id hid
      obtain rfl := Option.some.inj (hr.symm.trans hq)
      rw [hdead] at hopen
      cases hopen
    refine ⟨⟨r, (hc.others id hout).trans hr, hdead⟩, ?_⟩
    rw [attempts, hc.recorded]
    exact hattempts
  · have hne : row.id ≠ id := by
      rintro rfl
      obtain ⟨q, hq, hleased, -⟩ := hrec.updated
      obtain rfl := Option.some.inj (hr.symm.trans hq)
      have hopen := hleased.open_
      rw [hdead] at hopen
      cases hopen
    refine ⟨⟨r, (hrec.others id hne.symm).trans hr, hdead⟩, ?_⟩
    simpa [attempts, hrec.recorded, hne] using hattempts

theorem run_buried {id n : Nat} (h : LeaseInv text config s) (hb : Buried s id n)
    (hm : Meets (leasedStep text config) (WithinLease config) s as)
    (hr : run (leasedStep text config) s as = some t) : Buried t id n := by
  have hkeep := run_invariant
    (fun _ _ _ hi ho hs => And.intro (leasedStep_inv hi.1 ho hs) (leasedStep_buried hi.1 ho hi.2 hs))
    ⟨h, hb⟩ hm hr
  exact hkeep.2

/-- Every delete for the row that comes back with an error is a transient failure. -/
def FailsTransiently (text : UuidText) (r : Row) : Prop :=
  ∀ err, qdrantAttempt text r.eventType r.payload (.error err) =
    .refused err.sanitizeErrorMessage false

/-- All recorded outcomes of the row are failures. -/
def AlwaysFailed (s : State) (id : Nat) : Prop := ∀ e ∈ s.recorded, e.1 = id → e.2 ≠ .processed

theorem FailsTransiently.not_permanent {r : Row} (h : FailsTransiently text r) :
    permanentError text r.eventType r.payload = false :=
  (qdrantAttempt_refused (h .http)).symm

theorem attempts_eq_failures {s : State} {id : Nat} (h : AlwaysFailed s id) :
    attempts s id = failuresRecorded s id := by
  refine List.countP_congr fun e he => ?_
  have := h e he
  simp only [beq_iff_eq, Bool.and_eq_true, bne_iff_ne, ne_eq]
  exact ⟨fun hid => ⟨hid, this hid⟩, And.left⟩

/-- A run can claim a row that is due and nothing beside it. -/
theorem claimBatch_single {rows : List Row} {id : Nat} {r : Row} {now : Int}
    (hconfig : Configured config) (hr : rows[id]? = some r)
    (hclaimable : claimable config [] now id r = true) :
    claimBatch config [] now rows [id] =
      some (rows.mapIdx fun i q => if i ∈ [id] then q.lease config now else q, [r.claimed id]) := by
  have hsize := hconfig.batchSize
  rw [claimBatch, if_pos]
  · simp [hr]
  · refine ⟨by simp, by simpa using hsize, ?_⟩
    intro i hi
    obtain rfl := List.mem_singleton.mp hi
    rw [hr, Option.any_some]
    exact hclaimable

/-- Once its time has come, a row below the limit can be claimed and fail again. -/
theorem LeaseInv.attempt_again {id : Nat} {r : Row} (hconfig : Configured config)
    (h : LeaseInv text config s) (hr : s.state.rows[id]? = some r)
    (hopen : r.status = .pending ∨ r.status = .failed) (hbelow : r.retryCount < config.maxRetries)
    (hfails : FailsTransiently text r) :
    ∃ bs t r' outcome, run (leasedStep text config) s bs = some t ∧
      Meets (leasedStep text config) (WithinLease config) s bs ∧
      t.state.rows[id]? = some r' ∧ FailsTransiently text r' ∧ outcome ≠ .processed ∧
      t.state.recorded = (id, outcome) :: s.state.recorded := by
  let now : Int := s.state.now + (r.nextAttemptAt - s.state.now).toNat
  let w := s.state.runs.length
  have hdue : r.nextAttemptAt ≤ now := by
    have := Int.self_le_toNat (r.nextAttemptAt - s.state.now)
    show r.nextAttemptAt ≤ s.state.now + _
    omega
  let later : Leased := ⟨{ s.state with now := now }, s.claimedAt⟩
  let started : Leased :=
    ⟨{ later.state with runs := s.state.runs ++ [some ⟨[], []⟩] }, s.claimedAt ++ [now]⟩
  have hclaimable : claimable config [] now id r = true := by
    simp only [claimable, decide_eq_true_eq]
    exact ⟨hopen, hbelow, hdue, List.not_mem_nil⟩
  have hclaim := claimBatch_single hconfig hr hclaimable
  let rows := s.state.rows.mapIdx fun i q => if i ∈ [id] then q.lease config now else q
  let claimed : Leased := ⟨{ started.state with
      rows := rows, runs := started.state.runs.set w (some ⟨[], [r.claimed id]⟩) },
    started.claimedAt.set w now⟩
  have hlast : started.state.runs[w]? = some (some ⟨[], []⟩) :=
    ProcessPool.getElem?_push_iff.mpr (.inr ⟨rfl, rfl⟩)
  have hstep : leasedStep text config started (.claim w [id] now) = some claimed := by
    have hrows : started.state.rows = s.state.rows := rfl
    simp only [leasedStep, step, hlast, hrows, hclaim]
    rw [if_pos (show now ≤ started.state.now from le_rfl)]
    rfl
  have hbusy : claimed.state.runs[w]? = some (some ⟨[], [r.claimed id]⟩) :=
    List.getElem?_set_self (List.getElem?_eq_some_iff.mp hlast).1
  have hrow : claimed.state.rows[id]? = some (r.lease config now) := by
    simp [claimed, rows, hr]
  obtain ⟨update, outcome, hmark, hfailed, -⟩ := processSingleRow_refused config now (r.claimed id)
    RetrievalError.http.sanitizeErrorMessage false
  have hattempt : qdrantAttempt text (r.claimed id).eventType (r.claimed id).payload (.error .http) =
      .refused RetrievalError.http.sanitizeErrorMessage false := hfails .http
  let last : Leased := ⟨{ claimed.state with
      rows := rows.modify id update
      runs := claimed.state.runs.set w (some ⟨[id], []⟩)
      recorded := (id, outcome) :: s.state.recorded }, claimed.claimedAt⟩
  have hprocess : leasedStep text config claimed (.process w (.error .http) now) = some last := by
    simp only [leasedStep, step, hbusy, hattempt, hmark]
    rw [if_pos (show now ≤ claimed.state.now from le_rfl)]
    rfl
  have hwithin : WithinLease config claimed (.process w (.error .http) now) := by
    intro τ hτ
    have hlt : w < started.claimedAt.length := by simp [started, w, h.sized]
    rw [List.getElem?_set_self hlt] at hτ
    obtain rfl := Option.some.inj hτ
    have hlease := hconfig.lease
    refine ⟨le_rfl, ?_⟩
    show now < now + _
    omega
  have hsame := processSingleRow_event hmark (r.lease config now)
  refine ⟨[.tick (r.nextAttemptAt - s.state.now).toNat, .startRun, .claim w [id] now,
    .process w (.error .http) now], last, update (r.lease config now), outcome, ?_, ?_, ?_, ?_,
    hfailed, rfl⟩
  · have htail := run_pair hstep hprocess
    exact htail
  · exact .cons trivial rfl (.cons trivial rfl (.cons trivial hstep
      ⟨hwithin, fun _ _ => trivial⟩))
  · show (rows.modify id update)[id]? = _
    rw [List.getElem?_modify_eq, show rows[id]? = some (r.lease config now) from hrow]
    rfl
  · intro err
    rw [hsame.1, hsame.2]
    exact hfails err

/-- The status of a row whose deletes always fail transiently tells whether its attempts are used
up. -/
theorem LeaseInv.status_of_failing {id : Nat} {r : Row} (hconfig : Configured config)
    (h : LeaseInv text config s) (hr : s.state.rows[id]? = some r) (hfails : FailsTransiently text r)
    (hfailed : AlwaysFailed s.state id) :
    (attempts s.state id : Int) = r.retryCount ∧
      ((r.status = .dead ∧ r.retryCount = config.maxRetries) ∨
        ((r.status = .pending ∨ r.status = .failed) ∧ r.retryCount < config.maxRetries)) := by
  have hcount := h.inv.counted id r hr
  rw [← attempts_eq_failures hfailed] at hcount
  refine ⟨hcount.symm, ?_⟩
  have hok := h.rows id r hr
  have hmax := hconfig.maxRetries
  cases hst : r.status with
  | pending =>
    have := hok.pending hst
    exact .inr ⟨.inl rfl, by omega⟩
  | failed => exact .inr ⟨.inr rfl, (hok.failed hst).2⟩
  | processed => exact absurd rfl (hfailed _ (h.settled id r hr hst) rfl)
  | dead =>
    refine .inl ⟨rfl, (hok.dead hst).resolve_left ?_⟩
    rw [hfails.not_permanent]
    exact Bool.false_ne_true

theorem AlwaysFailed.cons {s t : State} {id : Nat} {outcome : RowOutcome} (h : AlwaysFailed s id)
    (ho : outcome ≠ .processed) (ht : t.recorded = (id, outcome) :: s.recorded) :
    AlwaysFailed t id := by
  intro e he hid
  rw [ht] at he
  rcases List.mem_cons.mp he with rfl | he
  · exact ho
  · exact h e he hid

/-- From any state, attempts can go on failing until the last one is used up. -/
theorem LeaseInv.attempts_used_up {id : Nat} {r : Row} (hconfig : Configured config)
    (h : LeaseInv text config s) (hr : s.state.rows[id]? = some r) (hfails : FailsTransiently text r)
    (hfailed : AlwaysFailed s.state id) :
    ∃ bs t, run (leasedStep text config) s bs = some t ∧
      Meets (leasedStep text config) (WithinLease config) s bs ∧ AlwaysFailed t.state id ∧
      (attempts t.state id : Int) = config.maxRetries := by
  obtain ⟨n, hn⟩ : ∃ n : Nat, (n : Int) = config.maxRetries - r.retryCount := by
    refine ⟨(config.maxRetries - r.retryCount).toNat, Int.toNat_of_nonneg ?_⟩
    rcases (h.status_of_failing hconfig hr hfails hfailed).2 with ⟨-, hlast⟩ | ⟨-, hbelow⟩ <;> omega
  induction n generalizing s r with
  | zero =>
    obtain ⟨hcount, -⟩ := h.status_of_failing hconfig hr hfails hfailed
    exact ⟨[], s, rfl, trivial, hfailed, by omega⟩
  | succ n ih =>
    obtain ⟨hcount, ⟨-, hlast⟩ | ⟨hopen, hbelow⟩⟩ := h.status_of_failing hconfig hr hfails hfailed
    · omega
    · obtain ⟨bs, t, r', outcome, hrun, hmeets, hr', hfails', ho, hrecorded⟩ :=
        h.attempt_again hconfig hr hopen hbelow hfails
      have ht := run_leaseInv h hmeets hrun
      have hfailed' := hfailed.cons ho hrecorded
      have hcount' := (ht.status_of_failing hconfig hr' hfails' hfailed').1
      have hattempts : attempts t.state id = attempts s.state id + 1 := by
        simp [attempts, hrecorded]
      obtain ⟨cs, u, hrun', hmeets', hdone⟩ := ih ht hr' hfails' hfailed' (by omega)
      exact ⟨bs ++ cs, u, (run_append hrun).trans hrun', hmeets.append hrun hmeets', hdone⟩

end Runs

/-- The attempts at a row whose deletes always fail transiently: no more than `max_retries`, as many
as that when it is dead and never another one; until then it can be claimed from its
`next_attempt_at` on, and attempts can go on until they are used up. -/
structure AttemptsBounded (text : UuidText) (config : ProcessorConfig) (s : Leased) (id : Nat)
    (r : Row) : Prop where
  bounded : (attempts s.state id : Int) ≤ config.maxRetries
  dead_iff : r.status = .dead ↔ (attempts s.state id : Int) = config.maxRetries
  claimable : (attempts s.state id : Int) < config.maxRetries → ∀ stamp, r.nextAttemptAt ≤ stamp →
    claimable config [] stamp id r = true
  reached : ∃ bs t, run (leasedStep text config) s bs = some t ∧
    Meets (leasedStep text config) (WithinLease config) s bs ∧ AlwaysFailed t.state id ∧
    (attempts t.state id : Int) = config.maxRetries
  never_again : r.status = .dead → ∀ bs t, run (leasedStep text config) s bs = some t →
    Meets (leasedStep text config) (WithinLease config) s bs →
    attempts t.state id = attempts s.state id

/-- After the `n`-th failure of a row, which starts at `stamp`, no claim takes the row before
`min(base * 2^(n-1), max)` seconds have passed. -/
def WaitsAfterFailure (text : UuidText) (config : ProcessorConfig) (s : Leased) : Prop :=
  ∀ w reply stamp t id outcome, WithinLease config s (.process w reply stamp) →
    leasedStep text config s (.process w reply stamp) = some t →
    t.state.recorded = (id, outcome) :: s.state.recorded → outcome ≠ .processed →
    ∀ mid u, run (leasedStep text config) t mid = some u →
      Meets (leasedStep text config) (WithinLease config) t mid →
      ∀ v ids stamp' u', leasedStep text config u (.claim v ids stamp') = some u' → id ∈ ids →
        stamp + min (config.backoff.baseBackoffSecs * 2 ^ (failuresRecorded t.state id - 1))
          config.backoff.maxBackoffSecs ≤ stamp'

structure Lifecycle (text : UuidText) (config : ProcessorConfig) (s : Leased) : Prop where
  failed : ∀ (id : Nat) (r : Row), s.state.rows[id]? = some r → r.status = .failed →
    1 ≤ r.retryCount ∧ r.retryCount < config.maxRetries
  dead : ∀ (id : Nat) (r : Row), s.state.rows[id]? = some r → r.status = .dead →
    permanentError text r.eventType r.payload = true ∨ r.retryCount = config.maxRetries
  attempts : ∀ (id : Nat) (r : Row), s.state.rows[id]? = some r → FailsTransiently text r →
    AlwaysFailed s.state id → AttemptsBounded text config s id r
  waits : WaitsAfterFailure text config s

section Results

variable {text : UuidText} {config : ProcessorConfig} {s : Leased}

theorem LeaseInv.attemptsBounded {id : Nat} {r : Row} (hconfig : Configured config)
    (h : LeaseInv text config s) (hr : s.state.rows[id]? = some r) (hfails : FailsTransiently text r)
    (hfailed : AlwaysFailed s.state id) : AttemptsBounded text config s id r := by
  obtain ⟨hcount, hstatus⟩ := h.status_of_failing hconfig hr hfails hfailed
  refine ⟨?_, ?_, ?_, h.attempts_used_up hconfig hr hfails hfailed, ?_⟩
  · rcases hstatus with ⟨-, hlast⟩ | ⟨-, hbelow⟩ <;> omega
  · rcases hstatus with ⟨hdead, hlast⟩ | ⟨hopen, hbelow⟩
    · exact iff_of_true hdead (hcount.trans hlast)
    · refine iff_of_false ?_ (by omega)
      rcases hopen with hst | hst <;> rw [hst] <;> exact RowStatus.noConfusion
  · intro hbelow stamp hstamp
    rcases hstatus with ⟨-, hlast⟩ | ⟨hopen, hlt⟩
    · omega
    · simp only [DeleteOutbox.claimable, decide_eq_true_eq]
      exact ⟨hopen, hlt, hstamp, List.not_mem_nil⟩
  · intro hdead bs t hrun hmeets
    exact (run_buried h ⟨⟨r, hr, hdead⟩, rfl⟩ hmeets hrun).2

theorem LeaseInv.waitsAfterFailure (hconfig : Configured config) (h : LeaseInv text config s) :
    WaitsAfterFailure text config s := by
  intro w reply stamp t id outcome hl hs hrecorded ho mid u hrun hmeets v ids stamp' u' hclaim hid
  obtain ⟨row, τ, update, outcome', hrec, hmark⟩ := h.process hl hs
  obtain ⟨hhead, -⟩ := List.cons.inj (hrecorded.symm.trans hrec.recorded)
  obtain ⟨rfl, rfl⟩ := Prod.mk.inj hhead
  have ht := leasedStep_inv h hl hs
  have hu := run_leaseInv ht hmeets hrun
  obtain ⟨q, hq, hopen, hnext, -⟩ := (hu.claims hclaim).claimable row.id hid
  cases outcome with
  | processed => exact absurd rfl ho
  | failed =>
    have hbefore := run_invariant
      (fun _ _ _ hi hok hst => And.intro (leasedStep_inv hi.1 hok hst)
        (leasedStep_notBefore hconfig hi.1 hok hi.2 hst))
      ⟨ht, hrec.notBefore hconfig ht hmark⟩ hmeets hrun
    exact Int.le_trans (hbefore.2.next q hq) hnext
  | dead =>
    -- a row that has died is claimed no more
    obtain ⟨r, -, -, hupdated⟩ := hrec.updated
    have hburied := run_buried ht ⟨⟨_, hupdated, processSingleRow_dead hmark r⟩, rfl⟩ hmeets hrun
    obtain ⟨q', hq', hdead⟩ := hburied.1
    obtain rfl := Option.some.inj (hq.symm.trans hq')
    rw [hdead] at hopen
    cases hopen

theorem LeaseInv.lifecycle (hconfig : Configured config) (h : LeaseInv text config s) :
    Lifecycle text config s where
  failed := fun id r hr => (h.rows id r hr).failed
  dead := fun id r hr => (h.rows id r hr).dead
  attempts := fun _ _ hr hfails hfailed => h.attemptsBounded hconfig hr hfails hfailed
  waits := h.waitsAfterFailure hconfig

end Results

def initialLeased (now : Int) : Leased := ⟨initial now, []⟩

theorem initial_leaseInv (text : UuidText) (config : ProcessorConfig) (now : Int) :
    LeaseInv text config (initialLeased now) := by
  refine ⟨initial_inv config now, rfl, ?_, ?_, ?_, ?_, ?_⟩
  all_goals simp [initialLeased, initial, Holds]

/-- In every run whose workers record their outcomes within the lease, the rows of the qdrant outbox
live as the retry configuration says. -/
theorem outbox_row_lifecycle {text : UuidText} {config : ProcessorConfig} {now : Int} {s : Leased}
    (hconfig : Configured config)
    (h : Reach (· = initialLeased now) (leasedStep text config) (WithinLease config) s) :
    Lifecycle text config s := by
  have hs : LeaseInv text config s := by
    refine h.invariant ?_ fun _ _ _ hi ho hst => leasedStep_inv hi ho hst
    rintro _ rfl
    exact initial_leaseInv text config now
  exact hs.lifecycle hconfig

def failedOnce : List (Act RetrievalError) :=
  [.enqueue QdrantOutboxEventType.deleteByWorkspace.asStr oneWorkspace 0, .startRun, .claim 0 [0] 0,
    .tick 10, .process 0 (.error (.timeout 10)) 10]

theorem outbox_row_lifecycle_failed_once :
    ∃ s, run (leasedStep uuidText defaultConfig) (initialLeased 0) failedOnce = some s ∧
      statusOf s.state 0 = some .failed ∧ Lifecycle uuidText defaultConfig s := by
  have hrun : (run (leasedStep uuidText defaultConfig) (initialLeased 0) failedOnce).any
      (fun s => statusOf s.state 0 = some .failed) = true := by decide +kernel
  obtain ⟨s, hs, hstatus⟩ := (Option.any_eq_true _ _).mp hrun
  have hmeets : Meets (leasedStep uuidText defaultConfig) (WithinLease defaultConfig)
      (initialLeased 0) failedOnce := by decide +kernel
  have hconfig : Configured defaultConfig := by constructor <;> decide
  exact ⟨s, hs, of_decide_eq_true hstatus,
    outbox_row_lifecycle hconfig (.of_run (.start rfl) hmeets hs)⟩

end GmragApi.DeleteOutbox

import GmragApi.OcrAudit
import GmragApi.StatusAgreement

/-! What an audit changes, and what its counts say about it. -/

namespace GmragApi.OcrAudit

open Ingestion (DocumentStatus WorkerConfig)
open ProcessPool Transition

/-- There is evidence against the document. -/
def CandidateRow.Affected (row : CandidateRow) : Prop :=
  row.hasMockChunk = true ∨ row.isNeedsOcrTerminal = true

/-- The run was asked to change the queue, and may. -/
def AuditRun.Allowed (run : AuditRun) : Prop :=
  run.options.apply = true ∧ run.options.dryRun = false ∧ run.report.ocrProviderAvailable = true

/-- Rows that the loop has not finished yet. -/
def AuditRun.ahead (run : AuditRun) : Nat := run.todo.length + run.found.toList.length

/-- Rows that ended in an attempt to requeue their document. -/
def OcrAuditCounts.attempted (c : OcrAuditCounts) : Nat :=
  c.requeued + c.alreadyNotRequeued + c.requeueFailed + c.skippedObjectMissing

def OcrAuditCounts.skipped (c : OcrAuditCounts) : Nat :=
  c.skippedActiveJob + c.skippedNotRequeueable

/-- The report, while the loop has `ahead` rows to finish. -/
structure OcrAuditReport.Accounts (report : OcrAuditReport) (options : OcrAuditOptions)
    (ahead : Nat) : Prop where
  executed : report.applyExecuted = true →
    report.counts.selectedForPlan = ahead + report.counts.skipped + report.counts.attempted
  planned : report.applyExecuted = false → report.counts.attempted = 0 ∧
    ahead + report.counts.skipped ≤ report.counts.selectedForPlan
  errors : report.errors.length = report.counts.requeueFailed
  samples : report.samples.length =
    min options.sampleLimit (report.counts.selectedForPlan - ahead)
  ahead_le : ahead ≤ report.counts.selectedForPlan
  selected : (report.counts.selectedForPlan : Int) ≤ options.limit
  evidence : report.counts.selectedForPlan ≤
    report.counts.mockOcrChunk + report.counts.needsOcrTerminal

structure AuditRun.Balanced (run : AuditRun) : Prop where
  allowed : run.report.applyExecuted = true → run.Allowed
  found : ∀ row, run.found = some row → run.report.applyExecuted = true ∧ row.Affected
  todo : ∀ row ∈ run.todo, row.Affected
  accounts : run.report.Accounts run.options run.ahead

section Read

variable {α β : Type} {f : α → Option β}

theorem mapM_eq_some_iff_map {xs : List α} {ys : List β} :
    xs.mapM f = some ys ↔ xs.map f = ys.map some := by
  induction xs generalizing ys with
  | nil => cases ys <;> simp
  | cons x xs ih =>
    cases ys with
    | nil => simp [List.mapM_cons, Option.bind_eq_some_iff]
    | cons y ys => simp [List.mapM_cons, Option.bind_eq_some_iff, ih]

/-- All is read, or none is. -/
theorem mapM_isSome_iff {xs : List α} : (xs.mapM f).isSome = true ↔ ∀ x ∈ xs, (f x).isSome := by
  induction xs with
  | nil => simp
  | cons x xs ih =>
    rw [List.forall_mem_cons, ← ih, List.mapM_cons]
    cases f x <;> cases xs.mapM f <;> simp

end Read

section Start

variable {options : OcrAuditOptions} {capability : OcrCapability} {check : ObjectPresenceCheck}
  {corpus : Corpus} {queue : Ingestion.State}

theorem fetchRow_affected {id : Nat} {row : CandidateRow}
    (hid : affected options corpus queue id = true) (h : fetchRow corpus queue id = some row) :
    row.Affected := by
  obtain ⟨d, hd, h⟩ := Option.bind_eq_some_iff.mp h
  obtain ⟨tenantId, hworkspace, h⟩ := Option.bind_eq_some_iff.mp h
  obtain ⟨terminal, hterminal, rfl⟩ := Option.map_eq_some_iff.mp h
  simp only [affected, hd, hworkspace, hterminal, Option.any_some, Bool.and_eq_true,
    Bool.or_eq_true, beq_iff_eq, Option.some.injEq] at hid
  exact hid.1.1

theorem mem_affectedDocuments {id : Nat} (h : id ∈ affectedDocuments options corpus queue) :
    affected options corpus queue id = true :=
  (List.mem_filter.mp (Query.mem_orderBy.mp (List.mem_of_mem_take h))).2

theorem loadCandidates_affected {rows : List CandidateRow}
    (h : loadCandidates options corpus queue = some rows) : ∀ row ∈ rows, row.Affected := by
  intro row hrow
  have hread := List.mem_map_of_mem (f := some) hrow
  rw [← mapM_eq_some_iff_map.mp h] at hread
  obtain ⟨id, hid, hfetch⟩ := List.mem_map.mp hread
  exact fetchRow_affected (mem_affectedDocuments hid) hfetch

theorem affected_counts {rows : List CandidateRow} (h : ∀ row ∈ rows, row.Affected) :
    rows.length ≤ rows.countP CandidateRow.hasMockChunk +
      rows.countP CandidateRow.isNeedsOcrTerminal := by
  induction rows with
  | nil => simp
  | cons row rows ih =>
    have hrest := ih fun row hrow => h row (List.mem_cons_of_mem _ hrow)
    rw [List.length_cons, List.countP_cons, List.countP_cons]
    rcases h row List.mem_cons_self with hmock | hterminal
    · rw [if_pos hmock]
      omega
    · rw [if_pos hterminal]
      omega

/-- The gate changes no count, and opens for an allowed run only. -/
theorem applyGate_accounts {report : OcrAuditReport} {ahead : Nat}
    (hidle : report.applyExecuted = false ∧ report.errors = [] ∧ report.samples = [])
    (hnone : report.counts.skipped = 0 ∧ report.counts.attempted = 0 ∧
      report.counts.requeueFailed = 0)
    (hahead : report.counts.selectedForPlan = ahead) (hlimit : (ahead : Int) ≤ options.limit)
    (hevidence : ahead ≤ report.counts.mockOcrChunk + report.counts.needsOcrTerminal) :
    (applyGate options capability report).Accounts options ahead := by
  obtain ⟨-, herrors, hsamples⟩ := hidle
  obtain ⟨hskipped, hattempted, hfailed⟩ := hnone
  have hcounts : (applyGate options capability report).counts = report.counts := by
    unfold applyGate
    grind
  have herrors' : (applyGate options capability report).errors = [] := by
    unfold applyGate
    grind
  have hsamples' : (applyGate options capability report).samples = [] := by
    unfold applyGate
    grind
  constructor
  · intro _
    rw [hcounts]
    omega
  · intro _
    rw [hcounts]
    omega
  · rw [herrors', hcounts, hfailed]
    rfl
  · rw [hsamples', hcounts, hahead, Nat.sub_self, Nat.min_zero]
    rfl
  · rw [hcounts, hahead]
  · rw [hcounts, hahead]
    exact hlimit
  · rw [hcounts, hahead]
    exact hevidence

theorem applyGate_allowed {report : OcrAuditReport} (hreport : report.applyExecuted = false)
    (h : (applyGate options capability report).applyExecuted = true) :
    options.apply = true ∧ options.dryRun = false ∧ capability.available = true ∧
      (applyGate options capability report).ocrProviderAvailable =
        report.ocrProviderAvailable := by
  unfold applyGate at h ⊢
  split at h
  next happly =>
    split at h
    next => exact absurd h (by simp [hreport])
    next havailable =>
      split at h
      next => exact absurd h (by simp [hreport])
      next hdry =>
        refine ⟨happly, by simpa using hdry, by simpa using havailable, ?_⟩
        simp [happly, havailable, hdry]
  next => exact absurd h (by simp [hreport])

theorem startRun_balanced {run : AuditRun} (hvalid : validateOptions options = true)
    (h : startRun options capability check corpus queue = some run) : run.Balanced := by
  obtain ⟨hlow, -, -⟩ := of_decide_eq_true hvalid
  obtain ⟨rows, hrows, rfl⟩ := Option.map_eq_some_iff.mp h
  have haffected : ∀ row ∈ rows.take options.limit.toNat, row.Affected :=
    fun row hrow => loadCandidates_affected hrows row (List.mem_of_mem_take hrow)
  have hlength : (rows.take options.limit.toNat).length ≤ options.limit.toNat :=
    List.length_take_le options.limit.toNat rows
  have hlimit : ((rows.take options.limit.toNat).length : Int) ≤ options.limit := by omega
  refine ⟨?_, nofun, haffected, ?_⟩
  · intro hexecuted
    obtain ⟨happly, hdry, havailable, hsame⟩ := applyGate_allowed rfl hexecuted
    exact ⟨happly, hdry, hsame.trans havailable⟩
  · exact applyGate_accounts ⟨rfl, rfl, rfl⟩ ⟨rfl, rfl, rfl⟩ rfl hlimit (affected_counts haffected)

end Start

/-- One more row is counted, with `errors` new errors. -/
structure OcrAuditCounts.OneMore (c c' : OcrAuditCounts) (executed : Bool) (errors : Nat) :
    Prop where
  selected : c'.selectedForPlan = c.selectedForPlan
  evidence : c'.mockOcrChunk = c.mockOcrChunk ∧ c'.needsOcrTerminal = c.needsOcrTerminal
  failed : c'.requeueFailed = c.requeueFailed + errors
  counted : executed = true → c'.skipped + c'.attempted = c.skipped + c.attempted + 1
  planned : executed = false → c'.attempted = c.attempted ∧ c'.skipped ≤ c.skipped + 1

namespace OcrAuditCounts

variable {c c' : OcrAuditCounts} {executed : Bool} {errors : Nat}

theorem OneMore.ofSkip (hselected : c'.selectedForPlan = c.selectedForPlan)
    (hevidence : c'.mockOcrChunk = c.mockOcrChunk ∧ c'.needsOcrTerminal = c.needsOcrTerminal)
    (hfailed : c'.requeueFailed = c.requeueFailed) (hattempted : c'.attempted = c.attempted)
    (hskipped : c'.skipped = c.skipped + 1) : c.OneMore c' executed 0 := by
  refine ⟨hselected, hevidence, hfailed, ?_, ?_⟩
  · intro _
    omega
  · intro _
    omega

theorem OneMore.ofAttempt (hselected : c'.selectedForPlan = c.selectedForPlan)
    (hevidence : c'.mockOcrChunk = c.mockOcrChunk ∧ c'.needsOcrTerminal = c.needsOcrTerminal)
    (hfailed : c'.requeueFailed = c.requeueFailed + errors) (hskipped : c'.skipped = c.skipped)
    (hattempted : c'.attempted = c.attempted + 1) : c.OneMore c' true errors := by
  refine ⟨hselected, hevidence, hfailed, ?_, nofun⟩
  intro _
  omega

end OcrAuditCounts

section Turn

variable {run : AuditRun} {row : CandidateRow} {rest : List CandidateRow}

theorem record_samples (planAction : PlanAction) (count : OcrAuditCounts → OcrAuditCounts)
    (errors : List RunError) {done : Nat}
    (h : run.report.samples.length = min run.options.sampleLimit done) :
    (run.record row planAction count errors).report.samples.length =
      min run.options.sampleLimit (done + 1) := by
  simp only [AuditRun.record]
  split
  · rw [List.length_append, List.length_singleton]
    omega
  · omega

theorem record_accounts {planAction : PlanAction} {count : OcrAuditCounts → OcrAuditCounts}
    {errors : List RunError} {c : OcrAuditCounts} {ahead : Nat}
    (h : ({ run.report with counts := c } : OcrAuditReport).Accounts run.options (ahead + 1))
    (hcount : c.OneMore (count run.report.counts) run.report.applyExecuted errors.length) :
    (run.record row planAction count errors).report.Accounts run.options ahead := by
  have hle := h.ahead_le
  have hsamples := @record_samples run row planAction count errors _ h.samples
  obtain ⟨hselected, ⟨hmock, hterminal⟩, hfailed, hexecuted, hplanned⟩ := hcount
  refine ⟨?_, ?_, ?_, ?_, ?_, ?_, ?_⟩
  · intro he
    have hbefore := h.executed he
    have hmore := hexecuted he
    simp only [AuditRun.record] at *
    omega
  · intro he
    have hbefore := h.planned he
    have hmore := hplanned he
    simp only [AuditRun.record] at *
    omega
  · have hbefore := h.errors
    simp only [AuditRun.record, List.length_append] at *
    omega
  · rw [hsamples]
    simp only [AuditRun.record] at *
    omega
  · simp only [AuditRun.record] at *
    omega
  · have hbefore := h.selected
    simp only [AuditRun.record, hselected] at *
    exact hbefore
  · have hbefore := h.evidence
    simp only [AuditRun.record, hselected, hmock, hterminal] at *
    exact hbefore

theorem record_balanced {planAction : PlanAction} {count : OcrAuditCounts → OcrAuditCounts}
    {errors : List RunError} {c : OcrAuditCounts}
    (hallowed : run.report.applyExecuted = true → run.Allowed)
    (htodo : ∀ row ∈ run.todo, row.Affected)
    (h : ({ run.report with counts := c } : OcrAuditReport).Accounts run.options
      (run.todo.length + 1))
    (hcount : c.OneMore (count run.report.counts) run.report.applyExecuted errors.length) :
    (run.record row planAction count errors).Balanced where
  allowed := hallowed
  found := nofun
  todo := htodo
  accounts := record_accounts h hcount

/-- The row is finished, or its object is there and its requeue comes next. -/
theorem visit_cases (reply : Except Unit Bool) :
    (run.report.applyExecuted = true ∧
      run.visit row rest reply = { run with todo := rest, found := some row }) ∨
    ∃ planAction count errors,
      run.report.counts.OneMore (count (countSkip row run.report.counts))
        run.report.applyExecuted errors.length ∧
      run.visit row rest reply =
        ({ run with todo := rest, report := { run.report with
            counts := countSkip row run.report.counts } } : AuditRun).record row planAction count
          errors := by
  cases hactive : row.hasActiveJob with
  | true =>
    refine .inr ⟨.skipActiveJob, id, [], ?_, by simp [AuditRun.visit, planActionFor, hactive]⟩
    simp only [countSkip, hactive, if_true, id]
    exact .ofSkip rfl ⟨rfl, rfl⟩ rfl rfl (Nat.add_right_comm _ _ _)
  | false =>
    cases hstatus : isRequeueableStatus row.status with
    | false =>
      refine .inr ⟨.skipNotRequeueable, id, [], ?_, ?_⟩
      · simp only [countSkip, hactive, hstatus, Bool.false_eq_true, if_false, Bool.not_false,
          if_true, id]
        exact .ofSkip rfl ⟨rfl, rfl⟩ rfl rfl rfl
      · simp [AuditRun.visit, planActionFor, hactive, hstatus]
    | true =>
      have hskip : countSkip row run.report.counts = run.report.counts := by
        simp [countSkip, hactive, hstatus]
      rw [hskip]
      by_cases hexecuted : run.report.applyExecuted = true
      · have hgate : (run.report.applyExecuted &&
            planActionFor row run.report.applyExecuted == .requeue && !row.hasActiveJob &&
              isRequeueableStatus row.status) = true := by
          simp [planActionFor, hactive, hstatus, hexecuted]
        unfold AuditRun.visit
        dsimp only
        rw [hskip, if_pos hgate]
        cases checkObjectPresent run.check reply with
        | error _ =>
          refine .inr ⟨.objectCheckError, fun c => { c with requeueFailed := c.requeueFailed + 1 },
            [.objectCheck row.documentId], ?_, rfl⟩
          rw [hexecuted]
          refine .ofAttempt rfl ⟨rfl, rfl⟩ rfl rfl ?_
          simp only [OcrAuditCounts.attempted]
          omega
        | ok present =>
          cases present with
          | true => exact .inl ⟨hexecuted, rfl⟩
          | false =>
            refine .inr ⟨.skipObjectMissing,
              fun c => { c with skippedObjectMissing := c.skippedObjectMissing + 1 }, [], ?_, rfl⟩
            rw [hexecuted]
            exact .ofAttempt rfl ⟨rfl, rfl⟩ rfl rfl rfl
      · refine .inr ⟨.planRequeue, id, [], ⟨rfl, ⟨rfl, rfl⟩, rfl, ?_, ?_⟩, ?_⟩
        · exact fun h => absurd h hexecuted
        · exact fun _ => ⟨rfl, Nat.le_succ _⟩
        · simp [AuditRun.visit, planActionFor, hactive, hstatus, hexecuted, hskip]

theorem visit_balanced (hb : run.Balanced) (hfound : run.found = none)
    (htodo : run.todo = row :: rest) (reply : Except Unit Bool) :
    (run.visit row rest reply).Balanced := by
  have haffected : row.Affected ∧ ∀ row ∈ rest, row.Affected := by
    have h := hb.todo
    rw [htodo] at h
    exact List.forall_mem_cons.mp h
  have hahead : run.ahead = rest.length + 1 := by
    simp [AuditRun.ahead, hfound, htodo]
  have haccounts := hb.accounts
  rw [hahead] at haccounts
  rcases @visit_cases run row rest reply with
    ⟨hexecuted, hvisit⟩ | ⟨planAction, count, errors, hcount, hvisit⟩
  · rw [hvisit]
    refine ⟨hb.allowed, ?_, haffected.2, haccounts⟩
    intro found hsame
    cases Option.some.inj hsame
    exact ⟨hexecuted, haffected.1⟩
  · rw [hvisit]
    exact record_balanced hb.allowed haffected.2 haccounts hcount

theorem requeue_balanced (hb : run.Balanced) (hfound : run.found = some row)
    (answer : Except Unit Bool) : (run.requeue row answer).Balanced := by
  obtain ⟨hexecuted, -⟩ := hb.found row hfound
  have hahead : run.ahead = run.todo.length + 1 := by
    simp [AuditRun.ahead, hfound]
  have haccounts := hb.accounts
  rw [hahead] at haccounts
  unfold AuditRun.requeue
  split
  all_goals
    refine record_balanced (c := run.report.counts) hb.allowed hb.todo haccounts ?_
    rw [hexecuted]
    exact .ofAttempt rfl ⟨rfl, rfl⟩ rfl rfl (by simp only [OcrAuditCounts.attempted]; omega)

end Turn

section Steps

variable {config : WorkerConfig} {s t : State} {now : Int}

def Start (now : Int) (s : State) : Prop := s.queue = Ingestion.initial now ∧ s.runs = []

/-- A requeue answers as it acts. -/
theorem requeueAnswer_cases (queue : Ingestion.State) (row : CandidateRow)
    (maxAttempts stamp : Int) :
    (Ingestion.requeueDocumentForReingest queue row.documentId row.workspaceId maxAttempts
        .failedOrCompleted stamp = queue ∧
      requeueAnswer queue row maxAttempts stamp ≠ .ok true) ∨
    ∃ d u, queue.documents row.documentId = some d ∧ d.workspaceId = row.workspaceId ∧
      (d.status = .failed ∨ d.status = .completed) ∧ queue.hasActiveJob row.documentId = false ∧
      Ingestion.enqueueJobTx (queue.setDocument row.documentId d.reset) row.documentId
        row.workspaceId maxAttempts stamp = some u ∧
      Ingestion.requeueDocumentForReingest queue row.documentId row.workspaceId maxAttempts
        .failedOrCompleted stamp = u ∧
      requeueAnswer queue row maxAttempts stamp = .ok true := by
  unfold Ingestion.requeueDocumentForReingest requeueAnswer
  cases hd : queue.documents row.documentId with
  | none => exact .inl ⟨rfl, fun hanswer => by cases hanswer⟩
  | some d =>
    by_cases hgate : d.workspaceId = row.workspaceId ∧
        Ingestion.RequeueEligibility.failedOrCompleted.admits d.status ∧
          queue.hasActiveJob row.documentId = false
    · dsimp only
      rw [if_pos hgate, if_pos hgate, ← Ingestion.Document.reset]
      cases hjob : Ingestion.enqueueJobTx (queue.setDocument row.documentId d.reset)
          row.documentId row.workspaceId maxAttempts stamp with
      | none => exact .inl ⟨rfl, fun hanswer => by cases hanswer⟩
      | some u =>
        have hstatus : d.status = .failed ∨ d.status = .completed := by
          simpa [Ingestion.RequeueEligibility.admits] using hgate.2.1
        exact .inr ⟨d, u, rfl, hgate.1, hstatus, hgate.2.2, hjob, rfl, rfl⟩
    · dsimp only
      rw [if_neg hgate, if_neg hgate]
      exact .inl ⟨rfl, fun hanswer => by cases hanswer⟩

/-- Where no run exists, `advance` takes no step; otherwise the run makes its next call. -/
theorem advance_cases {i : Nat} {call : Call} (h : step config s (.advance i call) = some t) :
    ∃ run, s.runs[i]? = some run ∧
      ((∃ row rest reply, run.found = none ∧ run.todo = row :: rest ∧
          t = s.goto i (run.visit row rest reply)) ∨
        ∃ row, run.found = some row ∧
          (t = s.goto i (run.requeue row (.error ())) ∨
            ∃ stamp, stamp ≤ s.queue.now ∧
              t = (s.requeueRow row run.options.maxAttempts stamp).goto i
                (run.requeue row (requeueAnswer s.queue row run.options.maxAttempts stamp)))) := by
  simp only [step] at h
  split at h
  next run hrun =>
    refine ⟨run, hrun, ?_⟩
    cases call with
    | objectExists reply =>
      simp only [advance] at h
      split at h
      next row rest hfound htodo =>
        exact .inl ⟨row, rest, reply, hfound, htodo, (Option.some.inj h).symm⟩
      next => cases h
    | requeue ok stamp =>
      simp only [advance] at h
      split at h
      next row hfound =>
        refine .inr ⟨row, hfound, ?_⟩
        split at h
        next => exact .inl (Option.some.inj h).symm
        next =>
          obtain ⟨hstamp, h⟩ := Option.ite_none_right_eq_some.mp h
          exact .inr ⟨stamp, hstamp, (Option.some.inj h).symm⟩
      next => cases h
  next => cases h

/-- What holds of a run that starts, and through both of its calls, holds of every run. -/
theorem step_runs {P : AuditRun → Prop} {a : Act}
    (started : ∀ options capability check run, a = .start options capability check →
      validateOptions options = true →
        startRun options capability check s.corpus s.queue = some run → P run)
    (visited : ∀ run row rest reply, P run → run.found = none → run.todo = row :: rest →
      P (run.visit row rest reply))
    (requeued : ∀ run row answer, P run → run.found = some row → P (run.requeue row answer))
    (hs : ∀ (i : Nat) (run : AuditRun), s.runs[i]? = some run → P run)
    (h : step config s a = some t) :
    ∀ (i : Nat) (run : AuditRun), t.runs[i]? = some run → P run := by
  cases a with
  | queue a =>
    obtain ⟨queue, -, rfl⟩ := Option.map_eq_some_iff.mp h
    exact hs
  | write corpus =>
    cases Option.some.inj h
    exact hs
  | start options capability check =>
    obtain ⟨hvalid, h⟩ := Option.ite_none_right_eq_some.mp h
    obtain ⟨run, hrun, rfl⟩ := Option.map_eq_some_iff.mp h
    exact forall_push (started options capability check run rfl hvalid hrun) hs
  | advance i call =>
    obtain ⟨run, hrun, hcall⟩ := advance_cases h
    have hp := hs i run hrun
    have others : ∀ new, P new → ∀ j other, (s.runs.set i new)[j]? = some other → P other :=
      fun new hnew => forall_set hrun hnew fun j other _ hj => hs j other hj
    rcases hcall with ⟨row, rest, reply, hfound, htodo, rfl⟩ | ⟨row, hfound, rfl | ⟨stamp, -, rfl⟩⟩
    · exact others _ (visited run row rest reply hp hfound htodo)
    · exact others _ (requeued run row _ hp hfound)
    · exact others _ (requeued run row _ hp hfound)

def Balanced (s : State) : Prop :=
  ∀ (i : Nat) (run : AuditRun), s.runs[i]? = some run → run.Balanced

theorem start_balanced (h : Start now s) : Balanced s := by
  intro i run hrun
  rw [h.2] at hrun
  cases hrun

theorem step_balanced {a : Act} (hs : Balanced s) (h : step config s a = some t) :
    Balanced t := by
  refine step_runs ?_ ?_ ?_ hs h
  · exact fun options capability check run _ hvalid hstart => startRun_balanced hvalid hstart
  · exact fun run row rest reply hb hfound htodo => visit_balanced hb hfound htodo reply
  · exact fun run row answer hb hfound => requeue_balanced hb hfound answer

theorem reach_balanced (h : Reach (Start now) (step config) anyStep s) : Balanced s :=
  h.invariant (fun _ hstart => start_balanced hstart) fun _ _ _ hs _ hstep => step_balanced hs hstep

/-- An audit gives one settled document, against which it read evidence, back to the workers with a
new job. No other row changes. -/
structure RequeuesAffected (s t : Ingestion.State) (run : AuditRun) (row : CandidateRow)
    (d : Ingestion.Document) : Prop where
  allowed : run.Allowed
  found : run.found = some row
  affected : row.Affected
  document : s.documents row.documentId = some d ∧ d.workspaceId = row.workspaceId
  settled : d.status = .failed ∨ d.status = .completed
  idle : ¬ Ingestion.ActiveOn s row.documentId
  active : Ingestion.ActiveOn t row.documentId
  documents : t.documents = Function.update s.documents row.documentId (some d.reset)
  jobs : ∀ id, id ≠ s.nextJob → t.jobs id = s.jobs id

theorem goto_self {i : Nat} {run new : AuditRun} (hrun : s.runs[i]? = some run) :
    (s.goto i new).runs[i]? = some new :=
  (getElem?_set_iff hrun).mpr (.inl ⟨rfl, rfl⟩)

theorem requeue_requeued {run : AuditRun} {row : CandidateRow} {answer : Except Unit Bool}
    (h : answer ≠ .ok true) :
    (run.requeue row answer).report.counts.requeued = run.report.counts.requeued := by
  unfold AuditRun.requeue
  split
  next => exact absurd rfl h
  next => rfl
  next => rfl

theorem enqueue_requeues {queue u : Ingestion.State} {id workspaceId : Nat} {limit stamp : Int}
    {d : Ingestion.Document}
    (h : Ingestion.enqueueJobTx (queue.setDocument id d) id workspaceId limit stamp = some u) :
    Ingestion.ActiveOn u id ∧ u.documents = Function.update queue.documents id (some d) ∧
      ∀ k, k ≠ queue.nextJob → u.jobs k = queue.jobs k := by
  obtain ⟨-, -, rfl⟩ := Ingestion.enqueueJobTx_eq h
  refine ⟨⟨queue.nextJob, _, Ingestion.setJob_jobs_self _ _ _, rfl, rfl⟩, rfl, ?_⟩
  intro k hk
  exact Function.update_of_ne hk _ _

theorem visit_requeued (run : AuditRun) (row : CandidateRow) (rest : List CandidateRow)
    (reply : Except Unit Bool) :
    (run.visit row rest reply).report.counts.requeued = run.report.counts.requeued := by
  have hskip : (countSkip row run.report.counts).requeued = run.report.counts.requeued := by
    unfold countSkip
    split
    · rfl
    · split <;> rfl
  unfold AuditRun.visit
  dsimp only
  split
  · split <;> exact hskip
  · exact hskip

/-- A call of an audit leaves the queue as it is, or requeues one affected document; its count of
requeued documents says which. -/
theorem advance_queue {i : Nat} {run : AuditRun} {call : Call} (hi : Ingestion.Inv s.queue)
    (hb : Balanced s) (hrun : s.runs[i]? = some run)
    (h : step config s (.advance i call) = some t) :
    ∃ new, t.runs[i]? = some new ∧
      ((t.queue = s.queue ∧ new.report.counts.requeued = run.report.counts.requeued) ∨
        (∃ row d, RequeuesAffected s.queue t.queue run row d) ∧
          new.report.counts.requeued = run.report.counts.requeued + 1) := by
  obtain ⟨found, hfind, hcall⟩ := advance_cases h
  cases Option.some.inj (hrun.symm.trans hfind)
  rcases hcall with ⟨row, rest, reply, -, -, rfl⟩ | ⟨row, hfound, rfl | ⟨stamp, -, rfl⟩⟩
  · exact ⟨_, goto_self hrun, .inl ⟨rfl, visit_requeued run row rest reply⟩⟩
  · exact ⟨_, goto_self hrun, .inl ⟨rfl, requeue_requeued nofun⟩⟩
  · refine ⟨_, goto_self hrun, ?_⟩
    rcases requeueAnswer_cases s.queue row run.options.maxAttempts stamp with
      ⟨hsame, hanswer⟩ | ⟨d, u, hd, hworkspace, hsettled, hidle, hjob, rfl, hanswer⟩
    · exact .inl ⟨hsame, requeue_requeued hanswer⟩
    · obtain ⟨hexecuted, haffected⟩ := (hb i run hrun).found row hfound
      obtain ⟨hactive, hdocuments, hjobs⟩ := enqueue_requeues hjob
      refine .inr ⟨⟨row, d, (hb i run hrun).allowed hexecuted, hfound, haffected, ⟨hd, hworkspace⟩,
        hsettled, ?_, hactive, hdocuments, hjobs⟩, by rw [hanswer]; rfl⟩
      intro hbusy
      have htrue := (Ingestion.hasActiveJob_iff hi.jobs_fresh).mpr hbusy
      rw [hidle] at htrue
      cases htrue

/-- Nothing but its own steps and an audit's requeues changes the queue. -/
theorem step_queue {a : Act} (h : step config s a = some t) :
    t.queue = s.queue ∨ ∃ b, Ingestion.step config s.queue b = some t.queue := by
  cases a with
  | queue a =>
    obtain ⟨queue, hqueue, rfl⟩ := Option.map_eq_some_iff.mp h
    exact .inr ⟨a, hqueue⟩
  | write corpus =>
    cases Option.some.inj h
    exact .inl rfl
  | start options capability check =>
    obtain ⟨-, h⟩ := Option.ite_none_right_eq_some.mp h
    obtain ⟨run, -, rfl⟩ := Option.map_eq_some_iff.mp h
    exact .inl rfl
  | advance i call =>
    obtain ⟨run, -, hcall⟩ := advance_cases h
    rcases hcall with ⟨row, rest, reply, -, -, rfl⟩ | ⟨row, -, rfl | ⟨stamp, hstamp, rfl⟩⟩
    · exact .inl rfl
    · exact .inl rfl
    · refine .inr ⟨.requeue row.documentId row.workspaceId run.options.maxAttempts
        .failedOrCompleted stamp, ?_⟩
      exact if_pos hstamp

theorem step_queue_inv {a : Act} (hi : Ingestion.Inv s.queue) (h : step config s a = some t) :
    Ingestion.Inv t.queue := by
  rcases step_queue h with hsame | ⟨b, hb⟩
  · rw [hsame]
    exact hi
  · exact Ingestion.step_inv hi hb

theorem reach_queue (h : Reach (Start now) (step config) anyStep s) :
    Reach (· = Ingestion.initial now) (Ingestion.step config) anyStep s.queue := by
  induction h with
  | start hs => exact .start hs.1
  | next _ _ hstep ih =>
    rcases step_queue hstep with hsame | ⟨b, hb⟩
    · rw [hsame]
      exact ih
    · exact .next ih trivial hb

def Act.onQueue : Act → Option Ingestion.Act
  | .queue a => some a
  | _ => none

/-- No audit starts with a provider to send pages to. -/
def Closed (_ : State) : Act → Prop
  | .start _ capability _ => capability.available = false
  | _ => True

def NoProvider (s : State) : Prop :=
  ∀ (i : Nat) (run : AuditRun), s.runs[i]? = some run → run.report.ocrProviderAvailable = false

theorem visit_provider (run : AuditRun) (row : CandidateRow) (rest : List CandidateRow)
    (reply : Except Unit Bool) : (run.visit row rest reply).report.ocrProviderAvailable =
      run.report.ocrProviderAvailable := by
  unfold AuditRun.visit
  dsimp only
  split
  · split <;> rfl
  · rfl

theorem requeue_provider (run : AuditRun) (row : CandidateRow) (answer : Except Unit Bool) :
    (run.requeue row answer).report.ocrProviderAvailable = run.report.ocrProviderAvailable := by
  unfold AuditRun.requeue
  split <;> rfl

theorem startRun_provider {options : OcrAuditOptions} {capability : OcrCapability}
    {check : ObjectPresenceCheck} {run : AuditRun}
    (h : startRun options capability check s.corpus s.queue = some run) :
    run.report.ocrProviderAvailable = capability.available := by
  obtain ⟨rows, -, rfl⟩ := Option.map_eq_some_iff.mp h
  simp only [applyGate]
  split
  · split
    · rfl
    · split <;> rfl
  · rfl

theorem step_noProvider {a : Act} (hs : NoProvider s) (ho : Closed s a)
    (h : step config s a = some t) : NoProvider t := by
  refine step_runs ?_ ?_ ?_ hs h
  · rintro options capability check run rfl - hstart
    exact (startRun_provider hstart).trans ho
  · exact fun run row rest reply hrun _ _ => (visit_provider run row rest reply).trans hrun
  · exact fun run row answer hrun _ => (requeue_provider run row answer).trans hrun

/-- Where there is no provider, the queue takes its own steps only. -/
theorem step_closed {a : Act} (hi : Ingestion.Inv s.queue) (hb : Balanced s) (hn : NoProvider s)
    (h : step config s a = some t) :
    run (Ingestion.step config) s.queue a.onQueue.toList = some t.queue := by
  cases a with
  | queue a =>
    obtain ⟨queue, hqueue, rfl⟩ := Option.map_eq_some_iff.mp h
    simp [Act.onQueue, run, hqueue]
  | write corpus =>
    cases Option.some.inj h
    rfl
  | start options capability check =>
    obtain ⟨-, h⟩ := Option.ite_none_right_eq_some.mp h
    obtain ⟨run, -, rfl⟩ := Option.map_eq_some_iff.mp h
    rfl
  | advance i call =>
    obtain ⟨run, hrun, -⟩ := advance_cases h
    obtain ⟨-, -, ⟨hsame, -⟩ | ⟨⟨row, d, hrequeues⟩, -⟩⟩ := advance_queue hi hb hrun h
    · exact congrArg some hsame.symm
    · have hopen := hrequeues.allowed.2.2
      rw [hn i run hrun] at hopen
      cases hopen

theorem run_closed {as : List Act} (hi : Ingestion.Inv s.queue) (hb : Balanced s)
    (hn : NoProvider s) (hm : Meets (step config) Closed s as)
    (hr : run (step config) s as = some t) :
    run (Ingestion.step config) s.queue (as.filterMap Act.onQueue) = some t.queue := by
  induction as generalizing s with
  | nil =>
    cases Option.some.inj hr
    rfl
  | cons a as ih =>
    obtain ⟨u, hstep, hr⟩ := Option.bind_eq_some_iff.mp hr
    have hfirst := step_closed hi hb hn hstep
    have hrest := ih (step_queue_inv hi hstep) (step_balanced hb hstep)
      (step_noProvider hn hm.1 hstep) (hm.2 u hstep) hr
    have hsplit : (a :: as).filterMap Act.onQueue =
        a.onQueue.toList ++ as.filterMap Act.onQueue := by
      rw [List.filterMap_cons]
      cases a.onQueue <;> rfl
    rw [hsplit, run_append hfirst]
    exact hrest

end Steps

/-- Audits run beside the workers without harm: the queue stays one its own steps can lead to, and a
call of an audit changes nothing or, when the audit may, gives one document back to the workers
that is spoilt, settled and idle. Without a provider the queue does not notice them. -/
theorem ocr_audits_requeue_affected (config : WorkerConfig) (now : Int) :
    (∀ s, Reach (Start now) (step config) anyStep s →
      Reach (· = Ingestion.initial now) (Ingestion.step config) anyStep s.queue ∧
      ∀ i run call t, s.runs[i]? = some run → step config s (.advance i call) = some t →
        ∃ new, t.runs[i]? = some new ∧
          ((t.queue = s.queue ∧ new.report.counts.requeued = run.report.counts.requeued) ∨
            (∃ row d, RequeuesAffected s.queue t.queue run row d) ∧
              new.report.counts.requeued = run.report.counts.requeued + 1)) ∧
    ∀ s as t, Start now s → Meets (step config) Closed s as → run (step config) s as = some t →
      run (Ingestion.step config) (Ingestion.initial now) (as.filterMap Act.onQueue) =
        some t.queue := by
  refine ⟨fun s hs => ⟨reach_queue hs, ?_⟩, ?_⟩
  · intro i run call t hrun hstep
    exact advance_queue (Ingestion.reach_inv (reach_queue hs)) (reach_balanced hs) hrun hstep
  · intro s as t hstart hm hr
    have hnone : NoProvider s := by
      intro i run hrun
      rw [hstart.2] at hrun
      cases hrun
    have hinv : Ingestion.Inv s.queue := hstart.1 ▸ Ingestion.initial_inv now
    have hqueue := run_closed hinv (start_balanced hstart) hnone hm hr
    rw [hstart.1] at hqueue
    exact hqueue

theorem shouldPersist_completed {report : OcrAuditReport} :
    shouldPersistAuditEvent report = some .applyCompleted ↔ report.applyExecuted = true := by
  unfold shouldPersistAuditEvent
  split
  next hexecuted => exact iff_of_true rfl hexecuted
  next hexecuted =>
    refine iff_of_false ?_ hexecuted
    split <;> exact nofun

/-- The report of a finished audit accounts for every document it selected, whatever the workers did
meanwhile: exactly the audits that were allowed to change the queue say so in the audit log. -/
theorem finished_audit_accounts {config : WorkerConfig} {now : Int} {s : State}
    (h : Reach (Start now) (step config) anyStep s) {i : Nat} {run : AuditRun}
    (hrun : s.runs[i]? = some run) (htodo : run.todo = []) (hfound : run.found = none) :
    ((shouldPersistAuditEvent run.report = some .applyCompleted ∧ run.Allowed ∧
        run.report.counts.selectedForPlan =
          run.report.counts.skippedActiveJob + run.report.counts.skippedNotRequeueable +
            run.report.counts.requeued + run.report.counts.alreadyNotRequeued +
            run.report.counts.requeueFailed + run.report.counts.skippedObjectMissing) ∨
      (shouldPersistAuditEvent run.report ≠ some .applyCompleted ∧
        run.report.counts.requeued = 0 ∧ run.report.counts.alreadyNotRequeued = 0 ∧
        run.report.counts.requeueFailed = 0 ∧ run.report.counts.skippedObjectMissing = 0 ∧
        run.report.counts.skippedActiveJob + run.report.counts.skippedNotRequeueable ≤
          run.report.counts.selectedForPlan)) ∧
    run.report.errors.length = run.report.counts.requeueFailed ∧
    run.report.samples.length = min run.options.sampleLimit run.report.counts.selectedForPlan ∧
    (run.report.counts.selectedForPlan : Int) ≤ run.options.limit ∧
    run.report.counts.selectedForPlan ≤
      run.report.counts.mockOcrChunk + run.report.counts.needsOcrTerminal := by
  have hb := reach_balanced h i run hrun
  have hahead : run.ahead = 0 := by
    simp [AuditRun.ahead, htodo, hfound]
  have haccounts := hb.accounts
  rw [hahead] at haccounts
  refine ⟨?_, haccounts.errors, haccounts.samples, haccounts.selected, haccounts.evidence⟩
  cases hexecuted : run.report.applyExecuted with
  | true =>
    have hsum := haccounts.executed hexecuted
    refine .inl ⟨shouldPersist_completed.mpr hexecuted, hb.allowed hexecuted, ?_⟩
    simp only [OcrAuditCounts.skipped, OcrAuditCounts.attempted] at hsum
    omega
  | false =>
    obtain ⟨hattempted, hskipped⟩ := haccounts.planned hexecuted
    have hsilent : shouldPersistAuditEvent run.report ≠ some .applyCompleted := by
      intro hpersist
      rw [shouldPersist_completed.mp hpersist] at hexecuted
      cases hexecuted
    simp only [OcrAuditCounts.skipped, OcrAuditCounts.attempted] at hattempted hskipped
    exact .inr ⟨hsilent, by omega, by omega, by omega, by omega, by omega⟩

/-- A document whose job dies for want of an OCR. -/
def needsOcrRun : List Ingestion.Act :=
  [.upload 7 0, .claim 0 [0] 0,
    .beginFailure Ingestion.firstClaim 0 ⟨needsOcr, "no text layer".toList, false⟩ 0, .commit 0]

def spoiltQueue : Ingestion.State :=
  (run (Ingestion.step Ingestion.sampleConfig) (Ingestion.initial 0) needsOcrRun).getD
    (Ingestion.initial 0)

def sampleCorpus : Corpus := ⟨[], fun _ => some (some 3), fun _ => [], fun _ => some 0, fun _ => ⟨0⟩⟩

def sampleState : State := ⟨Ingestion.initial 0, sampleCorpus, []⟩

def spoiltState : State := { sampleState with queue := spoiltQueue }

def sampleOptions : OcrAuditOptions := ⟨false, true, 50, 20, none, none, 5⟩

def openCapability : OcrCapability := ⟨true, some "test".toList, "open".toList⟩

def spoiltRow : CandidateRow :=
  ⟨0, 7, some 3, .failed, .failed, some needsOcr, [], false, true, false⟩

theorem spoilt_candidates :
    loadCandidates sampleOptions sampleCorpus spoiltQueue = some [spoiltRow] := by
  have hfilter : (List.range spoiltQueue.nextDocument).filter
      (affected sampleOptions sampleCorpus spoiltQueue) = [0] := by decide
  rw [loadCandidates, affectedDocuments, hfilter, Query.orderBy, List.mergeSort_singleton]
  rfl

/-- The audit of the spoilt document before its first call. -/
def spoiltRun (capability : OcrCapability) : AuditRun :=
  let report := baseReport sampleOptions capability
  let report := { report with counts := countSelected [spoiltRow] [spoiltRow] report.counts }
  ⟨sampleOptions, .alwaysPresent, applyGate sampleOptions capability report, [spoiltRow], none⟩

theorem spoilt_start (capability : OcrCapability) :
    step Ingestion.sampleConfig spoiltState (.start sampleOptions capability .alwaysPresent) =
      some { spoiltState with runs := [spoiltRun capability] } := by
  have hrun : startRun sampleOptions capability .alwaysPresent sampleCorpus spoiltQueue =
      some (spoiltRun capability) := by
    rw [startRun, spoilt_candidates]
    rfl
  have hvalid : validateOptions sampleOptions = true := by decide
  simp only [step, if_pos hvalid]
  exact congrArg (Option.map _) hrun

def foundRun : AuditRun := { spoiltRun openCapability with todo := [], found := some spoiltRow }

def foundState : State := { spoiltState with runs := [foundRun] }

theorem reach_foundState : Reach (Start 0) (step Ingestion.sampleConfig) anyStep foundState := by
  have hqueue : run (step Ingestion.sampleConfig) sampleState (needsOcrRun.map .queue) =
      some spoiltState := rfl
  have hspoilt : Reach (Start 0) (step Ingestion.sampleConfig) anyStep spoiltState :=
    Reach.of_free_run ⟨rfl, rfl⟩ hqueue
  have hstarted := hspoilt.next trivial (spoilt_start openCapability)
  have hfound : step Ingestion.sampleConfig
      { spoiltState with runs := [spoiltRun openCapability] } (.advance 0 (.objectExists (.ok true))) =
        some foundState := rfl
  exact hstarted.next trivial hfound

theorem ocr_audits_requeue_affected_spoilt :
    (∃ t d, step Ingestion.sampleConfig foundState (.advance 0 (.requeue true 0)) = some t ∧
      RequeuesAffected foundState.queue t.queue foundRun spoiltRow d) ∧
    run (Ingestion.step Ingestion.sampleConfig) (Ingestion.initial 0) needsOcrRun =
      some spoiltQueue := by
  have hall := ocr_audits_requeue_affected Ingestion.sampleConfig 0
  constructor
  · have hstep : step Ingestion.sampleConfig foundState (.advance 0 (.requeue true 0)) =
        some ((step Ingestion.sampleConfig foundState (.advance 0 (.requeue true 0))).getD
          foundState) := rfl
    obtain ⟨new, hnew, hcall⟩ := (hall.1 _ reach_foundState).2 0 foundRun _ _ rfl hstep
    have hcounted : new.report.counts.requeued = 1 := by
      cases Option.some.inj hnew
      rfl
    rcases hcall with ⟨-, hsame⟩ | ⟨⟨row, d, hrequeues⟩, -⟩
    · rw [hcounted] at hsame
      cases hsame
    · cases Option.some.inj hrequeues.found
      exact ⟨_, d, hstep, hrequeues⟩
  · have hrun : run (step Ingestion.sampleConfig) sampleState (needsOcrRun.map .queue) =
        some spoiltState := rfl
    have hmeets : Meets (step Ingestion.sampleConfig) Closed sampleState
        (needsOcrRun.map .queue) := by
      refine ⟨trivial, fun _ _ => ⟨trivial, fun _ _ => ⟨trivial, fun _ _ => ⟨trivial, ?_⟩⟩⟩⟩
      exact fun _ _ => trivial
    exact hall.2 sampleState _ _ ⟨rfl, rfl⟩ hmeets hrun

def finishedState : State :=
  (step Ingestion.sampleConfig foundState (.advance 0 (.requeue true 0))).getD foundState

theorem finished_audit_accounts_spoilt :
    ∃ run, finishedState.runs[0]? = some run ∧ run.report.counts.requeued = 1 ∧
      run.report.samples.length = min 20 run.report.counts.selectedForPlan := by
  have hstep : step Ingestion.sampleConfig foundState (.advance 0 (.requeue true 0)) =
      some finishedState := rfl
  have hrun : finishedState.runs[0]? = some (foundRun.requeue spoiltRow (.ok true)) := rfl
  have haccounts := finished_audit_accounts (reach_foundState.next trivial hstep) hrun rfl rfl
  exact ⟨_, hrun, rfl, haccounts.2.2.1⟩

end GmragApi.OcrAudit

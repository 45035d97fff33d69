import GmragApi.LeaseFencing

/-! `attempt_count` against `max_attempts`. -/

namespace GmragApi.Ingestion

open Transition

def AttemptsBounded (s : State) : Prop :=
  ∀ id j, s.jobs id = some j → j.attemptCount ≤ j.maxAttempts

/-- A claim takes over an expired `PROCESSING` row only while attempts are left. -/
def ReclaimsWithinLimit (s : State) : Act → Prop
  | .claim _ ids _ =>
    ∀ id ∈ ids, ∀ j, s.jobs id = some j → j.status = .processing → j.attemptCount < j.maxAttempts
  | _ => True

/-- Only the lease may differ. -/
structure SameRow (j j' : Job) : Prop where
  documentId : j'.documentId = j.documentId
  status : j'.status = j.status
  attemptCount : j'.attemptCount = j.attemptCount
  maxAttempts : j'.maxAttempts = j.maxAttempts
  claimedBy : j'.claimedBy = j.claimedBy
  claimToken : j'.claimToken = j.claimToken

/-- What every step but a claim and a commit does to `ingestion_jobs`: rows are kept or deleted,
and new ones are queued. -/
def KeepsRows (s t : State) : Prop :=
  ∀ id j', t.jobs id = some j' → (∃ j, s.jobs id = some j ∧ SameRow j j') ∨
    (j'.status = .queued ∧ j'.attemptCount = 0 ∧ 0 < j'.maxAttempts)

section Attempts

variable {config : WorkerConfig} {s t : State}

theorem KeepsRows.of_jobs (h : t.jobs = s.jobs) : KeepsRows s t :=
  fun _ j' hj => .inl ⟨j', h ▸ hj, rfl, rfl, rfl, rfl, rfl, rfl⟩

theorem KeepsRows.enqueue {u : State} {document workspaceId : Nat} {limit stamp : Int}
    (h : enqueueJobTx u document workspaceId limit stamp = some t) (hu : u.jobs = s.jobs) :
    KeepsRows s t := by
  obtain ⟨hlim, -, rfl⟩ := enqueueJobTx_eq h
  intro k q hq
  rcases setJob_cases (s := u) hq with ⟨-, rfl⟩ | ⟨-, hq⟩
  · exact .inr ⟨rfl, rfl, hlim⟩
  · exact .inl ⟨q, hu ▸ hq, rfl, rfl, rfl, rfl, rfl, rfl⟩

theorem extendLease_keepsRows {job : ClaimedJob} {worker : Nat} {stamp : Int}
    (h : extendLease config s job worker stamp = some t) : KeepsRows s t := by
  rcases extendLease_cases h with rfl | ⟨j, lease, hj, -, rfl⟩
  · exact .of_jobs rfl
  · intro k q hq
    rcases setJob_cases (s := s) hq with ⟨rfl, rfl⟩ | ⟨-, hq⟩
    · exact .inl ⟨j, hj, rfl, rfl, rfl, rfl, rfl, rfl⟩
    · exact .inl ⟨q, hq, rfl, rfl, rfl, rfl, rfl, rfl⟩

theorem step_keepsRows {a : Act} (h : step config s a = some t)
    (notClaim : ∀ worker ids stamp, a ≠ .claim worker ids stamp) (notCommit : ∀ id, a ≠ .commit id) :
    KeepsRows s t := by
  cases a with
  | claim worker ids stamp => exact absurd rfl (notClaim worker ids stamp)
  | commit id => exact absurd rfl (notCommit id)
  | tick secs =>
    cases Option.some.inj h
    exact .of_jobs rfl
  | upload workspaceId stamp =>
    obtain ⟨-, h⟩ := Option.ite_none_right_eq_some.mp h
    unfold uploadDocument at h
    exact .enqueue h rfl
  | deleteDocument document =>
    simp only [step, deleteDocument] at h
    obtain ⟨-, h⟩ := Option.ite_none_right_eq_some.mp h
    cases Option.some.inj h
    intro id j' hj
    exact .inl ⟨j', (Option.filter_eq_some_iff.mp hj).1, rfl, rfl, rfl, rfl, rfl, rfl⟩
  | extendLease job worker stamp =>
    obtain ⟨-, h⟩ := Option.ite_none_right_eq_some.mp h
    exact extendLease_keepsRows h
  | setStage job worker stage stamp =>
    obtain ⟨-, h⟩ := Option.ite_none_right_eq_some.mp h
    cases Option.some.inj h
    refine .of_jobs ?_
    unfold setStageForOwner
    split <;> simp
  | beginComplete job worker stamp =>
    obtain ⟨-, h⟩ := Option.ite_none_right_eq_some.mp h
    exact .of_jobs (beginComplete_tables h).1
  | beginFailure job worker failure stamp =>
    obtain ⟨-, h⟩ := Option.ite_none_right_eq_some.mp h
    exact .of_jobs (beginFailure_tables h).1
  | rollback id =>
    obtain ⟨-, h⟩ := Option.ite_none_right_eq_some.mp h
    cases Option.some.inj h
    exact .of_jobs rfl
  | requeue document workspaceId limit eligibility stamp =>
    obtain ⟨-, h⟩ := Option.ite_none_right_eq_some.mp h
    cases Option.some.inj h
    rcases requeue_cases s document workspaceId limit eligibility stamp with
      he | ⟨d, u, -, -, -, he, hq⟩
    · rw [he]
      exact .of_jobs rfl
    · rw [he]
      exact .enqueue hq rfl
  | recoverLegacy stamp =>
    obtain ⟨-, h⟩ := Option.ite_none_right_eq_some.mp h
    cases Option.some.inj h
    exact .of_jobs rfl
  | markMissing document workspaceId =>
    cases Option.some.inj h
    exact .of_jobs (updateDocument_jobs ..)

/-- A commit rewrites the row of its job and no other. -/
theorem commit_row {id : Nat} (hi : Inv s) (h : commit config s id = some t) :
    ∃ j j', s.jobs id = some j ∧ j.status = .processing ∧ t.jobs = (s.setJob id j').jobs ∧
      j'.documentId = j.documentId ∧ j'.attemptCount = j.attemptCount ∧
      j'.maxAttempts = j.maxAttempts := by
  obtain ⟨job, worker, j, e, f, g, -, rfl, hj, ho, hsettle, -, rfl⟩ := commit_cases hi h
  obtain ⟨hd, -, ha, hm⟩ := hsettle.job_keeps j
  refine ⟨j, f j, hj, (ownedBy_iff.mp ho).1, ?_, hd, ha, hm⟩
  simp [State.recordEnd, State.updateJob, State.unlock, State.setJob, hj]

theorem claim_bounded {worker : Nat} {ids : List Nat} {stamp : Int} (hi : Inv s)
    (hb : AttemptsBounded s) (ho : ReclaimsWithinLimit s (.claim worker ids stamp))
    (h : claimJobs config s worker ids stamp = some t) : AttemptsBounded t := by
  obtain ⟨hrest, -, hids⟩ := claimJobs_rows h
  intro k q hq
  by_cases hk : k ∈ ids
  · obtain ⟨j, token, hj, hcl, ht⟩ := hids k hk
    cases Option.some.inj (hq.symm.trans ht)
    have hlt : j.attemptCount < j.maxAttempts := by
      cases hs : j.status with
      | queued => exact (hi.wellFormed k j hj).queued hs
      | processing => exact ho k hk j hj hs
      | succeeded => simp [Job.claimable, hs] at hcl
      | dead => simp [Job.claimable, hs] at hcl
    exact hlt
  · exact hb k q (hrest k hk ▸ hq)

theorem step_bounded {a : Act} (hi : Inv s) (hb : AttemptsBounded s) (ho : ReclaimsWithinLimit s a)
    (h : step config s a = some t) : AttemptsBounded t := by
  by_cases hclaim : ∃ worker ids stamp, a = .claim worker ids stamp
  · obtain ⟨worker, ids, stamp, rfl⟩ := hclaim
    exact claim_bounded hi hb ho (Option.ite_none_right_eq_some.mp h).2
  intro k q hq
  by_cases hcommit : ∃ id, a = .commit id
  · obtain ⟨id, rfl⟩ := hcommit
    obtain ⟨j, j', hj, -, hjobs, -, ha, hm⟩ := commit_row hi h
    rw [hjobs] at hq
    rcases setJob_cases hq with ⟨rfl, rfl⟩ | ⟨-, hq⟩
    · rw [ha, hm]
      exact hb _ j hj
    · exact hb k q hq
  · have hk := step_keepsRows h (fun worker ids stamp ha => hclaim ⟨worker, ids, stamp, ha⟩)
      fun id ha => hcommit ⟨id, ha⟩
    rcases hk k q hq with ⟨j, hj, hsame⟩ | ⟨-, ha, hm⟩
    · rw [hsame.attemptCount, hsame.maxAttempts]
      exact hb k j hj
    · omega

theorem bounded_reclaimsWithinLimit {a : Act} (h : step config s a = some t)
    (hb : AttemptsBounded t) : ReclaimsWithinLimit s a := by
  cases a with
  | claim worker ids stamp =>
    obtain ⟨-, h⟩ := Option.ite_none_right_eq_some.mp h
    intro k hk j hj _
    obtain ⟨j', token, hj', -, ht⟩ := (claimJobs_rows h).2.2 k hk
    cases Option.some.inj (hj.symm.trans hj')
    exact hb k _ ht
  | _ => trivial

/-- Without a commit of its calls a job never leaves `QUEUED` and `PROCESSING`. -/
theorem step_uncommitted_active {a : Act} {k : Nat} (hi : Inv s)
    (hs : ∀ j, s.jobs k = some j → j.status.active = true) (ha : a ≠ .commit k)
    (h : step config s a = some t) : ∀ j, t.jobs k = some j → j.status.active = true := by
  intro q hq
  by_cases hclaim : ∃ worker ids stamp, a = .claim worker ids stamp
  · obtain ⟨worker, ids, stamp, rfl⟩ := hclaim
    obtain ⟨hrest, -, hids⟩ := claimJobs_rows (Option.ite_none_right_eq_some.mp h).2
    by_cases hk : k ∈ ids
    · obtain ⟨j, token, hj, -, ht⟩ := hids k hk
      cases Option.some.inj (hq.symm.trans ht)
      rfl
    · exact hs q (hrest k hk ▸ hq)
  by_cases hcommit : ∃ id, a = .commit id
  · obtain ⟨id, rfl⟩ := hcommit
    obtain ⟨j, j', -, -, hjobs, -⟩ := commit_row hi h
    rw [hjobs] at hq
    rcases setJob_cases hq with ⟨rfl, -⟩ | ⟨-, hq⟩
    · exact absurd rfl ha
    · exact hs q hq
  · have hk := step_keepsRows h (fun worker ids stamp ha => hclaim ⟨worker, ids, stamp, ha⟩)
      fun id ha => hcommit ⟨id, ha⟩
    rcases hk k q hq with ⟨j, hj, hsame⟩ | ⟨hq, -⟩
    · rw [hsame.status]
      exact hs j hj
    · rw [hq]
      rfl

end Attempts

/-- Row `k`, if there is one, is still `QUEUED` or `PROCESSING`. -/
def StillActive (k : Nat) (s : State) : Prop :=
  Inv s ∧ ∀ j, s.jobs k = some j → j.status.active = true

theorem reach_stillActive {config : WorkerConfig} {now : Int} {k : Nat} {s : State}
    (h : Reach (· = initial now) (step config) (fun _ a => a ≠ .commit k) s) : StillActive k s := by
  refine h.invariant ?_ ?_
  · rintro s rfl
    exact ⟨initial_inv now, fun j hj => by cases hj⟩
  · intro s t a hi ho hs
    exact ⟨step_inv hi.1 hs, step_uncommitted_active hi.1 hi.2 ho hs⟩

/-- Attempts stay within their limit in exactly the runs in which no claim takes over an expired
row without attempts left; and a job none of whose calls commits never becomes `DEAD`, however
often it is claimed. -/
theorem ingestion_attempts_bounded_iff (config : WorkerConfig) (now : Int) :
    (∀ as s, run (step config) (initial now) as = some s →
      (Always (step config) AttemptsBounded (initial now) as ↔
        Meets (step config) ReclaimsWithinLimit (initial now) as)) ∧
    ∀ k s, Reach (· = initial now) (step config) (fun _ a => a ≠ .commit k) s →
      ∀ j, s.jobs k = some j → j.status ≠ .dead := by
  constructor
  · intro as s hr
    refine always_iff_meets ?_ ?_ ?_ (initial_inv now) ?_ hr
    · intro s t a hi h
      exact step_inv hi h
    · intro s t a hi hb ho h
      exact step_bounded hi hb ho h
    · intro s t a _ _ h hb
      exact bounded_reclaimsWithinLimit h hb
    · intro k j hj
      cases hj
  · intro k s hs j hj hdead
    have := (reach_stillActive hs).2 j hj
    rw [hdead] at this
    cases this

def singleAttempt : WorkerConfig := ⟨1, 1, 300, 5, 300⟩

/-- The worker crashes after the claim; another one claims the job when the lease is over. -/
def crashingRun : List Act :=
  [.upload 7 0, .claim 0 [0] 0, .tick 301, .claim 1 [0] 301]

def attemptsOf (s : State) (id : Nat) : Option (JobStatus × Int × Int) :=
  (s.jobs id).map fun j => (j.status, j.attemptCount, j.maxAttempts)

theorem ingestion_attempts_bounded_iff_crashing :
    (∃ s, run (step singleAttempt) (initial 0) crashingRun = some s ∧
      (Always (step singleAttempt) AttemptsBounded (initial 0) crashingRun ↔
        Meets (step singleAttempt) ReclaimsWithinLimit (initial 0) crashingRun)) ∧
    ∃ s j, run (step singleAttempt) (initial 0) crashingRun = some s ∧ s.jobs 0 = some j ∧
      j.status ≠ .dead := by
  have hr : run (step singleAttempt) (initial 0) crashingRun = some
      ((run (step singleAttempt) (initial 0) crashingRun).getD (initial 0)) := rfl
  have h := ingestion_attempts_bounded_iff singleAttempt 0
  have hm : Meets (step singleAttempt) (fun _ a => a ≠ .commit 0) (initial 0) crashingRun := by
    refine ⟨by simp, fun _ _ => ⟨by simp, fun _ _ => ⟨by simp, fun _ _ => ⟨by simp, ?_⟩⟩⟩⟩
    exact fun _ _ => trivial
  refine ⟨⟨_, hr, h.1 _ _ hr⟩, _, _, hr, rfl, ?_⟩
  exact h.2 0 _ (Reach.of_run (.start rfl) hm hr) _ rfl

theorem attempts_exceed_limit :
    ∃ s, Reach (· = initial 0) (step singleAttempt) anyStep s ∧
      attemptsOf s 0 = some (.processing, 2, 1) := by
  have hr : run (step singleAttempt) (initial 0) crashingRun = some
      ((run (step singleAttempt) (initial 0) crashingRun).getD (initial 0)) := rfl
  exact ⟨_, Reach.of_free_run rfl hr, by decide⟩

end GmragApi.Ingestion

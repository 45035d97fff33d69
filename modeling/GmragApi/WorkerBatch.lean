import GmragApi.QueueFrames
import GmragApi.LeaseFencing
import Mathlib.Algebra.GroupWithZero.Nat

/-! The main loop of an ingestion worker: it claims a batch of jobs at once and works through them
one after the other, with heartbeats for the job in hand only. The clock and all the others who use
the queue go on meanwhile. -/

namespace GmragApi.WorkerBatch

open Ingestion (ClaimedJob WorkerConfig Superseded)

/-- A job of the batch, and how long it will take from its start to its end. -/
structure Slot where
  job : ClaimedJob
  duration : Nat
  deriving DecidableEq

/-- The job in `process_one`: when its work ends and when the next heartbeat is due. -/
structure Running where
  job : ClaimedJob
  endsAt : Int
  nextBeat : Int
  deriving DecidableEq

structure State where
  queue : Ingestion.State
  current : Option Running
  waiting : List Slot

/-- `Duration::from_secs((config.lease_secs / 3).max(1) as u64)`. -/
def heartbeatSecs (config : WorkerConfig) : Int := max (config.leaseSecs.tdiv 3) 1

/-- The jobs of the batch that the worker is not done with. -/
def State.unfinished (s : State) : List ClaimedJob :=
  (s.current.map (·.job)).toList ++ s.waiting.map (·.job)

/-- A worker that is alive starts its next job at once, ends it on time and is in time with the
heartbeats that it owes. -/
def State.allowsTick (s : State) (secs : Nat) : Bool :=
  match s.current, s.waiting with
  | some r, _ => decide (s.queue.now + secs ≤ r.endsAt ∧ s.queue.now + secs ≤ r.nextBeat)
  | none, waiting => waiting.isEmpty

/-- The statements of the job in hand that leave `ingestion_jobs` as it is. -/
def ownCall (job : ClaimedJob) (worker : Nat) : Ingestion.Act → Bool
  | .setStage j w _ _ => j == job && w == worker
  | .beginComplete j w _ => j == job && w == worker
  | .beginFailure j w _ _ => j == job && w == worker
  | _ => false

/-- What the others do: no statement in the name of an unfinished job of this worker. -/
def foreign (s : State) : Ingestion.Act → Bool
  | .tick _ => false
  | .extendLease j _ _ => !s.unfinished.contains j
  | .setStage j _ _ _ => !s.unfinished.contains j
  | .beginComplete j _ _ => !s.unfinished.contains j
  | .beginFailure j _ _ _ => !s.unfinished.contains j
  | .commit id => (s.queue.locks id).all fun tx => !s.unfinished.contains tx.job
  | .rollback id => (s.queue.locks id).all fun tx => !s.unfinished.contains tx.job
  | _ => true

def holdsLock (q : Ingestion.State) (job : ClaimedJob) : Bool :=
  (q.locks job.id).any fun tx => tx.job == job

def owns (q : Ingestion.State) (job : ClaimedJob) (worker : Nat) : Bool :=
  (q.jobs job.id).any fun j => j.ownedBy job worker

inductive Act
  | tick (secs : Nat)
  | start
  | call (a : Ingestion.Act)
  | heartbeat
  | finish (recorded : Bool)
  | other (a : Ingestion.Act)

section Step

variable (config : WorkerConfig) (worker : Nat) (s : State)

def State.statement (a : Ingestion.Act) : Option State :=
  (Ingestion.step config s.queue a).map fun q => { s with queue := q }

def startNext : Option State :=
  match s.current, s.waiting with
  | none, slot :: rest =>
    some { s with
      current := some ⟨slot.job, s.queue.now + slot.duration, s.queue.now + heartbeatSecs config⟩
      waiting := rest }
  | _, _ => none

/-- A beat that finds the job in other hands ends its processing. -/
def heartbeat (r : Running) : Option State :=
  if s.queue.now = r.nextBeat then
    (s.statement config (.extendLease r.job worker s.queue.now)).map fun t =>
      if owns s.queue r.job worker then
        { t with current := some { r with nextBeat := s.queue.now + heartbeatSecs config } }
      else { t with current := none }
  else none

/-- The last statement of the job: its end is committed, or what is open is rolled back. -/
def finish (r : Running) (recorded : Bool) : Option State :=
  if s.queue.now = r.endsAt then
    (if holdsLock s.queue r.job then
      s.statement config (if recorded then .commit r.job.id else .rollback r.job.id)
    else some s).map fun t => { t with current := none }
  else none

def step : Act → Option State
  | .tick secs => if s.allowsTick secs then s.statement config (.tick secs) else none
  | .start => startNext config s
  | .call a =>
    s.current.bind fun r => if ownCall r.job worker a then s.statement config a else none
  | .heartbeat => s.current.bind (heartbeat config worker s)
  | .finish recorded => s.current.bind fun r => finish config s r recorded
  | .other a => if foreign s a then s.statement config a else none

end Step

/-- No job of the batch was claimed again before the worker was done with it. -/
def KeepsLeases (s : State) : Prop := ∀ job ∈ s.unfinished, ¬ Superseded s.queue job

/-- The jobs that a claim hands out, in the order in which the worker takes them. -/
def HandedOut (worker : Nat) (q q' : Ingestion.State) (batch : List Slot) : Prop :=
  ∃ handed, q'.claims = handed ++ q.claims ∧
    (batch.map fun slot => (slot.job, worker)).Perm handed

/-- From `now` on, each job ends or has its first heartbeat by `deadline`, the end of the lease that
all of them were given. A job whose attempts are used up to the last integer cannot be claimed. -/
def InTime (config : WorkerConfig) (deadline : Int) : Int → List Slot → Prop
  | _, [] => True
  | now, slot :: rest =>
    (slot.job.attemptCount < i32Max → now + min (heartbeatSecs config) slot.duration ≤ deadline) ∧
      InTime config deadline (now + slot.duration) rest

section Claims

variable {config : WorkerConfig} {q q' : Ingestion.State} {job : ClaimedJob} {worker : Nat}

theorem superseded_iff (hi : Ingestion.Inv q) (hc : (job, worker) ∈ q.claims) :
    Superseded q job ↔ ∃ p ∈ q.claims, p.1.id = job.id ∧ job.claimToken < p.1.claimToken := by
  constructor
  · rintro ⟨w, later, earlier, hclaims, p, hp, hid⟩
    have ht := hi.tokens
    rw [hclaims, List.pairwise_append] at ht
    refine ⟨p, ?_, hid, ht.2.2 p hp _ (List.mem_cons_self ..)⟩
    rw [hclaims]
    exact List.mem_append_left _ hp
  · rintro ⟨p, hp, hid, hlt⟩
    obtain ⟨later, earlier, hclaims⟩ := List.append_of_mem hc
    refine ⟨worker, later, earlier, hclaims, p, ?_, hid⟩
    have ht := hi.tokens
    rw [hclaims, List.pairwise_append, List.pairwise_cons] at ht
    rw [hclaims] at hp
    rcases List.mem_append.mp hp with hp | hp
    · exact hp
    · rcases List.mem_cons.mp hp with rfl | hp
      · exact absurd hlt (Nat.lt_irrefl _)
      · exact absurd hlt (Nat.lt_asymm (ht.2.1.1 p hp))

/-- What a claim statement hands out: each job from a row that it could claim. -/
structure Claimed (config : WorkerConfig) (worker : Nat) (stamp : Int) (q q' : Ingestion.State)
    (ids : List Nat) (handed : List (ClaimedJob × Nat)) : Prop where
  claims : q'.claims = handed ++ q.claims
  names : ∀ p ∈ handed, p.1.id ∈ ids ∧ p.2 = worker
  rows : ∀ p ∈ handed, ∃ j, q'.jobs p.1.id = some j ∧ j.ownedBy p.1 worker = true ∧
    j.leaseExpiresAt = some (stamp + config.leaseSecs) ∧ j.attemptCount = p.1.attemptCount
  found : ∀ id ∈ ids, ∃ j, q.jobs id = some j ∧ j.claimable stamp = true ∧ q.locks id = none ∧
    j.attemptCount < i32Max
  others : ∀ id, id ∉ ids → q'.jobs id = q.jobs id
  locks : q'.locks = q.locks
  now : q'.now = q.now

theorem claimJobs_claimed {stamp : Int} {ids : List Nat}
    (h : Ingestion.claimJobs config q worker ids stamp = some q') :
    ∃ handed, Claimed config worker stamp q q' ids handed := by
  unfold Ingestion.claimJobs at h
  split at h
  next hguard =>
    replace hguard := hguard.1
    induction ids generalizing q with
    | nil =>
      cases Option.some.inj h
      exact ⟨[], rfl, by simp, by simp, by simp, fun _ _ => rfl, rfl, rfl⟩
    | cons id ids ih =>
      rw [List.foldlM_cons] at h
      obtain ⟨u, hu, h⟩ := Option.bind_eq_some_iff.mp h
      obtain ⟨hid, hnodup⟩ := List.nodup_cons.mp hguard
      obtain ⟨handed, hh⟩ := ih h hnodup
      obtain ⟨j, hj, hclaim, hfree, hlt, rfl⟩ := Ingestion.claimJob_eq hu
      have hself := hh.others id hid
      refine ⟨handed ++ [(⟨id, j.documentId, j.workspaceId, j.attemptCount + 1, j.maxAttempts,
        q.nextToken⟩, worker)], ?_, ?_, ?_, ?_, ?_, hh.locks, hh.now⟩
      · rw [hh.claims, List.append_assoc]
        rfl
      · intro p hp
        rcases List.mem_append.mp hp with hp | hp
        · exact ⟨List.mem_cons_of_mem _ (hh.names p hp).1, (hh.names p hp).2⟩
        · cases List.mem_singleton.mp hp
          exact ⟨List.mem_cons_self .., rfl⟩
      · intro p hp
        rcases List.mem_append.mp hp with hp | hp
        · exact hh.rows p hp
        · cases List.mem_singleton.mp hp
          exact ⟨_, hself.trans (by simp [Ingestion.State.setJob]; rfl),
            by simp [Ingestion.Job.ownedBy], rfl, rfl⟩
      · intro k hk
        rcases List.mem_cons.mp hk with rfl | hk
        · exact ⟨j, hj, hclaim, hfree, hlt⟩
        · have hne : k ≠ id := fun he => hid (he ▸ hk)
          obtain ⟨j', hj', hc', hf', hl'⟩ := hh.found k hk
          exact ⟨j', by simpa [Ingestion.State.setJob, hne] using hj', hc', hf', hl'⟩
      · intro k hk
        simp only [List.mem_cons, not_or] at hk
        exact (hh.others k hk.2).trans (by simp [Ingestion.State.setJob, hk.1])
  next => cases h

theorem step_claims {a : Ingestion.Act} (hi : Ingestion.Inv q)
    (h : Ingestion.step config q a = some q')
    (notClaim : ∀ worker ids stamp, a ≠ .claim worker ids stamp) : q'.claims = q.claims := by
  cases a with
  | claim worker ids stamp => exact absurd rfl (notClaim worker ids stamp)
  | tick secs =>
    cases Option.some.inj h
    rfl
  | upload workspaceId stamp =>
    obtain ⟨-, h⟩ := Option.ite_none_right_eq_some.mp h
    unfold Ingestion.uploadDocument at h
    exact (Ingestion.enqueueJobTx_frame h).1
  | deleteDocument document =>
    simp only [Ingestion.step, Ingestion.deleteDocument] at h
    cases Option.some.inj (Option.ite_none_right_eq_some.mp h).2
    rfl
  | extendLease job worker stamp =>
    exact (Ingestion.extendLease_frame (Option.ite_none_right_eq_some.mp h).2).1
  | setStage job worker stage stamp =>
    cases Option.some.inj (Option.ite_none_right_eq_some.mp h).2
    exact (Ingestion.setStage_frame job worker stage stamp).1
  | beginComplete job worker stamp =>
    rcases Ingestion.beginComplete_cases (Option.ite_none_right_eq_some.mp h).2 with
      ⟨-, rfl⟩ | ⟨-, hl⟩
    · rfl
    · exact (Ingestion.lockFor_cases hl).2.1
  | beginFailure job worker failure stamp =>
    rcases Ingestion.beginFailure_cases (Option.ite_none_right_eq_some.mp h).2 with
      ⟨-, rfl⟩ | ⟨-, _, _, hl⟩
    · rfl
    · exact (Ingestion.lockFor_cases hl).2.1
  | commit id => exact (Ingestion.commit_frame hi h).1
  | rollback id =>
    cases Option.some.inj (Option.ite_none_right_eq_some.mp h).2
    rfl
  | requeue document workspaceId limit eligibility stamp =>
    cases Option.some.inj (Option.ite_none_right_eq_some.mp h).2
    exact (Ingestion.requeue_frame document workspaceId limit eligibility stamp).1
  | recoverLegacy stamp =>
    cases Option.some.inj (Option.ite_none_right_eq_some.mp h).2
    rfl
  | markMissing document workspaceId =>
    cases Option.some.inj h
    exact Ingestion.updateDocument_claims ..

/-- A row as its claim left it, but for the lease; or the document is gone, and the row with it. -/
def Row (q : Ingestion.State) (job : ClaimedJob) (worker : Nat) (lease : Int) : Prop :=
  q.jobs job.id = none ∨ ∃ j, q.jobs job.id = some j ∧ j.ownedBy job worker = true ∧
    j.leaseExpiresAt = some lease ∧ j.attemptCount = job.attemptCount

/-- The lease of the row has not run out. -/
def Fresh (q : Ingestion.State) (job : ClaimedJob) (lease : Int) : Prop :=
  job.attemptCount < i32Max → q.now ≤ lease

theorem Row.of_jobs {lease : Int} (h : Row q job worker lease)
    (hj : q'.jobs job.id = q.jobs job.id) : Row q' job worker lease := by
  rw [Row, hj]
  exact h

theorem Row.not_claimable {lease stamp : Int} (h : Row q job worker lease)
    (fresh : Fresh q job lease) (hs : stamp ≤ q.now) {j : Ingestion.Job}
    (hj : q.jobs job.id = some j) (hc : j.claimable stamp = true) (ha : j.attemptCount < i32Max) :
    False := by
  rcases h with hn | ⟨j', hj', ho, hl, hatt⟩
  · rw [hn] at hj
    cases hj
  · cases Option.some.inj (hj.symm.trans hj')
    have hlive := fresh (hatt ▸ ha)
    have hproc := (Ingestion.ownedBy_iff.mp ho).1
    simp only [Ingestion.Job.claimable, hproc, hl, Option.any_some, decide_eq_true_eq] at hc
    rcases hc with ⟨hq, -⟩ | ⟨-, hlt⟩
    · cases hq
    · omega

theorem claim_row {stamp lease : Int} {ids : List Nat} {other : Nat} (hi : Ingestion.Inv q)
    (hi' : Ingestion.Inv q') (h : Ingestion.claimJobs config q other ids stamp = some q')
    (hs : stamp ≤ q.now) (hc : (job, worker) ∈ q.claims) (hrow : Row q job worker lease)
    (fresh : Fresh q job lease) (kept : ¬ Superseded q job) :
    Row q' job worker lease ∧ ¬ Superseded q' job := by
  obtain ⟨handed, hh⟩ := claimJobs_claimed h
  have hid : job.id ∉ ids := by
    intro hid
    obtain ⟨j, hj, hcl, -, hlt⟩ := hh.found _ hid
    exact hrow.not_claimable fresh hs hj hcl hlt
  refine ⟨hrow.of_jobs (hh.others _ hid), ?_⟩
  have hc' : (job, worker) ∈ q'.claims := by
    rw [hh.claims]
    exact List.mem_append_right _ hc
  rw [superseded_iff hi' hc']
  rintro ⟨p, hp, hpid, hlt⟩
  rw [hh.claims] at hp
  rcases List.mem_append.mp hp with hp | hp
  · exact hid (hpid ▸ (hh.names p hp).1)
  · exact kept ((superseded_iff hi hc).mpr ⟨p, hp, hpid, hlt⟩)

theorem commit_locked {id : Nat} (h : Ingestion.commit config q id = some q') :
    ∃ tx, q.locks id = some tx := by
  cases htx : q.locks id with
  | some tx => exact ⟨tx, rfl⟩
  | none =>
    rw [Ingestion.commit, htx] at h
    cases h

/-- A statement that is not made in the name of a claim leaves its row alone, or takes it away. -/
theorem step_row {a : Ingestion.Act} {lease : Int} (hi : Ingestion.Inv q)
    (h : Ingestion.step config q a = some q') (notClaim : ∀ worker ids stamp, a ≠ .claim worker ids stamp)
    (hc : (job, worker) ∈ q.claims) (hrow : Row q job worker lease)
    (notOwn : ¬ Ingestion.CallWith q job a) : Row q' job worker lease := by
  have same : ∀ {p : ClaimedJob × Nat} {j : Ingestion.Job}, p ∈ q.claims → p.1.id = job.id →
      q.jobs job.id = some j → j.ownedBy p.1 p.2 = true → p.1 = job := by
    intro p j hp hid hj ho
    rcases hrow with hn | ⟨j', hj', ho', -⟩
    · rw [hn] at hj
      cases hj
    · cases Option.some.inj (hj.symm.trans hj')
      have htok := (Ingestion.ownedBy_iff.mp ho).2.2.symm.trans (Ingestion.ownedBy_iff.mp ho').2.2
      have heq := hi.same_claim hp hc (Option.some.inj htok)
      rw [heq]
  cases a with
  | claim worker ids stamp => exact absurd rfl (notClaim worker ids stamp)
  | tick secs =>
    cases Option.some.inj h
    exact hrow
  | upload workspaceId stamp =>
    obtain ⟨-, h⟩ := Option.ite_none_right_eq_some.mp h
    unfold Ingestion.uploadDocument at h
    obtain ⟨-, -, rfl⟩ := Ingestion.enqueueJobTx_eq h
    have hlt := (hi.token_lt _ hc).2
    exact hrow.of_jobs (by simp [Ingestion.State.setJob, Ingestion.State.setDocument, Nat.ne_of_lt hlt])
  | deleteDocument document =>
    simp only [Ingestion.step, Ingestion.deleteDocument] at h
    cases Option.some.inj (Option.ite_none_right_eq_some.mp h).2
    rcases hrow with hn | ⟨j, hj, hrest⟩
    · exact .inl (by simp [hn])
    · by_cases hd : j.documentId = document
      · exact .inl (by simp [hj, Option.filter, hd])
      · exact .inr ⟨j, by simp [hj, Option.filter, hd], hrest⟩
  | extendLease other w stamp =>
    obtain ⟨⟨-, hother⟩, h⟩ := Option.ite_none_right_eq_some.mp h
    unfold Ingestion.extendLease at h
    split at h
    next j hj =>
      split at h
      next ho =>
        cases Option.some.inj (Option.ite_none_right_eq_some.mp h).2
        have hne : job.id ≠ other.id := by
          intro hid
          exact notOwn (same hother hid.symm (hid ▸ hj) ho)
        exact hrow.of_jobs (by simp [Ingestion.State.setJob, hne])
      next =>
        cases Option.some.inj h
        exact hrow
    next =>
      cases Option.some.inj h
      exact hrow
  | setStage other w stage stamp =>
    cases Option.some.inj (Option.ite_none_right_eq_some.mp h).2
    exact hrow.of_jobs (by rw [(Ingestion.setStage_frame other w stage stamp).2.2])
  | beginComplete other w stamp =>
    have ht := (Ingestion.beginComplete_tables (Option.ite_none_right_eq_some.mp h).2).1
    exact hrow.of_jobs (by rw [ht])
  | beginFailure other w failure stamp =>
    have ht := (Ingestion.beginFailure_tables (Option.ite_none_right_eq_some.mp h).2).1
    exact hrow.of_jobs (by rw [ht])
  | commit id =>
    obtain ⟨other, w, j, e, f, g, hother, hid, hj, ho, -, -, rfl⟩ := Ingestion.commit_cases hi h
    have hne : job.id ≠ other.id := by
      intro heq
      obtain ⟨tx, htx⟩ := commit_locked h
      obtain ⟨htid, htc, j', hj', ho', -⟩ := hi.locked id tx htx
      exact notOwn ⟨tx, htx, same htc (by rw [htid, heq, hid]) (by rw [heq, hid]; exact hj') ho'⟩
    exact hrow.of_jobs (by
      simp [Ingestion.State.recordEnd, Ingestion.State.updateJob, Ingestion.State.setJob,
        Ingestion.State.unlock, hj, hne])
  | rollback id =>
    cases Option.some.inj (Option.ite_none_right_eq_some.mp h).2
    exact hrow
  | requeue document workspaceId limit eligibility stamp =>
    cases Option.some.inj (Option.ite_none_right_eq_some.mp h).2
    rcases Ingestion.requeue_cases q document workspaceId limit eligibility stamp with
      he | ⟨d, u, -, -, -, he, hq⟩
    · rw [he]
      exact hrow
    · rw [he]
      obtain ⟨-, -, rfl⟩ := Ingestion.enqueueJobTx_eq hq
      have hlt := (hi.token_lt _ hc).2
      exact hrow.of_jobs
        (by simp [Ingestion.State.setJob, Ingestion.State.setDocument, Nat.ne_of_lt hlt])
  | recoverLegacy stamp =>
    cases Option.some.inj (Option.ite_none_right_eq_some.mp h).2
    exact hrow
  | markMissing document workspaceId =>
    cases Option.some.inj h
    exact hrow.of_jobs (by
      unfold Ingestion.markMissingDocumentAsFailed
      rw [Ingestion.updateDocument_jobs])

theorem step_now {a : Ingestion.Act} (hi : Ingestion.Inv q)
    (h : Ingestion.step config q a = some q') (notTick : ∀ secs, a ≠ .tick secs) :
    q'.now = q.now := by
  have updated : ∀ (s : Ingestion.State) id w f, (s.updateDocument id w f).now = s.now := by
    intro s id w f
    obtain ⟨_, he⟩ := Ingestion.updateDocument_eq s id w f
    rw [he]
  cases a with
  | tick secs => exact absurd rfl (notTick secs)
  | claim worker ids stamp =>
    obtain ⟨handed, hh⟩ := claimJobs_claimed (Option.ite_none_right_eq_some.mp h).2
    exact hh.now
  | upload workspaceId stamp =>
    obtain ⟨-, h⟩ := Option.ite_none_right_eq_some.mp h
    unfold Ingestion.uploadDocument at h
    obtain ⟨-, -, rfl⟩ := Ingestion.enqueueJobTx_eq h
    rfl
  | deleteDocument document =>
    simp only [Ingestion.step, Ingestion.deleteDocument] at h
    cases Option.some.inj (Option.ite_none_right_eq_some.mp h).2
    rfl
  | extendLease job worker stamp =>
    rcases Ingestion.extendLease_cases (Option.ite_none_right_eq_some.mp h).2 with
      rfl | ⟨j, lease, -, -, rfl⟩ <;> rfl
  | setStage job worker stage stamp =>
    cases Option.some.inj (Option.ite_none_right_eq_some.mp h).2
    unfold Ingestion.setStageForOwner
    split
    · exact updated ..
    · rfl
  | beginComplete job worker stamp =>
    rcases Ingestion.beginComplete_cases (Option.ite_none_right_eq_some.mp h).2 with
      ⟨-, rfl⟩ | ⟨-, hl⟩
    · rfl
    · cases Option.some.inj (Option.ite_none_right_eq_some.mp hl).2
      rfl
  | beginFailure job worker failure stamp =>
    rcases Ingestion.beginFailure_cases (Option.ite_none_right_eq_some.mp h).2 with
      ⟨-, rfl⟩ | ⟨-, _, _, hl⟩
    · rfl
    · cases Option.some.inj (Option.ite_none_right_eq_some.mp hl).2
      rfl
  | commit id =>
    obtain ⟨job, w, j, e, f, g, -, -, hj, -, -, -, rfl⟩ := Ingestion.commit_cases hi h
    simp [Ingestion.State.recordEnd, Ingestion.State.updateJob, Ingestion.State.setJob,
      Ingestion.State.unlock, hj, updated]
  | rollback id =>
    cases Option.some.inj (Option.ite_none_right_eq_some.mp h).2
    rfl
  | requeue document workspaceId limit eligibility stamp =>
    cases Option.some.inj (Option.ite_none_right_eq_some.mp h).2
    rcases Ingestion.requeue_cases q document workspaceId limit eligibility stamp with
      he | ⟨d, u, -, -, -, he, hq⟩
    · rw [he]
    · rw [he]
      obtain ⟨-, -, rfl⟩ := Ingestion.enqueueJobTx_eq hq
      rfl
  | recoverLegacy stamp =>
    cases Option.some.inj (Option.ite_none_right_eq_some.mp h).2
    rfl
  | markMissing document workspaceId =>
    cases Option.some.inj h
    exact updated ..

/-- A statement in the name of no job of the batch keeps every one of its claims. -/
theorem step_kept {a : Ingestion.Act} {lease : Int} (hi : Ingestion.Inv q)
    (h : Ingestion.step config q a = some q') (hc : (job, worker) ∈ q.claims)
    (hrow : Row q job worker lease) (fresh : Fresh q job lease) (kept : ¬ Superseded q job)
    (notOwn : ¬ Ingestion.CallWith q job a) : Row q' job worker lease ∧ ¬ Superseded q' job := by
  have hi' := Ingestion.step_inv hi h
  by_cases hclaim : ∃ other ids stamp, a = .claim other ids stamp
  · obtain ⟨other, ids, stamp, rfl⟩ := hclaim
    obtain ⟨hs, h⟩ := Option.ite_none_right_eq_some.mp h
    exact claim_row hi hi' h hs hc hrow fresh kept
  · have notClaim : ∀ other ids stamp, a ≠ .claim other ids stamp :=
      fun other ids stamp he => hclaim ⟨other, ids, stamp, he⟩
    refine ⟨step_row hi h notClaim hc hrow notOwn, ?_⟩
    have hclaims := step_claims hi h notClaim
    rw [superseded_iff hi' (hclaims ▸ hc), hclaims]
    exact fun hp => kept ((superseded_iff hi hc).mpr hp)

end Claims

section Batch

variable {config : WorkerConfig} {worker : Nat} {deadline : Int} {s t : State}

/-- When the worker is free for its next job. -/
def State.freeAt (s : State) : Int :=
  match s.current with
  | some r => r.endsAt
  | none => s.queue.now

/-- The lease of the job in hand outlives the next heartbeat, or the job. -/
structure Running.Covered (r : Running) (config : WorkerConfig) (worker : Nat)
    (q : Ingestion.State) : Prop where
  ends : q.now ≤ r.endsAt
  beats : q.now ≤ r.nextBeat
  leased : ∃ lease, Row q r.job worker lease ∧ (r.job.attemptCount < i32Max →
    min r.nextBeat r.endsAt ≤ lease ∧ lease + heartbeatSecs config ≤ r.nextBeat + config.leaseSecs)

structure Inv (config : WorkerConfig) (worker : Nat) (deadline : Int) (s : State) : Prop where
  queue : Ingestion.Inv s.queue
  started : deadline ≤ s.queue.now + config.leaseSecs
  claimed : ∀ job ∈ s.unfinished, (job, worker) ∈ s.queue.claims
  distinct : s.unfinished.Nodup
  waiting : ∀ slot ∈ s.waiting, Row s.queue slot.job worker deadline
  schedule : InTime config deadline s.freeAt s.waiting
  current : ∀ r, s.current = some r → r.Covered config worker s.queue
  kept : KeepsLeases s

theorem heartbeatSecs_pos (config : WorkerConfig) : 1 ≤ heartbeatSecs config := le_max_right ..

theorem InTime.due {start : Int} {slots : List Slot} (h : InTime config deadline start slots)
    {slot : Slot} (hs : slot ∈ slots) (ha : slot.job.attemptCount < i32Max) : start ≤ deadline := by
  induction slots generalizing start with
  | nil => cases hs
  | cons first rest ih =>
    have hb := heartbeatSecs_pos config
    rcases List.mem_cons.mp hs with rfl | hs
    · have := h.1 ha
      omega
    · have := ih h.2 hs
      omega

theorem InTime.earlier {start start' : Int} {slots : List Slot} (hle : start' ≤ start)
    (h : InTime config deadline start slots) : InTime config deadline start' slots := by
  induction slots generalizing start start' with
  | nil => trivial
  | cons first rest ih =>
    refine ⟨fun ha => ?_, ih (by omega) h.2⟩
    have := h.1 ha
    omega

theorem Inv.now_le_freeAt (hi : Inv config worker deadline s) : s.queue.now ≤ s.freeAt := by
  unfold State.freeAt
  cases hc : s.current with
  | none => exact le_refl _
  | some r => exact (hi.current r hc).ends

theorem mem_unfinished {job : ClaimedJob} : job ∈ s.unfinished ↔
    (∃ r, s.current = some r ∧ r.job = job) ∨ ∃ slot ∈ s.waiting, slot.job = job := by
  cases hc : s.current <;> simp [State.unfinished, hc, eq_comm]

theorem Inv.waiting_fresh (hi : Inv config worker deadline s) {slot : Slot}
    (hs : slot ∈ s.waiting) : Fresh s.queue slot.job deadline :=
  fun ha => le_trans hi.now_le_freeAt (hi.schedule.due hs ha)

theorem Running.Covered.fresh {r : Running} {q : Ingestion.State} (h : r.Covered config worker q) :
    ∃ lease, Row q r.job worker lease ∧ Fresh q r.job lease ∧ (r.job.attemptCount < i32Max →
      min r.nextBeat r.endsAt ≤ lease ∧
        lease + heartbeatSecs config ≤ r.nextBeat + config.leaseSecs) := by
  obtain ⟨lease, hrow, hl⟩ := h.leased
  refine ⟨lease, hrow, fun ha => ?_, hl⟩
  have := (hl ha).1
  have := h.ends
  have := h.beats
  omega

/-- The queue moves without the worker's own jobs. -/
theorem Inv.carry {q' : Ingestion.State} (hi : Inv config worker deadline s)
    (hq : Ingestion.Inv q') (hnow : q'.now = s.queue.now)
    (hclaims : ∀ p ∈ s.queue.claims, p ∈ q'.claims)
    (rows : ∀ job ∈ s.unfinished, ∀ lease, Row s.queue job worker lease →
      Fresh s.queue job lease → Row q' job worker lease ∧ ¬ Superseded q' job) :
    Inv config worker deadline { s with queue := q' } := by
  refine ⟨hq, hnow ▸ hi.started, fun job hj => hclaims _ (hi.claimed job hj), hi.distinct, ?_, ?_,
    ?_, ?_⟩
  · intro slot hs
    have hmem : slot.job ∈ s.unfinished := mem_unfinished.mpr (.inr ⟨slot, hs, rfl⟩)
    exact (rows _ hmem _ (hi.waiting slot hs) (hi.waiting_fresh hs)).1
  · have hfree : State.freeAt { s with queue := q' } = s.freeAt := by
      simp only [State.freeAt, hnow]
    rw [hfree]
    exact hi.schedule
  · intro r hr
    have hc := hi.current r hr
    obtain ⟨lease, hrow, fresh, hl⟩ := hc.fresh
    have hmem : r.job ∈ s.unfinished := mem_unfinished.mpr (.inl ⟨r, hr, rfl⟩)
    exact ⟨by rw [hnow]; exact hc.ends, by rw [hnow]; exact hc.beats, lease,
      (rows _ hmem _ hrow fresh).1, hl⟩
  · intro job hj
    rcases mem_unfinished.mp hj with ⟨r, hr, rfl⟩ | ⟨slot, hs, rfl⟩
    · obtain ⟨lease, hrow, fresh, -⟩ := (hi.current r hr).fresh
      exact (rows _ hj _ hrow fresh).2
    · exact (rows _ hj _ (hi.waiting slot hs) (hi.waiting_fresh hs)).2

theorem statement_eq {a : Ingestion.Act} (h : s.statement config a = some t) :
    ∃ q, Ingestion.step config s.queue a = some q ∧ t = { s with queue := q } := by
  obtain ⟨q, hq, rfl⟩ := Option.map_eq_some_iff.mp h
  exact ⟨q, hq, rfl⟩

theorem foreign_not_own {a : Ingestion.Act} (h : foreign s a = true) {job : ClaimedJob}
    (hj : job ∈ s.unfinished) : ¬ Ingestion.CallWith s.queue job a := by
  cases a with
  | extendLease _ _ _ => rintro rfl; simp [foreign, hj] at h
  | setStage _ _ _ _ => rintro rfl; simp [foreign, hj] at h
  | beginComplete _ _ _ => rintro rfl; simp [foreign, hj] at h
  | beginFailure _ _ _ _ => rintro rfl; simp [foreign, hj] at h
  | commit id => rintro ⟨tx, htx, rfl⟩; simp [foreign, htx, hj] at h
  | rollback id => rintro ⟨tx, htx, rfl⟩; simp [foreign, htx, hj] at h
  | _ => exact id

theorem Inv.other {a : Ingestion.Act} (hi : Inv config worker deadline s)
    (hf : foreign s a = true) (h : s.statement config a = some t) :
    Inv config worker deadline t := by
  obtain ⟨q, hq, rfl⟩ := statement_eq h
  have hframe := Ingestion.step_frame hi.queue hq
  have notTick : ∀ secs, a ≠ .tick secs := by
    rintro secs rfl
    cases hf
  refine hi.carry (Ingestion.step_inv hi.queue hq) (step_now hi.queue hq notTick) hframe.claims ?_
  intro job hj lease hrow fresh
  exact step_kept hi.queue hq (hi.claimed job hj) hrow fresh (hi.kept job hj)
    (foreign_not_own hf hj)

/-- The statements of the job in hand before its end leave the table and the claims as they are. -/
theorem Inv.call {a : Ingestion.Act} (hi : Inv config worker deadline s) {job : ClaimedJob}
    (ho : ownCall job worker a = true) (h : s.statement config a = some t) :
    Inv config worker deadline t := by
  obtain ⟨q, hq, rfl⟩ := statement_eq h
  have hi' := Ingestion.step_inv hi.queue hq
  have notTick : ∀ secs, a ≠ .tick secs := by
    rintro secs rfl
    cases ho
  have notClaim : ∀ worker ids stamp, a ≠ .claim worker ids stamp := by
    rintro w ids stamp rfl
    cases ho
  have hclaims := step_claims hi.queue hq notClaim
  have hjobs : q.jobs = s.queue.jobs := by
    cases a with
    | setStage j w stage stamp =>
      cases Option.some.inj (Option.ite_none_right_eq_some.mp hq).2
      exact (Ingestion.setStage_frame j w stage stamp).2.2
    | beginComplete j w stamp =>
      exact (Ingestion.beginComplete_tables (Option.ite_none_right_eq_some.mp hq).2).1
    | beginFailure j w failure stamp =>
      exact (Ingestion.beginFailure_tables (Option.ite_none_right_eq_some.mp hq).2).1
    | _ => cases ho
  refine hi.carry hi' (step_now hi.queue hq notTick) (fun p hp => hclaims ▸ hp) ?_
  intro other hj lease hrow fresh
  refine ⟨hrow.of_jobs (by rw [hjobs]), ?_⟩
  have hc := hi.claimed other hj
  rw [superseded_iff hi' (hclaims ▸ hc), hclaims]
  exact fun hp => hi.kept other hj ((superseded_iff hi.queue hc).mpr hp)

theorem Inv.tick {secs : Nat} (hi : Inv config worker deadline s)
    (ha : s.allowsTick secs = true) (h : s.statement config (.tick secs) = some t) :
    Inv config worker deadline t := by
  obtain ⟨q, hq, rfl⟩ := statement_eq h
  cases Option.some.inj hq
  have hi' := Ingestion.step_inv hi.queue hq
  have hstarted := hi.started
  refine ⟨hi', by simp only; omega, hi.claimed, hi.distinct, hi.waiting, ?_, ?_, hi.kept⟩
  · cases hc : s.current with
    | some r =>
      have hfree : s.freeAt = r.endsAt := by simp only [State.freeAt, hc]
      simp only [State.freeAt]
      exact hfree ▸ hi.schedule
    | none =>
      have hw : s.waiting = [] := by simpa [State.allowsTick, hc] using ha
      simp only [hw]
      trivial
  · intro r hr
    obtain ⟨hends, hbeats⟩ : s.queue.now + secs ≤ r.endsAt ∧ s.queue.now + secs ≤ r.nextBeat := by
      simpa [State.allowsTick, show s.current = some r from hr] using ha
    exact ⟨hends, hbeats, (hi.current r hr).leased⟩

theorem Inv.start (hi : Inv config worker deadline s) (h : startNext config s = some t) :
    Inv config worker deadline t := by
  unfold startNext at h
  split at h
  next slot rest hc hw =>
    cases Option.some.inj h
    have hsched := hi.schedule
    have hfree : s.freeAt = s.queue.now := by simp only [State.freeAt, hc]
    rw [hfree, hw] at hsched
    have hsame : State.unfinished { s with
        current := some ⟨slot.job, s.queue.now + slot.duration,
          s.queue.now + heartbeatSecs config⟩
        waiting := rest } = s.unfinished := by
      simp [State.unfinished, hc, hw]
    have hstarted := hi.started
    have hb := heartbeatSecs_pos config
    refine ⟨hi.queue, hi.started, ?_, ?_, ?_, hsched.2, ?_, ?_⟩
    · rw [hsame]
      exact hi.claimed
    · rw [hsame]
      exact hi.distinct
    · intro other ho
      exact hi.waiting other (hw ▸ List.mem_cons_of_mem _ ho)
    · rintro r hr
      cases Option.some.inj hr
      have hrow := hi.waiting slot (hw ▸ List.mem_cons_self ..)
      refine ⟨by simp only; omega, by simp only; omega, deadline, hrow, ?_⟩
      intro ha
      have hdue := hsched.1 ha
      simp only
      omega
    · unfold KeepsLeases
      rw [hsame]
      exact hi.kept
  next => cases h

theorem Inv.drop (hi : Inv config worker deadline s) :
    Inv config worker deadline { s with current := none } := by
  have hsub : (State.unfinished { s with current := none }).Sublist s.unfinished := by
    simp [State.unfinished]
  refine ⟨hi.queue, hi.started, fun job hj => hi.claimed job (hsub.mem hj),
    hi.distinct.sublist hsub, hi.waiting, hi.schedule.earlier hi.now_le_freeAt, ?_,
    fun job hj => hi.kept job (hsub.mem hj)⟩
  intro r hr
  cases hr

/-- The statements in the name of the job in hand are not made in the name of the waiting ones. -/
theorem Inv.waiting_ne (hi : Inv config worker deadline s) {r : Running} (hr : s.current = some r)
    {slot : Slot} (hs : slot ∈ s.waiting) : slot.job ≠ r.job := by
  have hn := hi.distinct
  simp only [State.unfinished, hr, Option.map_some, Option.toList_some, List.singleton_append,
    List.nodup_cons] at hn
  rintro he
  exact hn.1 (he ▸ List.mem_map_of_mem hs)

theorem Inv.finish {r : Running} {recorded : Bool} (hi : Inv config worker deadline s)
    (hr : s.current = some r) (h : finish config s r recorded = some t) :
    Inv config worker deadline t := by
  obtain ⟨hends, h⟩ := Option.ite_none_right_eq_some.mp h
  obtain ⟨u, hu, rfl⟩ := Option.map_eq_some_iff.mp h
  split at hu
  next hl =>
    obtain ⟨q, hq, rfl⟩ := statement_eq hu
    have hdrop := hi.drop
    have notTick : ∀ secs, (if recorded then Ingestion.Act.commit r.job.id
        else .rollback r.job.id) ≠ .tick secs := by
      intro secs
      cases recorded <;> simp
    refine hdrop.carry (Ingestion.step_inv hi.queue hq) (step_now hi.queue hq notTick)
      (Ingestion.step_frame hi.queue hq).claims ?_
    intro job hj lease hrow fresh
    obtain ⟨slot, hs, rfl⟩ : ∃ slot ∈ s.waiting, slot.job = job := by
      rcases mem_unfinished.mp hj with ⟨r', hr', -⟩ | hs
      · cases hr'
      · exact hs
    have notOwn : ¬ Ingestion.CallWith s.queue slot.job
        (if recorded then .commit r.job.id else .rollback r.job.id) := by
      have hcall : (∃ tx, s.queue.locks r.job.id = some tx ∧ tx.job = slot.job) → False := by
        rintro ⟨tx, htx, he⟩
        have hown : tx.job = r.job := by simpa [holdsLock, htx] using hl
        exact hi.waiting_ne hr hs (he.symm.trans hown)
      cases recorded <;> exact hcall
    exact step_kept hi.queue hq (hdrop.claimed _ hj) hrow fresh (hdrop.kept _ hj) notOwn
  next =>
    cases Option.some.inj hu
    exact hi.drop

/-- A heartbeat that finds its row renews the lease for longer than the next beat takes. -/
theorem Inv.extended {r : Running} {j : Ingestion.Job} (hi : Inv config worker deadline s)
    (hr : s.current = some r) (due : s.queue.now = r.nextBeat)
    (hj : s.queue.jobs r.job.id = some j) (ho : j.ownedBy r.job worker = true)
    (hi' : Ingestion.Inv (s.queue.setJob r.job.id
      { j with leaseExpiresAt := some (s.queue.now + config.leaseSecs) })) :
    Inv config worker deadline { s with
      queue := s.queue.setJob r.job.id
        { j with leaseExpiresAt := some (s.queue.now + config.leaseSecs) }
      current := some { r with nextBeat := s.queue.now + heartbeatSecs config } } := by
  have hcur := hi.current r hr
  obtain ⟨lease, hrow, fresh, hl⟩ := hcur.fresh
  have hsame : State.unfinished { s with
      queue := s.queue.setJob r.job.id
        { j with leaseExpiresAt := some (s.queue.now + config.leaseSecs) }
      current := some { r with nextBeat := s.queue.now + heartbeatSecs config } } =
        s.unfinished := by
    simp [State.unfinished, hr]
  have hatt : j.attemptCount = r.job.attemptCount := by
    rcases hrow with hn | ⟨j', hj', -, -, ha⟩
    · rw [hn] at hj
      cases hj
    · cases Option.some.inj (hj.symm.trans hj')
      exact ha
  refine ⟨hi', hi.started, ?_, ?_, ?_, ?_, ?_, ?_⟩
  · rw [hsame]
    exact hi.claimed
  · rw [hsame]
    exact hi.distinct
  · intro slot hs
    have hrow' := hi.waiting slot hs
    have hne : slot.job.id ≠ r.job.id := by
      intro he
      rcases hrow' with hn | ⟨j', hj', ho', -⟩
      · rw [he, hj] at hn
        cases hn
      · rw [he] at hj'
        cases Option.some.inj (hj.symm.trans hj')
        have htok := (Ingestion.ownedBy_iff.mp ho').2.2.symm.trans
          (Ingestion.ownedBy_iff.mp ho).2.2
        have hclaim := hi.queue.same_claim
          (hi.claimed slot.job (mem_unfinished.mpr (.inr ⟨slot, hs, rfl⟩)))
          (hi.claimed r.job (mem_unfinished.mpr (.inl ⟨r, hr, rfl⟩))) (Option.some.inj htok)
        exact hi.waiting_ne hr hs (congrArg Prod.fst hclaim)
    exact hrow'.of_jobs (by simp [Ingestion.State.setJob, hne])
  · have hsched := hi.schedule
    simp only [State.freeAt, hr] at hsched
    exact hsched
  · rintro r' hr'
    cases Option.some.inj hr'
    have hb := heartbeatSecs_pos config
    have hends := hcur.ends
    refine ⟨hends, by simp only [Ingestion.State.setJob]; omega,
      s.queue.now + config.leaseSecs,
      .inr ⟨{ j with leaseExpiresAt := some (s.queue.now + config.leaseSecs) },
        by simp [Ingestion.State.setJob], ?_, rfl, hatt⟩, ?_⟩
    · rw [Ingestion.ownedBy_iff] at ho ⊢
      exact ho
    · intro ha
      have hbound := (hl ha).2
      have hfresh := fresh ha
      simp only
      omega
  · intro job hjob
    rw [hsame] at hjob
    have hc := hi.claimed job hjob
    have hkept := hi.kept job hjob
    rw [superseded_iff hi.queue hc] at hkept
    rw [superseded_iff hi' hc]
    exact hkept

theorem Inv.heartbeat {r : Running} (hi : Inv config worker deadline s)
    (hr : s.current = some r) (h : heartbeat config worker s r = some t) :
    Inv config worker deadline t := by
  obtain ⟨hdue, h⟩ := Option.ite_none_right_eq_some.mp h
  obtain ⟨u, hu, rfl⟩ := Option.map_eq_some_iff.mp h
  obtain ⟨q, hq, rfl⟩ := statement_eq hu
  have hext := (Option.ite_none_right_eq_some.mp hq).2
  unfold Ingestion.extendLease at hext
  cases hj : s.queue.jobs r.job.id with
  | none =>
    rw [hj] at hext
    cases Option.some.inj hext
    simp only [owns, hj]
    exact hi.drop
  | some j =>
    simp only [hj] at hext
    split at hext
    next ho =>
      have howns : owns s.queue r.job worker = true := by simpa [owns, hj] using ho
      simp only [howns, if_true]
      have hi' := Ingestion.step_inv hi.queue hq
      cases Option.some.inj (Option.ite_none_right_eq_some.mp hext).2
      exact hi.extended hr hdue hj ho hi'
    next ho =>
      cases Option.some.inj hext
      have howns : owns s.queue r.job worker = false := by simpa [owns, hj] using ho
      simp only [howns]
      exact hi.drop

theorem step_inv {a : Act} (hi : Inv config worker deadline s)
    (h : step config worker s a = some t) : Inv config worker deadline t := by
  cases a with
  | tick secs =>
    obtain ⟨ha, h⟩ := Option.ite_none_right_eq_some.mp h
    exact hi.tick ha h
  | start => exact hi.start h
  | call a =>
    obtain ⟨r, -, h⟩ := Option.bind_eq_some_iff.mp h
    obtain ⟨ho, h⟩ := Option.ite_none_right_eq_some.mp h
    exact hi.call ho h
  | heartbeat =>
    obtain ⟨r, hr, h⟩ := Option.bind_eq_some_iff.mp h
    exact hi.heartbeat hr h
  | finish recorded =>
    obtain ⟨r, hr, h⟩ := Option.bind_eq_some_iff.mp h
    exact hi.finish hr h
  | other a =>
    obtain ⟨hf, h⟩ := Option.ite_none_right_eq_some.mp h
    exact hi.other hf h

theorem reach_inv (hi : Inv config worker deadline s)
    (h : Transition.Reach (· = s) (step config worker) Transition.anyStep t) :
    Inv config worker deadline t := by
  refine h.invariant ?_ fun s t a hs _ ht => step_inv hs ht
  rintro u rfl
  exact hi

end Batch

section Late

/-- The queue moves by its own statements only. -/
theorem step_queue {config : WorkerConfig} {worker : Nat} {s t : State} {a : Act}
    (h : step config worker s a = some t) :
    t.queue = s.queue ∨ ∃ b, Ingestion.step config s.queue b = some t.queue := by
  have moved : ∀ {u : State} {b : Ingestion.Act}, s.statement config b = some u →
      ∃ b, Ingestion.step config s.queue b = some u.queue := by
    intro u b hu
    obtain ⟨q, hq, rfl⟩ := statement_eq hu
    exact ⟨b, hq⟩
  cases a with
  | tick secs => exact .inr (moved (Option.ite_none_right_eq_some.mp h).2)
  | start =>
    simp only [step, startNext] at h
    split at h
    next =>
      cases Option.some.inj h
      exact .inl rfl
    next => cases h
  | call a =>
    obtain ⟨r, -, h⟩ := Option.bind_eq_some_iff.mp h
    exact .inr (moved (Option.ite_none_right_eq_some.mp h).2)
  | heartbeat =>
    obtain ⟨r, -, h⟩ := Option.bind_eq_some_iff.mp h
    obtain ⟨u, hu, rfl⟩ := Option.map_eq_some_iff.mp (Option.ite_none_right_eq_some.mp h).2
    obtain ⟨b, hb⟩ := moved hu
    refine .inr ⟨b, ?_⟩
    split <;> exact hb
  | finish recorded =>
    obtain ⟨r, -, h⟩ := Option.bind_eq_some_iff.mp h
    obtain ⟨u, hu, rfl⟩ := Option.map_eq_some_iff.mp (Option.ite_none_right_eq_some.mp h).2
    split at hu
    next =>
      obtain ⟨b, hb⟩ := moved hu
      exact .inr ⟨b, hb⟩
    next =>
      cases Option.some.inj hu
      exact .inl rfl
  | other a => exact .inr (moved (Option.ite_none_right_eq_some.mp h).2)

variable {config : WorkerConfig} {worker : Nat} {s₀ s t : State}

/-- The state is reached from `s₀` by the worker's steps alone or with others. -/
abbrev Leads (config : WorkerConfig) (worker : Nat) (s₀ s : State) : Prop :=
  Transition.Reach (· = s₀) (step config worker) Transition.anyStep s

theorem Leads.queue_inv (h : Leads config worker s₀ s) (hi : Ingestion.Inv s₀.queue) :
    Ingestion.Inv s.queue := by
  refine h.invariant (fun _ he => he ▸ hi) fun u v a hu _ hs => ?_
  rcases step_queue hs with he | ⟨b, hb⟩
  · rw [he]
    exact hu
  · exact Ingestion.step_inv hu hb

/-- The claim holds its row, and no transaction has the row locked. -/
structure Held (worker : Nat) (q : Ingestion.State) (job : ClaimedJob) : Prop where
  claimed : (job, worker) ∈ q.claims
  free : q.locks job.id = none
  row : ∃ j, q.jobs job.id = some j ∧ j.ownedBy job worker = true

/-- Two queues that differ in the clock and in rows of the given jobs at most. -/
structure Alike (ids : List Nat) (q q' : Ingestion.State) : Prop where
  jobs : ∀ id, id ∉ ids → q'.jobs id = q.jobs id
  locks : q'.locks = q.locks
  claims : q'.claims = q.claims

theorem Alike.trans {ids : List Nat} {q q' q'' : Ingestion.State} (h : Alike ids q q')
    (h' : Alike ids q' q'') : Alike ids q q'' :=
  ⟨fun id hid => (h'.jobs id hid).trans (h.jobs id hid), h'.locks.trans h.locks,
    h'.claims.trans h.claims⟩

theorem Alike.held {ids : List Nat} {q q' : Ingestion.State} (h : Alike ids q q')
    {job : ClaimedJob} (hid : job.id ∉ ids) (hh : Held worker q job) : Held worker q' job := by
  obtain ⟨hc, hf, hrow⟩ := hh
  refine ⟨by rw [h.claims]; exact hc, by rw [h.locks]; exact hf, ?_⟩
  rw [h.jobs _ hid]
  exact hrow

/-- One second of work on the job in hand, with its heartbeat if one is due. -/
theorem elapse_second {r : Running} (hs : Leads config worker s₀ s) (hr : s.current = some r)
    (hends : s.queue.now < r.endsAt) (hbeats : s.queue.now ≤ r.nextBeat)
    (held : Held worker s.queue r.job) :
    ∃ t beat, Leads config worker s₀ t ∧ t.current = some { r with nextBeat := beat } ∧
      t.waiting = s.waiting ∧ t.queue.now = s.queue.now + 1 ∧ t.queue.now ≤ beat ∧
      Alike [r.job.id] s.queue t.queue ∧ Held worker t.queue r.job := by
  have hb := heartbeatSecs_pos config
  by_cases hdue : s.queue.now = r.nextBeat
  · obtain ⟨hc, hf, j, hj, ho⟩ := held
    let q := s.queue.setJob r.job.id
      { j with leaseExpiresAt := some (s.queue.now + config.leaseSecs) }
    let u : State := { s with
      queue := q
      current := some { r with nextBeat := s.queue.now + heartbeatSecs config } }
    have hext : Ingestion.step config s.queue (.extendLease r.job worker s.queue.now) = some q := by
      simp [Ingestion.step, Ingestion.extendLease, hc, hj, ho, hf, q]
    have hu : step config worker s .heartbeat = some u := by
      have howns : owns s.queue r.job worker = true := by simp [owns, hj, ho]
      simp only [step, hr, Option.bind_some, heartbeat, if_pos hdue, State.statement, hext,
        Option.map_some, howns, if_true]
      rfl
    have hnow : u.queue.now = s.queue.now := rfl
    let v : State := { u with queue := { q with now := q.now + 1 } }
    have hv : step config worker u (.tick 1) = some v := by
      have hallow : u.allowsTick 1 = true := by
        simp only [State.allowsTick, u, decide_eq_true_eq, q, Ingestion.State.setJob]
        constructor <;> push_cast <;> omega
      simp only [step, hallow, if_true, State.statement, Ingestion.step]
      rfl
    refine ⟨v, _, .next (.next hs trivial hu) trivial hv, rfl, rfl, rfl, ?_, ?_, ?_⟩
    · simp only [v, q, Ingestion.State.setJob]
      omega
    · refine ⟨?_, rfl, rfl⟩
      intro id hid
      simp only [List.mem_singleton] at hid
      simp [v, q, Ingestion.State.setJob, hid]
    · refine ⟨hc, hf, _, by simp [v, q, Ingestion.State.setJob]; rfl, ?_⟩
      rw [Ingestion.ownedBy_iff] at ho ⊢
      exact ho
  · let v : State := { s with queue := { s.queue with now := s.queue.now + 1 } }
    have hv : step config worker s (.tick 1) = some v := by
      have hallow : s.allowsTick 1 = true := by
        simp only [State.allowsTick, hr, decide_eq_true_eq]
        constructor <;> push_cast <;> omega
      simp only [step, hallow, if_true, State.statement, Ingestion.step]
      rfl
    refine ⟨v, r.nextBeat, .next hs trivial hv, hr, rfl, rfl, ?_, ⟨fun _ _ => rfl, rfl, rfl⟩, ?_⟩
    · simp only [v]
      omega
    · exact ⟨held.claimed, held.free, held.row⟩

theorem elapse {n : Nat} {r : Running} (hs : Leads config worker s₀ s) (hr : s.current = some r)
    (hends : r.endsAt = s.queue.now + n) (hbeats : s.queue.now ≤ r.nextBeat)
    (held : Held worker s.queue r.job) :
    ∃ t beat, Leads config worker s₀ t ∧ t.current = some { r with nextBeat := beat } ∧
      t.waiting = s.waiting ∧ t.queue.now = r.endsAt ∧ Alike [r.job.id] s.queue t.queue := by
  induction n generalizing s r with
  | zero =>
    exact ⟨s, r.nextBeat, hs, hr, rfl, by rw [hends]; simp, ⟨fun _ _ => rfl, rfl, rfl⟩⟩
  | succ n ih =>
    obtain ⟨u, beat, hu, hcur, hwait, hnow, hbeat, halike, hheld⟩ :=
      elapse_second hs hr (by rw [hends]; push_cast; omega) hbeats held
    obtain ⟨t, beat', ht, hcur', hwait', hnow', halike'⟩ :=
      ih hu hcur (by simp only [hends, hnow]; push_cast; omega) hbeat hheld
    exact ⟨t, beat', ht, hcur', hwait'.trans hwait, hnow', halike.trans halike'⟩

/-- The worker takes its next job and works on it to the end. -/
theorem work_off {slot : Slot} {rest : List Slot} (hs : Leads config worker s₀ s)
    (hc : s.current = none) (hw : s.waiting = slot :: rest) (held : Held worker s.queue slot.job) :
    ∃ t, Leads config worker s₀ t ∧ t.current = none ∧ t.waiting = rest ∧
      t.queue.now = s.queue.now + slot.duration ∧ Alike [slot.job.id] s.queue t.queue := by
  have hb := heartbeatSecs_pos config
  have hstart : step config worker s .start = some { s with
      current := some ⟨slot.job, s.queue.now + slot.duration,
        s.queue.now + heartbeatSecs config⟩
      waiting := rest } := by
    simp [step, startNext, hc, hw]
  obtain ⟨u, beat, hu, hcur, hwait, hnow, halike⟩ :=
    elapse (.next hs trivial hstart) rfl rfl (by simp only; omega) held
  have hfree : holdsLock u.queue slot.job = false := by
    simp only [holdsLock, halike.locks, held.free, Option.any_none]
  have hfinish : step config worker u (.finish false) = some { u with current := none } := by
    simp [step, finish, hcur, hnow, hfree]
  exact ⟨_, .next hu trivial hfinish, rfl, hwait, hnow, halike⟩

theorem work_off_all {first : List Slot} {rest : List Slot} (hs : Leads config worker s₀ s)
    (hc : s.current = none) (hw : s.waiting = first ++ rest)
    (held : ∀ slot ∈ first, Held worker s.queue slot.job)
    (ids : (first.map (·.job.id)).Nodup) :
    ∃ t, Leads config worker s₀ t ∧ t.current = none ∧ t.waiting = rest ∧
      t.queue.now = s.queue.now + ((first.map (·.duration)).sum : Nat) ∧
      Alike (first.map (·.job.id)) s.queue t.queue := by
  induction first generalizing s with
  | nil => exact ⟨s, hs, hc, hw, by simp, ⟨fun _ _ => rfl, rfl, rfl⟩⟩
  | cons slot first ih =>
    obtain ⟨hid, ids⟩ := List.nodup_cons.mp ids
    obtain ⟨u, hu, hcu, hwu, hnow, halike⟩ := work_off hs hc hw (held slot (List.mem_cons_self ..))
    have held' : ∀ other ∈ first, Held worker u.queue other.job := by
      intro other ho
      refine halike.held ?_ (held other (List.mem_cons_of_mem _ ho))
      intro he
      exact hid (List.mem_map.mpr ⟨other, ho, List.mem_singleton.mp he⟩)
    obtain ⟨t, ht, hct, hwt, hnow', halike'⟩ := ih hu hcu hwu held' ids
    refine ⟨t, ht, hct, hwt, ?_, ?_⟩
    · rw [hnow', hnow]
      simp
      omega
    · refine .trans ⟨fun id hn => halike.jobs id ?_, halike.locks, halike.claims⟩
        ⟨fun id hn => halike'.jobs id ?_, halike'.locks, halike'.claims⟩
      · simp only [List.map_cons, List.mem_cons, not_or] at hn
        simpa using hn.1
      · simp only [List.map_cons, List.mem_cons, not_or] at hn
        exact hn.2

/-- The first job of the batch that is too late. -/
theorem exists_late {deadline start : Int} {slots : List Slot}
    (h : ¬ InTime config deadline start slots) :
    ∃ first slot rest, slots = first ++ slot :: rest ∧ slot.job.attemptCount < i32Max ∧
      deadline < start + ((first.map (·.duration)).sum : Nat) +
        min (heartbeatSecs config) slot.duration := by
  induction slots generalizing start with
  | nil => exact absurd trivial h
  | cons slot slots ih =>
    by_cases hlate : slot.job.attemptCount < i32Max →
        start + min (heartbeatSecs config) slot.duration ≤ deadline
    · obtain ⟨first, late, rest, rfl, ha, hd⟩ := ih fun hr => h ⟨hlate, hr⟩
      refine ⟨slot :: first, late, rest, rfl, ha, ?_⟩
      simp only [List.map_cons, List.sum_cons, Int.natCast_add]
      omega
    · obtain ⟨ha, hd⟩ := Classical.not_imp.mp hlate
      exact ⟨[], slot, slots, rfl, ha, by simp; omega⟩

/-- A lease that ran out before the first heartbeat: the next poll of another worker takes the
job. -/
theorem claimed_again {slot : Slot} {rest : List Slot} {deadline : Int}
    (hs : Leads config worker s₀ s) (hi : Ingestion.Inv s.queue) (hc : s.current = none)
    (hw : s.waiting = slot :: rest) (held : Held worker s.queue slot.job)
    (hrow : Row s.queue slot.job worker deadline) (ha : slot.job.attemptCount < i32Max)
    (late : deadline < s.queue.now + min (heartbeatSecs config) slot.duration)
    (batch : 1 ≤ config.batchSize) :
    ∃ t, Leads config worker s₀ t ∧ ¬ KeepsLeases t := by
  have hb := heartbeatSecs_pos config
  obtain ⟨hclaimed, hfree, j, hj, ho⟩ := held
  obtain ⟨secs, hsecs⟩ : ∃ secs : Nat, (secs : Int) = min (heartbeatSecs config) slot.duration :=
    ⟨(min (heartbeatSecs config) slot.duration).toNat, by omega⟩
  let r : Running := ⟨slot.job, s.queue.now + slot.duration, s.queue.now + heartbeatSecs config⟩
  let u : State := { s with current := some r, waiting := rest }
  let v : State := { u with queue := { s.queue with now := s.queue.now + secs } }
  have hu : step config worker s .start = some u := by
    simp only [step, startNext, hc, hw]
    rfl
  have hv : step config worker u (.tick secs) = some v := by
    have hallow : u.allowsTick secs = true := by
      simp only [State.allowsTick, u, decide_eq_true_eq, r]
      constructor <;> omega
    simp only [step, hallow, if_true, State.statement, Ingestion.step]
    rfl
  have hreach : Leads config worker s₀ v := .next (.next hs trivial hu) trivial hv
  rcases hrow with hn | ⟨j', hj', -, hl, hatt⟩
  · rw [hn] at hj
    cases hj
  cases Option.some.inj (hj.symm.trans hj')
  have hproc := (Ingestion.ownedBy_iff.mp ho).1
  have hclaimable : j.claimable v.queue.now = true := by
    simp only [Ingestion.Job.claimable, hl, hproc, Option.any_some, decide_eq_true_eq]
    refine .inr ⟨trivial, ?_⟩
    simp only [v]
    omega
  have hone : ∃ q, Ingestion.claimJob config (worker + 1) v.queue.now v.queue slot.job.id = some q := by
    have hjv : v.queue.jobs slot.job.id = some j := hj
    have hfv : v.queue.locks slot.job.id = none := hfree
    rw [Ingestion.claimJob, hjv]
    simp only [hfv, hclaimable, hatt, ha, Option.isNone_none, and_self, if_true]
    exact ⟨_, rfl⟩
  obtain ⟨q, hq⟩ := hone
  have hclaim : Ingestion.step config v.queue
      (.claim (worker + 1) [slot.job.id] v.queue.now) = some q := by
    simp [Ingestion.step, Ingestion.claimJobs, hq, batch]
  have hother : step config worker v (.other (.claim (worker + 1) [slot.job.id] v.queue.now)) =
      some { v with queue := q } := by
    simp only [step, foreign, if_true, State.statement, hclaim, Option.map_some]
  refine ⟨_, .next hreach trivial hother, ?_⟩
  intro hkeep
  refine hkeep slot.job (mem_unfinished.mpr (.inl ⟨r, rfl, rfl⟩)) ?_
  have htick : Ingestion.step config s.queue (.tick secs) = some v.queue := rfl
  have hiq := Ingestion.step_inv (Ingestion.step_inv hi htick) hclaim
  obtain ⟨j', -, -, -, -, rfl⟩ := Ingestion.claimJob_eq hq
  refine (superseded_iff hiq (List.mem_cons_of_mem _ hclaimed)).mpr
    ⟨_, List.mem_cons_self .., rfl, (hi.token_lt _ hclaimed).1⟩

end Late

section Claim

variable {config : WorkerConfig} {worker : Nat} {q q' : Ingestion.State} {ids : List Nat}
  {stamp : Int} {handed : List (ClaimedJob × Nat)} {batch : List Slot}

/-- A claim statement and the batch that the worker got from it. -/
structure Batch (config : WorkerConfig) (worker : Nat) (stamp : Int) (q q' : Ingestion.State)
    (ids : List Nat) (batch : List Slot) : Prop where
  before : Ingestion.Inv q
  after : Ingestion.Inv q'
  stamped : stamp ≤ q'.now
  sized : (ids.length : Int) ≤ config.batchSize
  rows : ∀ slot ∈ batch, ∃ j, q'.jobs slot.job.id = some j ∧ j.ownedBy slot.job worker = true ∧
    j.leaseExpiresAt = some (stamp + config.leaseSecs) ∧ j.attemptCount = slot.job.attemptCount
  names : ∀ slot ∈ batch, slot.job.id ∈ ids ∧ q'.locks slot.job.id = none
  claimed : ∀ slot ∈ batch, (slot.job, worker) ∈ q'.claims
  distinct : (batch.map (·.job)).Nodup

theorem batch_of_claim (hi : Ingestion.Inv q)
    (h : Ingestion.step config q (.claim worker ids stamp) = some q')
    (hb : HandedOut worker q q' batch) : Batch config worker stamp q q' ids batch := by
  have hi' := Ingestion.step_inv hi h
  obtain ⟨hs, hclaim⟩ := Option.ite_none_right_eq_some.mp h
  obtain ⟨handed, hh⟩ := claimJobs_claimed hclaim
  obtain ⟨handed', hclaims, hperm⟩ := hb
  obtain rfl : handed = handed' := List.append_cancel_right (hh.claims.symm.trans hclaims)
  have hmem : ∀ slot ∈ batch, (slot.job, worker) ∈ handed :=
    fun slot hslot => hperm.mem_iff.mp (List.mem_map_of_mem hslot)
  refine ⟨hi, hi', by rw [hh.now]; exact hs, (Option.ite_none_right_eq_some.mp hclaim).1.2, ?_, ?_,
    ?_, ?_⟩
  · exact fun slot hslot => hh.rows _ (hmem slot hslot)
  · intro slot hslot
    have hid := (hh.names _ (hmem slot hslot)).1
    obtain ⟨j, -, -, hfree, -⟩ := hh.found _ hid
    exact ⟨hid, by rw [hh.locks]; exact hfree⟩
  · intro slot hslot
    rw [hh.claims]
    exact List.mem_append_left _ (hmem slot hslot)
  · have ht := hi'.tokens
    rw [hclaims, List.pairwise_append] at ht
    have hn : handed.Nodup := ht.1.imp fun hlt he => absurd hlt (by rw [he]; exact Nat.lt_irrefl _)
    have hn' := hperm.nodup_iff.mpr hn
    refine List.Nodup.of_map (fun job => (job, worker)) ?_
    rwa [List.map_map]

theorem Batch.inv (h : Batch config worker stamp q q' ids batch)
    (hin : InTime config (stamp + config.leaseSecs) q'.now batch) :
    Inv config worker (stamp + config.leaseSecs) ⟨q', none, batch⟩ := by
  have hstamp := h.stamped
  have hunfinished : State.unfinished ⟨q', none, batch⟩ = batch.map (·.job) := by
    simp [State.unfinished]
  refine ⟨h.after, by simp only; omega, ?_, by rw [hunfinished]; exact h.distinct,
    fun slot hs => .inr (h.rows slot hs), hin, fun r hr => (by cases hr), ?_⟩
  · intro job hj
    rw [hunfinished] at hj
    obtain ⟨slot, hs, rfl⟩ := List.mem_map.mp hj
    exact h.claimed slot hs
  · intro job hj hsup
    rw [hunfinished] at hj
    obtain ⟨slot, hs, rfl⟩ := List.mem_map.mp hj
    obtain ⟨j, hj, ho, -⟩ := h.rows slot hs
    rw [Ingestion.superseded_not_owned h.after hsup hj] at ho
    cases ho

theorem Batch.ids_nodup (h : Batch config worker stamp q q' ids batch) :
    (batch.map (·.job.id)).Nodup := by
  have hjobs := h.distinct
  rw [show batch.map (·.job.id) = (batch.map (·.job)).map (·.id) by rw [List.map_map]; rfl]
  refine hjobs.map_on ?_
  intro a ha b hb he
  obtain ⟨slot, hs, rfl⟩ := List.mem_map.mp ha
  obtain ⟨slot', hs', rfl⟩ := List.mem_map.mp hb
  obtain ⟨j, hj, ho, -⟩ := h.rows slot hs
  obtain ⟨j', hj', ho', -⟩ := h.rows slot' hs'
  rw [he] at hj
  cases Option.some.inj (hj.symm.trans hj')
  have htok := (Ingestion.ownedBy_iff.mp ho).2.2.symm.trans (Ingestion.ownedBy_iff.mp ho').2.2
  exact congrArg Prod.fst
    (h.after.same_claim (h.claimed slot hs) (h.claimed slot' hs') (Option.some.inj htok))

theorem Batch.late_job (h : Batch config worker stamp q q' ids batch)
    (hlate : ¬ InTime config (stamp + config.leaseSecs) q'.now batch) :
    ∃ t, Leads config worker ⟨q', none, batch⟩ t ∧ ¬ KeepsLeases t := by
  obtain ⟨first, slot, rest, rfl, ha, hd⟩ := exists_late hlate
  have hin : ∀ other ∈ first, other ∈ first ++ slot :: rest :=
    fun other ho => List.mem_append_left _ ho
  have hslot : slot ∈ first ++ slot :: rest := List.mem_append_right _ (List.mem_cons_self ..)
  have held : ∀ other ∈ first ++ slot :: rest, Held worker q' other.job := by
    intro other ho
    obtain ⟨j, hj, hown, -⟩ := h.rows other ho
    exact ⟨h.claimed other ho, (h.names other ho).2, j, hj, hown⟩
  have hids := h.ids_nodup
  rw [List.map_append, List.map_cons, List.nodup_append] at hids
  have hstart : Leads config worker ⟨q', none, first ++ slot :: rest⟩
      ⟨q', none, first ++ slot :: rest⟩ := .start rfl
  obtain ⟨t, ht, hct, hwt, hnow, halike⟩ :=
    work_off_all hstart rfl rfl (fun other ho => held other (hin other ho)) hids.1
  have hid : slot.job.id ∉ first.map (·.job.id) :=
    fun hm => hids.2.2 _ hm _ (List.mem_cons_self ..) rfl
  have hbatch : 1 ≤ config.batchSize := by
    have hpos := List.length_pos_of_mem (h.names slot hslot).1
    have := h.sized
    omega
  have hrow : Row t.queue slot.job worker (stamp + config.leaseSecs) := by
    obtain ⟨j, hj, hrest⟩ := h.rows slot hslot
    exact .inr ⟨j, (halike.jobs _ hid).trans hj, hrest⟩
  exact claimed_again ht (ht.queue_inv h.after) hct hwt (halike.held hid (held slot hslot)) hrow ha
    (by rw [hnow]; exact hd) hbatch

/-- For every batch that a worker claims, in any order and with any durations: over all runs of the
worker among the others no job of the batch is claimed again before the worker is done with it,
exactly when every job ends or has its first heartbeat within the lease of the claim. -/
theorem batch_keeps_leases_iff {now : Int}
    (hq : Transition.Reach (· = Ingestion.initial now) (Ingestion.step config)
      Transition.anyStep q)
    (hclaim : Ingestion.step config q (.claim worker ids stamp) = some q')
    (hbatch : HandedOut worker q q' batch) :
    (∀ t, Transition.Reach (· = ⟨q', none, batch⟩) (step config worker) Transition.anyStep t →
      KeepsLeases t) ↔ InTime config (stamp + config.leaseSecs) q'.now batch := by
  have hb := batch_of_claim (Ingestion.reach_inv hq) hclaim hbatch
  constructor
  · intro h
    by_contra hlate
    obtain ⟨t, ht, hn⟩ := hb.late_job hlate
    exact hn (h t ht)
  · intro hin t ht
    exact (reach_inv (hb.inv hin) ht).kept

end Claim

/-- Two documents are uploaded and their jobs claimed together, with the default lease. -/
def pairConfig : WorkerConfig := ⟨2, 5, 300, 5, 300⟩

def twoUploads : Ingestion.State :=
  (Transition.run (Ingestion.step pairConfig) (Ingestion.initial 0)
    [.upload 7 0, .upload 7 0]).getD (Ingestion.initial 0)

def bothClaimed : Ingestion.State :=
  (Ingestion.step pairConfig twoUploads (.claim 0 [0, 1] 0)).getD twoUploads

def firstJob : ClaimedJob := ⟨0, 0, 7, 1, 5, 0⟩
def secondJob : ClaimedJob := ⟨1, 1, 7, 1, 5, 1⟩

/-- The first job takes 400 seconds, with every heartbeat on time; the second one waits for it. -/
def longFirstJob : List Act :=
  [.start, .tick 100, .heartbeat, .tick 100, .heartbeat, .tick 100, .heartbeat, .tick 1,
    .other (.claim 1 [1] 301)]

def waitingTaken : State :=
  (Transition.run (step pairConfig 0) ⟨bothClaimed, none, [⟨firstJob, 400⟩, ⟨secondJob, 30⟩]⟩
    longFirstJob).getD ⟨bothClaimed, none, []⟩

theorem waiting_job_is_taken :
    Transition.Reach (· = ⟨bothClaimed, none, [⟨firstJob, 400⟩, ⟨secondJob, 30⟩]⟩)
        (step pairConfig 0) Transition.anyStep waitingTaken ∧ ¬ KeepsLeases waitingTaken := by
  have hr : Transition.run (step pairConfig 0)
      ⟨bothClaimed, none, [⟨firstJob, 400⟩, ⟨secondJob, 30⟩]⟩ longFirstJob = some waitingTaken :=
    rfl
  refine ⟨.of_free_run rfl hr, ?_⟩
  intro h
  exact h secondJob (by decide)
    ⟨0, [(⟨1, 1, 7, 2, 5, 2⟩, 1)], [(firstJob, 0)], rfl, _, List.mem_cons_self .., rfl⟩

theorem batch_keeps_leases_iff_pair :
    (∀ t, Transition.Reach (· = ⟨bothClaimed, none, [⟨firstJob, 200⟩, ⟨secondJob, 30⟩]⟩)
        (step pairConfig 0) Transition.anyStep t → KeepsLeases t) ↔
      InTime pairConfig (0 + pairConfig.leaseSecs) bothClaimed.now
        [⟨firstJob, 200⟩, ⟨secondJob, 30⟩] := by
  have hr : Transition.run (Ingestion.step pairConfig) (Ingestion.initial 0)
      [.upload 7 0, .upload 7 0] = some twoUploads := rfl
  have hclaim : Ingestion.step pairConfig twoUploads (.claim 0 [0, 1] 0) = some bothClaimed := rfl
  exact batch_keeps_leases_iff (.of_free_run rfl hr) hclaim
    ⟨[(secondJob, 0), (firstJob, 0)], rfl, List.Perm.swap ..⟩

end GmragApi.WorkerBatch

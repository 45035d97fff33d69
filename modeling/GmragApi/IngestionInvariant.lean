import GmragApi.IngestionQueue
import Mathlib.Data.List.Nodup

namespace GmragApi.Ingestion

open Function

theorem hasActiveJob_iff {s : State} (fresh : ∀ id, s.nextJob ≤ id → s.jobs id = none) {d : Nat} :
    s.hasActiveJob d = true ↔
      ∃ id j, s.jobs id = some j ∧ j.documentId = d ∧ j.status.active = true := by
  simp only [State.hasActiveJob, List.any_eq_true, List.mem_range, Option.any_eq_true,
    Bool.and_eq_true, beq_iff_eq]
  constructor
  · rintro ⟨id, -, j, hj, hd, ha⟩
    exact ⟨id, j, hj, hd, ha⟩
  · rintro ⟨id, j, hj, hd, ha⟩
    refine ⟨id, ?_, j, hj, hd, ha⟩
    by_contra hid
    rw [fresh id (by omega)] at hj
    cases hj

theorem setJob_cases {s : State} {id k : Nat} {j q : Job} (h : (s.setJob id j).jobs k = some q) :
    (k = id ∧ q = j) ∨ (k ≠ id ∧ s.jobs k = some q) := by
  by_cases hk : k = id
  · subst hk
    exact .inl ⟨rfl, by simpa [State.setJob] using h.symm⟩
  · exact .inr ⟨hk, by simpa [State.setJob, hk] using h⟩

theorem ownedBy_iff {j : Job} {claim : ClaimedJob} {worker : Nat} :
    j.ownedBy claim worker = true ↔ j.status = .processing ∧ j.claimedBy = some worker ∧
      j.claimToken = some claim.claimToken := by
  simp [Job.ownedBy]

/-- What a row of `ingestion_jobs` satisfies on its own. -/
structure Job.WellFormed (j : Job) : Prop where
  attempts : 0 ≤ j.attemptCount ∧ j.attemptCount ≤ i32Max
  limit : 0 < j.maxAttempts
  queued : j.status = .queued → j.attemptCount < j.maxAttempts
  processing : j.status = .processing → 1 ≤ j.attemptCount

/-- The row of a running job names the claim it was last handed to. -/
def HeldBy (s : State) (id : Nat) (j : Job) : Prop :=
  ∃ claim worker, (claim, worker) ∈ s.claims ∧ claim.id = id ∧ j.ownedBy claim worker = true ∧
    ∀ p ∈ s.claims, p.1.id = id → p.1.claimToken ≤ claim.claimToken

structure Inv (s : State) : Prop where
  jobs_fresh : ∀ id, s.nextJob ≤ id → s.jobs id = none
  documents_fresh : ∀ id, s.nextDocument ≤ id → s.documents id = none
  wellFormed : ∀ id j, s.jobs id = some j → j.WellFormed
  job_document : ∀ id j, s.jobs id = some j →
    ∃ d, s.documents j.documentId = some d ∧ d.workspaceId = j.workspaceId
  one_active : ∀ i k j j', s.jobs i = some j → s.jobs k = some j' → j.status.active = true →
    j'.status.active = true → j.documentId = j'.documentId → i = k
  tokens : s.claims.Pairwise fun p q => q.1.claimToken < p.1.claimToken
  token_lt : ∀ p ∈ s.claims, p.1.claimToken < s.nextToken ∧ p.1.id < s.nextJob
  claim_job : ∀ p ∈ s.claims, ∀ j, s.jobs p.1.id = some j →
    p.1.documentId = j.documentId ∧ p.1.workspaceId = j.workspaceId
  held : ∀ id j, s.jobs id = some j → j.status = .processing → HeldBy s id j
  locked : ∀ id tx, s.locks id = some tx → tx.job.id = id ∧ (tx.job, tx.worker) ∈ s.claims ∧
    ∃ j, s.jobs id = some j ∧ j.ownedBy tx.job tx.worker = true ∧
      ∀ job worker stamp failure attempts limit,
        tx = .failure job worker stamp failure attempts limit →
          attempts = j.attemptCount ∧ limit = j.maxAttempts
  ended : ∀ e ∈ s.ends, e.1 < s.nextToken ∧
    ∀ id j, s.jobs id = some j → j.status = .processing → j.claimToken ≠ some e.1
  ends_once : (s.ends.map Prod.fst).Nodup

theorem initial_inv (now : Int) : Inv (initial now) := by
  constructor <;> simp [initial]

section Writes

variable {s : State}

theorem Inv.job_lt (hi : Inv s) {id : Nat} {j : Job} (hj : s.jobs id = some j) :
    id < s.nextJob := by
  by_contra h
  rw [hi.jobs_fresh id (by omega)] at hj
  cases hj

theorem Inv.setJob_fresh (hi : Inv s) {id : Nat} {j : Job} (hj : s.jobs id = some j) (j' : Job)
    (k : Nat) (hk : s.nextJob ≤ k) : (s.setJob id j').jobs k = none := by
  have hlt := hi.job_lt hj
  have hne : k ≠ id := by omega
  simpa [State.setJob, hne] using hi.jobs_fresh k hk

theorem Inv.setJob_document (hi : Inv s) {id : Nat} {j j' : Job} (hj : s.jobs id = some j)
    (hd : j'.documentId = j.documentId) (hw : j'.workspaceId = j.workspaceId) (k : Nat) (q : Job)
    (hq : (s.setJob id j').jobs k = some q) :
    ∃ d, s.documents q.documentId = some d ∧ d.workspaceId = q.workspaceId := by
  rcases setJob_cases hq with ⟨-, rfl⟩ | ⟨-, hq⟩
  · rw [hd, hw]
    exact hi.job_document id j hj
  · exact hi.job_document k q hq

theorem Inv.setJob_one_active (hi : Inv s) {id : Nat} {j j' : Job} (hj : s.jobs id = some j)
    (hd : j'.documentId = j.documentId)
    (ha : j'.status.active = true → j.status.active = true) (i k : Nat) (q q' : Job)
    (hq : (s.setJob id j').jobs i = some q) (hq' : (s.setJob id j').jobs k = some q')
    (hqa : q.status.active = true) (hqa' : q'.status.active = true)
    (hdoc : q.documentId = q'.documentId) : i = k := by
  rcases setJob_cases hq with ⟨hin, rfl⟩ | ⟨-, hq1⟩ <;>
    rcases setJob_cases hq' with ⟨hkn, rfl⟩ | ⟨-, hq2⟩
  · rw [hin, hkn]
  · exact hin.trans (hi.one_active _ _ _ _ hj hq2 (ha hqa) hqa' (hd ▸ hdoc))
  · exact (hi.one_active _ _ _ _ hq1 hj hqa (ha hqa') (hd ▸ hdoc)).trans hkn.symm
  · exact hi.one_active _ _ _ _ hq1 hq2 hqa hqa' hdoc

theorem Inv.setJob_claim (hi : Inv s) {id : Nat} {j j' : Job} (hj : s.jobs id = some j)
    (hd : j'.documentId = j.documentId) (hw : j'.workspaceId = j.workspaceId)
    (p : ClaimedJob × Nat) (hp : p ∈ s.claims) (q : Job)
    (hq : (s.setJob id j').jobs p.1.id = some q) :
    p.1.documentId = q.documentId ∧ p.1.workspaceId = q.workspaceId := by
  rcases setJob_cases hq with ⟨hk, rfl⟩ | ⟨-, hq⟩
  · rw [hd, hw]
    exact hi.claim_job p hp j (hk ▸ hj)
  · exact hi.claim_job p hp q hq

/-- An update of one job row by a call whose row is not locked. -/
theorem Inv.setJob (hi : Inv s) {id : Nat} {j j' : Job} (hj : s.jobs id = some j)
    (hfree : s.locks id = none) (hd : j'.documentId = j.documentId)
    (hw : j'.workspaceId = j.workspaceId) (hwf : j'.WellFormed)
    (ha : j'.status.active = true → j.status.active = true)
    (ho : j'.status = .processing → j.status = .processing ∧ j'.claimedBy = j.claimedBy ∧
      j'.claimToken = j.claimToken) : Inv (s.setJob id j') := by
  refine { hi with
    jobs_fresh := hi.setJob_fresh hj j'
    wellFormed := ?_
    job_document := hi.setJob_document hj hd hw
    one_active := hi.setJob_one_active hj hd ha
    claim_job := hi.setJob_claim hj hd hw
    held := ?_, locked := ?_, ended := ?_ }
  · intro k q hq
    rcases setJob_cases hq with ⟨-, rfl⟩ | ⟨-, hq⟩
    · exact hwf
    · exact hi.wellFormed k q hq
  · intro k q hq hs
    rcases setJob_cases (s := s) hq with ⟨rfl, rfl⟩ | ⟨-, hq⟩
    · obtain ⟨hjs, hby, htok⟩ := ho hs
      obtain ⟨c, w, hc, hck, hown, hmax⟩ := hi.held _ j hj hjs
      rw [ownedBy_iff] at hown
      exact ⟨c, w, hc, hck, ownedBy_iff.mpr ⟨hs, hby ▸ hown.2.1, htok ▸ hown.2.2⟩, hmax⟩
    · exact hi.held k q hq hs
  · intro k tx htx
    have hne : k ≠ id := by
      rintro rfl
      rw [State.setJob, hfree] at htx
      cases htx
    obtain ⟨hk, hc, q, hq, hown⟩ := hi.locked k tx htx
    exact ⟨hk, hc, q, by simpa [State.setJob, hne] using hq, hown⟩
  · intro e he
    refine ⟨(hi.ended e he).1, ?_⟩
    intro k q hq hs
    rcases setJob_cases (s := s) hq with ⟨-, rfl⟩ | ⟨-, hq⟩
    · obtain ⟨hjs, -, htok⟩ := ho hs
      rw [htok]
      exact (hi.ended e he).2 id j hj hjs
    · exact (hi.ended e he).2 k q hq hs

theorem Inv.setDocument (hi : Inv s) {id : Nat} {d d' : Document} (hd : s.documents id = some d)
    (hw : d'.workspaceId = d.workspaceId) : Inv (s.setDocument id d') := by
  refine { hi with documents_fresh := ?_, job_document := ?_ }
  · intro k hk
    have hne : k ≠ id := by
      rintro rfl
      rw [hi.documents_fresh k hk] at hd
      cases hd
    simpa [State.setDocument, hne] using hi.documents_fresh k hk
  · intro k q hq
    obtain ⟨e, he, hwe⟩ := hi.job_document k q hq
    by_cases hk : q.documentId = id
    · refine ⟨d', by simp [State.setDocument, hk], ?_⟩
      rw [hw, ← hwe]
      rw [hk, hd] at he
      cases he
      rfl
    · exact ⟨e, by simpa [State.setDocument, hk] using he, hwe⟩

theorem Inv.updateDocument (hi : Inv s) (id workspaceId : Nat) {f : Document → Document}
    (hf : ∀ d, (f d).workspaceId = d.workspaceId) : Inv (s.updateDocument id workspaceId f) := by
  unfold State.updateDocument
  split
  next d hd =>
    split
    · exact hi.setDocument hd (hf d)
    · exact hi
  next => exact hi

theorem Inv.unlock (hi : Inv s) (id : Nat) : Inv (s.unlock id) := by
  refine { hi with locked := ?_ }
  intro k tx htx
  by_cases hk : k = id
  · subst hk
    simp [State.unlock] at htx
  · exact hi.locked k tx (by simpa [State.unlock, hk] using htx)

theorem Inv.recordEnd (hi : Inv s) {job : ClaimedJob} {worker : Nat} {e : JobEnd}
    (hc : (job, worker) ∈ s.claims)
    (hfirst : ∀ x ∈ s.ends, x.1 ≠ job.claimToken)
    (hover : ∀ id j, s.jobs id = some j → j.status = .processing →
      j.claimToken ≠ some job.claimToken) : Inv (s.recordEnd job e) := by
  refine { hi with ended := ?_, ends_once := ?_ }
  · intro x hx
    rcases List.mem_cons.mp hx with rfl | hx
    · exact ⟨(hi.token_lt _ hc).1, hover⟩
    · exact hi.ended x hx
  · simp only [State.recordEnd, List.map_cons, List.nodup_cons, List.mem_map, not_exists, not_and]
    exact ⟨hfirst, hi.ends_once⟩

theorem Inv.lockFor (hi : Inv s) {job : ClaimedJob} {worker : Nat} {tx : Tx} {t : State} {j : Job}
    (h : lockFor s job tx = some t) (hc : (job, worker) ∈ s.claims) (hj : s.jobs job.id = some j)
    (ho : j.ownedBy job worker = true) (htx : tx.job = job ∧ tx.worker = worker)
    (hread : ∀ job worker stamp failure attempts limit,
      tx = .failure job worker stamp failure attempts limit →
        attempts = j.attemptCount ∧ limit = j.maxAttempts) : Inv t := by
  unfold Ingestion.lockFor at h
  split at h
  next =>
    cases Option.some.inj h
    refine { hi with locked := ?_ }
    intro k tx' hk
    by_cases hkj : k = job.id
    · subst hkj
      simp only [update_self, Option.some.injEq] at hk
      subst hk
      rw [htx.1, htx.2]
      exact ⟨rfl, hc, j, hj, ho, hread⟩
    · exact hi.locked k tx' (by simpa [hkj] using hk)
  next => cases h

end Writes

section Steps

variable {config : WorkerConfig} {s t : State}

theorem Inv.same_claim (hi : Inv s) {p q : ClaimedJob × Nat} (hp : p ∈ s.claims) (hq : q ∈ s.claims)
    (h : p.1.claimToken = q.1.claimToken) : p = q := by
  have hn : (s.claims.map fun p => p.1.claimToken).Nodup :=
    List.pairwise_map.mpr (hi.tokens.imp fun h => Nat.ne_of_gt h)
  exact List.inj_on_of_nodup_map hn hp hq h

theorem claimJob_eq {worker id : Nat} {stamp : Int}
    (h : claimJob config worker stamp s id = some t) :
    ∃ j, s.jobs id = some j ∧ j.claimable stamp = true ∧ s.locks id = none ∧
      j.attemptCount < i32Max ∧
      t = { s.setJob id { j with
            status := .processing, claimedBy := some worker, claimToken := some s.nextToken,
            leaseExpiresAt := some (stamp + config.leaseSecs), attemptCount := j.attemptCount + 1 }
          with
        nextToken := s.nextToken + 1
        claims := (⟨id, j.documentId, j.workspaceId, j.attemptCount + 1, j.maxAttempts,
          s.nextToken⟩, worker) :: s.claims } := by
  unfold claimJob at h
  split at h
  next j hj =>
    split at h
    next hc => exact ⟨j, hj, hc.1, by simpa using hc.2.1, hc.2.2, (Option.some.inj h).symm⟩
    next => cases h
  next => cases h

theorem claimable_active {j : Job} {stamp : Int} (h : j.claimable stamp = true) :
    j.status.active = true := by
  simp only [Job.claimable, decide_eq_true_eq] at h
  rcases h with h | h <;> rw [h.1] <;> rfl

theorem Inv.claimJob (hi : Inv s) {worker id : Nat} {stamp : Int}
    (h : Ingestion.claimJob config worker stamp s id = some t) : Inv t := by
  obtain ⟨j, hj, hclaim, hfree, hmax, rfl⟩ := claimJob_eq h
  have hwf := hi.wellFormed id j hj
  have hid := hi.job_lt hj
  have ha := claimable_active hclaim
  set j' : Job := { j with
    status := .processing, claimedBy := some worker, claimToken := some s.nextToken,
    leaseExpiresAt := some (stamp + config.leaseSecs), attemptCount := j.attemptCount + 1 } with hj'
  have hd : j'.documentId = j.documentId := rfl
  have hw : j'.workspaceId = j.workspaceId := rfl
  constructor
  · exact hi.setJob_fresh hj j'
  · exact hi.documents_fresh
  · intro k q hq
    rcases setJob_cases (s := s) hq with ⟨-, rfl⟩ | ⟨-, hq⟩
    · have h0 := hwf.attempts.1
      refine ⟨⟨?_, ?_⟩, hwf.limit, by simp [hj'], fun _ => ?_⟩ <;> simp only [hj'] <;> omega
    · exact hi.wellFormed k q hq
  · exact hi.setJob_document hj hd hw
  · exact hi.setJob_one_active hj hd fun _ => ha
  · exact List.pairwise_cons.mpr ⟨fun p hp => (hi.token_lt p hp).1, hi.tokens⟩
  · intro p hp
    rcases List.mem_cons.mp hp with rfl | hp
    · exact ⟨Nat.lt_succ_self _, hid⟩
    · exact ⟨Nat.lt_succ_of_lt (hi.token_lt p hp).1, (hi.token_lt p hp).2⟩
  · intro p hp q hq
    rcases List.mem_cons.mp hp with rfl | hp
    · rcases setJob_cases (s := s) hq with ⟨-, rfl⟩ | ⟨hn, -⟩
      · exact ⟨rfl, rfl⟩
      · exact absurd rfl hn
    · exact hi.setJob_claim hj hd hw p hp q hq
  · intro k q hq hs
    rcases setJob_cases (s := s) hq with ⟨rfl, rfl⟩ | ⟨hk, hq⟩
    · refine ⟨_, worker, List.mem_cons_self .., rfl, ownedBy_iff.mpr ⟨rfl, rfl, rfl⟩, ?_⟩
      intro p hp _
      rcases List.mem_cons.mp hp with rfl | hp
      · exact Nat.le_refl _
      · exact Nat.le_of_lt (hi.token_lt p hp).1
    · obtain ⟨c, w, hc, hck, hown, hle⟩ := hi.held k q hq hs
      refine ⟨c, w, List.mem_cons_of_mem _ hc, hck, hown, ?_⟩
      intro p hp hpk
      rcases List.mem_cons.mp hp with rfl | hp
      · exact absurd hpk.symm hk
      · exact hle p hp hpk
  · intro k tx htx
    obtain ⟨hk, hc, q, hq, hown⟩ := hi.locked k tx htx
    have hne : k ≠ id := by
      rintro rfl
      simp [State.setJob, hfree] at htx
    exact ⟨hk, List.mem_cons_of_mem _ hc, q, by simpa [State.setJob, hne] using hq, hown⟩
  · intro e he
    refine ⟨Nat.lt_succ_of_lt (hi.ended e he).1, ?_⟩
    intro k q hq hs
    rcases setJob_cases (s := s) hq with ⟨-, rfl⟩ | ⟨-, hq⟩
    · have := (hi.ended e he).1
      simp only [hj', ne_eq, Option.some.injEq]
      omega
    · exact (hi.ended e he).2 k q hq hs
  · exact hi.ends_once

/-- A property that one claimed row keeps is kept by the claim of a batch. -/
theorem claimJobs_keeps {P : State → Prop} {worker : Nat} {ids : List Nat} {stamp : Int}
    (one : ∀ s t id, P s → claimJob config worker stamp s id = some t → P t) (hp : P s)
    (h : claimJobs config s worker ids stamp = some t) : P t := by
  unfold claimJobs at h
  split at h
  next =>
    clear * - one hp h
    induction ids generalizing s with
    | nil =>
      cases Option.some.inj h
      exact hp
    | cons id ids ih =>
      rw [List.foldlM_cons] at h
      obtain ⟨u, hu, h⟩ := Option.bind_eq_some_iff.mp h
      exact ih (one s u id hp hu) h
  next => cases h

/-- The claimed rows and no others are rewritten, each from the row as the statement found it. -/
theorem claimJobs_rows {worker : Nat} {ids : List Nat} {stamp : Int}
    (h : claimJobs config s worker ids stamp = some t) :
    (∀ k, k ∉ ids → t.jobs k = s.jobs k) ∧ t.documents = s.documents ∧
      ∀ k ∈ ids, ∃ j token, s.jobs k = some j ∧ j.claimable stamp = true ∧
        t.jobs k = some { j with
          status := .processing, claimedBy := some worker, claimToken := some token,
          leaseExpiresAt := some (stamp + config.leaseSecs),
          attemptCount := j.attemptCount + 1 } := by
  unfold claimJobs at h
  split at h
  next hg =>
    replace hg := hg.1
    induction ids generalizing s with
    | nil =>
      cases Option.some.inj h
      simp
    | cons id ids ih =>
      rw [List.foldlM_cons] at h
      obtain ⟨u, hu, h⟩ := Option.bind_eq_some_iff.mp h
      obtain ⟨hid, hnodup⟩ := List.nodup_cons.mp hg
      obtain ⟨hrest, hdoc, hids⟩ := ih h hnodup
      obtain ⟨j, hj, hclaim, -, -, rfl⟩ := claimJob_eq hu
      have hother : ∀ k, k ≠ id → ∀ j', (s.setJob id j').jobs k = s.jobs k := by
        intro k hk j'
        simp [State.setJob, hk]
      refine ⟨?_, hdoc, ?_⟩
      · intro k hk
        simp only [List.mem_cons, not_or] at hk
        exact (hrest k hk.2).trans (hother k hk.1 _)
      · intro k hk
        rcases List.mem_cons.mp hk with rfl | hk
        · exact ⟨j, s.nextToken, hj, hclaim, (hrest _ hid).trans (by simp [State.setJob])⟩
        · obtain ⟨q, token, hq, hcl, ht⟩ := hids k hk
          have hne : k ≠ id := fun heq => hid (heq ▸ hk)
          exact ⟨q, token, (hother k hne _).symm.trans hq, hcl, ht⟩
  next => cases h

/-- A heartbeat changes at most the lease of one row that is not locked. -/
theorem extendLease_cases {job : ClaimedJob} {worker : Nat} {stamp : Int}
    (h : extendLease config s job worker stamp = some t) :
    t = s ∨ ∃ j lease, s.jobs job.id = some j ∧ s.locks job.id = none ∧
      t = s.setJob job.id { j with leaseExpiresAt := lease } := by
  unfold extendLease at h
  split at h
  next j hj =>
    split at h
    · obtain ⟨hfree, h⟩ := Option.ite_none_right_eq_some.mp h
      exact .inr ⟨j, _, hj, by simpa using hfree, (Option.some.inj h).symm⟩
    · exact .inl (Option.some.inj h).symm
  next => exact .inl (Option.some.inj h).symm

theorem Inv.extendLease (hi : Inv s) {job : ClaimedJob} {worker : Nat} {stamp : Int}
    (h : Ingestion.extendLease config s job worker stamp = some t) : Inv t := by
  rcases extendLease_cases h with rfl | ⟨j, lease, hj, hfree, rfl⟩
  · exact hi
  · have hwf := hi.wellFormed _ j hj
    exact hi.setJob hj hfree rfl rfl ⟨hwf.attempts, hwf.limit, hwf.queued, hwf.processing⟩ id
      fun hs => ⟨hs, rfl, rfl⟩

theorem Inv.setStageForOwner (hi : Inv s) (job : ClaimedJob) (worker : Nat) (stage : Stage)
    (stamp : Int) : Inv (Ingestion.setStageForOwner s job worker stage stamp) := by
  unfold Ingestion.setStageForOwner
  split
  · exact hi.updateDocument _ _ fun _ => rfl
  · exact hi

theorem ownedLive_iff {job : ClaimedJob} {worker : Nat} {stamp : Int} :
    s.ownedLive job worker stamp = true ↔ ∃ j, s.jobs job.id = some j ∧
      j.ownedBy job worker = true ∧ j.leaseLive stamp = true := by
  simp [State.ownedLive, Option.any_eq_true]

theorem lockFor_tables {job : ClaimedJob} {tx : Tx} (h : lockFor s job tx = some t) :
    t.jobs = s.jobs ∧ t.documents = s.documents := by
  obtain ⟨-, h⟩ := Option.ite_none_right_eq_some.mp h
  cases Option.some.inj h
  exact ⟨rfl, rfl⟩

theorem beginComplete_tables {job : ClaimedJob} {worker : Nat} {stamp : Int}
    (h : beginComplete s job worker stamp = some t) :
    t.jobs = s.jobs ∧ t.documents = s.documents := by
  unfold beginComplete at h
  split at h
  · exact lockFor_tables h
  · cases Option.some.inj h
    exact ⟨rfl, rfl⟩

theorem beginFailure_tables {job : ClaimedJob} {worker : Nat} {failure : JobFailure} {stamp : Int}
    (h : beginFailure s job worker failure stamp = some t) :
    t.jobs = s.jobs ∧ t.documents = s.documents := by
  unfold beginFailure at h
  split at h
  · split at h
    · exact lockFor_tables h
    · cases Option.some.inj h
      exact ⟨rfl, rfl⟩
  · cases Option.some.inj h
    exact ⟨rfl, rfl⟩

theorem Inv.beginComplete (hi : Inv s) {job : ClaimedJob} {worker : Nat} {stamp : Int}
    (hc : (job, worker) ∈ s.claims) (h : Ingestion.beginComplete s job worker stamp = some t) :
    Inv t := by
  unfold Ingestion.beginComplete at h
  split at h
  next hown =>
    obtain ⟨j, hj, ho, -⟩ := ownedLive_iff.mp hown
    exact hi.lockFor h hc hj ho ⟨rfl, rfl⟩ (by simp)
  next =>
    cases Option.some.inj h
    exact hi

theorem Inv.beginFailure (hi : Inv s) {job : ClaimedJob} {worker : Nat} {failure : JobFailure}
    {stamp : Int} (hc : (job, worker) ∈ s.claims)
    (h : Ingestion.beginFailure s job worker failure stamp = some t) : Inv t := by
  unfold Ingestion.beginFailure at h
  split at h
  next j hj =>
    split at h
    next hown =>
      simp only [Bool.and_eq_true] at hown
      refine hi.lockFor h hc hj hown.1 ⟨rfl, rfl⟩ ?_
      intro _ _ _ _ attempts limit htx
      simp only [Tx.failure.injEq] at htx
      exact ⟨htx.2.2.2.2.1.symm, htx.2.2.2.2.2.symm⟩
    next =>
      cases Option.some.inj h
      exact hi
  next =>
    cases Option.some.inj h
    exact hi

/-- The end of a claim: its job leaves `PROCESSING`, its document is updated, the end is logged. -/
theorem Inv.finish (hi : Inv s) {job : ClaimedJob} {worker : Nat} {j : Job} {f : Job → Job}
    {g : Document → Document} {e : JobEnd} (hc : (job, worker) ∈ s.claims)
    (hj : s.jobs job.id = some j) (ho : j.ownedBy job worker = true) (hfree : s.locks job.id = none)
    (hd : (f j).documentId = j.documentId) (hw : (f j).workspaceId = j.workspaceId)
    (hwf : (f j).WellFormed) (hs : (f j).status ≠ .processing)
    (hg : ∀ d, (g d).workspaceId = d.workspaceId) :
    Inv (((s.updateJob job.id f).updateDocument job.documentId job.workspaceId g).recordEnd job e) := by
  rw [ownedBy_iff] at ho
  have hup : s.updateJob job.id f = s.setJob job.id (f j) := by simp [State.updateJob, hj]
  have hset : Inv (s.setJob job.id (f j)) :=
    hi.setJob hj hfree hd hw hwf (fun _ => by rw [ho.1]; rfl) fun h => absurd h hs
  rw [hup]
  have hdoc := hset.updateDocument job.documentId job.workspaceId hg
  have hcu : (job, worker) ∈
      ((s.setJob job.id (f j)).updateDocument job.documentId job.workspaceId g).claims := by
    rw [updateDocument_claims]
    exact hc
  refine hdoc.recordEnd hcu ?_ ?_
  · intro x hx heq
    rw [updateDocument_ends] at hx
    exact (hi.ended x hx).2 _ j hj ho.1 (heq ▸ ho.2.2)
  · intro k q hq hqs htok
    rw [updateDocument_jobs] at hq
    obtain ⟨c, w, hcm, hck, hown, -⟩ := hset.held k q hq hqs
    rw [ownedBy_iff, htok] at hown
    have hsame := hi.same_claim hcm hc (Option.some.inj hown.2.2).symm
    have hk : k = job.id := by rw [← hck, (Prod.mk.inj hsame).1]
    subst hk
    simp only [State.setJob, update_self, Option.some.injEq] at hq
    exact hs (hq ▸ hqs)

def JobEnd.jobStatus : JobEnd → JobStatus
  | succeeded => .succeeded
  | requeued => .queued
  | dead => .dead

def JobEnd.documentStatus : JobEnd → DocumentStatus
  | succeeded => .completed
  | requeued => .processing
  | dead => .failed

def JobEnd.stage : JobEnd → Stage
  | succeeded => .done
  | requeued => .queued
  | dead => .failed

/-- The updates of the job row and of the document row that end a claim with `e`. -/
structure Settles (e : JobEnd) (f : Job → Job) (g : Document → Document) : Prop where
  job_keeps : ∀ j, (f j).documentId = j.documentId ∧ (f j).workspaceId = j.workspaceId ∧
    (f j).attemptCount = j.attemptCount ∧ (f j).maxAttempts = j.maxAttempts
  job_status : ∀ j, (f j).status = e.jobStatus
  document_keeps : ∀ d, (g d).workspaceId = d.workspaceId
  document_status : ∀ d, (g d).status = e.documentStatus ∧ (g d).processingStage = e.stage

theorem failureDisposition_retryable {failure : JobFailure} {j : Job} {next secs : Int}
    (hwf : j.WellFormed) (hs : j.status = .processing)
    (h : failureDisposition config failure j.attemptCount j.maxAttempts = .retryable next secs) :
    j.attemptCount < j.maxAttempts := by
  obtain ⟨-, hnext, hlt⟩ := disposition_retryable h
  have h1 := hwf.processing hs
  have h2 := hwf.attempts.2
  rw [saturateI32_of_range (x := j.attemptCount - 1) (by simp only [i32Min]; omega) (by omega),
    saturateI32_of_range (by simp only [i32Min]; omega) (by omega)] at hnext
  omega

theorem commitComplete_settles (s : State) (job : ClaimedJob) :
    ∃ f g, Settles .succeeded f g ∧ commitComplete s job =
      ((s.updateJob job.id f).updateDocument job.documentId job.workspaceId g).recordEnd job
        .succeeded := by
  refine ⟨_, _, ?_, rfl⟩
  exact ⟨fun _ => ⟨rfl, rfl, rfl, rfl⟩, fun _ => rfl, fun _ => rfl, fun _ => ⟨rfl, rfl⟩⟩

theorem commitFailure_settles {job : ClaimedJob} {stamp : Int} {failure : JobFailure} {j : Job}
    (hwf : j.WellFormed) (hs : j.status = .processing) :
    ∃ e f g, Settles e f g ∧ (e = .requeued → j.attemptCount < j.maxAttempts) ∧ e ≠ .succeeded ∧
      commitFailure config s job stamp failure j.attemptCount j.maxAttempts =
        ((s.updateJob job.id f).updateDocument job.documentId job.workspaceId g).recordEnd job e := by
  unfold commitFailure
  split
  next next secs hdisp =>
    refine ⟨.requeued, _, _, ?_, ?_, ?_, rfl⟩
    · exact ⟨fun _ => ⟨rfl, rfl, rfl, rfl⟩, fun _ => rfl, fun _ => rfl, fun _ => ⟨rfl, rfl⟩⟩
    · exact fun _ => failureDisposition_retryable hwf hs hdisp
    · exact fun h => by cases h
  next =>
    refine ⟨.dead, _, _, ?_, ?_, ?_, rfl⟩
    · exact ⟨fun _ => ⟨rfl, rfl, rfl, rfl⟩, fun _ => rfl, fun _ => rfl, fun _ => ⟨rfl, rfl⟩⟩
    · exact fun h => by cases h
    · exact fun h => by cases h

/-- A commit ends the claim that holds the lock: its row is as the call read it, and both rows
are updated and the end is logged. -/
theorem commit_cases {id : Nat} (hi : Inv s) (h : commit config s id = some t) :
    ∃ job worker j e f g, (job, worker) ∈ s.claims ∧ job.id = id ∧ s.jobs job.id = some j ∧
      j.ownedBy job worker = true ∧ Settles e f g ∧
      (e = .requeued → j.attemptCount < j.maxAttempts) ∧
      t = (((s.unlock id).updateJob job.id f).updateDocument job.documentId
        job.workspaceId g).recordEnd job e := by
  unfold commit at h
  split at h
  next job worker stamp htx =>
    obtain ⟨hid, hc, j, hj, ho, -⟩ := hi.locked id _ htx
    obtain ⟨f, g, hsettle, heq⟩ := commitComplete_settles (s.unlock id) job
    exact ⟨job, worker, j, .succeeded, f, g, hc, hid, hid.symm ▸ hj, ho, hsettle,
      fun he => (by cases he), (Option.some.inj h).symm.trans heq⟩
  next job worker stamp failure attempts limit htx =>
    obtain ⟨hid, hc, j, hj, ho, hread⟩ := hi.locked id _ htx
    obtain ⟨rfl, rfl⟩ := hread job worker stamp failure attempts limit rfl
    have hwf := hi.wellFormed id j hj
    obtain ⟨e, f, g, hsettle, hlt, -, heq⟩ :=
      @commitFailure_settles config (s.unlock id) job stamp failure j hwf (ownedBy_iff.mp ho).1
    exact ⟨job, worker, j, e, f, g, hc, hid, hid.symm ▸ hj, ho, hsettle, hlt,
      (Option.some.inj h).symm.trans heq⟩
  next => cases h

theorem Inv.commit (hi : Inv s) {id : Nat} (h : Ingestion.commit config s id = some t) : Inv t := by
  obtain ⟨job, worker, j, e, f, g, hc, hid, hj, ho, hsettle, hlt, rfl⟩ := commit_cases hi h
  have hwf := hi.wellFormed _ j hj
  obtain ⟨hd, hw, ha, hm⟩ := hsettle.job_keeps j
  have hs := hsettle.job_status j
  have hfree : (s.unlock id).locks job.id = none := by simp [State.unlock, hid]
  refine (hi.unlock id).finish hc hj ho hfree hd hw ?_ ?_ hsettle.document_keeps
  · refine ⟨ha ▸ hwf.attempts, hm ▸ hwf.limit, ?_, ?_⟩
    · intro hq
      rw [hs] at hq
      rw [ha, hm]
      cases e with
      | requeued => exact hlt rfl
      | succeeded => cases hq
      | dead => cases hq
    · intro hq
      rw [hs] at hq
      cases e <;> cases hq
  · rw [hs]
    cases e <;> simp [JobEnd.jobStatus]

theorem enqueueJobTx_eq {document workspaceId : Nat} {limit stamp : Int}
    (h : enqueueJobTx s document workspaceId limit stamp = some t) :
    0 < limit ∧ s.hasActiveJob document = false ∧
      t = { s.setJob s.nextJob ⟨document, workspaceId, .queued, 0, limit, stamp, none, none,
        none, none, none⟩ with nextJob := s.nextJob + 1 } := by
  unfold enqueueJobTx at h
  split at h
  next hg => exact ⟨hg.1, hg.2.2, (Option.some.inj h).symm⟩
  next => cases h

theorem Inv.enqueueJobTx (hi : Inv s) {document workspaceId : Nat} {limit stamp : Int} {d : Document}
    (hd : s.documents document = some d) (hw : d.workspaceId = workspaceId)
    (h : Ingestion.enqueueJobTx s document workspaceId limit stamp = some t) : Inv t := by
  obtain ⟨hlim, hnone, rfl⟩ := enqueueJobTx_eq h
  set new : Job := ⟨document, workspaceId, .queued, 0, limit, stamp, none, none, none, none, none⟩
    with hnew
  have idle : ∀ k q, s.jobs k = some q → q.documentId = document → q.status.active ≠ true := by
    intro k q hq hqd hqa
    have := (hasActiveJob_iff hi.jobs_fresh).mpr ⟨k, q, hq, hqd, hqa⟩
    rw [hnone] at this
    cases this
  refine { hi with
    jobs_fresh := ?_, wellFormed := ?_, job_document := ?_, one_active := ?_, token_lt := ?_,
    claim_job := ?_, held := ?_, locked := ?_, ended := ?_ }
  · intro k hk
    have hne : k ≠ s.nextJob ∧ s.nextJob ≤ k := by
      have : s.nextJob + 1 ≤ k := hk
      omega
    simpa [State.setJob, hne.1] using hi.jobs_fresh k hne.2
  · intro k q hq
    rcases setJob_cases (s := s) hq with ⟨-, rfl⟩ | ⟨-, hq⟩
    · exact ⟨⟨by simp [hnew], by simp [hnew, i32Max]⟩, hlim, fun _ => hlim, by simp [hnew]⟩
    · exact hi.wellFormed k q hq
  · intro k q hq
    rcases setJob_cases (s := s) hq with ⟨-, rfl⟩ | ⟨-, hq⟩
    · exact ⟨d, hd, hw⟩
    · exact hi.job_document k q hq
  · intro i k q q' hq hq' hqa hqa' hdoc
    rcases setJob_cases (s := s) hq with ⟨hin, rfl⟩ | ⟨-, hq1⟩ <;>
      rcases setJob_cases (s := s) hq' with ⟨hkn, rfl⟩ | ⟨-, hq2⟩
    · rw [hin, hkn]
    · exact absurd hqa' (idle k q' hq2 hdoc.symm)
    · exact absurd hqa (idle i q hq1 hdoc)
    · exact hi.one_active _ _ _ _ hq1 hq2 hqa hqa' hdoc
  · intro p hp
    exact ⟨(hi.token_lt p hp).1, Nat.lt_succ_of_lt (hi.token_lt p hp).2⟩
  · intro p hp q hq
    rcases setJob_cases (s := s) hq with ⟨hk, -⟩ | ⟨-, hq⟩
    · have := (hi.token_lt p hp).2
      omega
    · exact hi.claim_job p hp q hq
  · intro k q hq hs
    rcases setJob_cases (s := s) hq with ⟨-, rfl⟩ | ⟨-, hq⟩
    · cases hs
    · exact hi.held k q hq hs
  · intro k tx htx
    obtain ⟨hk, hc, q, hq, hown⟩ := hi.locked k tx htx
    have hne : k ≠ s.nextJob := by
      have := (hi.token_lt _ hc).2
      simp only at this
      omega
    exact ⟨hk, hc, q, by simpa [State.setJob, hne] using hq, hown⟩
  · intro e he
    refine ⟨(hi.ended e he).1, ?_⟩
    intro k q hq hs
    rcases setJob_cases (s := s) hq with ⟨-, rfl⟩ | ⟨-, hq⟩
    · cases hs
    · exact (hi.ended e he).2 k q hq hs

theorem Inv.uploadDocument (hi : Inv s) {workspaceId : Nat} {stamp : Int}
    (h : Ingestion.uploadDocument config s workspaceId stamp = some t) : Inv t := by
  have hnew : Inv { s.setDocument s.nextDocument
      ⟨workspaceId, .processing, .queued, none, none, none⟩ with
      nextDocument := s.nextDocument + 1 } := by
    refine { hi with documents_fresh := ?_, job_document := ?_ }
    · intro k hk
      have hne : k ≠ s.nextDocument ∧ s.nextDocument ≤ k := by
        have : s.nextDocument + 1 ≤ k := hk
        omega
      simpa [State.setDocument, hne.1] using hi.documents_fresh k hne.2
    · intro k q hq
      obtain ⟨d, hd, hw⟩ := hi.job_document k q hq
      have hne : q.documentId ≠ s.nextDocument := by
        intro heq
        rw [hi.documents_fresh _ (Nat.le_of_eq heq.symm)] at hd
        cases hd
      exact ⟨d, by simpa [State.setDocument, hne] using hd, hw⟩
  unfold Ingestion.uploadDocument at h
  exact hnew.enqueueJobTx (update_self ..) rfl h

def Document.reset (d : Document) : Document :=
  { d with status := .processing, processingStage := .queued, failureCode := none,
           failureMessage := none, failedAt := none }

/-- A requeue is refused, or it resets a settled document without an active job and adds one. -/
theorem requeue_cases (s : State) (document workspaceId : Nat) (limit : Int)
    (eligibility : RequeueEligibility) (stamp : Int) :
    requeueDocumentForReingest s document workspaceId limit eligibility stamp = s ∨
      ∃ d u, s.documents document = some d ∧ d.workspaceId = workspaceId ∧
        s.hasActiveJob document = false ∧
        requeueDocumentForReingest s document workspaceId limit eligibility stamp = u ∧
        enqueueJobTx (s.setDocument document d.reset) document workspaceId limit stamp = some u := by
  unfold requeueDocumentForReingest
  split
  next d hd =>
    split
    next hg =>
      cases hq : enqueueJobTx (s.setDocument document d.reset) document workspaceId limit stamp with
      | none => exact .inl (by rw [← Document.reset, hq]; rfl)
      | some u => exact .inr ⟨d, u, hd, hg.1, hg.2.2, by rw [← Document.reset, hq]; rfl, hq⟩
    next => exact .inl rfl
  next => exact .inl rfl

theorem Inv.requeue (hi : Inv s) (document workspaceId : Nat) (limit : Int)
    (eligibility : RequeueEligibility) (stamp : Int) :
    Inv (requeueDocumentForReingest s document workspaceId limit eligibility stamp) := by
  rcases requeue_cases s document workspaceId limit eligibility stamp with
    he | ⟨d, u, hd, hw, -, he, hq⟩
  · rw [he]
    exact hi
  · rw [he]
    have hset : Inv (s.setDocument document d.reset) := hi.setDocument hd rfl
    have hread : (s.setDocument document d.reset).documents document = some d.reset := by
      simp [State.setDocument]
    exact hset.enqueueJobTx hread hw hq

theorem Inv.recoverLegacy (hi : Inv s) (stamp : Int) :
    Inv (recoverLegacyProcessingDocuments s stamp) := by
  refine { hi with documents_fresh := ?_, job_document := ?_ }
  · intro k hk
    simp [recoverLegacyProcessingDocuments, hi.documents_fresh k hk]
  · intro k q hq
    obtain ⟨d, hd, hw⟩ := hi.job_document k q hq
    simp only [recoverLegacyProcessingDocuments, hd, Option.map_some]
    refine ⟨_, rfl, ?_⟩
    split <;> exact hw

theorem Inv.deleteDocument (hi : Inv s) {document : Nat}
    (h : Ingestion.deleteDocument s document = some t) : Inv t := by
  unfold Ingestion.deleteDocument at h
  split at h
  next hfree =>
    cases Option.some.inj h
    have kept : ∀ k q, (s.jobs k).filter (fun j => j.documentId != document) = some q →
        s.jobs k = some q ∧ q.documentId ≠ document := by
      intro k q hq
      simpa [Option.filter_eq_some_iff] using hq
    refine { hi with
      jobs_fresh := ?_, documents_fresh := ?_, wellFormed := ?_, job_document := ?_,
      one_active := ?_, claim_job := ?_, held := ?_, locked := ?_, ended := ?_ }
    · intro k hk
      simp [hi.jobs_fresh k hk]
    · intro k hk
      by_cases hkd : k = document
      · simp [hkd]
      · simpa [hkd] using hi.documents_fresh k hk
    · intro k q hq
      exact hi.wellFormed k q (kept k q hq).1
    · intro k q hq
      obtain ⟨hq, hne⟩ := kept k q hq
      obtain ⟨d, hd, hw⟩ := hi.job_document k q hq
      exact ⟨d, by simpa [hne] using hd, hw⟩
    · intro i k q q' hq hq'
      exact hi.one_active i k q q' (kept i q hq).1 (kept k q' hq').1
    · intro p hp q hq
      exact hi.claim_job p hp q (kept _ q hq).1
    · intro k q hq
      exact hi.held k q (kept k q hq).1
    · intro k tx htx
      change s.locks k = some tx at htx
      obtain ⟨hk, hc, q, hq, hown⟩ := hi.locked k tx htx
      have hlt := (hi.token_lt _ hc).2
      simp only [List.all_eq_true, List.mem_range] at hfree
      have hq' := hfree k (by simp only at hlt; omega)
      simp only [hq, Option.all_some, Bool.or_eq_true, htx, Option.isNone_some, Bool.false_eq_true,
        or_false] at hq'
      exact ⟨hk, hc, q, by simp [hq, Option.filter, hq'], hown⟩
    · intro e he
      exact ⟨(hi.ended e he).1, fun k q hq => (hi.ended e he).2 k q (kept k q hq).1⟩
  next => cases h

theorem step_inv {a : Act} (hi : Inv s) (h : step config s a = some t) : Inv t := by
  cases a with
  | tick secs =>
    cases Option.some.inj h
    exact { hi with }
  | upload workspaceId stamp =>
    obtain ⟨-, h⟩ := Option.ite_none_right_eq_some.mp h
    exact hi.uploadDocument h
  | deleteDocument document => exact hi.deleteDocument h
  | claim worker ids stamp =>
    obtain ⟨-, h⟩ := Option.ite_none_right_eq_some.mp h
    exact claimJobs_keeps (fun _ _ _ hs hc => hs.claimJob hc) hi h
  | extendLease job worker stamp =>
    obtain ⟨-, h⟩ := Option.ite_none_right_eq_some.mp h
    exact hi.extendLease h
  | setStage job worker stage stamp =>
    obtain ⟨-, h⟩ := Option.ite_none_right_eq_some.mp h
    cases Option.some.inj h
    exact hi.setStageForOwner job worker stage stamp
  | beginComplete job worker stamp =>
    obtain ⟨hc, h⟩ := Option.ite_none_right_eq_some.mp h
    exact hi.beginComplete hc.2 h
  | beginFailure job worker failure stamp =>
    obtain ⟨hc, h⟩ := Option.ite_none_right_eq_some.mp h
    exact hi.beginFailure hc.2 h
  | commit id => exact hi.commit h
  | rollback id =>
    obtain ⟨-, h⟩ := Option.ite_none_right_eq_some.mp h
    cases Option.some.inj h
    exact hi.unlock id
  | requeue document workspaceId limit eligibility stamp =>
    obtain ⟨-, h⟩ := Option.ite_none_right_eq_some.mp h
    cases Option.some.inj h
    exact hi.requeue document workspaceId limit eligibility stamp
  | recoverLegacy stamp =>
    obtain ⟨-, h⟩ := Option.ite_none_right_eq_some.mp h
    cases Option.some.inj h
    exact hi.recoverLegacy stamp
  | markMissing document workspaceId =>
    cases Option.some.inj h
    refine hi.updateDocument document workspaceId fun d => ?_
    split <;> rfl

end Steps

end GmragApi.Ingestion

import GmragApi.StatusAgreement

/-! What a step of the queue leaves alone: claims, locks, owners and completed documents. -/

namespace GmragApi.Ingestion

/-- The claim still holds its job. -/
def Owns (s : State) (job : ClaimedJob) (worker : Nat) : Prop :=
  ∃ j, s.jobs job.id = some j ∧ j.ownedBy job worker = true

/-- The document is `COMPLETED` and nothing is left to be done for it. -/
def Settled (s : State) (document : Nat) : Prop :=
  (∃ d, s.documents document = some d ∧ d.status = .completed) ∧ ¬ ActiveOn s document

section Frames

variable {config : WorkerConfig} {s t : State}

theorem Owns.activeOn (hi : Inv s) {job : ClaimedJob} {worker : Nat}
    (hc : (job, worker) ∈ s.claims) (h : Owns s job worker) : ActiveOn s job.documentId := by
  obtain ⟨j, hj, ho⟩ := h
  have hdoc := (hi.claim_job _ hc j hj).1
  have hs := (ownedBy_iff.mp ho).1
  exact ⟨job.id, j, hj, hdoc.symm, by rw [hs]; rfl⟩

/-- Two claims that hold jobs of one document are the same claim. -/
theorem Owns.same (hi : Inv s) {job job' : ClaimedJob} {worker worker' : Nat}
    (hc : (job, worker) ∈ s.claims) (hc' : (job', worker') ∈ s.claims) (h : Owns s job worker)
    (h' : Owns s job' worker') (hd : job.documentId = job'.documentId) :
    job.claimToken = job'.claimToken := by
  obtain ⟨j, hj, ho⟩ := h
  obtain ⟨j', hj', ho'⟩ := h'
  have hdoc : job.documentId = j.documentId := (hi.claim_job _ hc j hj).1
  have hdoc' : job'.documentId = j'.documentId := (hi.claim_job _ hc' j' hj').1
  rw [ownedBy_iff] at ho ho'
  have hid : job.id = job'.id := by
    refine hi.one_active _ _ j j' hj hj' (by rw [ho.1]; rfl) (by rw [ho'.1]; rfl) ?_
    rw [← hdoc, ← hdoc', hd]
  rw [hid] at hj
  cases Option.some.inj (hj.symm.trans hj')
  exact Option.some.inj (ho.2.2.symm.trans ho'.2.2)

theorem enqueueJobTx_frame {document workspaceId : Nat} {limit stamp : Int}
    (h : enqueueJobTx s document workspaceId limit stamp = some t) :
    t.claims = s.claims ∧ t.locks = s.locks ∧ t.documents = s.documents := by
  obtain ⟨-, -, rfl⟩ := enqueueJobTx_eq h
  exact ⟨rfl, rfl, rfl⟩

theorem requeue_frame (document workspaceId : Nat) (limit : Int) (eligibility : RequeueEligibility)
    (stamp : Int) :
    (requeueDocumentForReingest s document workspaceId limit eligibility stamp).claims = s.claims ∧
      (requeueDocumentForReingest s document workspaceId limit eligibility stamp).locks =
        s.locks := by
  rcases requeue_cases s document workspaceId limit eligibility stamp with
    he | ⟨d, u, -, -, -, he, hq⟩
  · rw [he]
    exact ⟨rfl, rfl⟩
  · rw [he]
    obtain ⟨hc, hl, -⟩ := enqueueJobTx_frame hq
    exact ⟨hc, hl⟩

theorem extendLease_frame {job : ClaimedJob} {worker : Nat} {stamp : Int}
    (h : extendLease config s job worker stamp = some t) :
    t.claims = s.claims ∧ t.locks = s.locks ∧ t.documents = s.documents := by
  rcases extendLease_cases h with rfl | ⟨j, lease, -, -, rfl⟩ <;> exact ⟨rfl, rfl, rfl⟩

theorem setStage_frame (job : ClaimedJob) (worker : Nat) (stage : Stage) (stamp : Int) :
    (setStageForOwner s job worker stage stamp).claims = s.claims ∧
      (setStageForOwner s job worker stage stamp).locks = s.locks ∧
      (setStageForOwner s job worker stage stamp).jobs = s.jobs := by
  unfold setStageForOwner
  split <;> simp

theorem claimJobs_frame {worker : Nat} {ids : List Nat} {stamp : Int}
    (h : claimJobs config s worker ids stamp = some t) :
    (∀ p ∈ s.claims, p ∈ t.claims) ∧ t.locks = s.locks ∧ s.nextToken ≤ t.nextToken := by
  have keep : ∀ u v id, ((∀ p ∈ s.claims, p ∈ u.claims) ∧ u.locks = s.locks ∧
      s.nextToken ≤ u.nextToken) → claimJob config worker stamp u id = some v →
      (∀ p ∈ s.claims, p ∈ v.claims) ∧ v.locks = s.locks ∧ s.nextToken ≤ v.nextToken := by
    intro u v id hu hv
    obtain ⟨j, -, -, -, -, rfl⟩ := claimJob_eq hv
    refine ⟨?_, hu.2.1, Nat.le_succ_of_le hu.2.2⟩
    intro p hp
    exact List.mem_cons_of_mem _ (hu.1 p hp)
  exact claimJobs_keeps keep ⟨fun p hp => hp, rfl, Nat.le_refl _⟩ h

/-- A call that takes a lock finds the row free. -/
theorem lockFor_cases {job : ClaimedJob} {tx : Tx} (h : lockFor s job tx = some t) :
    s.locks job.id = none ∧ t.claims = s.claims ∧
      t.locks = Function.update s.locks job.id (some tx) := by
  obtain ⟨hfree, h⟩ := Option.ite_none_right_eq_some.mp h
  cases Option.some.inj h
  exact ⟨by simpa using hfree, rfl, rfl⟩

theorem beginComplete_cases {job : ClaimedJob} {worker : Nat} {stamp : Int}
    (h : beginComplete s job worker stamp = some t) :
    (s.ownedLive job worker stamp = false ∧ t = s) ∨
      (s.ownedLive job worker stamp = true ∧
        lockFor s job (.complete job worker stamp) = some t) := by
  unfold beginComplete at h
  split at h
  next ho => exact .inr ⟨ho, h⟩
  next ho => exact .inl ⟨by simpa using ho, (Option.some.inj h).symm⟩

theorem beginFailure_cases {job : ClaimedJob} {worker : Nat} {failure : JobFailure} {stamp : Int}
    (h : beginFailure s job worker failure stamp = some t) :
    (s.ownedLive job worker stamp = false ∧ t = s) ∨
      (s.ownedLive job worker stamp = true ∧ ∃ attempts limit,
        lockFor s job (.failure job worker stamp failure attempts limit) = some t) := by
  unfold beginFailure at h
  split at h
  next j hj =>
    split at h
    next ho => exact .inr ⟨by simpa [State.ownedLive, hj] using ho, _, _, h⟩
    next ho =>
      exact .inl ⟨by simpa [State.ownedLive, hj] using ho, (Option.some.inj h).symm⟩
  next hn => exact .inl ⟨by simp [State.ownedLive, hn], (Option.some.inj h).symm⟩

theorem commit_frame {id : Nat} (hi : Inv s) (h : commit config s id = some t) :
    t.claims = s.claims ∧ t.locks = Function.update s.locks id none := by
  obtain ⟨job, worker, j, e, f, g, -, -, hj, -, -, -, rfl⟩ := commit_cases hi h
  simp [State.recordEnd, State.updateJob, State.unlock, State.setJob, hj]

/-- What a step does to the claims that were handed out and to the row locks. -/
inductive Frame (s t : State) : Act → Prop
  | kept {a} : (∀ p ∈ s.claims, p ∈ t.claims) → t.locks = s.locks → Frame s t a
  | locked {a id tx} : s.locks id = none → t.claims = s.claims →
      t.locks = Function.update s.locks id (some tx) → Frame s t a
  | committed {id} : t.claims = s.claims → t.locks = Function.update s.locks id none →
      Frame s t (.commit id)
  | rolledBack {id} : t.claims = s.claims → t.locks = Function.update s.locks id none →
      Frame s t (.rollback id)

theorem Frame.same {a : Act} (hc : t.claims = s.claims) (hl : t.locks = s.locks) : Frame s t a :=
  .kept (fun p hp => by rw [hc]; exact hp) hl

theorem step_frame {a : Act} (hi : Inv s) (h : step config s a = some t) : Frame s t a := by
  cases a with
  | tick secs =>
    cases Option.some.inj h
    exact .same rfl rfl
  | upload workspaceId stamp =>
    obtain ⟨-, h⟩ := Option.ite_none_right_eq_some.mp h
    unfold uploadDocument at h
    obtain ⟨hc, hl, -⟩ := enqueueJobTx_frame h
    exact .same hc hl
  | deleteDocument document =>
    simp only [step, deleteDocument] at h
    cases Option.some.inj (Option.ite_none_right_eq_some.mp h).2
    exact .same rfl rfl
  | claim worker ids stamp =>
    obtain ⟨hc, hl, -⟩ := claimJobs_frame (Option.ite_none_right_eq_some.mp h).2
    exact .kept hc hl
  | extendLease job worker stamp =>
    obtain ⟨hc, hl, -⟩ := extendLease_frame (Option.ite_none_right_eq_some.mp h).2
    exact .same hc hl
  | setStage job worker stage stamp =>
    cases Option.some.inj (Option.ite_none_right_eq_some.mp h).2
    obtain ⟨hc, hl, -⟩ := setStage_frame (s := s) job worker stage stamp
    exact .same hc hl
  | beginComplete job worker stamp =>
    rcases beginComplete_cases (Option.ite_none_right_eq_some.mp h).2 with ⟨-, rfl⟩ | ⟨-, hl⟩
    · exact .same rfl rfl
    · obtain ⟨hfree, hc, he⟩ := lockFor_cases hl
      exact .locked hfree hc he
  | beginFailure job worker failure stamp =>
    rcases beginFailure_cases (Option.ite_none_right_eq_some.mp h).2 with
      ⟨-, rfl⟩ | ⟨-, _, _, hl⟩
    · exact .same rfl rfl
    · obtain ⟨hfree, hc, he⟩ := lockFor_cases hl
      exact .locked hfree hc he
  | commit id =>
    obtain ⟨hc, hl⟩ := commit_frame hi h
    exact .committed hc hl
  | rollback id =>
    cases Option.some.inj (Option.ite_none_right_eq_some.mp h).2
    exact .rolledBack rfl rfl
  | requeue document workspaceId limit eligibility stamp =>
    cases Option.some.inj (Option.ite_none_right_eq_some.mp h).2
    obtain ⟨hc, hl⟩ := requeue_frame (s := s) document workspaceId limit eligibility stamp
    exact .same hc hl
  | recoverLegacy stamp =>
    cases Option.some.inj (Option.ite_none_right_eq_some.mp h).2
    exact .same rfl rfl
  | markMissing document workspaceId =>
    cases Option.some.inj h
    exact .same (updateDocument_claims ..) (updateDocument_locks ..)

theorem Frame.claims {a : Act} (h : Frame s t a) : ∀ p ∈ s.claims, p ∈ t.claims := by
  cases h with
  | kept hc _ => exact hc
  | locked _ hc _ => exact fun p hp => by rw [hc]; exact hp
  | committed hc _ => exact fun p hp => by rw [hc]; exact hp
  | rolledBack hc _ => exact fun p hp => by rw [hc]; exact hp

/-- Only a commit or a rollback gives a lock back, and only its own. -/
theorem Frame.locks {a : Act} (h : Frame s t a) {id : Nat} {tx : Tx}
    (notCommit : a ≠ .commit id) (notRollback : a ≠ .rollback id) (hl : s.locks id = some tx) :
    t.locks id = some tx := by
  cases h with
  | kept _ he => rw [he, hl]
  | locked hfree _ he =>
    rw [he, Function.update_of_ne, hl]
    rintro rfl
    rw [hfree] at hl
    cases hl
  | committed _ he =>
    rw [he, Function.update_of_ne, hl]
    rintro rfl
    exact notCommit rfl
  | rolledBack _ he =>
    rw [he, Function.update_of_ne, hl]
    rintro rfl
    exact notRollback rfl

/-- A row that is `PROCESSING` after a step is held by a new claim, or by the claim from before. -/
def HolderFrom (s : State) (id : Nat) (j' : Job) : Prop :=
  (∃ token, j'.claimToken = some token ∧ s.nextToken ≤ token) ∨
    ∃ j, s.jobs id = some j ∧ j.status = .processing ∧ j'.claimedBy = j.claimedBy ∧
      j'.claimToken = j.claimToken

theorem step_holder {a : Act} (hi : Inv s) (h : step config s a = some t) {id : Nat} {j' : Job}
    (hj : t.jobs id = some j') (hs : j'.status = .processing) : HolderFrom s id j' := by
  by_cases hclaim : ∃ worker ids stamp, a = .claim worker ids stamp
  · obtain ⟨worker, ids, stamp, rfl⟩ := hclaim
    have hc := (Option.ite_none_right_eq_some.mp h).2
    have keep : ∀ u v k, (s.nextToken ≤ u.nextToken ∧ ∀ i q, u.jobs i = some q →
        q.status = .processing → HolderFrom s i q) → claimJob config worker stamp u k = some v →
        s.nextToken ≤ v.nextToken ∧ ∀ i q, v.jobs i = some q → q.status = .processing →
          HolderFrom s i q := by
      rintro u v k ⟨hle, hu⟩ hv
      obtain ⟨j, -, -, -, -, rfl⟩ := claimJob_eq hv
      refine ⟨Nat.le_succ_of_le hle, ?_⟩
      intro i q hq hqs
      rcases setJob_cases (s := u) hq with ⟨-, rfl⟩ | ⟨-, hq⟩
      · exact .inl ⟨u.nextToken, rfl, hle⟩
      · exact hu i q hq hqs
    have start : ∀ i q, s.jobs i = some q → q.status = .processing → HolderFrom s i q :=
      fun i q hq hqs => .inr ⟨q, hq, hqs, rfl, rfl⟩
    exact (claimJobs_keeps keep ⟨Nat.le_refl _, start⟩ hc).2 id j' hj hs
  by_cases hcommit : ∃ k, a = .commit k
  · obtain ⟨k, rfl⟩ := hcommit
    obtain ⟨job, worker, j, e, f, g, -, -, hjob, -, hsettle, -, rfl⟩ := commit_cases hi h
    have hrow : ((s.unlock k).setJob job.id (f j)).jobs id = some j' := by
      simpa [State.recordEnd, State.updateJob, State.unlock, hjob] using hj
    rcases setJob_cases hrow with ⟨-, rfl⟩ | ⟨-, hq⟩
    · rw [hsettle.job_status] at hs
      cases e <;> cases hs
    · exact .inr ⟨j', hq, hs, rfl, rfl⟩
  · have hkeep := step_keepsRows h (fun worker ids stamp he => hclaim ⟨worker, ids, stamp, he⟩)
      (fun k he => hcommit ⟨k, he⟩)
    rcases hkeep id j' hj with ⟨j, hjs, hsame⟩ | ⟨hq, -⟩
    · exact .inr ⟨j, hjs, hsame.status ▸ hs, hsame.claimedBy, hsame.claimToken⟩
    · rw [hs] at hq
      cases hq

/-- A claim that lost its job never holds it again. -/
theorem step_owns {a : Act} (hi : Inv s) (h : step config s a = some t) {job : ClaimedJob}
    {worker : Nat} (hc : (job, worker) ∈ s.claims) (ho : Owns t job worker) :
    Owns s job worker := by
  obtain ⟨j', hj', ho⟩ := ho
  rw [ownedBy_iff] at ho
  have hlt : job.claimToken < s.nextToken := (hi.token_lt _ hc).1
  rcases step_holder hi h hj' ho.1 with ⟨token, htok, hle⟩ | ⟨j, hj, hs, hby, htok⟩
  · have := Option.some.inj (htok.symm.trans ho.2.2)
    omega
  · exact ⟨j, hj, ownedBy_iff.mpr ⟨hs, hby ▸ ho.2.1, htok ▸ ho.2.2⟩⟩

/-- Away from commits a document is completed only if it was, and its active jobs stay. -/
def KeepsSettled (s t : State) : Prop := ∀ d, Settled t d → Settled s d

theorem KeepsSettled.of (hdoc : ∀ k d, t.documents k = some d → d.status = .completed →
      ∃ d', s.documents k = some d' ∧ d'.status = .completed)
    (hact : ∀ k d, t.documents k = some d → ActiveOn s k → ActiveOn t k) : KeepsSettled s t := by
  rintro k ⟨⟨d, hd, hs⟩, hidle⟩
  exact ⟨hdoc k d hd hs, fun ha => hidle (hact k d hd ha)⟩

theorem KeepsSettled.of_tables (hjobs : t.jobs = s.jobs) (hdocs : t.documents = s.documents) :
    KeepsSettled s t :=
  .of (fun k d hd hs => ⟨d, hdocs ▸ hd, hs⟩) fun k d _ ha => by simpa only [ActiveOn, hjobs] using ha

theorem KeepsSettled.enqueue {u : State} {document workspaceId : Nat} {limit stamp : Int}
    (h : enqueueJobTx u document workspaceId limit stamp = some t) (hjobs : u.jobs = s.jobs)
    (fresh : ∀ id, u.nextJob ≤ id → u.jobs id = none)
    (hdoc : ∀ k d, u.documents k = some d → d.status = .completed → s.documents k = some d) :
    KeepsSettled s t := by
  obtain ⟨-, -, hdocs⟩ := enqueueJobTx_frame h
  refine .of (fun k d hd hs => ⟨d, hdoc k d (hdocs ▸ hd) hs, hs⟩) fun k d _ ha => ?_
  exact enqueue_activeOn h fresh (by simpa only [ActiveOn, hjobs] using ha)

theorem KeepsSettled.updateDocument {id workspaceId : Nat} {f : Document → Document}
    (hf : ∀ d, (f d).status = .completed → d.status = .completed) :
    KeepsSettled s (s.updateDocument id workspaceId f) := by
  refine .of ?_ fun k d _ ha => by simpa [ActiveOn] using ha
  intro k d hd hs
  rcases updateDocument_cases hd with ⟨d', rfl, hd', -, rfl⟩ | ⟨-, hd⟩
  · exact ⟨d', hd', hf d' hs⟩
  · exact ⟨d, hd, hs⟩

theorem step_keepsSettled {a : Act} (hi : Inv s) (h : step config s a = some t)
    (notCommit : ∀ id, a ≠ .commit id) : KeepsSettled s t := by
  cases a with
  | commit id => exact absurd rfl (notCommit id)
  | tick secs =>
    cases Option.some.inj h
    exact .of_tables rfl rfl
  | upload workspaceId stamp =>
    obtain ⟨-, h⟩ := Option.ite_none_right_eq_some.mp h
    unfold uploadDocument at h
    refine .enqueue h rfl hi.jobs_fresh ?_
    intro k d hd hs
    by_cases hk : k = s.nextDocument
    · subst hk
      simp only [State.setDocument, Function.update_self, Option.some.injEq] at hd
      subst hd
      cases hs
    · simpa [State.setDocument, hk] using hd
  | deleteDocument document =>
    simp only [step, deleteDocument] at h
    cases Option.some.inj (Option.ite_none_right_eq_some.mp h).2
    have hne : ∀ k d, Function.update s.documents document none k = some d → k ≠ document := by
      rintro k d hd rfl
      simp at hd
    refine .of ?_ ?_
    · intro k d hd hs
      exact ⟨d, by simpa [hne k d hd] using hd, hs⟩
    · rintro k d hd ⟨i, j, hj, hjd, hja⟩
      have hjk : j.documentId ≠ document := hjd ▸ hne k d hd
      exact ⟨i, j, by simp [hj, Option.filter, hjk], hjd, hja⟩
  | claim worker ids stamp =>
    have hc := (Option.ite_none_right_eq_some.mp h).2
    obtain ⟨-, hdoc, -⟩ := claimJobs_rows hc
    exact .of (fun k d hd hs => ⟨d, hdoc ▸ hd, hs⟩) fun k _ _ => (claim_activeOn hc k).mpr
  | extendLease job worker stamp =>
    have hl := (Option.ite_none_right_eq_some.mp h).2
    obtain ⟨-, -, hdoc⟩ := extendLease_frame hl
    exact .of (fun k d hd hs => ⟨d, hdoc ▸ hd, hs⟩) fun k _ _ => (extendLease_activeOn hl k).mpr
  | setStage job worker stage stamp =>
    cases Option.some.inj (Option.ite_none_right_eq_some.mp h).2
    unfold setStageForOwner
    split
    · exact .updateDocument fun _ hs => hs
    · exact .of_tables rfl rfl
  | beginComplete job worker stamp =>
    obtain ⟨hj, hd⟩ := beginComplete_tables (Option.ite_none_right_eq_some.mp h).2
    exact .of_tables hj hd
  | beginFailure job worker failure stamp =>
    obtain ⟨hj, hd⟩ := beginFailure_tables (Option.ite_none_right_eq_some.mp h).2
    exact .of_tables hj hd
  | rollback id =>
    cases Option.some.inj (Option.ite_none_right_eq_some.mp h).2
    exact .of_tables rfl rfl
  | requeue document workspaceId limit eligibility stamp =>
    cases Option.some.inj (Option.ite_none_right_eq_some.mp h).2
    rcases requeue_cases s document workspaceId limit eligibility stamp with
      he | ⟨d, u, -, -, -, he, hq⟩
    · rw [he]
      exact .of_tables rfl rfl
    · rw [he]
      refine .enqueue hq rfl hi.jobs_fresh ?_
      intro k e hk hs
      by_cases hkd : k = document
      · subst hkd
        simp only [State.setDocument, Function.update_self, Option.some.injEq] at hk
        subst hk
        cases hs
      · simpa [State.setDocument, hkd] using hk
  | recoverLegacy stamp =>
    cases Option.some.inj (Option.ite_none_right_eq_some.mp h).2
    refine .of ?_ fun k d _ ha => ha
    intro k d hd hs
    obtain ⟨d', hd', rfl⟩ := Option.map_eq_some_iff.mp hd
    refine ⟨d', hd', ?_⟩
    split at hs
    · cases hs
    · exact hs
  | markMissing document workspaceId =>
    cases Option.some.inj h
    refine .updateDocument fun d hs => ?_
    split at hs
    · cases hs
    · exact hs

/-- The end of a claim settles no document but its own, and that one only by success. -/
theorem finish_settled {id : Nat} {job : ClaimedJob} {worker : Nat} {j : Job} {e : JobEnd}
    {f : Job → Job} {g : Document → Document} (hi : Inv s) (hc : (job, worker) ∈ s.claims)
    (hj : s.jobs job.id = some j) (hsettle : Settles e f g) {d : Nat}
    (ht : Settled ((((s.unlock id).updateJob job.id f).updateDocument job.documentId
      job.workspaceId g).recordEnd job e) d) :
    (d ≠ job.documentId ∧ Settled s d) ∨ (d = job.documentId ∧ e = .succeeded) := by
  obtain ⟨hcd, hcw⟩ : job.documentId = j.documentId ∧ job.workspaceId = j.workspaceId :=
    hi.claim_job _ hc j hj
  have hup : (s.unlock id).updateJob job.id f = (s.unlock id).setJob job.id (f j) := by
    simp [State.updateJob, State.unlock, hj]
  obtain ⟨⟨doc, hdoc, hs⟩, hidle⟩ := ht
  simp only [State.recordEnd, hup] at hdoc
  rcases updateDocument_cases hdoc with ⟨d', rfl, -, -, rfl⟩ | ⟨hne, hd⟩
  · refine .inr ⟨rfl, ?_⟩
    rw [(hsettle.document_status d').1] at hs
    cases e <;> first | rfl | cases hs
  · have hkd : d ≠ job.documentId := by
      rcases hne with hne | hne
      · exact hne
      · obtain ⟨d', hd', hw⟩ := hi.job_document _ j hj
        exact absurd (by rw [hw, hcw]) (hne d' (by rw [hcd]; exact hd'))
    refine .inl ⟨hkd, ⟨doc, hd, hs⟩, ?_⟩
    rintro ⟨i, q, hq, hqd, hqa⟩
    have hij : i ≠ job.id := by
      rintro rfl
      cases Option.some.inj (hq.symm.trans hj)
      exact hkd (hqd.symm.trans hcd.symm)
    refine hidle ⟨i, q, ?_, hqd, hqa⟩
    simpa [State.recordEnd, State.updateJob, State.setJob, State.unlock, hj, hij] using hq

/-- A document is settled by the commit of a completed job, and by nothing else. -/
theorem commit_settled {id : Nat} (hi : Inv s) (h : commit config s id = some t) {d : Nat}
    (ht : Settled t d) : Settled s d ∨ ∃ job worker stamp,
      s.locks id = some (.complete job worker stamp) ∧ d = job.documentId := by
  unfold commit at h
  split at h
  next job worker stamp htx =>
    obtain ⟨hid, hc, j, hj, -, -⟩ := hi.locked id _ htx
    obtain ⟨f, g, hsettle, heq⟩ := commitComplete_settles (s.unlock id) job
    rw [← Option.some.inj h, heq] at ht
    rcases finish_settled hi hc (hid.symm ▸ hj) hsettle ht with ⟨-, hs⟩ | ⟨hd, -⟩
    · exact .inl hs
    · exact .inr ⟨job, worker, stamp, htx, hd⟩
  next job worker stamp failure attempts limit htx =>
    obtain ⟨hid, hc, j, hj, ho, hread⟩ := hi.locked id _ htx
    obtain ⟨rfl, rfl⟩ := hread job worker stamp failure attempts limit rfl
    obtain ⟨e, f, g, hsettle, -, hne, heq⟩ := @commitFailure_settles config (s.unlock id) job stamp
      failure j (hi.wellFormed id j hj) (ownedBy_iff.mp ho).1
    rw [← Option.some.inj h, heq] at ht
    rcases finish_settled hi hc (hid.symm ▸ hj) hsettle ht with ⟨-, hs⟩ | ⟨-, he⟩
    · exact .inl hs
    · exact absurd he hne
  next => cases h

end Frames

end GmragApi.Ingestion

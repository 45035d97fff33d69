import GmragApi.AttemptBound

/-! The status of a document against its jobs. -/

namespace GmragApi.Ingestion

open Transition

def ActiveOn (s : State) (document : Nat) : Prop :=
  ∃ id j, s.jobs id = some j ∧ j.documentId = document ∧ j.status.active = true

/-- A document is `PROCESSING` exactly when it has an active job, and it has at most one. -/
structure StatusesAgree (s : State) : Prop where
  one : ∀ i k j j', s.jobs i = some j → s.jobs k = some j' → j.status.active = true →
    j'.status.active = true → j.documentId = j'.documentId → i = k
  processing : ∀ id d, s.documents id = some d → (d.status = .processing ↔ ActiveOn s id)

/-- `mark_missing_documents_as_failed` meets no document that is still `PROCESSING`. -/
def MarksSettled (s : State) : Act → Prop
  | .markMissing document workspaceId =>
    ∀ d, s.documents document = some d → d.workspaceId = workspaceId → d.status ≠ .processing
  | _ => True

section Agree

variable {config : WorkerConfig} {s t : State}

theorem activeOn_of_rows (h : ∀ id j', t.jobs id = some j' → j'.status.active = true →
    ∃ j, s.jobs id = some j ∧ j'.documentId = j.documentId ∧ j.status.active = true) {d : Nat}
    (hd : ActiveOn t d) : ActiveOn s d := by
  obtain ⟨id, j', hj', hdoc, ha⟩ := hd
  obtain ⟨j, hj, hsame, hact⟩ := h id j' hj' ha
  exact ⟨id, j, hj, hsame.symm.trans hdoc, hact⟩

theorem setJob_jobs_self (s : State) (id : Nat) (j : Job) : (s.setJob id j).jobs id = some j := by
  simp [State.setJob]

/-- A step that keeps every document's status and the set of documents with an active job. -/
theorem agree_of_same (ha : StatusesAgree s)
    (hdoc : ∀ id d, t.documents id = some d → ∃ d', s.documents id = some d' ∧ d'.status = d.status)
    (hact : ∀ d, ActiveOn t d ↔ ActiveOn s d) :
    ∀ id d, t.documents id = some d → (d.status = .processing ↔ ActiveOn t id) := by
  intro id d hd
  obtain ⟨d', hd', hs⟩ := hdoc id d hd
  rw [hact, ← hs]
  exact ha.processing id d' hd'

theorem updateDocument_cases {id workspaceId k : Nat} {f : Document → Document} {d : Document}
    (h : (s.updateDocument id workspaceId f).documents k = some d) :
    (∃ d', k = id ∧ s.documents id = some d' ∧ d'.workspaceId = workspaceId ∧ d = f d') ∨
      ((k ≠ id ∨ ∀ d', s.documents id = some d' → d'.workspaceId ≠ workspaceId) ∧
        s.documents k = some d) := by
  unfold State.updateDocument at h
  split at h
  next d' hd' =>
    split at h
    next hw =>
      by_cases hk : k = id
      · subst hk
        refine .inl ⟨d', rfl, hd', hw, ?_⟩
        simpa [State.setDocument] using h.symm
      · exact .inr ⟨.inl hk, by simpa [State.setDocument, hk] using h⟩
    next hw =>
      refine .inr ⟨.inr ?_, h⟩
      intro e he
      cases Option.some.inj (hd'.symm.trans he)
      exact hw
  next hn =>
    refine .inr ⟨.inr ?_, h⟩
    intro e he
    rw [hn] at he
    cases he

theorem claim_activeOn {worker : Nat} {ids : List Nat} {stamp : Int}
    (h : claimJobs config s worker ids stamp = some t) (d : Nat) : ActiveOn t d ↔ ActiveOn s d := by
  obtain ⟨hrest, -, hids⟩ := claimJobs_rows h
  constructor
  · refine activeOn_of_rows ?_
    intro k q hq hqa
    by_cases hk : k ∈ ids
    · obtain ⟨j, token, hj, hcl, ht⟩ := hids k hk
      cases Option.some.inj (hq.symm.trans ht)
      exact ⟨j, hj, rfl, claimable_active hcl⟩
    · exact ⟨q, hrest k hk ▸ hq, rfl, hqa⟩
  · refine activeOn_of_rows ?_
    intro k q hq hqa
    by_cases hk : k ∈ ids
    · obtain ⟨j, token, hj, hcl, ht⟩ := hids k hk
      cases Option.some.inj (hq.symm.trans hj)
      exact ⟨_, ht, rfl, rfl⟩
    · exact ⟨q, (hrest k hk).trans hq, rfl, hqa⟩

theorem claim_agree {worker : Nat} {ids : List Nat} {stamp : Int} (ha : StatusesAgree s)
    (h : claimJobs config s worker ids stamp = some t) :
    ∀ id d, t.documents id = some d → (d.status = .processing ↔ ActiveOn t id) := by
  obtain ⟨-, hdoc, -⟩ := claimJobs_rows h
  exact agree_of_same ha (fun id d hd => ⟨d, hdoc ▸ hd, rfl⟩) (claim_activeOn h)

theorem extendLease_activeOn {job : ClaimedJob} {worker : Nat} {stamp : Int}
    (h : extendLease config s job worker stamp = some t) (d : Nat) :
    ActiveOn t d ↔ ActiveOn s d := by
  rcases extendLease_cases h with rfl | ⟨j, lease, hj, -, rfl⟩
  · exact Iff.rfl
  constructor
  · refine activeOn_of_rows ?_
    intro k q hq hqa
    rcases setJob_cases hq with ⟨rfl, rfl⟩ | ⟨-, hq⟩
    · exact ⟨j, hj, rfl, hqa⟩
    · exact ⟨q, hq, rfl, hqa⟩
  · refine activeOn_of_rows ?_
    intro k q hq hqa
    by_cases hk : k = job.id
    · subst hk
      cases Option.some.inj (hq.symm.trans hj)
      exact ⟨_, setJob_jobs_self s job.id _, rfl, hqa⟩
    · exact ⟨q, by simpa [State.setJob, hk] using hq, rfl, hqa⟩

theorem extendLease_agree {job : ClaimedJob} {worker : Nat} {stamp : Int} (ha : StatusesAgree s)
    (h : extendLease config s job worker stamp = some t) :
    ∀ id d, t.documents id = some d → (d.status = .processing ↔ ActiveOn t id) := by
  have hdoc : t.documents = s.documents := by
    rcases extendLease_cases h with rfl | ⟨j, lease, -, -, rfl⟩ <;> rfl
  exact agree_of_same ha (fun id d hd => ⟨d, hdoc ▸ hd, rfl⟩) (extendLease_activeOn h)

theorem setStage_agree {job : ClaimedJob} {worker : Nat} {stage : Stage} {stamp : Int}
    (ha : StatusesAgree s) : ∀ id d,
      (setStageForOwner s job worker stage stamp).documents id = some d →
      (d.status = .processing ↔ ActiveOn (setStageForOwner s job worker stage stamp) id) := by
  unfold setStageForOwner
  split
  next =>
    refine agree_of_same ha ?_ fun d => by simp [ActiveOn]
    intro id d hd
    rcases updateDocument_cases hd with ⟨d', rfl, hd', -, rfl⟩ | ⟨-, hd⟩
    · exact ⟨d', hd', rfl⟩
    · exact ⟨d, hd, rfl⟩
  next => exact ha.processing

theorem commit_agree {id : Nat} (hi : Inv s) (ha : StatusesAgree s)
    (h : commit config s id = some t) :
    ∀ id d, t.documents id = some d → (d.status = .processing ↔ ActiveOn t id) := by
  obtain ⟨job, worker, j, e, f, g, hc, -, hj, ho, hsettle, -, rfl⟩ := commit_cases hi h
  have hjs := (ownedBy_iff.mp ho).1
  obtain ⟨hcd, hcw⟩ := hi.claim_job _ hc j hj
  simp only at hcd hcw
  obtain ⟨hdk, -, -, -⟩ := hsettle.job_keeps j
  have hup : (s.unlock id).updateJob job.id f = (s.unlock id).setJob job.id (f j) := by
    simp [State.updateJob, State.unlock, hj]
  intro k d hd
  have hact : ActiveOn ((((s.unlock id).updateJob job.id f).updateDocument job.documentId
      job.workspaceId g).recordEnd job e) k ↔ ActiveOn ((s.unlock id).setJob job.id (f j)) k := by
    simp [ActiveOn, State.recordEnd, hup]
  rw [hact]
  simp only [State.recordEnd, hup] at hd
  rcases updateDocument_cases hd with ⟨d', rfl, hd', -, rfl⟩ | ⟨hne, hd⟩
  · -- the job's own document: no other job of it is active
    rw [(hsettle.document_status d').1]
    constructor
    · intro he
      refine ⟨job.id, f j, setJob_jobs_self _ job.id _, by rw [hdk, hcd], ?_⟩
      rw [hsettle.job_status]
      cases e <;> first | rfl | cases he
    · rintro ⟨i, q, hq, hqd, hqa⟩
      rcases setJob_cases hq with ⟨-, rfl⟩ | ⟨hi', hq⟩
      · rw [hsettle.job_status] at hqa
        cases e <;> first | rfl | cases hqa
      · have := ha.one i job.id q j hq hj hqa (by rw [hjs]; rfl) (by rw [hqd, hcd])
        exact absurd this hi'
  · have hkd : k ≠ job.documentId := by
      rcases hne with hne | hne
      · exact hne
      · obtain ⟨d', hd', hw⟩ := hi.job_document _ j hj
        exact absurd (by rw [hw, hcw]) (hne d' (by rw [hcd]; exact hd'))
    have hs : s.documents k = some d := hd
    rw [ha.processing k d hs]
    constructor
    · rintro ⟨i, q, hq, hqd, hqa⟩
      have hij : i ≠ job.id := by
        rintro rfl
        cases Option.some.inj (hq.symm.trans hj)
        exact hkd (hqd.symm.trans hcd.symm)
      exact ⟨i, q, by simpa [State.setJob, State.unlock, hij] using hq, hqd, hqa⟩
    · rintro ⟨i, q, hq, hqd, hqa⟩
      rcases setJob_cases hq with ⟨-, rfl⟩ | ⟨-, hq⟩
      · exact absurd (by rw [← hqd, hdk, hcd]) hkd
      · exact ⟨i, q, hq, hqd, hqa⟩

/-- A new job takes no place of an older one. -/
theorem enqueue_activeOn {document workspaceId : Nat} {limit stamp : Int}
    (h : enqueueJobTx s document workspaceId limit stamp = some t)
    (fresh : ∀ id, s.nextJob ≤ id → s.jobs id = none) {d : Nat} (hd : ActiveOn s d) :
    ActiveOn t d := by
  obtain ⟨-, -, rfl⟩ := enqueueJobTx_eq h
  obtain ⟨i, j, hj, hjd, hja⟩ := hd
  have hi : i ≠ s.nextJob := by
    rintro rfl
    rw [fresh _ (Nat.le_refl _)] at hj
    cases hj
  exact ⟨i, j, by simpa [State.setJob, hi] using hj, hjd, hja⟩

/-- A new job for a document that is `PROCESSING` without one. -/
theorem enqueue_agree {document workspaceId : Nat} {limit stamp : Int} {d : Document}
    (h : enqueueJobTx s document workspaceId limit stamp = some t)
    (fresh : ∀ id, s.nextJob ≤ id → s.jobs id = none)
    (hother : ∀ id d, id ≠ document → s.documents id = some d →
      (d.status = .processing ↔ ActiveOn s id))
    (hd : s.documents document = some d) (hs : d.status = .processing) :
    ∀ id d, t.documents id = some d → (d.status = .processing ↔ ActiveOn t id) := by
  have kept : ∀ k, ActiveOn s k → ActiveOn t k := fun k hk => enqueue_activeOn h fresh hk
  obtain ⟨-, -, rfl⟩ := enqueueJobTx_eq h
  intro k q hq
  by_cases hk : k = document
  · subst hk
    cases Option.some.inj (hd.symm.trans hq)
    exact iff_of_true hs ⟨s.nextJob, _, setJob_jobs_self s s.nextJob _, rfl, rfl⟩
  · rw [hother k q hk hq]
    refine ⟨kept k, ?_⟩
    rintro ⟨i, j, hj, hjd, hja⟩
    rcases setJob_cases (s := s) hj with ⟨-, rfl⟩ | ⟨-, hj⟩
    · exact absurd hjd.symm hk
    · exact ⟨i, j, hj, hjd, hja⟩

theorem upload_agree {workspaceId : Nat} {stamp : Int} (hi : Inv s) (ha : StatusesAgree s)
    (h : uploadDocument config s workspaceId stamp = some t) :
    ∀ id d, t.documents id = some d → (d.status = .processing ↔ ActiveOn t id) := by
  unfold uploadDocument at h
  refine enqueue_agree h hi.jobs_fresh ?_ (Function.update_self ..) rfl
  intro k d hk hd
  refine ha.processing k d ?_
  simpa [State.setDocument, hk] using hd

theorem requeue_agree (hi : Inv s) (ha : StatusesAgree s) (document workspaceId : Nat) (limit : Int)
    (eligibility : RequeueEligibility) (stamp : Int) :
    let t := requeueDocumentForReingest s document workspaceId limit eligibility stamp
    ∀ id d, t.documents id = some d → (d.status = .processing ↔ ActiveOn t id) := by
  intro t
  rcases requeue_cases s document workspaceId limit eligibility stamp with
    he | ⟨d, u, hd, -, -, he, hq⟩
  · simp only [t, he]
    exact ha.processing
  · simp only [t, he]
    have hread : (s.setDocument document d.reset).documents document = some d.reset := by
      simp [State.setDocument]
    refine enqueue_agree hq hi.jobs_fresh ?_ hread rfl
    intro k e hk he
    refine ha.processing k e ?_
    simpa [State.setDocument, hk] using he

theorem recoverLegacy_agree (hi : Inv s) (ha : StatusesAgree s) (stamp : Int) :
    ∀ id d, (recoverLegacyProcessingDocuments s stamp).documents id = some d →
      (d.status = .processing ↔ ActiveOn (recoverLegacyProcessingDocuments s stamp) id) := by
  intro k d hd
  obtain ⟨d', hd', rfl⟩ := Option.map_eq_some_iff.mp hd
  have hold := ha.processing k d' hd'
  have hact := hasActiveJob_iff hi.jobs_fresh (d := k)
  change _ ↔ ActiveOn s k
  split
  next hg =>
    have := hact.mpr (hold.mp hg.1)
    rw [hg.2] at this
    cases this
  next => exact hold

theorem deleteDocument_agree {document : Nat} (ha : StatusesAgree s)
    (h : deleteDocument s document = some t) :
    ∀ id d, t.documents id = some d → (d.status = .processing ↔ ActiveOn t id) := by
  obtain ⟨-, h⟩ := Option.ite_none_right_eq_some.mp h
  cases Option.some.inj h
  intro k d hd
  have hk : k ≠ document := by
    rintro rfl
    simp at hd
  rw [ha.processing k d (by simpa [hk] using hd)]
  constructor
  · rintro ⟨i, j, hj, rfl, hja⟩
    exact ⟨i, j, by simp [hj, Option.filter, hk], rfl, hja⟩
  · rintro ⟨i, j, hj, hjd, hja⟩
    exact ⟨i, j, (Option.filter_eq_some_iff.mp hj).1, hjd, hja⟩

theorem markMissing_agree {document workspaceId : Nat} (ha : StatusesAgree s)
    (ho : MarksSettled s (.markMissing document workspaceId)) :
    ∀ id d, (markMissingDocumentAsFailed s document workspaceId).documents id = some d →
      (d.status = .processing ↔ ActiveOn (markMissingDocumentAsFailed s document workspaceId) id) := by
  refine agree_of_same ha ?_ fun d => by simp [ActiveOn, markMissingDocumentAsFailed]
  intro k d hd
  rcases updateDocument_cases hd with ⟨d', rfl, hd', hw, rfl⟩ | ⟨-, hd⟩
  · refine ⟨d', hd', ?_⟩
    rw [if_neg (ho d' hd' hw)]
  · exact ⟨d, hd, rfl⟩

theorem step_agree {a : Act} (hi : Inv s) (ha : StatusesAgree s) (ho : MarksSettled s a)
    (h : step config s a = some t) : StatusesAgree t := by
  refine ⟨(step_inv hi h).one_active, ?_⟩
  cases a with
  | tick secs =>
    cases Option.some.inj h
    exact ha.processing
  | upload workspaceId stamp => exact upload_agree hi ha (Option.ite_none_right_eq_some.mp h).2
  | deleteDocument document => exact deleteDocument_agree ha h
  | claim worker ids stamp => exact claim_agree ha (Option.ite_none_right_eq_some.mp h).2
  | extendLease job worker stamp =>
    exact extendLease_agree ha (Option.ite_none_right_eq_some.mp h).2
  | setStage job worker stage stamp =>
    cases Option.some.inj (Option.ite_none_right_eq_some.mp h).2
    exact setStage_agree ha
  | beginComplete job worker stamp =>
    obtain ⟨hj, hd⟩ := beginComplete_tables (Option.ite_none_right_eq_some.mp h).2
    simpa only [ActiveOn, hj, hd] using ha.processing
  | beginFailure job worker failure stamp =>
    obtain ⟨hj, hd⟩ := beginFailure_tables (Option.ite_none_right_eq_some.mp h).2
    simpa only [ActiveOn, hj, hd] using ha.processing
  | commit id => exact commit_agree hi ha h
  | rollback id =>
    cases Option.some.inj (Option.ite_none_right_eq_some.mp h).2
    exact ha.processing
  | requeue document workspaceId limit eligibility stamp =>
    cases Option.some.inj (Option.ite_none_right_eq_some.mp h).2
    exact requeue_agree hi ha document workspaceId limit eligibility stamp
  | recoverLegacy stamp =>
    cases Option.some.inj (Option.ite_none_right_eq_some.mp h).2
    exact recoverLegacy_agree hi ha stamp
  | markMissing document workspaceId =>
    cases Option.some.inj h
    exact markMissing_agree ha ho

theorem agree_marksSettled {a : Act} (ha : StatusesAgree s) (h : step config s a = some t)
    (hb : StatusesAgree t) : MarksSettled s a := by
  cases a with
  | markMissing document workspaceId =>
    cases Option.some.inj h
    intro d hd hw hs
    have hactive := (ha.processing document d hd).mp hs
    have hd' : (markMissingDocumentAsFailed s document workspaceId).documents document =
        some { d with status := .failed, processingStage := .done } := by
      simp [markMissingDocumentAsFailed, State.updateDocument, State.setDocument, hd, hw, hs]
    have hiff := hb.processing document _ hd'
    simp only [ActiveOn, markMissingDocumentAsFailed, updateDocument_jobs, reduceCtorEq,
      false_iff] at hiff
    exact hiff hactive
  | _ => trivial

/-- With agreeing statuses a failed document can be queued again. -/
theorem failed_document_requeues {document : Nat} {d : Document} {limit stamp : Int}
    (hi : Inv s) (ha : StatusesAgree s) (hd : s.documents document = some d)
    (hs : d.status = .failed) (hlim : 0 < limit) (hmax : limit ≤ i32Max)
    (eligibility : RequeueEligibility) :
    ActiveOn (requeueDocumentForReingest s document d.workspaceId limit eligibility stamp)
      document := by
  have hidle : s.hasActiveJob document = false := by
    rw [← Bool.not_eq_true, hasActiveJob_iff hi.jobs_fresh]
    intro hact
    have := (ha.processing document d hd).mpr hact
    rw [hs] at this
    cases this
  have hadm : eligibility.admits d.status = true := by
    rw [hs]
    cases eligibility <;> rfl
  have hidle' : ∀ e, (s.setDocument document e).hasActiveJob document = false := fun e => hidle
  simp only [requeueDocumentForReingest, hd, hadm, hidle, enqueueJobTx, hlim, hmax, hidle', and_self,
    if_true, Option.getD_some]
  exact ⟨s.nextJob, _, setJob_jobs_self _ _ _, rfl, rfl⟩

end Agree

theorem initial_agree (now : Int) : StatusesAgree (initial now) := by
  constructor
  · intro i k j j' hj
    cases hj
  · intro id d hd
    cases hd

theorem reach_agree {config : WorkerConfig} {now : Int} {s : State}
    (h : Reach (· = initial now) (step config) MarksSettled s) : StatusesAgree s := by
  induction h with
  | start hi =>
    subst hi
    exact initial_agree now
  | next hs ho hstep ih => exact step_agree (reach_inv hs) ih ho hstep

/-- The statuses of documents and jobs agree in all states of exactly those runs in which the
storage cleanup never fails a document that is still `PROCESSING`; while they agree, every failed
document can be queued again. -/
theorem ingestion_statuses_agree_iff (config : WorkerConfig) (now : Int) :
    (∀ as s, run (step config) (initial now) as = some s →
      (Always (step config) StatusesAgree (initial now) as ↔
        Meets (step config) MarksSettled (initial now) as)) ∧
    ∀ s, Reach (· = initial now) (step config) MarksSettled s →
      ∀ id d, s.documents id = some d → d.status = .failed →
        ∀ limit stamp eligibility, 0 < limit → limit ≤ i32Max →
          ActiveOn (requeueDocumentForReingest s id d.workspaceId limit eligibility stamp) id := by
  constructor
  · intro as s hr
    refine always_iff_meets ?_ ?_ ?_ (initial_inv now) (initial_agree now) hr
    · intro s t a hi h
      exact step_inv hi h
    · intro s t a hi ha ho h
      exact step_agree hi ha ho h
    · intro s t a _ ha h hb
      exact agree_marksSettled ha h hb
  · intro s hs id d hd hf limit stamp eligibility hlim hmax
    exact failed_document_requeues (reach_inv hs) (reach_agree hs) hd hf hlim hmax eligibility

def missingObjectRun : List Act := [.upload 7 0, .markMissing 0 7]

def failedRun : List Act :=
  [.upload 7 0, .claim 0 [0] 0,
    .beginFailure firstClaim 0 ⟨"UNSUPPORTED".toList, "unsupported file".toList, false⟩ 0, .commit 0]

theorem ingestion_statuses_agree_iff_failed :
    (∃ s, run (step sampleConfig) (initial 0) missingObjectRun = some s ∧
      (Always (step sampleConfig) StatusesAgree (initial 0) missingObjectRun ↔
        Meets (step sampleConfig) MarksSettled (initial 0) missingObjectRun)) ∧
    ∃ s, run (step sampleConfig) (initial 0) failedRun = some s ∧
      ActiveOn (requeueDocumentForReingest s 0 7 5 .failedOnly 9) 0 := by
  have hr : run (step sampleConfig) (initial 0) missingObjectRun = some
      ((run (step sampleConfig) (initial 0) missingObjectRun).getD (initial 0)) := rfl
  have hf : run (step sampleConfig) (initial 0) failedRun = some
      ((run (step sampleConfig) (initial 0) failedRun).getD (initial 0)) := rfl
  have hm : Meets (step sampleConfig) MarksSettled (initial 0) failedRun := by
    refine ⟨trivial, fun _ _ => ⟨trivial, fun _ _ => ⟨trivial, fun _ _ => ⟨trivial, ?_⟩⟩⟩⟩
    exact fun _ _ => trivial
  have h := ingestion_statuses_agree_iff sampleConfig 0
  refine ⟨⟨_, hr, h.1 _ _ hr⟩, _, hf, ?_⟩
  exact h.2 _ (Reach.of_run (.start rfl) hm hf) 0 _ rfl rfl 5 9 .failedOnly (by decide) (by decide)

def documentStatusOf (s : State) (id : Nat) : Option DocumentStatus :=
  (s.documents id).map Document.status

/-- The object of an upload is missing: its document is `FAILED` with a queued job, and refuses
to be queued again. -/
theorem missing_object_breaks_agreement :
    ∃ s, Reach (· = initial 0) (step sampleConfig) anyStep s ∧
      documentStatusOf s 0 = some .failed ∧ s.hasActiveJob 0 = true ∧
      requeueDocumentForReingest s 0 7 5 .failedOnly 9 = s := by
  have hr : run (step sampleConfig) (initial 0) missingObjectRun = some
      ((run (step sampleConfig) (initial 0) missingObjectRun).getD (initial 0)) := rfl
  exact ⟨_, Reach.of_free_run rfl hr, by decide, by decide, rfl⟩

end GmragApi.Ingestion

import GmragApi.OcrAuditSafety

/-! The code of a failed document, without which an audit cannot read it. -/

namespace GmragApi.OcrAudit

open Ingestion (DocumentStatus WorkerConfig)
open Transition

/-- A document that failed says with which code. -/
def FailureNamed (queue : Ingestion.State) : Prop :=
  ∀ id d, queue.documents id = some d → d.status = .failed → d.failureCode.isSome = true

section Queue

variable {config : WorkerConfig} {queue next : Ingestion.State}

theorem updateDocument_named {id workspaceId : Nat} {f : Ingestion.Document → Ingestion.Document}
    (hs : FailureNamed queue)
    (hf : ∀ d, (f d).status = .failed →
      (f d).failureCode.isSome = true ∨ d.status = .failed ∧ (f d).failureCode = d.failureCode) :
    FailureNamed (queue.updateDocument id workspaceId f) := by
  intro k d hd hfailed
  rcases Ingestion.updateDocument_cases hd with ⟨d', rfl, hd', -, rfl⟩ | ⟨-, hd⟩
  · rcases hf d' hfailed with hnamed | ⟨hbefore, hsame⟩
    · exact hnamed
    · rw [hsame]
      exact hs k d' hd' hbefore
  · exact hs k d hd hfailed

theorem updateJob_documents (id : Nat) (f : Ingestion.Job → Ingestion.Job) :
    (queue.updateJob id f).documents = queue.documents := by
  unfold Ingestion.State.updateJob
  split <;> rfl

theorem settle_named {job : Ingestion.ClaimedJob} {e : Ingestion.JobEnd}
    {f : Ingestion.Job → Ingestion.Job} {g : Ingestion.Document → Ingestion.Document}
    (hs : FailureNamed queue)
    (hg : ∀ d, (g d).status = .failed → (g d).failureCode.isSome = true) :
    FailureNamed (((queue.updateJob job.id f).updateDocument job.documentId job.workspaceId
      g).recordEnd job e) := by
  have hjob : FailureNamed (queue.updateJob job.id f) := by
    unfold FailureNamed
    rw [updateJob_documents]
    exact hs
  exact updateDocument_named hjob fun d hd => .inl (hg d hd)

theorem commit_named {id : Nat} (hs : FailureNamed queue)
    (h : Ingestion.commit config queue id = some next) : FailureNamed next := by
  have hunlocked : FailureNamed (queue.unlock id) := hs
  unfold Ingestion.commit at h
  split at h
  next =>
    cases Option.some.inj h
    exact settle_named hunlocked nofun
  next =>
    cases Option.some.inj h
    unfold Ingestion.commitFailure
    split
    next => exact settle_named hunlocked nofun
    next => exact settle_named hunlocked fun _ _ => rfl
  next => cases h

theorem setDocument_named {id : Nat} {d : Ingestion.Document} (hs : FailureNamed queue)
    (hd : d.status ≠ .failed) : FailureNamed (queue.setDocument id d) := by
  intro k found hfound hfailed
  simp only [Ingestion.State.setDocument] at hfound
  by_cases hk : k = id
  · subst hk
    rw [Function.update_self] at hfound
    cases Option.some.inj hfound
    exact absurd hfailed hd
  · rw [Function.update_of_ne hk] at hfound
    exact hs k found hfound hfailed

theorem enqueue_named {document workspaceId : Nat} {limit stamp : Int} (hs : FailureNamed queue)
    (h : Ingestion.enqueueJobTx queue document workspaceId limit stamp = some next) :
    FailureNamed next := by
  obtain ⟨-, -, rfl⟩ := Ingestion.enqueueJobTx_eq h
  exact hs

theorem requeue_named {document workspaceId : Nat} {limit stamp : Int}
    {eligibility : Ingestion.RequeueEligibility} (hs : FailureNamed queue) :
    FailureNamed (Ingestion.requeueDocumentForReingest queue document workspaceId limit eligibility
      stamp) := by
  rcases Ingestion.requeue_cases queue document workspaceId limit eligibility stamp with
    hsame | ⟨d, u, -, -, -, hnext, hjob⟩
  · rw [hsame]
    exact hs
  · rw [hnext]
    have hreset : d.reset.status ≠ .failed := by
      rw [Ingestion.Document.reset]
      intro hfailed
      cases hfailed
    exact enqueue_named (setDocument_named hs hreset) hjob

theorem step_named {a : Ingestion.Act} (hs : FailureNamed queue)
    (ho : Ingestion.MarksSettled queue a) (h : Ingestion.step config queue a = some next) :
    FailureNamed next := by
  cases a with
  | tick secs =>
    cases Option.some.inj h
    exact hs
  | upload workspaceId stamp =>
    obtain ⟨-, h⟩ := Option.ite_none_right_eq_some.mp h
    unfold Ingestion.uploadDocument at h
    refine enqueue_named ?_ h
    have hnew : FailureNamed (queue.setDocument queue.nextDocument
        ⟨workspaceId, .processing, .queued, none, none, none⟩) := setDocument_named hs nofun
    exact hnew
  | deleteDocument document =>
    obtain ⟨-, h⟩ := Option.ite_none_right_eq_some.mp h
    cases Option.some.inj h
    intro k d hd hfailed
    have hk : k ≠ document := by
      rintro rfl
      simp at hd
    exact hs k d (by simpa [hk] using hd) hfailed
  | claim worker ids stamp =>
    obtain ⟨-, h⟩ := Option.ite_none_right_eq_some.mp h
    obtain ⟨-, hdocuments, -⟩ := Ingestion.claimJobs_rows h
    unfold FailureNamed
    rw [hdocuments]
    exact hs
  | extendLease job worker stamp =>
    obtain ⟨-, h⟩ := Option.ite_none_right_eq_some.mp h
    rcases Ingestion.extendLease_cases h with rfl | ⟨j, lease, -, -, rfl⟩
    · exact hs
    · exact hs
  | setStage job worker stage stamp =>
    obtain ⟨-, h⟩ := Option.ite_none_right_eq_some.mp h
    cases Option.some.inj h
    unfold Ingestion.setStageForOwner
    split
    next => exact updateDocument_named hs fun d hd => .inr ⟨hd, rfl⟩
    next => exact hs
  | beginComplete job worker stamp =>
    obtain ⟨-, h⟩ := Option.ite_none_right_eq_some.mp h
    unfold FailureNamed
    rw [(Ingestion.beginComplete_tables h).2]
    exact hs
  | beginFailure job worker failure stamp =>
    obtain ⟨-, h⟩ := Option.ite_none_right_eq_some.mp h
    unfold FailureNamed
    rw [(Ingestion.beginFailure_tables h).2]
    exact hs
  | commit id => exact commit_named hs h
  | rollback id =>
    obtain ⟨-, h⟩ := Option.ite_none_right_eq_some.mp h
    cases Option.some.inj h
    exact hs
  | requeue document workspaceId limit eligibility stamp =>
    obtain ⟨-, h⟩ := Option.ite_none_right_eq_some.mp h
    cases Option.some.inj h
    exact requeue_named hs
  | recoverLegacy stamp =>
    obtain ⟨-, h⟩ := Option.ite_none_right_eq_some.mp h
    cases Option.some.inj h
    intro k d hd hfailed
    obtain ⟨d', hd', rfl⟩ := Option.map_eq_some_iff.mp hd
    split
    next => rfl
    next hgate =>
      rw [if_neg hgate] at hfailed
      exact hs k d' hd' hfailed
  | markMissing document workspaceId =>
    cases Option.some.inj h
    intro k d hd hfailed
    rcases Ingestion.updateDocument_cases hd with ⟨d', rfl, hd', hworkspace, rfl⟩ | ⟨-, hd⟩
    · rw [if_neg (ho d' hd' hworkspace)] at hfailed ⊢
      exact hs k d' hd' hfailed
    · exact hs k d hd hfailed

end Queue

section Begin

variable {options : OcrAuditOptions} {capability : OcrCapability} {check : ObjectPresenceCheck}
  {corpus : Corpus} {queue : Ingestion.State}

theorem isNeedsOcrTerminal_isSome {d : Ingestion.Document} :
    (isNeedsOcrTerminal d).isSome = true ↔ (d.status = .failed → d.failureCode.isSome = true) := by
  unfold isNeedsOcrTerminal
  split
  next code hcode => simp [hcode]
  next hcode => by_cases hfailed : d.status = .failed <;> simp [hcode, hfailed]

/-- The row of an affected document is read if its failure, if it has one, has a code. -/
theorem fetchRow_isSome {id : Nat} (h : affected options corpus queue id = true) :
    (fetchRow corpus queue id).isSome = true ↔
      ∀ d, queue.documents id = some d → d.status = .failed → d.failureCode.isSome = true := by
  obtain ⟨d, hd, h⟩ := (Option.any_eq_true _ _).mp h
  obtain ⟨tenantId, hworkspace, -⟩ := (Option.any_eq_true _ _).mp h
  simp [fetchRow, hd, hworkspace, isNeedsOcrTerminal_isSome]

theorem startRun_isSome :
    (startRun options capability check corpus queue).isSome = true ↔
      ∀ id ∈ affectedDocuments options corpus queue, ∀ d, queue.documents id = some d →
        d.status = .failed → d.failureCode.isSome = true := by
  rw [startRun, Option.isSome_map, loadCandidates, mapM_isSome_iff]
  exact forall₂_congr fun id hid => fetchRow_isSome (mem_affectedDocuments hid)

end Begin

/-- The storage cleanup fails no document that is still `PROCESSING`. -/
def CodesKept (s : State) : Act → Prop
  | .queue a => Ingestion.MarksSettled s.queue a
  | _ => True

section Audits

variable {config : WorkerConfig} {now : Int} {s t : State}

theorem step_audit_named {a : Act} (hs : FailureNamed s.queue) (ho : CodesKept s a)
    (h : step config s a = some t) : FailureNamed t.queue := by
  cases a with
  | queue a =>
    obtain ⟨queue, hqueue, rfl⟩ := Option.map_eq_some_iff.mp h
    exact step_named hs ho hqueue
  | write corpus =>
    cases Option.some.inj h
    exact hs
  | start options capability check =>
    obtain ⟨-, h⟩ := Option.ite_none_right_eq_some.mp h
    obtain ⟨run, -, rfl⟩ := Option.map_eq_some_iff.mp h
    exact hs
  | advance i call =>
    obtain ⟨run, -, hcall⟩ := advance_cases h
    rcases hcall with ⟨row, rest, reply, -, -, rfl⟩ | ⟨row, -, rfl | ⟨stamp, -, rfl⟩⟩
    · exact hs
    · exact hs
    · exact requeue_named hs

theorem reach_audit_named (h : Reach (Start now) (step config) CodesKept s) :
    FailureNamed s.queue := by
  refine h.invariant ?_ fun s t a hs ho hstep => step_audit_named hs ho hstep
  intro s hstart id d hd
  rw [hstart.1] at hd
  cases hd

theorem start_isSome {options : OcrAuditOptions} {capability : OcrCapability}
    {check : ObjectPresenceCheck} (hvalid : validateOptions options = true) :
    (step config s (.start options capability check)).isSome =
      (startRun options capability check s.corpus s.queue).isSome := by
  simp only [step, if_pos hvalid, Option.isSome_map]

end Audits

/-- An audit with valid options starts unless one of the documents it would read failed without a
code, so that none of its rows can be read. Documents fail so only where the storage cleanup fails
one that is still `PROCESSING`. -/
theorem audit_starts_iff_failures_named (config : WorkerConfig) (now : Int)
    (options : OcrAuditOptions) (capability : OcrCapability) (check : ObjectPresenceCheck)
    (hvalid : validateOptions options = true) :
    (∀ s, (step config s (.start options capability check)).isSome = true ↔
      ∀ id ∈ affectedDocuments options s.corpus s.queue, ∀ d, s.queue.documents id = some d →
        d.status = .failed → d.failureCode.isSome = true) ∧
    ∀ s, Reach (Start now) (step config) CodesKept s →
      (step config s (.start options capability check)).isSome = true := by
  have hiff : ∀ s, (step config s (.start options capability check)).isSome = true ↔
      ∀ id ∈ affectedDocuments options s.corpus s.queue, ∀ d, s.queue.documents id = some d →
        d.status = .failed → d.failureCode.isSome = true := by
    intro s
    rw [start_isSome hvalid]
    exact startRun_isSome
  refine ⟨hiff, fun s hs => (hiff s).mpr fun id _ d hd hfailed => ?_⟩
  exact reach_audit_named hs id d hd hfailed

/-- The object of an upload with a spoilt chunk is missing. -/
def cleanedState : State :=
  ⟨(run (Ingestion.step Ingestion.sampleConfig) (Ingestion.initial 0)
      [.upload 7 0, .markMissing 0 7]).getD (Ingestion.initial 0),
    { sampleCorpus with chunks := [(0, mockOcrMarker)] }, []⟩

theorem cleaned_affected :
    affectedDocuments sampleOptions cleanedState.corpus cleanedState.queue = [0] := by
  have hfilter : (List.range cleanedState.queue.nextDocument).filter
      (affected sampleOptions cleanedState.corpus cleanedState.queue) = [0] := by decide
  rw [affectedDocuments, hfilter, Query.orderBy, List.mergeSort_singleton]
  rfl

theorem audit_starts_iff_failures_named_cleaned :
    (step Ingestion.sampleConfig cleanedState (.start sampleOptions productionOcrCapability .skip))
        = none ∧
      (step Ingestion.sampleConfig spoiltState
        (.start sampleOptions productionOcrCapability .skip)).isSome = true := by
  have hvalid : validateOptions sampleOptions = true := by decide
  have hstarts := audit_starts_iff_failures_named Ingestion.sampleConfig 0 sampleOptions
    productionOcrCapability .skip hvalid
  constructor
  · refine Option.not_isSome_iff_eq_none.mp fun hstart => ?_
    have hnamed := (hstarts.1 cleanedState).mp hstart 0 (by rw [cleaned_affected]; decide) _ rfl rfl
    cases hnamed
  · have hmeets : Meets (step Ingestion.sampleConfig) CodesKept sampleState
        (needsOcrRun.map .queue) := by
      refine ⟨trivial, fun _ _ => ⟨trivial, fun _ _ => ⟨trivial, fun _ _ => ⟨trivial, ?_⟩⟩⟩⟩
      exact fun _ _ => trivial
    have hrun : run (step Ingestion.sampleConfig) sampleState (needsOcrRun.map .queue) =
        some spoiltState := rfl
    exact hstarts.2 spoiltState (Reach.of_run (.start ⟨rfl, rfl⟩) hmeets hrun)

end GmragApi.OcrAudit

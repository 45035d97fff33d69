import GmragApi.Indexing
import GmragApi.IngestionInvariant

/-! Which statements create and delete documents, and which calls write points. -/

namespace GmragApi.Ingestion

def State.workspaceOf (s : State) (document : Nat) : Option Nat :=
  (s.documents document).map Document.workspaceId

/-- No document comes, goes or changes its workspace. -/
structure SameHomes (s t : State) : Prop where
  workspaceOf : ∀ d, t.workspaceOf d = s.workspaceOf d
  nextDocument : t.nextDocument = s.nextDocument

section Homes

variable {config : WorkerConfig} {s t u : State}

theorem SameHomes.of_documents (hd : t.documents = s.documents)
    (hn : t.nextDocument = s.nextDocument) : SameHomes s t :=
  ⟨fun d => by rw [State.workspaceOf, State.workspaceOf, hd], hn⟩

theorem SameHomes.trans (h : SameHomes s t) (h' : SameHomes t u) : SameHomes s u :=
  ⟨fun d => (h'.workspaceOf d).trans (h.workspaceOf d), h'.nextDocument.trans h.nextDocument⟩

theorem SameHomes.setDocument {id : Nat} {d d' : Document} (hd : s.documents id = some d)
    (hw : d'.workspaceId = d.workspaceId) : SameHomes s (s.setDocument id d') := by
  refine ⟨fun k => ?_, rfl⟩
  by_cases hk : k = id
  · subst hk
    simp [State.workspaceOf, State.setDocument, hd, hw]
  · simp [State.workspaceOf, State.setDocument, hk]

theorem SameHomes.updateDocument (s : State) (id workspaceId : Nat) {f : Document → Document}
    (hf : ∀ d, (f d).workspaceId = d.workspaceId) :
    SameHomes s (s.updateDocument id workspaceId f) := by
  unfold State.updateDocument
  split
  · rename_i d hd
    split
    · exact .setDocument hd (hf d)
    · exact .of_documents rfl rfl
  · exact .of_documents rfl rfl

theorem updateJob_homes (s : State) (id : Nat) (f : Job → Job) :
    SameHomes s (s.updateJob id f) := by
  unfold State.updateJob
  split <;> exact .of_documents rfl rfl

theorem finish_homes (s : State) (job : ClaimedJob) (e : JobEnd) (f : Job → Job)
    {g : Document → Document} (hg : ∀ d, (g d).workspaceId = d.workspaceId) :
    SameHomes s (((s.updateJob job.id f).updateDocument job.documentId job.workspaceId g).recordEnd
      job e) :=
  ((updateJob_homes s job.id f).trans (.updateDocument _ _ _ hg)).trans (.of_documents rfl rfl)

theorem commit_homes {id : Nat} (h : commit config s id = some t) : SameHomes s t := by
  have unlocked : SameHomes s (s.unlock id) := .of_documents rfl rfl
  unfold commit at h
  split at h
  · cases Option.some.inj h
    exact unlocked.trans (finish_homes _ _ _ _ fun _ => rfl)
  · cases Option.some.inj h
    refine unlocked.trans ?_
    unfold commitFailure
    split
    · exact finish_homes _ _ _ _ fun _ => rfl
    · exact finish_homes _ _ _ _ fun _ => rfl
  · cases h

theorem enqueueJobTx_homes {document workspaceId : Nat} {limit stamp : Int}
    (h : enqueueJobTx s document workspaceId limit stamp = some t) : SameHomes s t := by
  obtain ⟨-, -, rfl⟩ := enqueueJobTx_eq h
  exact .of_documents rfl rfl

theorem claimJobs_homes {worker : Nat} {ids : List Nat} {stamp : Int}
    (h : claimJobs config s worker ids stamp = some t) : SameHomes s t := by
  refine claimJobs_keeps (P := SameHomes s) (fun u v id hu hv => ?_) (.of_documents rfl rfl) h
  obtain ⟨j, -, -, -, -, rfl⟩ := claimJob_eq hv
  exact hu.trans (.of_documents rfl rfl)

theorem lockFor_homes {job : ClaimedJob} {tx : Tx} (h : lockFor s job tx = some t) :
    SameHomes s t := by
  obtain ⟨-, h⟩ := Option.ite_none_right_eq_some.mp h
  cases Option.some.inj h
  exact .of_documents rfl rfl

theorem beginComplete_homes {job : ClaimedJob} {worker : Nat} {stamp : Int}
    (h : beginComplete s job worker stamp = some t) : SameHomes s t := by
  unfold beginComplete at h
  split at h
  · exact lockFor_homes h
  · cases Option.some.inj h
    exact .of_documents rfl rfl

theorem beginFailure_homes {job : ClaimedJob} {worker : Nat} {failure : JobFailure} {stamp : Int}
    (h : beginFailure s job worker failure stamp = some t) : SameHomes s t := by
  unfold beginFailure at h
  split at h
  · split at h
    · exact lockFor_homes h
    · cases Option.some.inj h
      exact .of_documents rfl rfl
  · cases Option.some.inj h
    exact .of_documents rfl rfl

/-- Documents are created by uploads and deleted by deletions. -/
def Act.keepsHomes : Act → Bool
  | upload _ _ => false
  | deleteDocument _ => false
  | _ => true

theorem step_homes {a : Act} (ha : a.keepsHomes = true) (h : step config s a = some t) :
    SameHomes s t := by
  cases a with
  | tick secs =>
    cases Option.some.inj h
    exact .of_documents rfl rfl
  | upload workspaceId stamp => cases ha
  | deleteDocument document => cases ha
  | claim worker ids stamp => exact claimJobs_homes (Option.ite_none_right_eq_some.mp h).2
  | extendLease job worker stamp =>
    rcases extendLease_cases (Option.ite_none_right_eq_some.mp h).2 with rfl | ⟨j, lease, -, -, rfl⟩
    · exact .of_documents rfl rfl
    · exact .of_documents rfl rfl
  | setStage job worker stage stamp =>
    cases Option.some.inj (Option.ite_none_right_eq_some.mp h).2
    unfold setStageForOwner
    split
    · exact .updateDocument _ _ _ fun _ => rfl
    · exact .of_documents rfl rfl
  | beginComplete job worker stamp =>
    exact beginComplete_homes (Option.ite_none_right_eq_some.mp h).2
  | beginFailure job worker failure stamp =>
    exact beginFailure_homes (Option.ite_none_right_eq_some.mp h).2
  | commit id => exact commit_homes h
  | rollback id =>
    cases Option.some.inj (Option.ite_none_right_eq_some.mp h).2
    exact .of_documents rfl rfl
  | requeue document workspaceId limit eligibility stamp =>
    cases Option.some.inj (Option.ite_none_right_eq_some.mp h).2
    rcases requeue_cases s document workspaceId limit eligibility stamp with
      he | ⟨d, u, hd, -, -, he, hq⟩
    · rw [he]
      exact .of_documents rfl rfl
    · rw [he]
      have hreset : SameHomes s (s.setDocument document d.reset) := .setDocument hd rfl
      exact hreset.trans (enqueueJobTx_homes hq)
  | recoverLegacy stamp =>
    cases Option.some.inj (Option.ite_none_right_eq_some.mp h).2
    refine ⟨fun d => ?_, rfl⟩
    simp only [State.workspaceOf, recoverLegacyProcessingDocuments, Option.map_map]
    congr 1
    funext e
    simp only [Function.comp_apply]
    split <;> rfl
  | markMissing document workspaceId =>
    cases Option.some.inj h
    refine .updateDocument _ _ _ fun d => ?_
    split <;> rfl

theorem upload_homes {workspaceId : Nat} {stamp : Int}
    (h : step config s (.upload workspaceId stamp) = some t) :
    (∀ d, t.workspaceOf d =
      if d = s.nextDocument then some workspaceId else s.workspaceOf d) ∧
      t.nextDocument = s.nextDocument + 1 := by
  obtain ⟨-, h⟩ := Option.ite_none_right_eq_some.mp h
  have hsame := enqueueJobTx_homes h
  refine ⟨fun d => (hsame.workspaceOf d).trans ?_, hsame.nextDocument⟩
  by_cases hd : d = s.nextDocument <;> simp [State.workspaceOf, State.setDocument, hd]

theorem delete_homes {document : Nat} (h : step config s (.deleteDocument document) = some t) :
    (∀ d, t.workspaceOf d = if d = document then none else s.workspaceOf d) ∧
      t.nextDocument = s.nextDocument := by
  cases Option.some.inj (Option.ite_none_right_eq_some.mp h).2
  refine ⟨fun d => ?_, rfl⟩
  by_cases hd : d = document <;> simp [State.workspaceOf, hd]

end Homes

end GmragApi.Ingestion

namespace GmragApi.Indexing

open Ingestion (ClaimedJob SameHomes WorkerConfig)

/-- The points that a task writes with its next call. -/
def upserted (s : State) : Act → Option (ClaimedJob × List Nat)
  | .advance i .done =>
    match s.tasks[i]? with
    | some ⟨job, _, .upserting points⟩ => some (job, points.take upsertBatchSize)
    | _ => none
  | _ => none

/-- Documents and points stay as they are, or points go. -/
structure Quiet (s t : State) : Prop where
  homes : SameHomes s.queue t.queue
  points : ∀ chunk d, t.output.points chunk = some d → s.output.points chunk = some d

section Points

variable {config : WorkerConfig} {s t u : State} {i : Nat} {task : Task}

theorem Quiet.of_tables (hq : t.queue = s.queue) (ho : t.output.points = s.output.points) :
    Quiet s t :=
  ⟨.of_documents (by rw [hq]) (by rw [hq]), fun _ _ h => ho ▸ h⟩

theorem Quiet.trans (h : Quiet s t) (h' : Quiet t u) : Quiet s u :=
  ⟨h.homes.trans h'.homes, fun c d hd => h.points c d (h'.points c d hd)⟩

theorem call_quiet {a : Ingestion.Act} (ha : a.keepsHomes = true)
    (h : s.call config a = some t) : Quiet s t := by
  obtain ⟨q, hq, rfl⟩ := Option.map_eq_some_iff.mp h
  exact ⟨Ingestion.step_homes ha hq, fun _ _ h => h⟩

theorem call_goto_quiet {a : Ingestion.Act} {phase : Phase} (ha : a.keepsHomes = true)
    (h : (s.call config a).map (fun u => u.goto i task phase) = some t) : Quiet s t := by
  obtain ⟨u, hu, rfl⟩ := Option.map_eq_some_iff.mp h
  exact (call_quiet ha hu).trans (.of_tables rfl rfl)

theorem leave_quiet {next : Phase} (h : s.leave config i task next = some t) : Quiet s t := by
  unfold State.leave at h
  split at h
  · exact call_goto_quiet rfl h
  · cases Option.some.inj h
    exact .of_tables rfl rfl

theorem fail_quiet {failure : Ingestion.JobFailure} (h : fail config s i task failure = some t) :
    Quiet s t := by
  unfold fail at h
  split at h <;> exact leave_quiet h

theorem heartbeat_quiet {stamp : Int} (h : heartbeat config s i task stamp = some t) :
    Quiet s t := by
  obtain ⟨-, h⟩ := Option.ite_none_right_eq_some.mp h
  obtain ⟨u, hu, h⟩ := Option.bind_eq_some_iff.mp h
  split at h
  · cases Option.some.inj h
    exact call_quiet rfl hu
  · exact leave_quiet h

theorem deletePoints_quiet (o : Output) (d chunk k : Nat)
    (h : (deletePointsByDocument o d).points chunk = some k) : o.points chunk = some k :=
  (Option.filter_eq_some_iff.mp h).1

/-- Only a call in the last phase before the end writes points. -/
theorem processDocument_quiet {reply : Reply} (hphase : ∀ points, task.phase ≠ .upserting points)
    (h : processDocument config s i task reply = some t) : Quiet s t := by
  unfold processDocument at h
  split at h
  all_goals first
    | exact call_goto_quiet rfl h
    | (cases Option.some.inj h; exact .of_tables rfl rfl)
    | skip
  · obtain ⟨-, h⟩ := Option.ite_none_right_eq_some.mp h
    cases Option.some.inj h
    exact .of_tables rfl rfl
  · obtain ⟨-, h⟩ := Option.ite_none_right_eq_some.mp h
    cases Option.some.inj h
    exact .of_tables rfl rfl
  · cases Option.some.inj h
    exact ⟨.of_documents rfl rfl, deletePoints_quiet _ _⟩
  · rename_i points _ _ hp
    exact absurd hp (hphase _)
  · cases h

theorem upserting_points {points : List Nat} {job : ClaimedJob} {worker : Nat} {reply : Reply}
    (h : processDocument config s i ⟨job, worker, .upserting points⟩ reply = some t) :
    reply = .done ∧ SameHomes s.queue t.queue ∧ ∀ chunk, t.output.points chunk =
      if chunk ∈ points.take upsertBatchSize then some job.documentId else s.output.points chunk := by
  cases reply with
  | done =>
    cases points with
    | nil =>
      cases h
      exact ⟨rfl, .of_documents rfl rfl, fun chunk => by simp [State.goto]⟩
    | cons point points =>
      cases h
      exact ⟨rfl, .of_documents rfl rfl, fun chunk => rfl⟩
  | _ => cases points <;> cases h

/-- A point is written for the document of its task, or it was there before. -/
def Writes (s t : State) (a : Act) : Prop :=
  ∀ chunk d, t.output.points chunk = some d →
    (∃ job batch, upserted s a = some (job, batch) ∧ chunk ∈ batch ∧ d = job.documentId) ∨
    (s.output.points chunk = some d ∧ ∀ job batch, upserted s a = some (job, batch) → chunk ∉ batch)

theorem Writes.of_quiet {a : Act} (h : ∀ chunk d, t.output.points chunk = some d →
    s.output.points chunk = some d) (ha : upserted s a = none) : Writes s t a :=
  fun chunk d hd => .inr ⟨h chunk d hd, fun _ _ hu => by rw [ha] at hu; cases hu⟩

theorem advance_writes {reply : Reply} (ht : s.tasks[i]? = some task)
    (h : processDocument config s i task reply = some t) :
    SameHomes s.queue t.queue ∧ Writes s t (.advance i reply) := by
  by_cases hphase : ∀ points, task.phase ≠ .upserting points
  · have hq := processDocument_quiet hphase h
    refine ⟨hq.homes, .of_quiet hq.points ?_⟩
    cases reply with
    | done =>
      simp only [upserted, ht]
      split
      · rename_i points heq
        cases Option.some.inj heq
        exact absurd rfl (hphase points)
      · rfl
    | _ => rfl
  · push Not at hphase
    obtain ⟨points, hpoints⟩ := hphase
    obtain ⟨job, worker, phase⟩ := task
    cases hpoints
    obtain ⟨rfl, hhomes, hout⟩ := upserting_points h
    have hup : upserted s (.advance i .done) = some (job, points.take upsertBatchSize) := by
      simp only [upserted, ht]
    refine ⟨hhomes, fun chunk d hd => ?_⟩
    rw [hout] at hd
    split at hd
    · rename_i hin
      exact .inl ⟨job, _, hup, hin, (Option.some.inj hd).symm⟩
    · rename_i hout
      refine .inr ⟨hd, fun job' batch hu => ?_⟩
      rw [hup] at hu
      cases Option.some.inj hu
      exact hout

theorem step_writes {a : Act} (h : step config s a = some t) : Writes s t a := by
  cases a with
  | queue b =>
    obtain ⟨-, h⟩ := Option.ite_none_right_eq_some.mp h
    obtain ⟨u, hu, rfl⟩ := Option.map_eq_some_iff.mp h
    obtain ⟨q, -, rfl⟩ := Option.map_eq_some_iff.mp hu
    refine .of_quiet ?_ rfl
    cases b <;> exact fun _ _ h => h
  | spawn job worker =>
    obtain ⟨-, h⟩ := Option.ite_none_right_eq_some.mp h
    cases Option.some.inj h
    exact .of_quiet (fun _ _ h => h) rfl
  | advance i reply =>
    obtain ⟨task, ht, h⟩ := Option.bind_eq_some_iff.mp h
    exact (advance_writes ht h).2
  | heartbeat i stamp =>
    obtain ⟨task, -, h⟩ := Option.bind_eq_some_iff.mp h
    exact .of_quiet (heartbeat_quiet h).points rfl
  | fail i failure =>
    obtain ⟨task, -, h⟩ := Option.bind_eq_some_iff.mp h
    exact .of_quiet (fail_quiet h).points rfl
  | crash i =>
    obtain ⟨task, -, h⟩ := Option.bind_eq_some_iff.mp h
    exact .of_quiet (leave_quiet h).points rfl

theorem step_homes {a : Act} (ha : ∀ b, a = .queue b → b.keepsHomes = true)
    (h : step config s a = some t) : SameHomes s.queue t.queue := by
  cases a with
  | queue b =>
    obtain ⟨-, h⟩ := Option.ite_none_right_eq_some.mp h
    obtain ⟨u, hu, rfl⟩ := Option.map_eq_some_iff.mp h
    obtain ⟨q, hq, rfl⟩ := Option.map_eq_some_iff.mp hu
    have hsame := Ingestion.step_homes (ha b rfl) hq
    cases b <;> exact hsame
  | spawn job worker =>
    obtain ⟨-, h⟩ := Option.ite_none_right_eq_some.mp h
    cases Option.some.inj h
    exact .of_documents rfl rfl
  | advance i reply =>
    obtain ⟨task, ht, h⟩ := Option.bind_eq_some_iff.mp h
    exact (advance_writes ht h).1
  | heartbeat i stamp =>
    obtain ⟨task, -, h⟩ := Option.bind_eq_some_iff.mp h
    exact (heartbeat_quiet h).homes
  | fail i failure =>
    obtain ⟨task, -, h⟩ := Option.bind_eq_some_iff.mp h
    exact (fail_quiet h).homes
  | crash i =>
    obtain ⟨task, -, h⟩ := Option.bind_eq_some_iff.mp h
    exact (leave_quiet h).homes

/-- A statement on the queue, as the workers' tasks do not see it. -/
theorem queue_step {b : Ingestion.Act} (h : step config s (.queue b) = some t) :
    Ingestion.step config s.queue b = some t.queue ∧ t.output.points = s.output.points := by
  obtain ⟨-, h⟩ := Option.ite_none_right_eq_some.mp h
  obtain ⟨u, hu, rfl⟩ := Option.map_eq_some_iff.mp h
  obtain ⟨q, hq, rfl⟩ := Option.map_eq_some_iff.mp hu
  cases b <;> exact ⟨hq, rfl⟩

end Points

end GmragApi.Indexing

import GmragApi.DeleteOutbox
import GmragApi.IndexingFrames

/-! The points of the vector index beside the documents they belong to: uploads and deletions,
backfills, the workers of `qdrant_outbox` and the orphan scans of operators, each a process that
makes one statement or one call at a time. -/

namespace GmragApi.VectorIndex

open DeleteOutbox (RowStatus)
open Ingestion (WorkerConfig)

inductive DeleteTarget
  | document (workspaceId documentId : Nat)
  | workspace (workspaceId : Nat)
  | workspaces (workspaceIds : List Nat)
  deriving DecidableEq

/-- The filter of a delete, on the payload of a point. -/
def DeleteTarget.covers : DeleteTarget → Nat × Nat → Bool
  | document workspaceId documentId, p => p.1 == workspaceId && p.2 == documentId
  | workspace workspaceId, p => p.1 == workspaceId
  | workspaces workspaceIds, p => workspaceIds.contains p.1

structure Row where
  event : DeleteTarget
  status : RowStatus
  deriving DecidableEq

/-- A row of `document_chunks`; its workspace is that of its document. -/
structure BackfillChunkRow where
  id : Nat
  documentId : Nat
  chunkIndex : Nat
  deriving DecidableEq

inductive Proc
  | syncing (workspaceId documentId : Nat)
  | removingRow (workspaceId documentId : Nat)
  | deletingDocument (workspaceId documentId : Nat)
  | deletingPoints (workspaceId documentId : Nat)
  | backfilling (workspaceId : Nat)
  | upserting (workspaceId : Nat) (rows : List BackfillChunkRow)
  | attempting (row : Nat) (target : DeleteTarget)
  | settling (row : Nat)
  | failing (row : Nat)
  | collecting (delete : Bool)
  | loadingWorkspaces (delete : Bool) (targets : List DeleteTarget)
  | loadingDocuments (delete : Bool) (targets : List DeleteTarget) (liveWorkspaces : List Nat)
  | scrolling (delete : Bool) (targets : List DeleteTarget) (liveWorkspaces : List Nat)
      (liveDocuments : List (Nat × Nat))
  | applying (targets : List DeleteTarget)
  | deletingTarget (target : DeleteTarget) (targets : List DeleteTarget)
  | requeueing (target : DeleteTarget) (targets : List DeleteTarget)
  | done
  deriving DecidableEq

/-- `payloads` is the `workspace_id` of each point; `swept` records the workspaces and documents of
the points that scans and workers have deleted. -/
structure State where
  index : Indexing.State
  workspaces : List Nat
  payloads : Nat → Nat
  outbox : List Row
  procs : List Proc
  swept : List (Nat × Nat)

def initial (now : Int) : State := ⟨Indexing.initial now, [], fun _ => 0, [], [], []⟩

/-- A call that is `lost` has taken effect, but is reported as failed; `last` says that the scroll
offers no further page. -/
inductive Reply
  | ok
  | failed
  | lost
  | rows (rows : List BackfillChunkRow)
  | page (points : List Nat) (last : Bool)
  | picked (target : DeleteTarget)
  | buried
  deriving DecidableEq

def State.goto (s : State) (i : Nat) (p : Proc) : State := { s with procs := s.procs.set i p }

def State.start (s : State) (p : Proc) : State := { s with procs := s.procs ++ [p] }

/-- The payload of a point. -/
def State.point (s : State) (chunk : Nat) : Option (Nat × Nat) :=
  (s.index.output.points chunk).map fun document => (s.payloads chunk, document)

def State.setPoints (s : State) (points : Nat → Option Nat) : State :=
  { s with index := { s.index with output := { s.index.output with points := points } } }

def deletePoints (s : State) (target : DeleteTarget) : State :=
  s.setPoints fun chunk =>
    (s.index.output.points chunk).filter fun document => !target.covers (s.payloads chunk, document)

/-- `deletePoints` for a scan or a worker. -/
def sweepPoints (s : State) (target : DeleteTarget) : State :=
  { deletePoints s target with
    swept := ((List.range s.index.output.nextChunk).filterMap s.point).filter target.covers ++
      s.swept }

def State.enqueue (s : State) (target : DeleteTarget) : State :=
  { s with outbox := s.outbox ++ [⟨target, .pending⟩] }

def State.mark (s : State) (row : Nat) (status : RowStatus) : State :=
  { s with outbox := s.outbox.modify row fun r => { r with status := status } }

/-- The points that a task of the ingestion worker writes carry the workspace of its job. -/
def payloadsAfter (s : State) (a : Indexing.Act) : Nat → Nat :=
  match Indexing.upserted s.index a with
  | some (job, batch) => fun chunk => if chunk ∈ batch then job.workspaceId else s.payloads chunk
  | none => s.payloads

/-- One request of a backfill. -/
def upsertBackfill (s : State) (workspaceId : Nat) (batch : List BackfillChunkRow) : State :=
  { s.setPoints fun chunk => match batch.find? (·.id = chunk) with
      | some row => some row.documentId
      | none => s.index.output.points chunk with
    payloads := fun chunk =>
      if batch.any (·.id = chunk) then workspaceId else s.payloads chunk }

def BackfillChunkRow.present (s : State) (workspaceId : Nat) (row : BackfillChunkRow) : Bool :=
  s.index.output.chunks row.documentId row.chunkIndex == some row.id &&
    s.index.queue.workspaceOf row.documentId == some workspaceId

def State.liveDocuments (s : State) : List (Nat × Nat) :=
  (List.range s.index.queue.nextDocument).filterMap fun document =>
    (s.index.queue.workspaceOf document).map fun workspaceId => (workspaceId, document)

/-- `collect_targets_from_outbox`: dead rows count as well. -/
def collectTargetsFromOutbox (s : State) : List DeleteTarget :=
  ((s.outbox.filter (·.status != .processed)).take 5000).map Row.event

/-- What a scan makes of a point. -/
def orphanTarget (liveWorkspaces : List Nat) (liveDocuments : List (Nat × Nat)) (p : Nat × Nat) :
    Option DeleteTarget :=
  if !liveWorkspaces.contains p.1 then some (.workspace p.1)
  else if !liveDocuments.contains p then some (.document p.1 p.2)
  else none

def State.orphanTargets (s : State) (liveWorkspaces : List Nat) (liveDocuments : List (Nat × Nat))
    (points : List Nat) : List DeleteTarget :=
  (points.filterMap s.point).filterMap (orphanTarget liveWorkspaces liveDocuments)

section Calls

variable (config : WorkerConfig) (s : State)

/-- The row of a document goes, with its jobs and chunk rows. -/
def removeDocument (workspaceId documentId : Nat) : Option State :=
  if s.index.queue.workspaceOf documentId = some workspaceId then
    (Indexing.step config s.index (.queue (.deleteDocument documentId))).map fun index =>
      { s with index := index }
  else some s

/-- `delete_document` up to its commit. -/
def deleteDocument (i : Nat) (workspaceId documentId : Nat) (acknowledged : Bool) : Option State :=
  if s.index.queue.workspaceOf documentId = some workspaceId then
    (removeDocument config s workspaceId documentId).map fun t =>
      (t.enqueue (.document workspaceId documentId)).goto i
        (if acknowledged then .deletingPoints workspaceId documentId else .done)
  else some (s.goto i .done)

/-- The next statement or call of process `i`, which stands at `p`. -/
def advance (i : Nat) : Proc → Reply → Option State
  | .syncing _ _, .ok => some (s.goto i .done)
  | .syncing workspaceId documentId, .failed => some (s.goto i (.removingRow workspaceId documentId))
  | .syncing workspaceId documentId, .lost => some (s.goto i (.removingRow workspaceId documentId))
  -- the roll-back of an upload leaves no event
  | .removingRow workspaceId documentId, .ok =>
    (removeDocument config s workspaceId documentId).map (·.goto i .done)
  | .removingRow _ _, .failed => some (s.goto i .done)
  | .removingRow workspaceId documentId, .lost =>
    (removeDocument config s workspaceId documentId).map (·.goto i .done)
  | .deletingDocument workspaceId documentId, .ok =>
    deleteDocument config s i workspaceId documentId true
  | .deletingDocument _ _, .failed => some (s.goto i .done)
  | .deletingDocument workspaceId documentId, .lost =>
    deleteDocument config s i workspaceId documentId false
  | .deletingPoints workspaceId documentId, .ok =>
    some ((deletePoints s (.document workspaceId documentId)).goto i .done)
  | .deletingPoints _ _, .failed => some (s.goto i .done)
  | .deletingPoints workspaceId documentId, .lost =>
    some ((deletePoints s (.document workspaceId documentId)).goto i .done)
  | .backfilling workspaceId, .rows rows =>
    if rows.all (·.present s workspaceId) then some (s.goto i (.upserting workspaceId rows)) else none
  | .backfilling _, .failed => some (s.goto i .done)
  | .upserting _ [], .ok => some (s.goto i .done)
  | .upserting workspaceId rows, .ok =>
    some ((upsertBackfill s workspaceId (rows.take Indexing.upsertBatchSize)).goto i
      (.upserting workspaceId (rows.drop Indexing.upsertBatchSize)))
  | .upserting workspaceId rows, .lost =>
    some ((upsertBackfill s workspaceId (rows.take Indexing.upsertBatchSize)).goto i .done)
  | .upserting _ _, .failed => some (s.goto i .done)
  | .attempting row target, .ok => some ((sweepPoints s target).goto i (.settling row))
  | .attempting row _, .failed => some (s.goto i (.failing row))
  | .attempting row target, .lost => some ((sweepPoints s target).goto i (.failing row))
  | .settling row, .ok => some ((s.mark row .processed).goto i .done)
  | .settling row, .lost => some ((s.mark row .processed).goto i .done)
  | .settling _, .failed => some (s.goto i .done)
  | .failing row, .ok => some ((s.mark row .failed).goto i .done)
  | .failing row, .buried => some ((s.mark row .dead).goto i .done)
  | .failing _, .failed => some (s.goto i .done)
  | .collecting delete, .ok => some (s.goto i (.loadingWorkspaces delete (collectTargetsFromOutbox s)))
  | .collecting _, .failed => some (s.goto i .done)
  | .loadingWorkspaces delete targets, .ok =>
    some (s.goto i (.loadingDocuments delete targets s.workspaces))
  | .loadingWorkspaces _ _, .failed => some (s.goto i .done)
  | .loadingDocuments delete targets liveWorkspaces, .ok =>
    some (s.goto i (.scrolling delete targets liveWorkspaces s.liveDocuments))
  | .loadingDocuments _ _ _, .failed => some (s.goto i .done)
  | .scrolling delete targets liveWorkspaces liveDocuments, .page points last =>
    if points.all fun chunk => (s.point chunk).isSome then
      let targets := targets ++ s.orphanTargets liveWorkspaces liveDocuments points
      some (s.goto i (if !last && !points.isEmpty then
          .scrolling delete targets liveWorkspaces liveDocuments
        else if delete then .applying targets else .done))
    else none
  | .scrolling _ _ _ _, .failed => some (s.goto i .done)
  | .applying [], .ok => some (s.goto i .done)
  -- the targets are a hash map: each is taken once, in any order
  | .applying targets, .picked target =>
    if target ∈ targets then some (s.goto i (.deletingTarget target (targets.filter (· != target))))
    else none
  | .deletingTarget target targets, .ok => some ((sweepPoints s target).goto i (.applying targets))
  | .deletingTarget target targets, .failed => some (s.goto i (.requeueing target targets))
  | .deletingTarget target targets, .lost =>
    some ((sweepPoints s target).goto i (.requeueing target targets))
  | .requeueing target targets, .ok => some ((s.enqueue target).goto i (.applying targets))
  | .requeueing _ targets, .failed => some (s.goto i (.applying targets))
  | .requeueing target targets, .lost => some ((s.enqueue target).goto i (.applying targets))
  | _, _ => none

/-- The statements and calls of the ingestion worker, and those on the queue that neither create
nor delete a document. -/
def indexAct : Indexing.Act → Bool
  | .queue (.upload _ _) => false
  | .queue (.deleteDocument _) => false
  | _ => true

inductive Act
  | createWorkspace (workspaceId : Nat)
  | upload (workspaceId : Nat) (stamp : Int)
  | index (a : Indexing.Act)
  | deleteDocument (workspaceId documentId : Nat)
  | backfill (workspaceId : Nat)
  | work (row : Nat)
  | scan (delete : Bool)
  | advance (i : Nat) (reply : Reply)

/-- A worker takes a row that is not settled yet. -/
def workOn (row : Nat) : Option State :=
  match s.outbox[row]? with
  | some r => if r.status.terminal then none else some (s.start (.attempting row r.event))
  | none => none

def step : Act → Option State
  | .createWorkspace workspaceId => some { s with workspaces := workspaceId :: s.workspaces }
  | .upload workspaceId stamp =>
    if workspaceId ∈ s.workspaces then
      (Indexing.step config s.index (.queue (.upload workspaceId stamp))).map fun index =>
        { s with index := index }.start (.syncing workspaceId s.index.queue.nextDocument)
    else none
  | .index a =>
    if indexAct a then
      (Indexing.step config s.index a).map fun index =>
        { s with index := index, payloads := payloadsAfter s a }
    else none
  | .deleteDocument workspaceId documentId =>
    some (s.start (.deletingDocument workspaceId documentId))
  | .backfill workspaceId => some (s.start (.backfilling workspaceId))
  | .work row => workOn s row
  | .scan delete => some (s.start (.collecting delete))
  | .advance i reply => (s.procs[i]?).bind fun p => advance config s i p reply

end Calls

end GmragApi.VectorIndex

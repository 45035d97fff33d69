import GmragApi.IngestionQueue

/-! The tasks of the ingestion worker, `process_one` and `process_document` call by call, with the
chunk rows they write to Postgres and the points they write to Qdrant. -/

namespace GmragApi.Indexing

open Ingestion (ClaimedJob JobFailure Stage WorkerConfig)
open Function

/-- `chunks document index` is the id of a row of `document_chunks`, `points` the document of each
Qdrant point under its chunk id. Ids from `nextChunk` on were never generated. -/
structure Output where
  chunks : Nat → Nat → Option Nat
  nextChunk : Nat
  points : Nat → Option Nat

/-- The rows are numbered from 0; a row that is there keeps its id. -/
def bulkUpsertDocumentChunks (o : Output) (document count : Nat) : Output :=
  { o with
    chunks := update o.chunks document fun index =>
      if index < count then some ((o.chunks document index).getD (o.nextChunk + index))
      else o.chunks document index
    nextChunk := o.nextChunk + count }

def deleteStaleDocumentChunks (o : Output) (document count : Nat) : Output :=
  { o with chunks := update o.chunks document fun index =>
      if index < count then o.chunks document index else none }

/-- The transaction of the `SAVING` stage, as far as it writes chunk rows. -/
def saveDocumentChunks (o : Output) (document count : Nat) : Output :=
  deleteStaleDocumentChunks (bulkUpsertDocumentChunks o document count) document count

/-- Deleting a document takes its chunk rows along. -/
def deleteDocumentChunks (o : Output) (document : Nat) : Output :=
  { o with chunks := update o.chunks document fun _ => none }

def deletePointsByDocument (o : Output) (document : Nat) : Output :=
  { o with points := fun chunk => (o.points chunk).filter fun d => d != document }

def upsertChunkPointBatch (o : Output) (document : Nat) (batch : List Nat) : Output :=
  { o with points := fun chunk => if chunk ∈ batch then some document else o.points chunk }

def upsertBatchSize : Nat := 256

/-- The next call of a task. `count` is the number of chunks, `points` are the ids still to be
written to Qdrant. -/
inductive Phase
  | parsing
  | chunking
  | clearing
  | embedding (count : Nat)
  | graphExtraction (count : Nat)
  | saving (count : Nat)
  | persisting (count : Nat)
  | building (count : Nat)
  | checking (points : List Nat)
  | indexing (points : List Nat)
  | rechecking (points : List Nat)
  | reindexing (points : List Nat)
  | deleting (points : List Nat)
  | upserting (points : List Nat)
  | completing
  | committing
  | failed (failure : JobFailure)
  | failing
  | ended

/-- The calls that keep a transaction of `ingestion_jobs` open. -/
def Phase.inTransaction : Phase → Bool
  | committing => true
  | failing => true
  | _ => false

/-- `process_claimed_job` has not returned. -/
def Phase.processes : Phase → Bool
  | failed _ => false
  | failing => false
  | ended => false
  | _ => true

structure Task where
  job : ClaimedJob
  worker : Nat
  phase : Phase

structure State where
  queue : Ingestion.State
  output : Output
  tasks : List Task

def initial (now : Int) : State := ⟨Ingestion.initial now, ⟨fun _ _ => none, 0, fun _ => none⟩, []⟩

/-- What a call brings back besides an error. -/
inductive Reply
  | stamped (stamp : Int)
  | chunks (count : Nat)
  | rows (points : List Nat)
  | done

def State.write (s : State) (output : Output) : State := { s with output := output }

def State.goto (s : State) (i : Nat) (t : Task) (phase : Phase) : State :=
  { s with tasks := s.tasks.set i { t with phase := phase } }

def State.owns (s : State) (t : Task) : Bool :=
  (s.queue.jobs t.job.id).any fun j => j.ownedBy t.job t.worker

def documentStillExists (s : State) (job : ClaimedJob) : Bool :=
  (s.queue.documents job.documentId).any fun d => d.workspaceId == job.workspaceId

section Calls

variable (config : WorkerConfig) (s : State)

def State.call (a : Ingestion.Act) : Option State :=
  (Ingestion.step config s.queue a).map fun queue => { s with queue := queue }

/-- `set_processing_stage`: an update of no row means that the lease is lost. -/
def setProcessingStage (i : Nat) (t : Task) (stage : Stage) (stamp : Int) (next : Phase) :
    Option State :=
  (s.call config (.setStage t.job t.worker stage stamp)).map fun u =>
    u.goto i t (if s.queue.ownedLive t.job t.worker stamp && documentStillExists s t.job then next
      else .ended)

/-- A task drops its open transaction when it stops. -/
def State.leave (i : Nat) (t : Task) (next : Phase) : Option State :=
  if t.phase.inTransaction then (s.call config (.rollback t.job.id)).map fun u => u.goto i t next
  else some (s.goto i t next)

/-- One call of `process_document`, of `index_document_outputs` or of `finish_job_failure`. -/
def processDocument (i : Nat) (t : Task) (reply : Reply) : Option State :=
  match t.phase, reply with
  | .parsing, .stamped stamp => setProcessingStage config s i t .parsing stamp .chunking
  | .chunking, .chunks 0 => some (s.goto i t .clearing)
  | .chunking, .chunks count => some (s.goto i t (.embedding count))
  -- `clear_document_output` empties the graph tables and leaves `document_chunks` alone
  | .clearing, .done => some (s.goto i t (.reindexing []))
  | .embedding count, .stamped stamp =>
    setProcessingStage config s i t .embedding stamp (.graphExtraction count)
  | .graphExtraction count, .stamped stamp =>
    setProcessingStage config s i t .graphExtraction stamp (.saving count)
  | .saving count, .stamped stamp =>
    setProcessingStage config s i t .saving stamp (.persisting count)
  | .persisting count, .done =>
    if (s.queue.documents t.job.documentId).isSome then
      some ((s.write (saveDocumentChunks s.output t.job.documentId count)).goto i t (.building count))
    else none
  -- the rows come in no particular order
  | .building count, .rows points =>
    if points.Perm ((List.range count).filterMap (s.output.chunks t.job.documentId)) then
      some (s.goto i t (.checking points))
    else none
  | .checking points, .done =>
    some (s.goto i t (if documentStillExists s t.job then .indexing points else .ended))
  | .indexing points, .stamped stamp =>
    setProcessingStage config s i t .indexing stamp (.rechecking points)
  | .rechecking points, .done =>
    some (s.goto i t (if documentStillExists s t.job then .reindexing points else .ended))
  | .reindexing points, .stamped stamp =>
    setProcessingStage config s i t .indexing stamp (.deleting points)
  | .deleting points, .done =>
    some ((s.write (deletePointsByDocument s.output t.job.documentId)).goto i t (.upserting points))
  | .upserting [], .done => some (s.goto i t .completing)
  | .upserting points, .done =>
    let batch := points.take upsertBatchSize
    some ((s.write (upsertChunkPointBatch s.output t.job.documentId batch)).goto i t
      (.upserting (points.drop upsertBatchSize)))
  | .completing, .stamped stamp =>
    (s.call config (.beginComplete t.job t.worker stamp)).map fun u =>
      u.goto i t (if s.queue.ownedLive t.job t.worker stamp then .committing else .ended)
  | .committing, .done => (s.call config (.commit t.job.id)).map fun u => u.goto i t .ended
  | .failed failure, .stamped stamp =>
    (s.call config (.beginFailure t.job t.worker failure stamp)).map fun u =>
      u.goto i t (if s.queue.ownedLive t.job t.worker stamp then .failing else .ended)
  | .failing, .done => (s.call config (.commit t.job.id)).map fun u => u.goto i t .ended
  | _, _ => none

/-- An error of `process_document` is recorded with the job; an error in recording it is not. -/
def fail (i : Nat) (t : Task) (failure : JobFailure) : Option State :=
  if t.phase.processes then s.leave config i t (.failed failure) else s.leave config i t .ended

/-- A beat that finds the job in other hands aborts the task. -/
def heartbeat (i : Nat) (t : Task) (stamp : Int) : Option State :=
  if t.phase.processes then
    (s.call config (.extendLease t.job t.worker stamp)).bind fun u =>
      if s.owns t then some u else s.leave config i t .ended
  else none

/-- The statements on the queue that no task makes. -/
def external : Ingestion.Act → Bool
  | .tick _ => true
  | .upload _ _ => true
  | .deleteDocument _ => true
  | .claim _ _ _ => true
  | .requeue _ _ _ _ _ => true
  | .recoverLegacy _ => true
  | .markMissing _ _ => true
  | _ => false

def State.cascade : Ingestion.Act → State
  | .deleteDocument document => s.write (deleteDocumentChunks s.output document)
  | _ => s

end Calls

inductive Act
  | queue (a : Ingestion.Act)
  | spawn (job : ClaimedJob) (worker : Nat)
  | advance (i : Nat) (reply : Reply)
  | heartbeat (i : Nat) (stamp : Int)
  | fail (i : Nat) (failure : JobFailure)
  | crash (i : Nat)

/-- Each claim is handed to one task. -/
def step (config : WorkerConfig) (s : State) : Act → Option State
  | .queue a =>
    if external a then (s.call config a).map fun u => u.cascade a else none
  | .spawn job worker =>
    if s.queue.claims.contains (job, worker) &&
        s.tasks.all fun t => t.job.claimToken != job.claimToken then
      some { s with tasks := s.tasks ++ [⟨job, worker, .parsing⟩] }
    else none
  | .advance i reply => s.tasks[i]?.bind fun t => processDocument config s i t reply
  | .heartbeat i stamp => s.tasks[i]?.bind fun t => heartbeat config s i t stamp
  | .fail i failure => s.tasks[i]?.bind fun t => fail config s i t failure
  | .crash i => s.tasks[i]?.bind fun t => s.leave config i t .ended

end GmragApi.Indexing

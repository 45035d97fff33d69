import GmragApi.IngestionInvariant
import GmragApi.ProcessPool
import GmragApi.Query
import GmragApi.Uuid

/-! The audit of documents that a mock OCR may have spoilt: it reads the affected rows at once, and
requeues them one by one beside the workers of the queue. -/

namespace GmragApi.OcrAudit

open Ingestion (DocumentStatus Stage WorkerConfig)
open ProcessPool Transition

def mockOcrMarker : List Char := "mock_ocr_text".toList

structure OcrCapability where
  available : Bool
  provider : Option (List Char)
  detail : List Char

def productionOcrCapability : OcrCapability where
  available := false
  provider := none
  detail := ("Production OCR is not integrated; vision_ocr_fallback returns None " ++
    "(ADR-24 selection only)").toList

structure OcrAuditOptions where
  dryRun : Bool
  apply : Bool
  limit : Int
  sampleLimit : Nat
  tenantId : Option Nat
  workspaceId : Option Nat
  maxAttempts : Int

inductive ObjectPresenceCheck
  | storage
  | alwaysPresent
  | skip

structure CandidateRow where
  documentId : Nat
  workspaceId : Nat
  tenantId : Option Nat
  status : DocumentStatus
  processingStage : Stage
  failureCode : Option (List Char)
  objectKey : List Char
  hasMockChunk : Bool
  isNeedsOcrTerminal : Bool
  hasActiveJob : Bool

inductive Evidence
  | mockOcrChunk
  | needsOcrTerminal
  deriving DecidableEq

inductive PlanAction
  | skipActiveJob
  | skipNotRequeueable
  | planRequeue
  | requeue
  | requeued
  | notRequeuedRaceOrIneligible
  | requeueError
  | skipObjectMissing
  | objectCheckError
  deriving DecidableEq

structure OcrAuditSample where
  documentId : Nat
  workspaceId : Nat
  tenantId : Option Nat
  status : DocumentStatus
  processingStage : Stage
  failureCode : Option (List Char)
  evidenceCategories : List Evidence
  hasActiveJob : Bool
  planAction : PlanAction
  hasObjectKey : Bool

structure OcrAuditCounts where
  mockOcrChunk : Nat
  needsOcrTerminal : Nat
  unionCandidates : Nat
  selectedForPlan : Nat
  skippedActiveJob : Nat
  skippedObjectMissing : Nat
  skippedNotRequeueable : Nat
  requeued : Nat
  requeueFailed : Nat
  alreadyNotRequeued : Nat

inductive Mode
  | dryRun
  | applyPending
  | applyRefused
  | apply
  deriving DecidableEq

inductive RefusalReason
  | ocrUnavailable (detail : List Char)
  | dryRunStillTrue

/-- The call that failed for a document. -/
inductive RunError
  | requeue (documentId : Nat)
  | objectCheck (documentId : Nat)

structure OcrAuditReport where
  mode : Mode
  dryRun : Bool
  applyRequested : Bool
  applyExecuted : Bool
  applyRefused : Bool
  refusalReason : Option RefusalReason
  ocrProviderAvailable : Bool
  ocrProvider : Option (List Char)
  ocrCapabilityDetail : List Char
  limit : Int
  tenantId : Option Nat
  workspaceId : Option Nat
  counts : OcrAuditCounts
  samples : List OcrAuditSample
  errors : List RunError

/-- The tables and columns beside those of the queue. -/
structure Corpus where
  chunks : List (Nat × List Char)
  workspaces : Nat → Option (Option Nat)
  objectKey : Nat → List Char
  createdAt : Nat → Option Int
  uuid : Nat → Uuid

def validateOptions (options : OcrAuditOptions) : Bool :=
  decide (1 ≤ options.limit ∧ options.limit ≤ 500 ∧ options.sampleLimit ≠ 0)

def needsOcr : List Char := "NEEDS_OCR".toList

section Load

variable (options : OcrAuditOptions) (corpus : Corpus) (queue : Ingestion.State)

def hasMockChunk (id : Nat) : Bool :=
  corpus.chunks.any fun chunk => chunk.1 == id && containsText chunk.2 mockOcrMarker

/-- `failure_code = 'NEEDS_OCR' AND status = 'FAILED'`, which is NULL for a failure without a code. -/
def isNeedsOcrTerminal (d : Ingestion.Document) : Option Bool :=
  match d.failureCode with
  | some code => some (code == needsOcr && d.status == .failed)
  | none => if d.status == .failed then none else some false

/-- There is evidence against the document, and the scope includes it. -/
def affected (id : Nat) : Bool :=
  (queue.documents id).any fun d => (corpus.workspaces d.workspaceId).any fun tenantId =>
    (hasMockChunk corpus id || isNeedsOcrTerminal d == some true) &&
      options.workspaceId.all (· == d.workspaceId) &&
      options.tenantId.all (fun tenant => tenantId == some tenant)

/-- The row of an affected document, which cannot be read where it holds a NULL for a Boolean. -/
def fetchRow (id : Nat) : Option CandidateRow :=
  (queue.documents id).bind fun d =>
    (corpus.workspaces d.workspaceId).bind fun tenantId =>
      (isNeedsOcrTerminal d).map fun terminal => {
        documentId := id
        workspaceId := d.workspaceId
        tenantId := tenantId
        status := d.status
        processingStage := d.processingStage
        failureCode := d.failureCode
        objectKey := corpus.objectKey id
        hasMockChunk := hasMockChunk corpus id
        isNeedsOcrTerminal := terminal
        hasActiveJob := queue.hasActiveJob id }

/-- `created_at ASC NULLS LAST, document_id ASC`. -/
def oldestFirst (id : Nat) : Lex (Bool × Lex (Int × Nat)) :=
  toLex ((corpus.createdAt id).isNone,
    toLex ((corpus.createdAt id).getD 0, (corpus.uuid id).bits.toNat))

def affectedDocuments : List Nat :=
  (Query.orderBy (oldestFirst corpus)
    ((List.range queue.nextDocument).filter (affected options corpus queue))).take
      options.limit.toNat

def loadCandidates : Option (List CandidateRow) :=
  (affectedDocuments options corpus queue).mapM (fetchRow corpus queue)

end Load

def baseReport (options : OcrAuditOptions) (capability : OcrCapability) : OcrAuditReport where
  mode := if options.apply then .applyPending else .dryRun
  dryRun := options.dryRun
  applyRequested := options.apply
  applyExecuted := false
  applyRefused := false
  refusalReason := none
  ocrProviderAvailable := capability.available
  ocrProvider := capability.provider
  ocrCapabilityDetail := capability.detail
  limit := options.limit
  tenantId := options.tenantId
  workspaceId := options.workspaceId
  counts := ⟨0, 0, 0, 0, 0, 0, 0, 0, 0, 0⟩
  samples := []
  errors := []

def countSelected (rows selected : List CandidateRow) (counts : OcrAuditCounts) : OcrAuditCounts :=
  { counts with
    unionCandidates := rows.length
    selectedForPlan := selected.length
    mockOcrChunk := selected.countP CandidateRow.hasMockChunk
    needsOcrTerminal := selected.countP CandidateRow.isNeedsOcrTerminal }

/-- The gate in front of every change. -/
def applyGate (options : OcrAuditOptions) (capability : OcrCapability) (report : OcrAuditReport) :
    OcrAuditReport :=
  if options.apply then
    if !capability.available then
      { report with
        applyRefused := true
        refusalReason := some (.ocrUnavailable capability.detail)
        mode := .applyRefused }
    else if options.dryRun then
      { report with
        applyRefused := true
        refusalReason := some .dryRunStillTrue
        mode := .applyRefused }
    else { report with mode := .apply, applyExecuted := true }
  else report

/-- A run between two of its calls. `found` is the row whose object has been found: its requeue is
the next call. -/
structure AuditRun where
  options : OcrAuditOptions
  check : ObjectPresenceCheck
  report : OcrAuditReport
  todo : List CandidateRow
  found : Option CandidateRow

/-- The run until its loop, which does not begin where the rows cannot be read. -/
def startRun (options : OcrAuditOptions) (capability : OcrCapability) (check : ObjectPresenceCheck)
    (corpus : Corpus) (queue : Ingestion.State) : Option AuditRun :=
  (loadCandidates options corpus queue).map fun rows =>
    let selected := rows.take options.limit.toNat
    let report := baseReport options capability
    let report := { report with counts := countSelected rows selected report.counts }
    ⟨options, check, applyGate options capability report, selected, none⟩

def evidenceCategories (hasMockChunk isNeedsOcrTerminal : Bool) : List Evidence :=
  (if hasMockChunk then [.mockOcrChunk] else []) ++
    if isNeedsOcrTerminal then [.needsOcrTerminal] else []

def isRequeueableStatus (status : DocumentStatus) : Bool :=
  status == .failed || status == .completed

def planActionFor (row : CandidateRow) (applyExecuted : Bool) : PlanAction :=
  if row.hasActiveJob then .skipActiveJob
  else if !isRequeueableStatus row.status then .skipNotRequeueable
  else if applyExecuted then .requeue
  else .planRequeue

def countSkip (row : CandidateRow) (counts : OcrAuditCounts) : OcrAuditCounts :=
  if row.hasActiveJob then { counts with skippedActiveJob := counts.skippedActiveJob + 1 }
  else if !isRequeueableStatus row.status then
    { counts with skippedNotRequeueable := counts.skippedNotRequeueable + 1 }
  else counts

def checkObjectPresent (check : ObjectPresenceCheck) (reply : Except Unit Bool) :
    Except Unit Bool :=
  match check with
  | .storage => reply
  | .alwaysPresent => .ok true
  | .skip => .error ()

def sampleOf (row : CandidateRow) (planAction : PlanAction) : OcrAuditSample where
  documentId := row.documentId
  workspaceId := row.workspaceId
  tenantId := row.tenantId
  status := row.status
  processingStage := row.processingStage
  failureCode := row.failureCode
  evidenceCategories := evidenceCategories row.hasMockChunk row.isNeedsOcrTerminal
  hasActiveJob := row.hasActiveJob
  planAction := planAction
  hasObjectKey := !row.objectKey.isEmpty

/-- The end of the loop's body for a row. -/
def AuditRun.record (run : AuditRun) (row : CandidateRow) (planAction : PlanAction)
    (count : OcrAuditCounts → OcrAuditCounts) (errors : List RunError) : AuditRun :=
  let samples := run.report.samples
  { run with
    found := none
    report := { run.report with
      counts := count run.report.counts
      errors := run.report.errors ++ errors
      samples := if samples.length < run.options.sampleLimit then
          samples ++ [sampleOf row planAction]
        else samples } }

/-- The body of the loop up to the requeue. -/
def AuditRun.visit (run : AuditRun) (row : CandidateRow) (rest : List CandidateRow)
    (reply : Except Unit Bool) : AuditRun :=
  let planAction := planActionFor row run.report.applyExecuted
  let counts := countSkip row run.report.counts
  let run := { run with todo := rest, report := { run.report with counts := counts } }
  if run.report.applyExecuted && planAction == .requeue && !row.hasActiveJob &&
      isRequeueableStatus row.status then
    match checkObjectPresent run.check reply with
    | .ok true => { run with found := some row }
    | .ok false => run.record row .skipObjectMissing
        (fun c => { c with skippedObjectMissing := c.skippedObjectMissing + 1 }) []
    | .error () => run.record row .objectCheckError
        (fun c => { c with requeueFailed := c.requeueFailed + 1 }) [.objectCheck row.documentId]
  else run.record row planAction id []

/-- What the statements of `requeue_document_for_reingest` answer in the state of the queue. -/
def requeueAnswer (queue : Ingestion.State) (row : CandidateRow) (maxAttempts stamp : Int) :
    Except Unit Bool :=
  match queue.documents row.documentId with
  | some d =>
    if d.workspaceId = row.workspaceId ∧
        Ingestion.RequeueEligibility.failedOrCompleted.admits d.status ∧
          queue.hasActiveJob row.documentId = false then
      -- the insert of the job breaks the check of its table
      if (Ingestion.enqueueJobTx (queue.setDocument row.documentId d.reset) row.documentId
          row.workspaceId maxAttempts stamp).isNone then .error ()
      else .ok true
    else .ok false
  | none => .ok false

/-- The body of the loop from the requeue on, which fails if `reply` does. -/
def AuditRun.requeue (run : AuditRun) (row : CandidateRow) (answer : Except Unit Bool) : AuditRun :=
  match answer with
  | .ok true => run.record row .requeued (fun c => { c with requeued := c.requeued + 1 }) []
  | .ok false => run.record row .notRequeuedRaceOrIneligible
      (fun c => { c with alreadyNotRequeued := c.alreadyNotRequeued + 1 }) []
  | .error () => run.record row .requeueError
      (fun c => { c with requeueFailed := c.requeueFailed + 1 }) [.requeue row.documentId]

inductive OcrAuditPersistKind
  | applyCompleted
  | applyRefused
  deriving DecidableEq

def shouldPersistAuditEvent (report : OcrAuditReport) : Option OcrAuditPersistKind :=
  if report.applyExecuted then some .applyCompleted
  else if report.applyRefused then some .applyRefused
  else none

structure State where
  queue : Ingestion.State
  corpus : Corpus
  runs : List AuditRun

/-- The next call of a run, and how it is answered: by the object store, or by the database at a
time. -/
inductive Call
  | objectExists (reply : Except Unit Bool)
  | requeue (ok : Bool) (stamp : Int)

def State.goto (s : State) (i : Nat) (run : AuditRun) : State := { s with runs := s.runs.set i run }

/-- The requeue of a row in the database. -/
def State.requeueRow (s : State) (row : CandidateRow) (maxAttempts stamp : Int) : State :=
  { s with
    queue := Ingestion.requeueDocumentForReingest s.queue row.documentId row.workspaceId maxAttempts
      .failedOrCompleted stamp }

def advance (s : State) (i : Nat) (run : AuditRun) : Call → Option State
  | .objectExists reply =>
    match run.found, run.todo with
    | none, row :: rest => some (s.goto i (run.visit row rest reply))
    | _, _ => none
  | .requeue ok stamp =>
    match run.found with
    | some row =>
      let maxAttempts := run.options.maxAttempts
      if !ok then some (s.goto i (run.requeue row (.error ())))
      else if stamp ≤ s.queue.now then
        let answer := requeueAnswer s.queue row maxAttempts stamp
        some ((s.requeueRow row maxAttempts stamp).goto i (run.requeue row answer))
      else none
    | none => none

/-- `write` stands for the changes of other tables by the rest of the service. -/
inductive Act
  | queue (a : Ingestion.Act)
  | write (corpus : Corpus)
  | start (options : OcrAuditOptions) (capability : OcrCapability) (check : ObjectPresenceCheck)
  | advance (i : Nat) (call : Call)

def step (config : WorkerConfig) (s : State) : Act → Option State
  | .queue a => (Ingestion.step config s.queue a).map fun queue => { s with queue := queue }
  | .write corpus => some { s with corpus := corpus }
  | .start options capability check =>
    if validateOptions options then
      (startRun options capability check s.corpus s.queue).map fun run =>
        { s with runs := s.runs ++ [run] }
    else none
  | .advance i call =>
    match s.runs[i]? with
    | some run => advance s i run call
    | none => none

end GmragApi.OcrAudit

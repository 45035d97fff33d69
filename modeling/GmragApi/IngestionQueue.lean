import GmragApi.Retry
import GmragApi.Text
import GmragApi.Transition
import Mathlib.Logic.Function.Basic

/-! The durable ingestion queue: the `ingestion_jobs` and `documents` tables and every
statement that writes their status, stage, lease or attempt count. -/

namespace GmragApi.Ingestion

inductive JobStatus
  | queued
  | processing
  | succeeded
  | dead
  deriving DecidableEq

def JobStatus.active : JobStatus → Bool
  | queued => true
  | processing => true
  | _ => false

inductive DocumentStatus
  | processing
  | completed
  | failed
  deriving DecidableEq

inductive Stage
  | queued
  | parsing
  | embedding
  | graphExtraction
  | saving
  | indexing
  | done
  | failed
  deriving DecidableEq

structure Job where
  documentId : Nat
  workspaceId : Nat
  status : JobStatus
  attemptCount : Int
  maxAttempts : Int
  availableAt : Int
  leaseExpiresAt : Option Int
  claimedBy : Option Nat
  claimToken : Option Nat
  failureCode : Option (List Char)
  failureMessage : Option (List Char)
  deriving DecidableEq

structure Document where
  workspaceId : Nat
  status : DocumentStatus
  processingStage : Stage
  failureCode : Option (List Char)
  failureMessage : Option (List Char)
  failedAt : Option Int
  deriving DecidableEq

structure ClaimedJob where
  id : Nat
  documentId : Nat
  workspaceId : Nat
  attemptCount : Int
  maxAttempts : Int
  claimToken : Nat
  deriving DecidableEq

structure WorkerConfig where
  batchSize : Int
  maxAttempts : Int
  leaseSecs : Int
  baseBackoffSecs : Int
  maxBackoffSecs : Int

def WorkerConfig.backoff (c : WorkerConfig) : OutboxBackoffConfig :=
  ⟨c.baseBackoffSecs, c.maxBackoffSecs, c.leaseSecs⟩

structure JobFailure where
  code : List Char
  message : List Char
  retryable : Bool

inductive JobEnd
  | succeeded
  | requeued
  | dead
  deriving DecidableEq

/-- A call that holds the row lock of its job, up to its commit or rollback. -/
inductive Tx
  | complete (job : ClaimedJob) (worker : Nat) (stamp : Int)
  | failure (job : ClaimedJob) (worker : Nat) (stamp : Int) (failure : JobFailure)
      (attemptCount maxAttempts : Int)

def Tx.job : Tx → ClaimedJob
  | complete job _ _ => job
  | failure job _ _ _ _ _ => job

def Tx.worker : Tx → Nat
  | complete _ worker _ => worker
  | failure _ worker _ _ _ _ => worker

/-- `nextJob`, `nextDocument` and `nextToken` stand for the generated ids, which never repeat;
`claims` and `ends` record every claim and every committed end of a claim. -/
structure State where
  now : Int
  nextJob : Nat
  jobs : Nat → Option Job
  nextDocument : Nat
  documents : Nat → Option Document
  nextToken : Nat
  claims : List (ClaimedJob × Nat)
  locks : Nat → Option Tx
  ends : List (Nat × JobEnd)

def initial (now : Int) : State := ⟨now, 0, fun _ => none, 0, fun _ => none, 0, [], fun _ => none, []⟩

def Job.ownedBy (j : Job) (claim : ClaimedJob) (worker : Nat) : Bool :=
  decide (j.status = .processing ∧ j.claimedBy = some worker ∧ j.claimToken = some claim.claimToken)

/-- `lease_expires_at > CURRENT_TIMESTAMP`. -/
def Job.leaseLive (j : Job) (stamp : Int) : Bool := j.leaseExpiresAt.any fun l => decide (stamp < l)

def Job.claimable (j : Job) (stamp : Int) : Bool :=
  decide ((j.status = .queued ∧ j.availableAt ≤ stamp) ∨
    (j.status = .processing ∧ j.leaseExpiresAt.any fun l => decide (l < stamp)))

def State.hasActiveJob (s : State) (document : Nat) : Bool :=
  (List.range s.nextJob).any fun id =>
    (s.jobs id).any fun j => j.documentId == document && j.status.active

def State.setJob (s : State) (id : Nat) (j : Job) : State :=
  { s with jobs := Function.update s.jobs id (some j) }

def State.setDocument (s : State) (id : Nat) (d : Document) : State :=
  { s with documents := Function.update s.documents id (some d) }

/-- `UPDATE documents … WHERE id = $1 AND workspace_id = $2`. -/
def State.updateDocument (s : State) (id workspaceId : Nat) (f : Document → Document) : State :=
  match s.documents id with
  | some d => if d.workspaceId = workspaceId then s.setDocument id (f d) else s
  | none => s

section UpdateDocument

variable (s : State) (id workspaceId : Nat) (f : Document → Document)

/-- An update of `documents` is a new table and nothing else. -/
theorem updateDocument_eq :
    ∃ table, s.updateDocument id workspaceId f = { s with documents := table } := by
  unfold State.updateDocument
  split
  · split <;> exact ⟨_, rfl⟩
  · exact ⟨_, rfl⟩

@[simp] theorem updateDocument_jobs : (s.updateDocument id workspaceId f).jobs = s.jobs := by
  obtain ⟨_, h⟩ := updateDocument_eq s id workspaceId f
  rw [h]

@[simp] theorem updateDocument_claims : (s.updateDocument id workspaceId f).claims = s.claims := by
  obtain ⟨_, h⟩ := updateDocument_eq s id workspaceId f
  rw [h]

@[simp] theorem updateDocument_ends : (s.updateDocument id workspaceId f).ends = s.ends := by
  obtain ⟨_, h⟩ := updateDocument_eq s id workspaceId f
  rw [h]

@[simp] theorem updateDocument_locks : (s.updateDocument id workspaceId f).locks = s.locks := by
  obtain ⟨_, h⟩ := updateDocument_eq s id workspaceId f
  rw [h]

end UpdateDocument

/-- The table refuses a limit that is not positive and a second active job of a document. -/
def enqueueJobTx (s : State) (document workspaceId : Nat) (maxAttempts stamp : Int) :
    Option State :=
  if 0 < maxAttempts ∧ maxAttempts ≤ i32Max ∧ s.hasActiveJob document = false then
    some { s.setJob s.nextJob ⟨document, workspaceId, .queued, 0, maxAttempts, stamp, none, none,
        none, none, none⟩ with nextJob := s.nextJob + 1 }
  else none

def uploadDocument (config : WorkerConfig) (s : State) (workspaceId : Nat) (stamp : Int) :
    Option State :=
  enqueueJobTx { s.setDocument s.nextDocument ⟨workspaceId, .processing, .queued, none, none, none⟩
      with nextDocument := s.nextDocument + 1 } s.nextDocument workspaceId config.maxAttempts stamp

/-- One row of the claim statement; `attempt_count + 1` has to fit its column. -/
def claimJob (config : WorkerConfig) (worker : Nat) (stamp : Int) (s : State) (id : Nat) :
    Option State :=
  match s.jobs id with
  | some j =>
    if j.claimable stamp ∧ (s.locks id).isNone ∧ j.attemptCount < i32Max then
      some { s.setJob id { j with
            status := .processing, claimedBy := some worker, claimToken := some s.nextToken,
            leaseExpiresAt := some (stamp + config.leaseSecs), attemptCount := j.attemptCount + 1 }
          with
        nextToken := s.nextToken + 1
        claims := (⟨id, j.documentId, j.workspaceId, j.attemptCount + 1, j.maxAttempts,
          s.nextToken⟩, worker) :: s.claims }
    else none
  | none => none

def claimJobs (config : WorkerConfig) (s : State) (worker : Nat) (ids : List Nat) (stamp : Int) :
    Option State :=
  if ids.Nodup ∧ (ids.length : Int) ≤ config.batchSize then
    ids.foldlM (claimJob config worker stamp) s
  else none

/-- A statement that matches a locked row waits for it. -/
def extendLease (config : WorkerConfig) (s : State) (job : ClaimedJob) (worker : Nat) (stamp : Int) :
    Option State :=
  match s.jobs job.id with
  | some j =>
    if j.ownedBy job worker then
      if (s.locks job.id).isNone then
        some (s.setJob job.id { j with leaseExpiresAt := some (stamp + config.leaseSecs) })
      else none
    else some s
  | none => some s

def State.ownedLive (s : State) (job : ClaimedJob) (worker : Nat) (stamp : Int) : Bool :=
  (s.jobs job.id).any fun j => j.ownedBy job worker && j.leaseLive stamp

def setStageForOwner (s : State) (job : ClaimedJob) (worker : Nat) (stage : Stage) (stamp : Int) :
    State :=
  if s.ownedLive job worker stamp then
    s.updateDocument job.documentId job.workspaceId fun d => { d with processingStage := stage }
  else s

def lockFor (s : State) (job : ClaimedJob) (tx : Tx) : Option State :=
  if (s.locks job.id).isNone then
    some { s with locks := Function.update s.locks job.id (some tx) }
  else none

/-- `complete_job_and_document` up to the update of the job row, which takes the lock. -/
def beginComplete (s : State) (job : ClaimedJob) (worker : Nat) (stamp : Int) : Option State :=
  if s.ownedLive job worker stamp then lockFor s job (.complete job worker stamp) else some s

/-- `finish_job_failure` up to its `SELECT … FOR UPDATE`. -/
def beginFailure (s : State) (job : ClaimedJob) (worker : Nat) (failure : JobFailure) (stamp : Int) :
    Option State :=
  match s.jobs job.id with
  | some j =>
    if j.ownedBy job worker && j.leaseLive stamp then
      lockFor s job (.failure job worker stamp failure j.attemptCount j.maxAttempts)
    else some s
  | none => some s

def isControl (c : Char) : Bool := decide (c.toNat < 0x20 ∨ (0x7F ≤ c.toNat ∧ c.toNat < 0xA0))

def sanitizeMessage (message : List Char) : List Char :=
  (message.filter fun c => !isControl c).take 240

def State.unlock (s : State) (id : Nat) : State :=
  { s with locks := Function.update s.locks id none }

def State.updateJob (s : State) (id : Nat) (f : Job → Job) : State :=
  match s.jobs id with
  | some j => s.setJob id (f j)
  | none => s

def State.recordEnd (s : State) (job : ClaimedJob) (e : JobEnd) : State :=
  { s with ends := (job.claimToken, e) :: s.ends }

def commitComplete (s : State) (job : ClaimedJob) : State :=
  ((s.updateJob job.id fun j => { j with
      status := .succeeded, leaseExpiresAt := none, failureCode := none, failureMessage := none
    }).updateDocument job.documentId job.workspaceId fun d => { d with
      status := .completed, processingStage := .done, failureCode := none, failureMessage := none,
      failedAt := none }).recordEnd job .succeeded

def maxAttemptsExceededCode : List Char := "INGESTION_MAX_ATTEMPTS_EXCEEDED".toList
def maxAttemptsExceededMessage : List Char :=
  "Ingestion could not be completed after the configured retry limit".toList

def failureDisposition (config : WorkerConfig) (failure : JobFailure)
    (attemptCount maxAttempts : Int) : FailureDisposition :=
  dispositionAfterFailure (saturateI32 (attemptCount - 1)) (min maxAttempts config.maxAttempts)
    (!failure.retryable) config.backoff

def commitFailure (config : WorkerConfig) (s : State) (job : ClaimedJob) (stamp : Int)
    (failure : JobFailure) (attemptCount maxAttempts : Int) : State :=
  match failureDisposition config failure attemptCount maxAttempts with
  | .retryable _ secs =>
    ((s.updateJob job.id fun j => { j with
        status := .queued, availableAt := stamp + secs, leaseExpiresAt := none, claimedBy := none,
        claimToken := none, failureCode := some failure.code,
        failureMessage := some (sanitizeMessage failure.message)
      }).updateDocument job.documentId job.workspaceId fun d => { d with
        status := .processing, processingStage := .queued }).recordEnd job .requeued
  | .dead _ =>
    let code := if failure.retryable then maxAttemptsExceededCode else failure.code
    let message := sanitizeMessage
      (if failure.retryable then maxAttemptsExceededMessage else failure.message)
    ((s.updateJob job.id fun j => { j with
        status := .dead, leaseExpiresAt := none, failureCode := some code,
        failureMessage := some message
      }).updateDocument job.documentId job.workspaceId fun d => { d with
        status := .failed, processingStage := .failed, failureCode := some code,
        failureMessage := some message, failedAt := some stamp }).recordEnd job .dead

def commit (config : WorkerConfig) (s : State) (id : Nat) : Option State :=
  match s.locks id with
  | some (.complete job _ _) => some (commitComplete (s.unlock id) job)
  | some (.failure job _ stamp failure attemptCount maxAttempts) =>
    some (commitFailure config (s.unlock id) job stamp failure attemptCount maxAttempts)
  | none => none

def rollback (s : State) (id : Nat) : Option State :=
  if (s.locks id).isSome then some (s.unlock id) else none

inductive RequeueEligibility
  | failedOnly
  | failedOrCompleted
  deriving DecidableEq

def RequeueEligibility.admits : RequeueEligibility → DocumentStatus → Bool
  | failedOnly, status => status == .failed
  | failedOrCompleted, status => status == .failed || status == .completed

/-- One transaction: its first statement locks the document row. -/
def requeueDocumentForReingest (s : State) (document workspaceId : Nat) (maxAttempts : Int)
    (eligibility : RequeueEligibility) (stamp : Int) : State :=
  match s.documents document with
  | some d =>
    if d.workspaceId = workspaceId ∧ eligibility.admits d.status ∧
        s.hasActiveJob document = false then
      (enqueueJobTx (s.setDocument document { d with
          status := .processing, processingStage := .queued, failureCode := none,
          failureMessage := none, failedAt := none }) document workspaceId maxAttempts stamp).getD s
    else s
  | none => s

def jobMissingCode : List Char := "INGESTION_JOB_MISSING".toList
def jobMissingMessage : List Char :=
  "No durable ingestion job exists for this legacy processing document".toList

def recoverLegacyProcessingDocuments (s : State) (stamp : Int) : State :=
  { s with documents := fun id => (s.documents id).map fun d =>
      if d.status = .processing ∧ s.hasActiveJob id = false then
        { d with status := .failed, processingStage := .failed, failureCode := some jobMissingCode,
                 failureMessage := some jobMissingMessage, failedAt := some stamp }
      else d }

/-- The statement that `mark_missing_documents_as_failed` runs for one document. -/
def markMissingDocumentAsFailed (s : State) (document workspaceId : Nat) : State :=
  s.updateDocument document workspaceId fun d =>
    if d.status = .processing then { d with status := .failed, processingStage := .done } else d

/-- Deleting a document takes its jobs along, and waits for a locked one. -/
def deleteDocument (s : State) (document : Nat) : Option State :=
  if (List.range s.nextJob).all fun id =>
      (s.jobs id).all fun j => j.documentId != document || (s.locks id).isNone then
    some { s with
      documents := Function.update s.documents document none
      jobs := fun id => (s.jobs id).filter fun j => j.documentId != document }
  else none

inductive Act
  | tick (secs : Nat)
  | upload (workspaceId : Nat) (stamp : Int)
  | deleteDocument (document : Nat)
  | claim (worker : Nat) (ids : List Nat) (stamp : Int)
  | extendLease (job : ClaimedJob) (worker : Nat) (stamp : Int)
  | setStage (job : ClaimedJob) (worker : Nat) (stage : Stage) (stamp : Int)
  | beginComplete (job : ClaimedJob) (worker : Nat) (stamp : Int)
  | beginFailure (job : ClaimedJob) (worker : Nat) (failure : JobFailure) (stamp : Int)
  | commit (id : Nat)
  | rollback (id : Nat)
  | requeue (document workspaceId : Nat) (maxAttempts : Int) (eligibility : RequeueEligibility)
      (stamp : Int)
  | recoverLegacy (stamp : Int)
  | markMissing (document workspaceId : Nat)

/-- Calls are made with claims that were handed out; time stamps never lie ahead of the clock. -/
def step (config : WorkerConfig) (s : State) : Act → Option State
  | .tick secs => some { s with now := s.now + secs }
  | .upload workspaceId stamp =>
    if stamp ≤ s.now then uploadDocument config s workspaceId stamp else none
  | .deleteDocument document => deleteDocument s document
  | .claim worker ids stamp => if stamp ≤ s.now then claimJobs config s worker ids stamp else none
  | .extendLease job worker stamp =>
    if stamp ≤ s.now ∧ (job, worker) ∈ s.claims then extendLease config s job worker stamp else none
  | .setStage job worker stage stamp =>
    if stamp ≤ s.now ∧ (job, worker) ∈ s.claims then some (setStageForOwner s job worker stage stamp)
    else none
  | .beginComplete job worker stamp =>
    if stamp ≤ s.now ∧ (job, worker) ∈ s.claims then beginComplete s job worker stamp else none
  | .beginFailure job worker failure stamp =>
    if stamp ≤ s.now ∧ (job, worker) ∈ s.claims then beginFailure s job worker failure stamp
    else none
  | .commit id => commit config s id
  | .rollback id => rollback s id
  | .requeue document workspaceId maxAttempts eligibility stamp =>
    if stamp ≤ s.now then
      some (requeueDocumentForReingest s document workspaceId maxAttempts eligibility stamp)
    else none
  | .recoverLegacy stamp =>
    if stamp ≤ s.now then some (recoverLegacyProcessingDocuments s stamp) else none
  | .markMissing document workspaceId => some (markMissingDocumentAsFailed s document workspaceId)

end GmragApi.Ingestion

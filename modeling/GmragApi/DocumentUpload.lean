import GmragApi.DocumentAcl
import GmragApi.IngestionQueue
import GmragApi.ResourceTuples
import GmragApi.StoredObjects
import GmragApi.Utf8

/-! The upload of documents: the parts of the request are read first, then every file that was read
is written to the object storage, to the two tables and to the OpenFGA store. -/

namespace GmragApi.Upload

open DocumentAcl (DocumentAccessMode)

structure ApiError where
  status : Nat
  code : List Char
  message : List Char
  deriving DecidableEq

inductive UploadRejectionReason
  | payloadTooLarge
  | unsupportedMediaType
  | fileReadFailed
  | storageWriteFailed
  | persistFailed
  | authzSyncFailed
  deriving DecidableEq

def UploadRejectionReason.code : UploadRejectionReason → List Char
  | payloadTooLarge => "PAYLOAD_TOO_LARGE".toList
  | unsupportedMediaType => "UNSUPPORTED_MEDIA_TYPE".toList
  | fileReadFailed => "FILE_READ_FAILED".toList
  | storageWriteFailed => "STORAGE_WRITE_FAILED".toList
  | persistFailed => "PERSIST_FAILED".toList
  | authzSyncFailed => "AUTHZ_SYNC_FAILED".toList

def UploadRejectionReason.message : UploadRejectionReason → List Char
  | payloadTooLarge => "File exceeds the maximum upload size".toList
  | unsupportedMediaType =>
    "File content is not a supported document format (PDF, DOCX, TXT, MD)".toList
  | fileReadFailed => "File part could not be read from the request".toList
  | storageWriteFailed => "File could not be written to object storage".toList
  | persistFailed => "File metadata could not be persisted".toList
  | authzSyncFailed => "File authorization could not be synchronized".toList

structure RejectedUploadItem where
  filename : List Char
  reasonCode : List Char
  message : List Char
  deriving DecidableEq

def RejectedUploadItem.new (filename : List Char) (reason : UploadRejectionReason) :
    RejectedUploadItem :=
  ⟨filename, reason.code, reason.message⟩

structure UploadedDocumentItem where
  documentId : Uuid
  filename : List Char
  deriving DecidableEq

inductive UploadResponse
  | status (code : Nat)
  | error (e : ApiError)
  | errorWithDetails (e : ApiError) (rejected : List RejectedUploadItem)
  | accepted (documents : List UploadedDocumentItem) (rejected : List RejectedUploadItem)
  deriving DecidableEq

inductive DocumentFormat
  | pdf
  | docx
  | text
  | markdown
  deriving DecidableEq

def DocumentFormat.contentType : DocumentFormat → List Char
  | pdf => "application/pdf".toList
  | docx => "application/vnd.openxmlformats-officedocument.wordprocessingml.document".toList
  | text => "text/plain".toList
  | markdown => "text/markdown".toList

/-- The configuration of the service, and what its libraries say of some bytes: whether they load
as a PDF, whether they are a ZIP archive with the two entries of a DOCX, and their digest. -/
structure Service where
  documentMaxUploadBytes : Nat
  bucket : List Char
  maxAttempts : Int
  loadsPdf : List UInt8 → Bool
  holdsDocx : List UInt8 → Bool
  checksumSha256Hex : List UInt8 → List Char

def pdfMagic : List UInt8 := [0x25, 0x50, 0x44, 0x46, 0x2D]

def zipMagic : List UInt8 := [0x50, 0x4B, 0x03, 0x04]

def isParseablePdf (service : Service) (data : List UInt8) : Bool :=
  pdfMagic.isPrefixOf data && service.loadsPdf data

def isParseableDocx (service : Service) (data : List UInt8) : Bool :=
  zipMagic.isPrefixOf data && service.holdsDocx data

def isValidText (data : List UInt8) : Bool :=
  !data.isEmpty && !data.contains 0 && (Utf8.fromUtf8 data).isOk

/-- `Path::file_name`: the last component, if it is a normal one. -/
def pathFileName (path : List Char) : Option (List Char) :=
  (((path.splitOn '/').filter fun part => part ≠ [] ∧ part ≠ ['.']).getLast?).filter (· ≠ ['.', '.'])

/-- `Path::extension`: what follows the last dot of the name, if something comes before it. -/
def pathExtension (path : List Char) : Option (List Char) :=
  (pathFileName path).bind fun name =>
    let after := (name.reverse.takeWhile (· ≠ '.')).reverse
    if after.length + 1 < name.length then some after else none

def sanitizedExtension (filename : List Char) : Option (List Char) :=
  (pathExtension filename).map toAsciiLowercase

def detectUpload (service : Service) (filename : List Char) (data : List UInt8) :
    Option DocumentFormat :=
  if isParseablePdf service data then some .pdf
  else if isParseableDocx service data then some .docx
  else if !isValidText data then none
  else if sanitizedExtension filename = some "txt".toList then some .text
  else if sanitizedExtension filename = some "md".toList then some .markdown
  else none

def defaultFilename : List Char := "upload.pdf".toList

def sanitizeFilename (name : List Char) : List Char :=
  let base := (pathFileName name).getD defaultFilename
  let trimmed := (base.filter fun c => !(c == '/' || c == '\\' || c == '\x00')).take 255
  if trimmed.isEmpty then defaultFilename else trimmed

/-- The name fits its column. -/
theorem sanitizeFilename_length (name : List Char) :
    0 < (sanitizeFilename name).length ∧ (sanitizeFilename name).length ≤ 255 := by
  unfold sanitizeFilename
  dsimp only
  split
  next => decide
  next h =>
    refine ⟨List.length_pos_iff.mpr fun hnil => h ?_, List.length_take_le ..⟩
    rw [hnil]
    rfl

def DocumentAccessMode.parse (raw : List Char) : Option DocumentAccessMode :=
  if raw = "workspace_default".toList then some .workspaceDefault
  else if raw = "restricted".toList then some .restricted
  else none

/-- One part of the request: `text` and `bytes` are what reading it gives, `none` on an error. -/
structure Field where
  name : Option (List Char)
  fileName : Option (List Char)
  text : Option (List Char)
  bytes : Option (List UInt8)
  deriving DecidableEq

def Field.isAccessMode (f : Field) : Bool := f.name == some "access_mode".toList

def Field.isFile (f : Field) : Bool := f.name == some "file".toList

/-- What `next_field` answers, call after call: the parts, and at the end no part or an error. -/
inductive Multipart
  | finished
  | framingError
  | field (f : Field) (rest : Multipart)

structure PendingUploadFile where
  filename : List Char
  format : DocumentFormat
  bytes : List UInt8
  deriving DecidableEq

structure ReadState where
  accessMode : DocumentAccessMode
  pendingFiles : List PendingUploadFile
  rejected : List RejectedUploadItem

def invalidAccessMode : ApiError :=
  ⟨400, "INVALID_ACCESS_MODE".toList,
    "access_mode must be workspace_default or restricted".toList⟩

def readAccessMode (f : Field) : Except ApiError DocumentAccessMode :=
  match f.text with
  | none => .error invalidAccessMode
  | some text =>
    match DocumentAccessMode.parse (trim text) with
    | some mode => .ok mode
    | none => .error invalidAccessMode

def Field.uploadName (f : Field) : List Char :=
  (f.fileName.map sanitizeFilename).getD defaultFilename

/-- The file of a part, or why it is turned away. -/
def readFile (service : Service) (f : Field) :
    Except UploadRejectionReason PendingUploadFile :=
  match f.bytes with
  | none => .error .fileReadFailed
  | some bytes =>
    if service.documentMaxUploadBytes < bytes.length then .error .payloadTooLarge
    else
      match detectUpload service f.uploadName bytes with
      | none => .error .unsupportedMediaType
      | some format => .ok ⟨f.uploadName, format, bytes⟩

def readField (service : Service) (s : ReadState) (f : Field) : Except ApiError ReadState :=
  if f.isAccessMode then
    match readAccessMode f with
    | .error e => .error e
    | .ok mode => .ok { s with accessMode := mode }
  else if f.isFile then
    match readFile service f with
    | .error reason =>
      .ok { s with rejected := s.rejected ++ [RejectedUploadItem.new f.uploadName reason] }
    | .ok file => .ok { s with pendingFiles := s.pendingFiles ++ [file] }
  else .ok s

/-- `while let Ok(Some(field))`: an error of the stream ends the loop as its end does. -/
def readMultipart (service : Service) : ReadState → Multipart → Except ApiError ReadState
  | s, .finished => .ok s
  | s, .framingError => .ok s
  | s, .field f rest =>
    match readField service s f with
    | .error e => .error e
    | .ok s => readMultipart service s rest

structure StoredObject where
  ref : StoredObjects.ObjectRef
  bytes : List UInt8
  contentType : List Char
  deriving DecidableEq

structure DocumentRow where
  id : Uuid
  workspaceId : Uuid
  ownerId : List Char
  filename : List Char
  status : Ingestion.DocumentStatus
  processingStage : Ingestion.Stage
  accessMode : DocumentAccessMode
  objectKey : List Char
  bucket : List Char
  contentType : List Char
  sizeBytes : Nat
  checksumSha256 : List Char
  storageEtag : Option (List Char)
  uploadedBy : List Char
  deriving DecidableEq

structure JobRow where
  documentId : Uuid
  workspaceId : Uuid
  status : Ingestion.JobStatus
  attemptCount : Int
  maxAttempts : Int
  deriving DecidableEq

structure AuditEvent where
  actorUserId : List Char
  tenantId : Uuid
  workspaceId : Uuid
  documentId : Uuid
  filename : List Char
  sizeBytes : Nat
  contentType : List Char
  accessMode : DocumentAccessMode
  deriving DecidableEq

structure Stores where
  objects : List StoredObject
  documents : List DocumentRow
  jobs : List JobRow
  tuples : Fga.Store
  auditEvents : List AuditEvent
  deriving DecidableEq

/-- The outcome of a call. One that is `lost` has taken effect, but is reported as failed. -/
inductive CallReply (α : Type)
  | ok (value : α)
  | failed
  | lost
  deriving DecidableEq

namespace CallReply

variable {α : Type}

def value? : CallReply α → Option α
  | ok value => some value
  | failed => none
  | lost => none

def isOk (r : CallReply α) : Bool := r.value?.isSome

def applied : CallReply α → Bool
  | ok _ => true
  | failed => false
  | lost => true

def isLost (r : CallReply α) : Bool := r.applied && !r.isOk

theorem isOk_iff {r : CallReply α} : r.isOk = true ↔ ∃ a, r = .ok a := by
  cases r with
  | ok a => exact ⟨fun _ => ⟨a, rfl⟩, fun _ => rfl⟩
  | failed | lost => exact ⟨fun h => (by cases h), fun ⟨_, h⟩ => (by cases h)⟩

end CallReply

/-- What the calls made for one file answer, and the fresh id. The statements of the transaction
have no effect before its commit; the last three calls compensate or are not required. -/
structure FileCalls where
  documentId : Uuid
  putObject : CallReply (Option (List Char))
  beginTransaction : Bool
  insertDocument : Bool
  enqueueJob : Bool
  commit : CallReply Unit
  writeTuple : CallReply Unit
  deleteDocument : CallReply Unit
  deleteObject : CallReply Unit
  auditEvent : CallReply Unit
  deriving DecidableEq

/-- What the loop knows of the request. -/
structure UploadContext where
  service : Service
  tenantId : Uuid
  workspaceId : Uuid
  userId : List Char
  accessMode : DocumentAccessMode

section Persist

variable (ctx : UploadContext) (calls : FileCalls) (file : PendingUploadFile)

def objectKeyOf (documentId : Uuid) : List Char :=
  StoredObjects.buildOriginalDocumentObjectKey ctx.tenantId ctx.workspaceId documentId

def refOf (documentId : Uuid) : StoredObjects.ObjectRef :=
  ⟨ctx.service.bucket, objectKeyOf ctx documentId⟩

def objectOf : StoredObject :=
  ⟨refOf ctx calls.documentId, file.bytes, file.format.contentType⟩

/-- `i64::try_from(bytes.len()).unwrap_or(i64::MAX)` -/
def PendingUploadFile.sizeBytes (file : PendingUploadFile) : Nat :=
  min file.bytes.length (2 ^ 63 - 1)

def rowOf (etag : Option (List Char)) : DocumentRow where
  id := calls.documentId
  workspaceId := ctx.workspaceId
  ownerId := ctx.userId
  filename := file.filename
  status := .processing
  processingStage := .queued
  accessMode := ctx.accessMode
  objectKey := objectKeyOf ctx calls.documentId
  bucket := ctx.service.bucket
  contentType := file.format.contentType
  sizeBytes := file.sizeBytes
  checksumSha256 := ctx.service.checksumSha256Hex file.bytes
  storageEtag := etag
  uploadedBy := ctx.userId

/-- The columns that `enqueue_job_tx` leaves to their defaults are `QUEUED` and no attempts. -/
def jobOf : JobRow :=
  ⟨calls.documentId, ctx.workspaceId, .queued, 0, ctx.service.maxAttempts⟩

def tupleOf (documentId : Uuid) : TupleKey :=
  ResourceTuples.documentWorkspaceTuple ctx.workspaceId.bits.toNat documentId.bits.toNat

def auditEventOf : AuditEvent :=
  ⟨ctx.userId, ctx.tenantId, ctx.workspaceId, calls.documentId, file.filename, file.sizeBytes,
    file.format.contentType, ctx.accessMode⟩

namespace Stores

/-- An object of the same key is replaced. -/
def putOriginalDocument (s : Stores) (object : StoredObject) (done : Bool) : Stores :=
  if done then { s with objects := s.objects.filter (·.ref ≠ object.ref) ++ [object] } else s

def deleteObject (s : Stores) (ref : StoredObjects.ObjectRef) (done : Bool) : Stores :=
  if done then { s with objects := s.objects.filter (·.ref ≠ ref) } else s

def insertDocument (s : Stores) (row : DocumentRow) : Stores :=
  { s with documents := s.documents ++ [row] }

def enqueueJobTx (s : Stores) (job : JobRow) : Stores := { s with jobs := s.jobs ++ [job] }

/-- The jobs of the document go with it: `ON DELETE CASCADE`. -/
def deleteDocument (s : Stores) (documentId workspaceId : Uuid) (done : Bool) : Stores :=
  if done then
    if s.documents.any fun row => row.id == documentId && row.workspaceId == workspaceId then
      { s with
        documents := s.documents.filter fun row =>
          !(row.id == documentId && row.workspaceId == workspaceId)
        jobs := s.jobs.filter (·.documentId ≠ documentId) }
    else s
  else s

def ensureDocumentWorkspaceRelation (s : Stores) (tuple : TupleKey) (done : Bool) : Stores :=
  if done then { s with tuples := insert tuple s.tuples } else s

def insertAuditEvent (s : Stores) (event : AuditEvent) (done : Bool) : Stores :=
  if done then { s with auditEvents := s.auditEvents ++ [event] } else s

end Stores

/-- What the commit of the transaction leaves. -/
def commitUpload (etag : Option (List Char)) (s : Stores) : Stores :=
  if calls.commit.applied then
    (s.insertDocument (rowOf ctx calls file etag)).enqueueJobTx (jobOf ctx calls)
  else s

/-- One turn of the loop. The rows of a transaction that is not committed are dropped. -/
def persistFile (s : Stores) : Stores × Except UploadRejectionReason UploadedDocumentItem :=
  let ref := refOf ctx calls.documentId
  let stored := s.putOriginalDocument (objectOf ctx calls file) calls.putObject.applied
  match calls.putObject.value? with
  -- nothing deletes the object of a put that is reported as failed
  | none => (stored, .error .storageWriteFailed)
  | some etag =>
    if !calls.beginTransaction then
      (stored.deleteObject ref calls.deleteObject.applied, .error .persistFailed)
    else if !calls.insertDocument then
      (stored.deleteObject ref calls.deleteObject.applied, .error .persistFailed)
    else if !calls.enqueueJob then
      (stored.deleteObject ref calls.deleteObject.applied, .error .persistFailed)
    else
      let committed := commitUpload ctx calls file etag stored
      if !calls.commit.isOk then
        (committed.deleteObject ref calls.deleteObject.applied, .error .persistFailed)
      else
        let related := committed.ensureDocumentWorkspaceRelation (tupleOf ctx calls.documentId)
          calls.writeTuple.applied
        -- nor does anything delete the tuple of such a write
        if !calls.writeTuple.isOk then
          ((related.deleteDocument calls.documentId ctx.workspaceId
              calls.deleteDocument.applied).deleteObject ref calls.deleteObject.applied,
            .error .authzSyncFailed)
        else
          (related.insertAuditEvent (auditEventOf ctx calls file) calls.auditEvent.applied,
            .ok ⟨calls.documentId, file.filename⟩)

end Persist

section Exits

variable {ctx : UploadContext} {c : FileCalls} {etag : Option (List Char)}

theorem persistFile_of_put_failed (file : PendingUploadFile) (s : Stores)
    (hput : c.putObject.value? = none) :
    persistFile ctx c file s =
      (s.putOriginalDocument (objectOf ctx c file) c.putObject.applied,
        .error .storageWriteFailed) := by
  unfold persistFile
  rw [hput]

/-- A transaction whose statements do not all succeed leaves nothing. -/
theorem persistFile_of_statement_failed (file : PendingUploadFile) (s : Stores)
    (hput : c.putObject = .ok etag)
    (hstatements : (c.beginTransaction && c.insertDocument && c.enqueueJob) = false) :
    persistFile ctx c file s =
      ((s.putOriginalDocument (objectOf ctx c file) true).deleteObject (refOf ctx c.documentId)
        c.deleteObject.applied, .error .persistFailed) := by
  unfold persistFile
  rw [hput]
  cases hbegin : c.beginTransaction with
  | false => rfl
  | true =>
    cases hinsert : c.insertDocument with
    | false => rfl
    | true =>
      have henqueue : c.enqueueJob = false := by
        rw [hbegin, hinsert] at hstatements
        exact hstatements
      rw [henqueue]
      rfl

variable (file : PendingUploadFile) (s : Stores) (hput : c.putObject = .ok etag)
  (hstatements : (c.beginTransaction && c.insertDocument && c.enqueueJob) = true)

include hput hstatements

theorem persistFile_of_commit_failed (hcommit : c.commit.isOk = false) :
    persistFile ctx c file s =
      ((commitUpload ctx c file etag
          (s.putOriginalDocument (objectOf ctx c file) true)).deleteObject
        (refOf ctx c.documentId) c.deleteObject.applied, .error .persistFailed) := by
  obtain ⟨hwritten, henqueue⟩ := Bool.and_eq_true_iff.mp hstatements
  obtain ⟨hbegin, hinsert⟩ := Bool.and_eq_true_iff.mp hwritten
  unfold persistFile
  rw [hput, hbegin, hinsert, henqueue, hcommit]
  rfl

theorem persistFile_of_write_failed (hcommit : c.commit = .ok ())
    (hwrite : c.writeTuple.isOk = false) :
    persistFile ctx c file s =
      (((((s.putOriginalDocument (objectOf ctx c file) true).insertDocument
          (rowOf ctx c file etag)).enqueueJobTx (jobOf ctx c)).ensureDocumentWorkspaceRelation
            (tupleOf ctx c.documentId) c.writeTuple.applied).deleteDocument c.documentId
              ctx.workspaceId c.deleteDocument.applied |>.deleteObject (refOf ctx c.documentId)
                c.deleteObject.applied, .error .authzSyncFailed) := by
  obtain ⟨hwritten, henqueue⟩ := Bool.and_eq_true_iff.mp hstatements
  obtain ⟨hbegin, hinsert⟩ := Bool.and_eq_true_iff.mp hwritten
  unfold persistFile commitUpload
  rw [hput, hbegin, hinsert, henqueue, hcommit, hwrite]
  rfl

theorem persistFile_of_written (hcommit : c.commit = .ok ()) (hwrite : c.writeTuple = .ok ()) :
    persistFile ctx c file s =
      (((((s.putOriginalDocument (objectOf ctx c file) true).insertDocument
          (rowOf ctx c file etag)).enqueueJobTx (jobOf ctx c)).ensureDocumentWorkspaceRelation
            (tupleOf ctx c.documentId) true).insertAuditEvent (auditEventOf ctx c file)
              c.auditEvent.applied, .ok ⟨c.documentId, file.filename⟩) := by
  obtain ⟨hwritten, henqueue⟩ := Bool.and_eq_true_iff.mp hstatements
  obtain ⟨hbegin, hinsert⟩ := Bool.and_eq_true_iff.mp hwritten
  unfold persistFile commitUpload
  rw [hput, hbegin, hinsert, henqueue, hcommit, hwrite]
  rfl

end Exits

structure Progress where
  stores : Stores
  uploaded : List UploadedDocumentItem
  rejected : List RejectedUploadItem

def persistNext (ctx : UploadContext) (calls : FileCalls) (file : PendingUploadFile)
    (p : Progress) : Progress :=
  match persistFile ctx calls file p.stores with
  | (stores, .ok item) => ⟨stores, p.uploaded ++ [item], p.rejected⟩
  | (stores, .error reason) =>
    ⟨stores, p.uploaded, p.rejected ++ [RejectedUploadItem.new file.filename reason]⟩

/-- The loop over the pending files; `calls i` answers for the `i`-th of them. -/
def persistPendingFiles (ctx : UploadContext) (calls : Nat → FileCalls) :
    Nat → List PendingUploadFile → Progress → Progress
  | _, [], p => p
  | i, file :: rest, p =>
    persistPendingFiles ctx calls (i + 1) rest (persistNext ctx (calls i) file p)

inductive AdminCheck
  | allowed
  | denied
  | failed
  deriving DecidableEq

/-- `require_relation(Relation::Admin, …)` -/
def requireAdmin : AdminCheck → Except ApiError Unit
  | .allowed => .ok ()
  | .denied =>
    .error ⟨403, "WORKSPACE_ADMIN_REQUIRED".toList, "Workspace admin access required".toList⟩
  | .failed => .error ⟨500, "AUTHZ_ERROR".toList, "Authorization service unavailable".toList⟩

def noAcceptableFile : ApiError :=
  ⟨400, "INVALID_REQUEST".toList, "Request did not contain an acceptable file".toList⟩

structure UploadRequest where
  workspaceId : Uuid
  userId : List Char
  multipart : Multipart

/-- What the calls of a request answer. -/
structure UploadCalls where
  admin : AdminCheck
  fetchTenantId : Except Unit (Option Uuid)
  file : Nat → FileCalls

def uploadResponse (p : Progress) : UploadResponse :=
  if p.uploaded.isEmpty then .errorWithDetails noAcceptableFile p.rejected
  else .accepted p.uploaded p.rejected

def uploadDocument (service : Service) (calls : UploadCalls) (request : UploadRequest)
    (s : Stores) : Stores × UploadResponse :=
  match requireAdmin calls.admin with
  | .error e => (s, .error e)
  | .ok () =>
    match calls.fetchTenantId with
    | .error () => (s, .status 500)
    | .ok none => (s, .status 404)
    | .ok (some tenantId) =>
      match readMultipart service ⟨.workspaceDefault, [], []⟩ request.multipart with
      | .error e => (s, .error e)
      | .ok read =>
        let ctx : UploadContext :=
          ⟨service, tenantId, request.workspaceId, request.userId, read.accessMode⟩
        let p := persistPendingFiles ctx calls.file 0 read.pendingFiles ⟨s, [], read.rejected⟩
        (p.stores, uploadResponse p)

end GmragApi.Upload

import GmragApi.DeleteOutbox
import GmragApi.Uuid
import Mathlib.Data.Finset.Image

/-! The objects of the documents in the buckets of the object storage: uploads put them before
their rows, deletions leave events for them, and operators scan for orphans. Each of these is a
process that makes one statement or one call at a time. -/

namespace GmragApi.StoredObjects

open DeleteOutbox (RowStatus)

structure ObjectRef where
  bucket : List Char
  key : List Char
  deriving DecidableEq

/-- A row of `documents`, as far as its object is concerned. -/
structure Document where
  id : Uuid
  workspaceId : Uuid
  bucket : List Char
  objectKey : List Char
  deriving DecidableEq

def Document.ref (d : Document) : ObjectRef := ⟨d.bucket, d.objectKey⟩

def buildWorkspacePrefix (tenantId workspaceId : Uuid) : List Char :=
  "tenants/".toList ++ tenantId.display ++ "/workspaces/".toList ++ workspaceId.display ++ "/".toList

def buildOriginalDocumentObjectKey (tenantId workspaceId documentId : Uuid) : List Char :=
  buildWorkspacePrefix tenantId workspaceId ++ "documents/".toList ++ documentId.display ++
    "/original.pdf".toList

inductive Event
  | deleteObject (payload : DeleteObjectPayload)
  | deletePrefix (payload : DeletePrefixPayload)
  deriving DecidableEq

/-- The checks that come before a call; a row that fails them is poison. -/
def Event.valid : Event → Bool
  | deleteObject p =>
    (validateBucket p.bucket).toBool && (validateObjectKey p.objectKey).toBool
  | deletePrefix p => (validateBucket p.bucket).toBool && (validatePrefix p.keyPrefix).toBool

structure Row where
  event : Event
  status : RowStatus
  deriving DecidableEq

/-- `before` are the keys that were there when the listing began. -/
structure Listing where
  bucket : List Char
  keyPrefix : List Char
  before : Finset (List Char)
  seen : List (List Char)
  deriving DecidableEq

/-- Why keys are listed: for a `delete_prefix` row, or to find the keys that no row of a snapshot of
`documents` names. -/
inductive Purpose
  | prefixEvent (row : Nat)
  | orphanScan (knownKeys : List (List Char)) (deleteOrphans : Bool)
  deriving DecidableEq

/-- Where a request, a worker or a scan stands. -/
inductive Proc
  | putting (d : Document)
  | persisting (d : Document)
  | syncing (d : Document)
  | removingRow (d : Document)
  | compensating (d : Document)
  | deletingDocument (bucket : List Char) (workspaceId documentId : Uuid)
  | cleaningObject (ref : ObjectRef)
  | deletingWorkspace (bucket : List Char) (workspaceId : Uuid)
  | attempting (row : Nat) (event : Event)
  | scanning (bucket : List Char) (knownKeys : List (List Char)) (deleteOrphans : Bool)
  | listing (l : Listing) (purpose : Purpose)
  | deletingObjects (bucket : List Char) (keys : List (List Char)) (purpose : Purpose)
  | settling (row : Nat)
  | failing (row : Nat)
  | done
  deriving DecidableEq

/-- `removed` and `rejected` record the documents whose rows are gone and the uploads that were
turned away, `swept` the objects that scans have deleted. -/
structure State where
  workspaces : Uuid → Option Uuid
  documents : List Document
  objects : Finset ObjectRef
  outbox : List Row
  procs : List Proc
  usedIds : List Uuid
  removed : List Document
  rejected : List Document
  swept : List ObjectRef

/-- The outcome of a statement or a call. One that is `lost` has taken effect, but is reported as
failed, as is a request that deletes only `partly`; a failed attempt at a row is recorded for a
retry, or the row is `buried` as dead. -/
inductive Reply
  | ok
  | failed
  | lost
  | partly (keys : List (List Char))
  | page (keys : List (List Char)) (last : Bool)
  | buried
  deriving DecidableEq

def State.goto (s : State) (i : Nat) (p : Proc) : State := { s with procs := s.procs.set i p }

def State.start (s : State) (p : Proc) : State := { s with procs := s.procs ++ [p] }

def State.put (s : State) (ref : ObjectRef) : State := { s with objects := insert ref s.objects }

def State.deleteObject (s : State) (ref : ObjectRef) : State :=
  { s with objects := s.objects.erase ref }

def State.reject (s : State) (d : Document) : State := { s with rejected := d :: s.rejected }

/-- Deleted rows take their place among the removed ones. -/
def State.removeRows (s : State) (p : Document → Bool) : State :=
  { s with
    documents := s.documents.filter fun d => !p d
    removed := s.documents.filter p ++ s.removed }

def State.enqueue (s : State) (e : Event) : State :=
  { s with outbox := s.outbox ++ [⟨e, .pending⟩] }

def State.mark (s : State) (row : Nat) (status : RowStatus) : State :=
  { s with outbox := s.outbox.modify row fun r => { r with status := status } }

def enqueueDeleteObject (d : Document) : Event :=
  .deleteObject ⟨d.objectKey, d.bucket, d.workspaceId, d.id⟩

def enqueueDeletePrefix (bucket : List Char) (tenantId workspaceId : Uuid) : Event :=
  .deletePrefix ⟨buildWorkspacePrefix tenantId workspaceId, bucket, some tenantId, some workspaceId⟩

/-- The transaction of an upload: the row of the workspace has to be there. -/
def persistUpload (s : State) (i : Nat) (d : Document) (next : Proc) : Option State :=
  if (s.workspaces d.workspaceId).isSome then
    some ({ s with documents := s.documents ++ [d] }.goto i next)
  else none

def isDocument (workspaceId documentId : Uuid) (d : Document) : Bool :=
  d.id == documentId && d.workspaceId == workspaceId

/-- `delete_document` up to its commit: the event names the bucket of the row. The object is then
deleted once more, in the bucket of this server. -/
def deleteDocument (s : State) (i : Nat) (bucket : List Char) (workspaceId documentId : Uuid)
    (acknowledged : Bool) : State :=
  match s.documents.find? (isDocument workspaceId documentId) with
  | some d =>
    ((s.removeRows (isDocument workspaceId documentId)).enqueue (enqueueDeleteObject d)).goto i
      (if acknowledged then .cleaningObject ⟨bucket, d.objectKey⟩ else .done)
  | none => s.goto i .done

/-- `delete_workspace` up to its commit: the event names the bucket of this server. -/
def deleteWorkspace (s : State) (i : Nat) (bucket : List Char) (workspaceId : Uuid) : State :=
  match s.workspaces workspaceId with
  | some tenantId =>
    ({ s.removeRows (fun d => d.workspaceId == workspaceId) with
        workspaces := Function.update s.workspaces workspaceId none }.enqueue
      (enqueueDeletePrefix bucket tenantId workspaceId)).goto i .done
  | none => s.goto i .done

def keysIn (objects : Finset ObjectRef) (bucket keyPrefix : List Char) : Finset (List Char) :=
  (objects.filter fun o => o.bucket = bucket ∧ keyPrefix <+: o.key).image ObjectRef.key

def startListing (s : State) (i : Nat) (bucket keyPrefix : List Char) (purpose : Purpose) : State :=
  s.goto i (.listing ⟨bucket, keyPrefix, keysIn s.objects bucket keyPrefix, []⟩ purpose)

/-- A page holds keys that are there, and with the last page no key is missing that was there all
along. -/
def pageOk (s : State) (l : Listing) (keys : List (List Char)) (last : Bool) : Bool :=
  decide ((∀ key ∈ keys, ⟨l.bucket, key⟩ ∈ s.objects ∧ l.keyPrefix <+: key) ∧
    (last = true → ∀ key ∈ l.before, ⟨l.bucket, key⟩ ∈ s.objects → key ∈ l.seen ++ keys))

/-- `find_orphan_object_keys` and `build_delete_candidate_keys`. -/
def keysToDelete (seen : List (List Char)) : Purpose → List (List Char)
  | .prefixEvent _ => seen
  | .orphanScan knownKeys deleteOrphans =>
    if deleteOrphans then seen.filter fun key => !knownKeys.contains key else []

def Purpose.succeeded : Purpose → Proc
  | prefixEvent row => .settling row
  | orphanScan _ _ => .done

def Purpose.failed : Purpose → Proc
  | prefixEvent row => .failing row
  | orphanScan _ _ => .done

def deleteBatchSize : Nat := 1000

/-- One request of `delete_objects`. -/
def deleteBatch (s : State) (bucket : List Char) (keys : List (List Char)) : Purpose → State
  | .prefixEvent _ =>
    { s with objects := s.objects.filter fun o => ¬ (o.bucket = bucket ∧ o.key ∈ keys) }
  | .orphanScan _ _ =>
    { s with
      objects := s.objects.filter fun o => ¬ (o.bucket = bucket ∧ o.key ∈ keys)
      swept := keys.map (⟨bucket, ·⟩) ++ s.swept }

/-- The next statement or call of process `i`, which stands at `p`. -/
def advance (s : State) (i : Nat) : Proc → Reply → Option State
  | .putting d, .ok => some ((s.put d.ref).goto i (.persisting d))
  | .putting d, .failed => some ((s.reject d).goto i .done)
  | .putting d, .lost => some (((s.put d.ref).reject d).goto i .done)
  | .persisting d, .ok => persistUpload s i d (.syncing d)
  | .persisting d, .failed => some (s.goto i (.compensating d))
  | .persisting d, .lost => persistUpload s i d (.compensating d)
  | .syncing _, .ok => some (s.goto i .done)
  | .syncing d, .failed => some (s.goto i (.removingRow d))
  | .syncing d, .lost => some (s.goto i (.removingRow d))
  | .removingRow d, .ok =>
    some ((s.removeRows (isDocument d.workspaceId d.id)).goto i (.compensating d))
  | .removingRow d, .failed => some (s.goto i (.compensating d))
  | .removingRow d, .lost =>
    some ((s.removeRows (isDocument d.workspaceId d.id)).goto i (.compensating d))
  -- the compensating delete succeeds
  | .compensating d, .ok => some (((s.deleteObject d.ref).reject d).goto i .done)
  | .deletingDocument bucket workspaceId documentId, .ok =>
    some (deleteDocument s i bucket workspaceId documentId true)
  | .deletingDocument _ _ _, .failed => some (s.goto i .done)
  | .deletingDocument bucket workspaceId documentId, .lost =>
    some (deleteDocument s i bucket workspaceId documentId false)
  | .cleaningObject ref, .ok => some ((s.deleteObject ref).goto i .done)
  | .cleaningObject _, .failed => some (s.goto i .done)
  | .cleaningObject ref, .lost => some ((s.deleteObject ref).goto i .done)
  | .deletingWorkspace bucket workspaceId, .ok => some (deleteWorkspace s i bucket workspaceId)
  | .deletingWorkspace _ _, .failed => some (s.goto i .done)
  | .deletingWorkspace bucket workspaceId, .lost => some (deleteWorkspace s i bucket workspaceId)
  | .attempting row (.deleteObject p), .ok =>
    some ((s.deleteObject ⟨p.bucket, p.objectKey⟩).goto i (.settling row))
  | .attempting row (.deleteObject p), .lost =>
    some ((s.deleteObject ⟨p.bucket, p.objectKey⟩).goto i (.failing row))
  | .attempting row (.deletePrefix p), .ok =>
    some (startListing s i p.bucket p.keyPrefix (.prefixEvent row))
  | .attempting row _, .failed => some (s.goto i (.failing row))
  | .scanning bucket knownKeys deleteOrphans, .ok =>
    some (startListing s i bucket [] (.orphanScan knownKeys deleteOrphans))
  | .scanning _ _ _, .failed => some (s.goto i .done)
  | .listing l purpose, .page keys last =>
    if pageOk s l keys last then
      some (s.goto i (if last then
        .deletingObjects l.bucket (keysToDelete (l.seen ++ keys) purpose) purpose
        else .listing { l with seen := l.seen ++ keys } purpose))
    else none
  | .listing _ purpose, .failed => some (s.goto i purpose.failed)
  | .deletingObjects _ [] purpose, .ok => some (s.goto i purpose.succeeded)
  | .deletingObjects bucket keys purpose, .ok =>
    some ((deleteBatch s bucket (keys.take deleteBatchSize) purpose).goto i
      (.deletingObjects bucket (keys.drop deleteBatchSize) purpose))
  | .deletingObjects bucket keys purpose, .partly gone =>
    if gone ⊆ keys.take deleteBatchSize then
      some ((deleteBatch s bucket gone purpose).goto i purpose.failed)
    else none
  | .deletingObjects _ _ purpose, .failed => some (s.goto i purpose.failed)
  | .settling row, .ok => some ((s.mark row .processed).goto i .done)
  | .settling row, .lost => some ((s.mark row .processed).goto i .done)
  | .settling _, .failed => some (s.goto i .done)
  | .failing row, .ok => some ((s.mark row .failed).goto i .done)
  | .failing row, .buried => some ((s.mark row .dead).goto i .done)
  | .failing _, .failed => some (s.goto i .done)
  | _, _ => none

inductive Act
  | upload (bucket : List Char) (workspaceId documentId : Uuid)
  | deleteDocument (bucket : List Char) (workspaceId documentId : Uuid)
  | deleteWorkspace (bucket : List Char) (workspaceId : Uuid)
  | work (row : Nat)
  | scan (bucket : List Char) (allowDelete deleteOrphans : Bool)
  | advance (i : Nat) (reply : Reply)

/-- A new document has a new id; `bucket` is the one that its server is configured with. -/
def uploadDocument (s : State) (bucket : List Char) (workspaceId documentId : Uuid) :
    Option State :=
  if documentId ∈ s.usedIds then none
  else match s.workspaces workspaceId with
    | some tenantId =>
      some ({ s with usedIds := documentId :: s.usedIds }.start (.putting ⟨documentId, workspaceId,
        bucket, buildOriginalDocumentObjectKey tenantId workspaceId documentId⟩))
    | none => some (s.start .done)

/-- A worker takes a row that is not settled yet. -/
def workOn (s : State) (row : Nat) : Option State :=
  match s.outbox[row]? with
  | some r =>
    if r.status.terminal then none
    else some (s.start (if r.event.valid then .attempting row r.event else .failing row))
  | none => none

def step (s : State) : Act → Option State
  | .upload bucket workspaceId documentId => uploadDocument s bucket workspaceId documentId
  | .deleteDocument bucket workspaceId documentId =>
    some (s.start (.deletingDocument bucket workspaceId documentId))
  | .deleteWorkspace bucket workspaceId => some (s.start (.deletingWorkspace bucket workspaceId))
  | .work row => workOn s row
  | .scan bucket allowDelete deleteOrphans =>
    some (s.start (.scanning bucket (s.documents.map (·.objectKey)) (allowDelete && deleteOrphans)))
  | .advance i reply => (s.procs[i]?).bind fun p => advance s i p reply

end GmragApi.StoredObjects

import GmragApi.RetentionAgreement
import GmragApi.Revokes
import GmragApi.Transition

/-! The deletion of a tenant by an operator: a recovery file, the tuples at OpenFGA, and one SQL
transaction that leaves the work on the object storage and the vector index to the outboxes. -/

namespace GmragApi.TenantCleanup

open Retention (OutboxRow ScannedVector uuidLe textLe enqueueDeleteByWorkspaces enqueueDeletePrefix
  processQdrantRow processStorageRow PointDelete ObjectDelete)

/-- A tuple as OpenFGA lists it. -/
structure TupleText where
  user : List Char
  relation : List Char
  object : List Char
  deriving DecidableEq

structure TenantRow where
  name : List Char
  createdAt : Int

structure WorkspaceRow where
  id : Uuid
  tenantId : Option Uuid
  name : List Char

structure DocumentRow where
  id : Uuid
  workspaceId : Option Uuid

structure TenantDeletedMetadata where
  tenantName : List Char
  workspaceCount : Nat
  documentCount : Nat
  openfgaTupleCount : Nat
  publicApi : Bool

structure AuditEvent where
  eventType : List Char
  actorUserId : Option (List Char)
  tenantId : Option Uuid
  targetType : Option (List Char)
  targetId : Option (List Char)
  metadata : TenantDeletedMetadata

/-- Of the rows that only the counts of the report read, the workspace; of the members of a tenant
the address. -/
structure Sql where
  tenants : Uuid → Option TenantRow
  memberEmails : List (Uuid × List Char)
  workspaces : List WorkspaceRow
  documents : List DocumentRow
  documentChunks : List (Option Uuid)
  graphNodes : List (Option Uuid)
  chatSessions : List (Option Uuid)
  qdrantOutbox : List OutboxRow
  storageOutbox : List OutboxRow
  auditEvents : List AuditEvent

structure TenantDeletePlan where
  tenantId : Uuid
  tenantName : List Char
  workspaceIds : List Uuid
  storagePrefix : List Char
  storageBucket : List Char

structure TenantWorkspaceImpact where
  id : Uuid
  name : List Char
  documentCount : Nat

structure TenantDeleteImpact where
  plan : TenantDeletePlan
  createdAt : Int
  ownerEmails : List (List Char)
  workspaces : List TenantWorkspaceImpact
  documentCount : Nat
  chunkCount : Nat
  graphNodeCount : Nat
  chatSessionCount : Nat
  documentIds : List Uuid
  openfgaTuples : List TupleText

def TenantDeleteImpact.withTuples (impact : TenantDeleteImpact) (tuples : List TupleText) :
    TenantDeleteImpact :=
  { impact with openfgaTuples := tuples }

/-- `suffix` tells it from files of the same moment. -/
structure RecoveryFile where
  suffix : Nat
  tenantId : Uuid
  tenantName : List Char
  tenantCreatedAt : Int
  openfgaTuples : List TupleText
  complete : Bool

inductive SqlError
  | failed
  | protocol (message : List Char)

inductive OperatorTenantDeleteError
  | database (source : SqlError)
  | authorization (source : AuthzError)
  | listing
  | recoveryFile
  | recoverySerialization
  | sqlAfterOpenFga (recoveryFile : RecoveryFile)

inductive OperatorTenantDeleteResult
  | notFound
  | deleted (impact : TenantDeleteImpact) (recoveryFile : RecoveryFile)

/-- What a run does to the recovery directory and to the tuples, in its order. -/
inductive Effect
  | file (f : RecoveryFile)
  | removed (tuples : Finset TupleText)

structure World where
  sql : Sql
  store : Finset TupleText
  log : List Effect

inductive Statement
  | beginTransaction
  | selectTenant
  | selectOwnerEmails
  | selectWorkspaces
  | selectDocuments
  | countChunks
  | countGraphNodes
  | countChatSessions
  | enqueueQdrant
  | enqueueStorage
  | insertAudit
  | deleteTenant

/-- A file of which the writing fails is removed again, where that succeeds. -/
inductive FileFate
  | alreadyExists
  | openFails
  | serializationFails (removed : Bool)
  | writeFails (removed : Bool)
  | written

/-- What the calls of a run come to; a listing has each tuple of the store once. -/
structure Course where
  succeeds : Statement → Bool
  rollback : Bool
  listing : (store : Finset TupleText) →
    Option { tuples : List TupleText // tuples.Nodup ∧ tuples.toFinset = store }
  file : Nat → FileFate
  batches : Nat → Revokes.Fate
  commit : Bool

def buildTenantPrefix (text : UuidText) (tenantId : Uuid) : List Char :=
  "tenants/".toList ++ text.display tenantId ++ "/".toList

def Sql.workspacesOf (sql : Sql) (tenantId : Uuid) : List WorkspaceRow :=
  (sql.workspaces.filter fun row => row.tenantId == some tenantId).mergeSort fun a b =>
    uuidLe a.id b.id

def Sql.workspaceIdsOf (sql : Sql) (tenantId : Uuid) : List Uuid :=
  (sql.workspacesOf tenantId).map WorkspaceRow.id

def isIn (workspaceIds : List Uuid) : Option Uuid → Bool
  | none => false
  | some workspaceId => workspaceIds.contains workspaceId

def Sql.documentIdsOf (sql : Sql) (tenantId : Uuid) : List Uuid :=
  ((sql.documents.filter fun row => isIn (sql.workspaceIdsOf tenantId) row.workspaceId).map
    DocumentRow.id).mergeSort uuidLe

/-- The statements are made one after the other, and the first that fails ends it. -/
def captureOperatorImpactTx (text : UuidText) (course : Course) (sql : Sql) (tenantId : Uuid)
    (storageBucket : List Char) : Except SqlError (Option TenantDeleteImpact) :=
  let bucket := trim storageBucket
  if bucket = [] then .error (.protocol "storage bucket is empty".toList)
  else if !course.succeeds .selectTenant then .error .failed
  else
    match sql.tenants tenantId with
    | none => .ok none
    | some tenant =>
      if !([Statement.selectOwnerEmails, .selectWorkspaces, .selectDocuments, .countChunks,
        .countGraphNodes, .countChatSessions].all course.succeeds) then .error .failed
      else
        let workspaceIds := sql.workspaceIdsOf tenantId
        let documentIds := sql.documentIdsOf tenantId
        .ok <| some
          { plan :=
              { tenantId
                tenantName := tenant.name
                workspaceIds
                storagePrefix := buildTenantPrefix text tenantId
                storageBucket := bucket }
            createdAt := tenant.createdAt
            ownerEmails := ((sql.memberEmails.filter fun m => m.1 == tenantId).map
              Prod.snd).mergeSort textLe
            workspaces := (sql.workspacesOf tenantId).map fun row =>
              ⟨row.id, row.name, sql.documents.countP fun d => d.workspaceId == some row.id⟩
            documentCount := documentIds.length
            chunkCount := sql.documentChunks.countP (isIn workspaceIds)
            graphNodeCount := sql.graphNodes.countP (isIn workspaceIds)
            chatSessionCount := sql.chatSessions.countP (isIn workspaceIds)
            documentIds
            openfgaTuples := [] }

def objectText (kind : List Char) (text : UuidText) (id : Uuid) : List Char :=
  kind ++ ":".toList ++ text.display id

def filterTenantSubtreeTuples (text : UuidText) (impact : TenantDeleteImpact)
    (tuples : List TupleText) : List TupleText :=
  tuples.filter fun tuple =>
    tuple.object == objectText "tenant".toList text impact.plan.tenantId ||
      (impact.plan.workspaceIds.map (objectText "workspace".toList text)).contains tuple.object ||
      (impact.documentIds.map (objectText "document".toList text)).contains tuple.object

/-- What is left of a file that could not be written to its end. -/
def remainsOf (removed : Bool) (f : RecoveryFile) : List Effect :=
  if removed then [] else [.file { f with complete := false }]

/-- `attempts` file names are tried; a new file never replaces an old one. -/
def writeRecoveryFile (file : Nat → FileFate) (impact : TenantDeleteImpact) :
    (attempts suffix : Nat) → List Effect × Except OperatorTenantDeleteError RecoveryFile
  | 0, _ => ([], .error .recoveryFile)
  | attempts + 1, suffix =>
    let f : RecoveryFile :=
      { suffix
        tenantId := impact.plan.tenantId
        tenantName := impact.plan.tenantName
        tenantCreatedAt := impact.createdAt
        openfgaTuples := impact.openfgaTuples
        complete := true }
    match file suffix with
    | .alreadyExists => writeRecoveryFile file impact attempts (suffix + 1)
    | .openFails => ([], .error .recoveryFile)
    | .serializationFails removed => (remainsOf removed f, .error .recoverySerialization)
    | .writeFails removed => (remainsOf removed f, .error .recoveryFile)
    | .written => ([.file f], .ok f)

/-- `DELETE FROM tenants`, with the cascades of the schema, and the number of rows. -/
def Sql.deleteTenant (sql : Sql) (tenantId : Uuid) : Sql × Nat :=
  let gone := sql.workspaceIdsOf tenantId
  ({ sql with
      tenants := Function.update sql.tenants tenantId none
      memberEmails := sql.memberEmails.filter fun m => m.1 != tenantId
      workspaces := sql.workspaces.filter fun row => row.tenantId != some tenantId
      documents := sql.documents.filter fun row => !isIn gone row.workspaceId
      documentChunks := sql.documentChunks.filter fun w => !isIn gone w
      graphNodes := sql.graphNodes.filter fun w => !isIn gone w
      chatSessions := sql.chatSessions.filter fun w => !isIn gone w },
    if (sql.tenants tenantId).isSome then 1 else 0)

/-- Of `sanitize_metadata` only the cutting of long texts concerns these fields. -/
def truncateString (value : List Char) (maxLen : Nat) : List Char :=
  if byteLen value ≤ maxLen then value else value.take maxLen ++ "...".toList

def tenantDeletedEvent (text : UuidText) (impact : TenantDeleteImpact) (actor : List Char) :
    AuditEvent where
  eventType := "tenant_deleted".toList
  actorUserId := some actor
  tenantId := some impact.plan.tenantId
  targetType := some "tenant".toList
  targetId := some (text.display impact.plan.tenantId)
  metadata :=
    { tenantName := truncateString impact.plan.tenantName 512
      workspaceCount := impact.workspaces.length
      documentCount := impact.documentCount
      openfgaTupleCount := impact.openfgaTuples.length
      publicApi := false }

def commitOperatorDeleteTx (text : UuidText) (course : Course) (sql : Sql)
    (impact : TenantDeleteImpact) (actor : List Char) : Except SqlError Sql :=
  if !([Statement.enqueueQdrant, .enqueueStorage, .insertAudit, .deleteTenant].all
    course.succeeds) then .error .failed
  else
    let sql :=
      { sql with
        qdrantOutbox := sql.qdrantOutbox ++
          [enqueueDeleteByWorkspaces text impact.plan.workspaceIds]
        storageOutbox := sql.storageOutbox ++ [enqueueDeletePrefix text impact.plan.storagePrefix
          impact.plan.storageBucket (some impact.plan.tenantId) none]
        auditEvents := sql.auditEvents ++ [tenantDeletedEvent text impact actor] }
    let (sql, deleted) := sql.deleteTenant impact.plan.tenantId
    if deleted ≠ 1 then
      .error (.protocol "tenant disappeared before delete could commit".toList)
    else .ok sql

structure Attempt where
  storageBucket : List Char
  actor : List Char
  course : Course

/-- The transaction is open until its commit: whatever ends a run before leaves the tables as they
were, whether or not the rollback itself is confirmed. -/
def executeOperatorTenantDelete (text : UuidText) (tenantId : Uuid) (w : World) (a : Attempt) :
    World × Except OperatorTenantDeleteError OperatorTenantDeleteResult :=
  let afterRollback (e : OperatorTenantDeleteError) : OperatorTenantDeleteError :=
    if a.course.rollback then e else .database .failed
  if !a.course.succeeds .beginTransaction then (w, .error (.database .failed))
  else
    match captureOperatorImpactTx text a.course w.sql tenantId a.storageBucket with
    | .error e => (w, .error (.database e))
    | .ok none => (w, if a.course.rollback then .ok .notFound else .error (.database .failed))
    | .ok (some impact) =>
      match a.course.listing w.store with
      | none => (w, .error (afterRollback .listing))
      | some tuples =>
        let impact := impact.withTuples (filterTenantSubtreeTuples text impact tuples.1)
        match writeRecoveryFile a.course.file impact 1000 0 with
        | (effects, .error e) => ({ w with log := w.log ++ effects }, .error e)
        | (effects, .ok f) =>
          let (store, outcome) :=
            Revokes.deleteOpenfgaTuples a.course.batches w.store impact.openfgaTuples
          let w : World := ⟨w.sql, store, w.log ++ effects ++ [.removed (w.store \ store)]⟩
          match outcome with
          | .error e => (w, .error (afterRollback (.authorization e)))
          | .ok () =>
            match commitOperatorDeleteTx text a.course w.sql impact a.actor with
            | .error _ => (w, .error (.sqlAfterOpenFga f))
            | .ok sql =>
              if a.course.commit then ({ w with sql := sql }, .ok (.deleted impact f))
              else (w, .error (.sqlAfterOpenFga f))

/-- A run that returns an error. -/
def failedRun (text : UuidText) (tenantId : Uuid) (w : World) (a : Attempt) : Option World :=
  match executeOperatorTenantDelete text tenantId w a with
  | (w', .error _) => some w'
  | (_, .ok _) => none

end GmragApi.TenantCleanup

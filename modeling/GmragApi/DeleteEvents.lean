import GmragApi.Json
import GmragApi.Text

/-! The events of the point-delete and object-delete outboxes: what a worker reads from a row,
and how the reply of the called service turns into an outcome. -/

namespace GmragApi

/-- What a worker learns from one attempt at a row. -/
inductive AttemptResult
  | succeeded
  | refused (errorMessage : List Char) (permanentError : Bool)
  deriving DecidableEq

def maxErrorMessageLen : Nat := 200

/-- `str::len` counts bytes. -/
def byteLen (s : List Char) : Nat := (s.map Char.utf8Size).sum

def truncateErrorMessage (message : List Char) : List Char :=
  if byteLen message ≤ maxErrorMessageLen then message else message.take maxErrorMessageLen

def normalizeEventType (raw : List Char) : List Char := toAsciiLowercase (trim raw)

inductive QdrantOutboxEventType
  | deleteByDocument
  | deleteByWorkspace
  | deleteByWorkspaces
  deriving DecidableEq

namespace QdrantOutboxEventType

def asStr : QdrantOutboxEventType → List Char
  | deleteByDocument => "delete_by_document".toList
  | deleteByWorkspace => "delete_by_workspace".toList
  | deleteByWorkspaces => "delete_by_workspaces".toList

def parse (raw : List Char) : Option QdrantOutboxEventType :=
  let name := normalizeEventType raw
  if name = deleteByDocument.asStr then some deleteByDocument
  else if name = deleteByWorkspace.asStr then some deleteByWorkspace
  else if name = deleteByWorkspaces.asStr then some deleteByWorkspaces
  else none

theorem parse_asStr (e : QdrantOutboxEventType) : parse e.asStr = some e := by
  cases e <;> decide

end QdrantOutboxEventType

structure DeleteByDocumentPayload where
  workspaceId : Uuid
  documentId : Uuid
  deriving DecidableEq

structure DeleteByWorkspacePayload where
  workspaceId : Uuid
  deriving DecidableEq

structure DeleteByWorkspacesPayload where
  workspaceIds : List Uuid
  deriving DecidableEq

def workspaceIdKey : List Char := "workspace_id".toList
def documentIdKey : List Char := "document_id".toList
def workspaceIdsKey : List Char := "workspace_ids".toList

def DeleteByDocumentPayload.toJson (text : UuidText) (p : DeleteByDocumentPayload) : Json :=
  .object [(workspaceIdKey, .string (text.display p.workspaceId)),
    (documentIdKey, .string (text.display p.documentId))]

def DeleteByWorkspacePayload.toJson (text : UuidText) (p : DeleteByWorkspacePayload) : Json :=
  .object [(workspaceIdKey, .string (text.display p.workspaceId))]

def DeleteByWorkspacesPayload.toJson (text : UuidText) (p : DeleteByWorkspacesPayload) : Json :=
  .object [(workspaceIdsKey, .array (p.workspaceIds.map fun id => .string (text.display id)))]

def DeleteByDocumentPayload.fromValue (text : UuidText) (j : Json) :
    Option DeleteByDocumentPayload := do
  match ← j.structFields [workspaceIdKey, documentIdKey] with
  | [w, d] =>
    return ⟨← Json.required (Json.asUuid text) w, ← Json.required (Json.asUuid text) d⟩
  | _ => none

def DeleteByWorkspacePayload.fromValue (text : UuidText) (j : Json) :
    Option DeleteByWorkspacePayload := do
  match ← j.structFields [workspaceIdKey] with
  | [w] => return ⟨← Json.required (Json.asUuid text) w⟩
  | _ => none

def DeleteByWorkspacesPayload.fromValue (text : UuidText) (j : Json) :
    Option DeleteByWorkspacesPayload := do
  match ← j.structFields [workspaceIdsKey] with
  | [ws] => return ⟨← Json.required (Json.asUuids text) ws⟩
  | _ => none

theorem DeleteByDocumentPayload.fromValue_toJson (text : UuidText) (p : DeleteByDocumentPayload) :
    fromValue text (p.toJson text) = some p := by
  have hdocument : (documentIdKey == workspaceIdKey) = false := by decide
  simp [fromValue, toJson, Json.structFields, Json.required, Json.asUuid, Json.asString,
    List.lookup_cons, hdocument, text.parse_display]

theorem DeleteByWorkspacePayload.fromValue_toJson (text : UuidText) (p : DeleteByWorkspacePayload) :
    fromValue text (p.toJson text) = some p := by
  simp [fromValue, toJson, Json.structFields, Json.required, Json.asUuid, Json.asString,
    List.lookup_cons, text.parse_display]

theorem asUuids_display (text : UuidText) (ids : List Uuid) :
    Json.asUuids text (.array (ids.map fun id => .string (text.display id))) = some ids := by
  induction ids with
  | nil => rfl
  | cons id ids ih =>
    rw [Json.asUuids] at ih ⊢
    rw [List.map_cons, List.mapM_cons, ih]
    simp [Json.asUuid, Json.asString, text.parse_display]

theorem DeleteByWorkspacesPayload.fromValue_toJson (text : UuidText)
    (p : DeleteByWorkspacesPayload) : fromValue text (p.toJson text) = some p := by
  simp [fromValue, toJson, Json.structFields, Json.required, List.lookup_cons, asUuids_display]

inductive RetrievalError
  | http
  | timeout (timeoutSecs : Nat)
  | api (status : Nat)
  | emptyTenantWorkspaceList
  | database
  | invalidPointId
  | invalidEmbeddingLiteral
  deriving DecidableEq

def RetrievalError.sanitizeErrorMessage : RetrievalError → List Char
  | http => "qdrant_http_error".toList
  | timeout secs => "qdrant_delete_timeout_".toList ++ Nat.toDigits 10 secs ++ "s".toList
  | api status => "qdrant_status_".toList ++ Nat.toDigits 10 status
  | emptyTenantWorkspaceList => "empty_tenant_workspace_list".toList
  | database => "qdrant_database_error".toList
  | invalidPointId => "invalid_point_id".toList
  | invalidEmbeddingLiteral => "invalid_embedding".toList

def unsupportedEventType : AttemptResult := .refused "unsupported_event_type".toList true
def invalidPayload : AttemptResult := .refused "invalid_payload".toList true

/-- The outcome of a row of `qdrant_outbox`, given the reply to the delete that it asks for. -/
def qdrantAttempt (text : UuidText) (eventType : List Char) (payload : Json)
    (reply : Except RetrievalError Unit) : AttemptResult :=
  let afterCall : AttemptResult := match reply with
    | .ok () => .succeeded
    | .error err => .refused err.sanitizeErrorMessage false
  match QdrantOutboxEventType.parse eventType with
  | none => unsupportedEventType
  | some .deleteByDocument =>
    if (DeleteByDocumentPayload.fromValue text payload).isSome then afterCall else invalidPayload
  | some .deleteByWorkspace =>
    if (DeleteByWorkspacePayload.fromValue text payload).isSome then afterCall else invalidPayload
  | some .deleteByWorkspaces =>
    match DeleteByWorkspacesPayload.fromValue text payload with
    | none => invalidPayload
    -- no request is sent for an empty list
    | some p => if p.workspaceIds = [] then .succeeded else afterCall

inductive StorageOutboxEventType
  | deleteObject
  | deletePrefix
  deriving DecidableEq

namespace StorageOutboxEventType

def asStr : StorageOutboxEventType → List Char
  | deleteObject => "delete_object".toList
  | deletePrefix => "delete_prefix".toList

def parse (raw : List Char) : Option StorageOutboxEventType :=
  let name := normalizeEventType raw
  if name = deleteObject.asStr then some deleteObject
  else if name = deletePrefix.asStr then some deletePrefix
  else none

theorem parse_asStr (e : StorageOutboxEventType) : parse e.asStr = some e := by
  cases e <;> decide

end StorageOutboxEventType

structure DeleteObjectPayload where
  objectKey : List Char
  bucket : List Char
  workspaceId : Uuid
  documentId : Uuid
  deriving DecidableEq

structure DeletePrefixPayload where
  keyPrefix : List Char
  bucket : List Char
  tenantId : Option Uuid
  workspaceId : Option Uuid
  deriving DecidableEq

def objectKeyKey : List Char := "object_key".toList
def bucketKey : List Char := "bucket".toList
def prefixKey : List Char := "prefix".toList
def tenantIdKey : List Char := "tenant_id".toList

def DeleteObjectPayload.toJson (text : UuidText) (p : DeleteObjectPayload) : Json :=
  .object [(objectKeyKey, .string p.objectKey), (bucketKey, .string p.bucket),
    (workspaceIdKey, .string (text.display p.workspaceId)),
    (documentIdKey, .string (text.display p.documentId))]

def optionalIdToJson (text : UuidText) : Option Uuid → Json
  | none => .null
  | some id => .string (text.display id)

def DeletePrefixPayload.toJson (text : UuidText) (p : DeletePrefixPayload) : Json :=
  .object [(prefixKey, .string p.keyPrefix), (bucketKey, .string p.bucket),
    (tenantIdKey, optionalIdToJson text p.tenantId),
    (workspaceIdKey, optionalIdToJson text p.workspaceId)]

def DeleteObjectPayload.fromValue (text : UuidText) (j : Json) : Option DeleteObjectPayload := do
  match ← j.structFields [objectKeyKey, bucketKey, workspaceIdKey, documentIdKey] with
  | [k, b, w, d] =>
    return ⟨← Json.required Json.asString k, ← Json.required Json.asString b,
      ← Json.required (Json.asUuid text) w, ← Json.required (Json.asUuid text) d⟩
  | _ => none

def DeletePrefixPayload.fromValue (text : UuidText) (j : Json) : Option DeletePrefixPayload := do
  match ← j.structFields [prefixKey, bucketKey, tenantIdKey, workspaceIdKey] with
  | [p, b, t, w] =>
    return ⟨← Json.required Json.asString p, ← Json.required Json.asString b,
      ← Json.optional (Json.asUuid text) t, ← Json.optional (Json.asUuid text) w⟩
  | _ => none

theorem DeleteObjectPayload.fromValue_toJson (text : UuidText) (p : DeleteObjectPayload) :
    fromValue text (p.toJson text) = some p := by
  have hbucket : (bucketKey == objectKeyKey) = false := by decide
  have hworkspace : (workspaceIdKey == objectKeyKey) = false ∧
    (workspaceIdKey == bucketKey) = false := by decide
  have hdocument : (documentIdKey == objectKeyKey) = false ∧ (documentIdKey == bucketKey) = false ∧
    (documentIdKey == workspaceIdKey) = false := by decide
  simp [fromValue, toJson, Json.structFields, Json.required, Json.asUuid, Json.asString,
    List.lookup_cons, hbucket, hworkspace, hdocument, text.parse_display]

theorem optional_optionalIdToJson (text : UuidText) (id : Option Uuid) :
    Json.optional (Json.asUuid text) (some (optionalIdToJson text id)) = some id := by
  cases id with
  | none => rfl
  | some id =>
    simp [optionalIdToJson, Json.optional, Json.asUuid, Json.asString, text.parse_display]

theorem DeletePrefixPayload.fromValue_toJson (text : UuidText) (p : DeletePrefixPayload) :
    fromValue text (p.toJson text) = some p := by
  have hbucket : (bucketKey == prefixKey) = false := by decide
  have htenant : (tenantIdKey == prefixKey) = false ∧ (tenantIdKey == bucketKey) = false := by
    decide
  have hworkspace : (workspaceIdKey == prefixKey) = false ∧ (workspaceIdKey == bucketKey) = false ∧
    (workspaceIdKey == tenantIdKey) = false := by decide
  simp [fromValue, toJson, Json.structFields, Json.required, Json.asString, List.lookup_cons, hbucket,
    htenant, hworkspace, optional_optionalIdToJson]

def validateBucket (bucket : List Char) : Except (List Char) Unit :=
  if trim bucket = [] then .error "empty_bucket".toList else .ok ()

/-- Absolute keys, parent references and backslashes. -/
def isTraversal (key : List Char) : Bool :=
  key.head? == some '/' || containsText key "..".toList || key.contains '\\'

def validateObjectKey (objectKey : List Char) : Except (List Char) Unit :=
  let key := trim objectKey
  if key = [] then .error "empty_object_key".toList
  else if isTraversal key then .error "invalid_object_key".toList
  else .ok ()

def validatePrefix (keyPrefix : List Char) : Except (List Char) Unit :=
  let key := trim keyPrefix
  if key = [] then .error "empty_prefix".toList
  else if isTraversal key then .error "invalid_prefix".toList
  else if "tenants/".toList <+: key then .ok ()
  else .error "prefix_not_tenant_scoped".toList

inductive StorageError
  | objectNotFound
  | operationFailed (message : List Char)
  deriving DecidableEq

def StorageError.sanitizeErrorMessage : StorageError → List Char
  | objectNotFound => "object_not_found".toList
  | operationFailed message =>
    if containsText message "timeout".toList || containsText message "Timeout".toList then
      "storage_timeout".toList
    else if containsText message "connect".toList || containsText message "Connection".toList then
      "storage_connection_error".toList
    else "storage_operation_failed".toList

/-- The outcome of a row of `storage_outbox`, given the reply to the delete that it asks for. -/
def storageAttempt (text : UuidText) (eventType : List Char) (payload : Json)
    (reply : Except StorageError Unit) : AttemptResult :=
  let afterCall : AttemptResult := match reply with
    | .ok () => .succeeded
    | .error err => .refused err.sanitizeErrorMessage false
  match StorageOutboxEventType.parse eventType with
  | none => unsupportedEventType
  | some .deleteObject =>
    match DeleteObjectPayload.fromValue text payload with
    | none => invalidPayload
    | some p =>
      match validateBucket p.bucket, validateObjectKey p.objectKey with
      | .error reason, _ => .refused reason true
      | .ok (), .error reason => .refused reason true
      -- a missing object counts as deleted
      | .ok (), .ok () => if reply = .error .objectNotFound then .succeeded else afterCall
  | some .deletePrefix =>
    match DeletePrefixPayload.fromValue text payload with
    | none => invalidPayload
    | some p =>
      match validateBucket p.bucket, validatePrefix p.keyPrefix with
      | .error reason, _ => .refused reason true
      | .ok (), .error reason => .refused reason true
      | .ok (), .ok () => afterCall

end GmragApi

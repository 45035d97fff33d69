import GmragApi.DeleteEvents
import GmragApi.Fga
import GmragApi.Retry

/-! The rows of `authz_outbox` and how a worker reads and settles them. -/

namespace GmragApi

inductive AuthzOutboxEventType
  | tupleWrite
  | tupleDelete
  | workspaceRoleSync
  deriving DecidableEq

namespace AuthzOutboxEventType

def asStr : AuthzOutboxEventType → List Char
  | tupleWrite => "tuple_write".toList
  | tupleDelete => "tuple_delete".toList
  | workspaceRoleSync => "workspace_role_sync".toList

def writeNames : List (List Char) :=
  ["tuple_write".toList, "write_tuple".toList, "create_tuple".toList, "grant_tuple".toList,
    "document_workspace_write".toList, "document_explicit_viewer_grant".toList,
    "workspace_tenant_write".toList, "workspace_member_write".toList, "tenant_owner_write".toList,
    "tenant_platform_write".toList]

def deleteNames : List (List Char) :=
  ["tuple_delete".toList, "delete_tuple".toList, "remove_tuple".toList, "revoke_tuple".toList,
    "document_workspace_delete".toList, "document_explicit_viewer_revoke".toList,
    "workspace_tenant_delete".toList, "workspace_member_delete".toList,
    "tenant_owner_delete".toList, "tenant_platform_delete".toList]

def normalize (raw : List Char) : List Char :=
  (normalizeEventType raw).map fun c => if c = '-' then '_' else c

def parse (raw : List Char) : Option AuthzOutboxEventType :=
  let name := normalize raw
  if name ∈ writeNames then some tupleWrite
  else if name ∈ deleteNames then some tupleDelete
  else if name = workspaceRoleSync.asStr then some workspaceRoleSync
  else if containsText name "delete".toList || containsText name "remove".toList ||
      containsText name "revoke".toList then some tupleDelete
  else if containsText name "write".toList || containsText name "create".toList ||
      containsText name "grant".toList || containsText name "backfill".toList then some tupleWrite
  else none

theorem parse_asStr (e : AuthzOutboxEventType) : parse e.asStr = some e := by
  cases e <;> decide

end AuthzOutboxEventType

/-- The payload of a row, up to its JSON text. -/
inductive AuthzPayload
  | tuple (t : TupleKey)
  | nestedTuple (t : TupleKey)
  | workspaceUser (workspace user : Nat)
  | other
  deriving DecidableEq

def parseTuplePayload : AuthzPayload → Except (List Char) TupleKey
  | .tuple t => .ok t
  | .nestedTuple t => .ok t
  | _ => .error "invalid_payload".toList

def parseRoleSyncPayload : AuthzPayload → Except (List Char) (Nat × Nat)
  | .workspaceUser workspace user => .ok (workspace, user)
  | _ => .error "invalid_workspace_role_sync_payload".toList

inductive AuthzRowStatus
  | pending
  | processed
  | failed
  deriving DecidableEq

structure AuthzRow where
  eventType : List Char
  payload : AuthzPayload
  status : AuthzRowStatus
  retryCount : Int
  errorMessage : Option (List Char)
  deriving DecidableEq

def AuthzRow.retryable (maxRetries : Int) (r : AuthzRow) : Bool :=
  decide (r.status = .pending ∨ (r.status = .failed ∧ r.retryCount < maxRetries))

def authzEvent (e : AuthzOutboxEventType) (payload : AuthzPayload) : AuthzRow :=
  ⟨e.asStr, payload, .pending, 0, none⟩

def enqueueTupleWrite (t : TupleKey) : AuthzRow := authzEvent .tupleWrite (.tuple t)

def enqueueWorkspaceRoleSync (workspace user : Nat) : AuthzRow :=
  authzEvent .workspaceRoleSync (.workspaceUser workspace user)

def markAuthzOutboxProcessed (r : AuthzRow) : AuthzRow :=
  { r with status := .processed, errorMessage := none }

def truncateAuthzMessage (message : List Char) : List Char :=
  if byteLen message ≤ maxErrorMessageLen then message
  else message.take maxErrorMessageLen ++ "...".toList

def markAuthzOutboxFailed (retryCount : Int) (message : List Char) (r : AuthzRow) : AuthzRow :=
  { r with status := .failed, retryCount := saturateI32 (retryCount + 1),
           errorMessage := some (truncateAuthzMessage message) }

def AuthzError.sanitizeErrorMessage : AuthzError → List Char
  | http => "openfga_http_error".toList
  | openFga status _ => "openfga_status_".toList ++ Nat.toDigits 10 status

def isIdempotentOutcome : AuthzOutboxEventType → AuthzError → Bool
  | _, .http => false
  | .tupleWrite, .openFga _ body =>
    let bodyLower := toAsciiLowercase body
    containsText bodyLower "already exists".toList || containsText bodyLower "already existed".toList
  | .tupleDelete, .openFga _ body =>
    let bodyLower := toAsciiLowercase body
    containsText bodyLower "does not exist".toList || containsText bodyLower "not found".toList
  | .workspaceRoleSync, .openFga _ _ => false

/-- What the worker has to do for a row as it read it. -/
inductive AuthzTask
  | write (t : TupleKey)
  | delete (t : TupleKey)
  | roleSync (workspace user : Nat)
  | invalid (message : List Char)
  deriving DecidableEq

def AuthzRow.task (r : AuthzRow) : AuthzTask :=
  match AuthzOutboxEventType.parse r.eventType with
  | none => .invalid "unsupported_event_type".toList
  | some .workspaceRoleSync =>
    match parseRoleSyncPayload r.payload with
    | .ok (workspace, user) => .roleSync workspace user
    | .error message => .invalid message
  | some .tupleWrite =>
    match parseTuplePayload r.payload with
    | .ok t => .write t
    | .error message => .invalid message
  | some .tupleDelete =>
    match parseTuplePayload r.payload with
    | .ok t => .delete t
    | .error message => .invalid message

theorem enqueueTupleWrite_task (t : TupleKey) : (enqueueTupleWrite t).task = .write t := by
  simp [enqueueTupleWrite, authzEvent, AuthzRow.task, AuthzOutboxEventType.parse_asStr,
    parseTuplePayload]

theorem enqueueWorkspaceRoleSync_task (workspace user : Nat) :
    (enqueueWorkspaceRoleSync workspace user).task = .roleSync workspace user := by
  simp [enqueueWorkspaceRoleSync, authzEvent, AuthzRow.task, AuthzOutboxEventType.parse_asStr,
    parseRoleSyncPayload]

/-- How the environment answers the next statement or call of a process. -/
inductive Reply
  | checked (reply : Except AuthzError Bool)
  | called (reply : Fga.WriteReply)
  | sql (ok : Bool)
  | listed (users : List Nat)

end GmragApi

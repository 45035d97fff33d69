import GmragApi.Gather
import GmragApi.InviteCleanup
import GmragApi.Keycloak
import GmragApi.TextSlice

/-! The report on identities: a walk over the users of PostgreSQL, their accounts in Keycloak and
the tuples of OpenFGA that only reads and lists what does not agree. -/

namespace GmragApi.IdentityReport

open InviteCleanup (UserRow WorkspaceMemberRow TenantMemberRow DocumentShareRow TupleText fgaUser
  workspaceObject tenantObject documentObject isInvitePlaceholderUserId)
open Keycloak (KeycloakUser normalizeEmail normalizedEmailCount)
open Lowercase (CaseTables)

structure Options where
  tenantId : Option Uuid
  workspaceId : Option Uuid
  includeEmail : Bool
  deriving DecidableEq

inductive Severity
  | critical
  | warning
  deriving DecidableEq

structure IdentityFinding where
  category : List Char
  subjectId : List Char
  scope : List Char
  expected : List Char
  actual : List Char
  severity : Severity
  deriving DecidableEq

structure Summary where
  sqlUsers : Nat
  keycloakUsersFound : Nat
  missingInKeycloak : Nat
  emailMismatches : Nat
  unverifiedUsers : Nat
  orphanSqlReferences : Nat
  missingFgaRelations : Nat
  extraFgaRelations : Nat
  legacyInviteIds : Nat
  canonicalIdentityFailures : Nat
  deriving DecidableEq

structure Report where
  summary : Summary
  findings : List IdentityFinding
  limitations : List (List Char)

structure WorkspaceRow where
  id : Uuid
  tenantId : Uuid
  deriving DecidableEq

structure DocumentRow where
  id : Uuid
  workspaceId : Uuid
  ownerId : Option (List Char)
  uploadedBy : List Char
  deriving DecidableEq

structure ChatSessionRow where
  workspaceId : Uuid
  userId : List Char
  deriving DecidableEq

structure AuditEventRow where
  actorUserId : Option (List Char)
  tenantId : Option Uuid
  workspaceId : Option Uuid
  documentId : Option Uuid
  deriving DecidableEq

/-- The columns whose user has to be there. -/
inductive Reference
  | tenantMembers
  | workspaceMembers
  | chatSessions
  | documentOwners
  | documentUploaders
  | documentShares
  | auditEvents
  deriving DecidableEq

inductive SqlQuery
  | users
  | references (reference : Reference)
  | tenantMembers
  | workspaceMembers
  | documentShares
  deriving DecidableEq

/-- `failure` names the queries that fail, with the text of the error. -/
structure Postgres where
  users : List UserRow
  tenantMembers : List TenantMemberRow
  workspaces : List WorkspaceRow
  workspaceMembers : List WorkspaceMemberRow
  documents : List DocumentRow
  documentShares : List DocumentShareRow
  chatSessions : List ChatSessionRow
  auditEvents : List AuditEventRow
  failure : SqlQuery → Option (List Char)

/-- The three stores, as one run of the report finds them; `order` is the one in which a hash map
gives its entries back. -/
structure World where
  db : Postgres
  getUserById : List Char → Except (List Char) (Option KeycloakUser)
  getUsersByEmailExact : List Char → Except (List Char) (List KeycloakUser)
  checkFga : List Char → Relation → List Char → Except (List Char) Bool
  listAllTuples : Except (List Char) (List TupleText)
  tables : CaseTables
  order : List (List Char × List (List Char)) → List (List Char × List (List Char))
  order_perm : ∀ entries, (order entries).Perm entries

def Postgres.query {α : Type} (db : Postgres) (q : SqlQuery) (rows : List α) :
    Except (List Char) (List α) :=
  match db.failure q with
  | some error => .error error
  | none => .ok rows

def relationText : Relation → List Char
  | .admin => "admin".toList
  | .owner => "owner".toList
  | .platform => "platform".toList
  | .member => "member".toList
  | .canAssignRole => "can_assign_role".toList
  | .canManageMember => "can_manage_member".toList
  | .workspace => "workspace".toList
  | .explicitViewer => "explicit_viewer".toList
  | .bypassViewer => "bypass_viewer".toList
  | .tenant => "tenant".toList

structure ExpectedTuple where
  user : List Char
  relation : Relation
  object : List Char
  deriving DecidableEq

def tupleKey (user relation object : List Char) : List Char :=
  user ++ '|' :: relation ++ '|' :: object

def ExpectedTuple.key (e : ExpectedTuple) : List Char := tupleKey e.user (relationText e.relation) e.object

section Sql

variable (db : Postgres) (options : Options)

def inTenant (tenantId : Uuid) : Bool := options.tenantId.all fun asked => asked == tenantId

def inWorkspace (workspaceId : Uuid) : Bool :=
  options.workspaceId.all fun asked => asked == workspaceId

/-- Whether a join with `workspaces` has the workspace, within what is asked. -/
def inScope (workspaceId : Uuid) : Bool :=
  db.workspaces.any fun w =>
    w.id == workspaceId && inTenant options w.tenantId && inWorkspace options workspaceId

def isSqlUser (user : UserRow) : Bool :=
  options.tenantId.isNone && options.workspaceId.isNone ||
  (db.tenantMembers.any fun tm => tm.userId == user.id && inTenant options tm.tenantId) ||
  (db.workspaceMembers.any fun wm => wm.userId == user.id && inScope db options wm.workspaceId) ||
  (db.documents.any fun d =>
    (d.ownerId == some user.id || d.uploadedBy == user.id) && inScope db options d.workspaceId) ||
  db.documentShares.any fun ds => ds.userId == user.id &&
    db.documents.any fun d => d.id == ds.documentId && inScope db options d.workspaceId

/-- The rows of `load_sql_users`. -/
def sqlUsers : List UserRow := (db.users.filter (isSqlUser db options)).dedup

def memberRelation (role : List Char) : Relation := if role = "ADMIN".toList then .admin else .member

def tenantTuples : List ExpectedTuple :=
  (db.tenantMembers.filter fun tm => inTenant options tm.tenantId).map fun tm =>
    ⟨fgaUser tm.userId, .owner, tenantObject tm.tenantId⟩

def memberTuples : List ExpectedTuple :=
  (db.workspaceMembers.filter fun wm => inScope db options wm.workspaceId).map fun wm =>
    ⟨fgaUser wm.userId, memberRelation wm.role, workspaceObject wm.workspaceId⟩

def shareTuples : List ExpectedTuple :=
  (db.documentShares.filter fun ds =>
    db.documents.any fun d => d.id == ds.documentId && inScope db options d.workspaceId).map fun ds =>
      ⟨fgaUser ds.userId, .explicitViewer, documentObject ds.documentId⟩

/-- The first of the three queries that fails ends it. -/
def loadExpectedTuples : Except (List Char) (List ExpectedTuple) :=
  match db.query .tenantMembers (tenantTuples db options) with
  | .error e => .error e
  | .ok owners =>
    match db.query .workspaceMembers (memberTuples db options) with
    | .error e => .error e
    | .ok members =>
      match db.query .documentShares (shareTuples db options) with
      | .error e => .error e
      | .ok shares => .ok (owners ++ members ++ shares)

def Reference.table : Reference → List Char
  | tenantMembers => "tenant_members".toList
  | workspaceMembers => "workspace_members".toList
  | chatSessions => "chat_sessions".toList
  | documentOwners => "documents.owner_id".toList
  | documentUploaders => "documents.uploaded_by".toList
  | documentShares => "document_shares".toList
  | auditEvents => "audit_events".toList

/-- The order of the queries. -/
def allReferences : List Reference :=
  [.tenantMembers, .workspaceMembers, .chatSessions, .documentOwners, .documentUploaders,
    .documentShares, .auditEvents]

def auditScope (ae : AuditEventRow) : List Char :=
  match ae.workspaceId, ae.tenantId, ae.documentId with
  | some id, _, _ => id.display
  | none, some id, _ => id.display
  | none, none, some id => id.display
  | none, none, none => "global".toList

/-- The users that a column names, each with its scope. -/
def Postgres.references : Reference → List (List Char × List Char)
  | .tenantMembers => db.tenantMembers.map fun tm => (tm.userId, tm.tenantId.display)
  | .workspaceMembers => db.workspaceMembers.map fun wm => (wm.userId, wm.workspaceId.display)
  | .chatSessions => db.chatSessions.map fun cs => (cs.userId, cs.workspaceId.display)
  | .documentOwners =>
    db.documents.filterMap fun d => d.ownerId.map fun ownerId => (ownerId, d.id.display)
  | .documentUploaders => db.documents.map fun d => (d.uploadedBy, d.id.display)
  | .documentShares => db.documentShares.map fun ds => (ds.userId, ds.documentId.display)
  | .auditEvents =>
    db.auditEvents.filterMap fun ae => ae.actorUserId.map fun actor => (actor, auditScope ae)

def Postgres.hasUser (userId : List Char) : Bool := db.users.any fun u => u.id == userId

def Postgres.orphans (reference : Reference) : List (List Char × List Char) :=
  (db.references reference).filter fun row => !db.hasUser row.1

end Sql

section Findings

/-- A finding that is pushed when something is wrong. -/
def flag (wrong : Bool) (finding : IdentityFinding) : List IdentityFinding :=
  if wrong then [finding] else []

def maskEmail (email : List Char) : List Char :=
  match email.dropWhile fun c => c != '@' with
  | [] => "***".toList
  | domain =>
    (email.takeWhile fun c => c != '@').headD '*' :: "***".toList ++ domain

def displayEmail (email : List Char) (includeEmail : Bool) : List Char :=
  if includeEmail then email else maskEmail email

def looksLikeLegacyExternalId (userId : List Char) : Bool :=
  "user_".toList.isPrefixOf userId && decide (10 < TextSlice.size userId)

variable (w : World) (options : Options)

def inspectAccountEmail (user : UserRow) (email : Option (List Char)) : List IdentityFinding :=
  match email with
  | some email =>
    flag (normalizeEmail w.tables email != normalizeEmail w.tables user.email)
      ⟨"email_mismatch".toList, user.id, "keycloak".toList,
        displayEmail user.email options.includeEmail, displayEmail email options.includeEmail,
        .critical⟩
  | none => [⟨"email_mismatch".toList, user.id, "keycloak".toList,
      displayEmail user.email options.includeEmail, "missing Keycloak email".toList, .critical⟩]

def inspectKeycloakUser (user : UserRow) (account : KeycloakUser) : List IdentityFinding :=
  flag (account.id != user.id) ⟨"keycloak_id_mismatch".toList, user.id, "keycloak".toList, user.id,
    account.id, .critical⟩ ++
  flag (!account.enabled.getD true) ⟨"disabled_keycloak_user".toList, user.id, "keycloak".toList,
    "enabled".toList, "disabled".toList, .warning⟩ ++
  flag (!account.emailVerified.getD false) ⟨"unverified_keycloak_email".toList, user.id,
    "keycloak".toList, "verified email".toList, "unverified or absent".toList, .warning⟩ ++
  inspectAccountEmail w options user account.email

def inspectEmailAccounts (user : UserRow) : List IdentityFinding :=
  match w.getUsersByEmailExact user.email with
  | .ok accounts =>
    flag (decide (1 < normalizedEmailCount w.tables accounts user.email))
      ⟨"duplicate_keycloak_email".toList, user.id, "keycloak".toList,
        "one exact normalized email account".toList,
        "multiple Keycloak accounts with the same email".toList, .warning⟩
  | .error e => [⟨"keycloak_email_lookup_failed".toList, user.id, "keycloak".toList,
      "duplicate-email check available".toList, e, .warning⟩]

def inspectAccount (user : UserRow) : List IdentityFinding :=
  match w.getUserById user.id with
  | .ok (some account) => inspectKeycloakUser w options user account ++ inspectEmailAccounts w user
  | .ok none => [⟨"missing_in_keycloak".toList, user.id, "keycloak".toList,
      "Keycloak user with exact id".toList, "not found".toList, .critical⟩]
  | .error e => [⟨"keycloak_lookup_failed".toList, user.id, "keycloak".toList,
      "Keycloak Admin lookup by exact id".toList, e, .critical⟩]

/-- The body of the loop over the users. -/
def inspectSqlUser (user : UserRow) : List IdentityFinding :=
  flag (trim user.id).isEmpty ⟨"empty_user_id".toList, [], "users".toList,
    "non-empty canonical id".toList, "empty id".toList, .critical⟩ ++
  flag (isInvitePlaceholderUserId user.id) ⟨"legacy_invite_id".toList, user.id, "users".toList,
    "Keycloak sub".toList, "invite_* placeholder".toList, .critical⟩ ++
  flag (looksLikeLegacyExternalId user.id) ⟨"suspicious_legacy_external_id".toList, user.id,
    "users".toList, "Keycloak sub".toList, "legacy external-id pattern".toList, .warning⟩ ++
  inspectAccount w options user

/-- The ids that each normalized email goes with. -/
def idsByEmail (users : List UserRow) : List (List Char × List (List Char)) :=
  Gather.gather (fun _ => []) (fun ids id => ids ++ [id])
    (users.map fun user => (normalizeEmail w.tables user.email, user.id))

def inspectEmail (entry : List Char × List (List Char)) : List IdentityFinding :=
  flag (decide (1 < entry.2.length)) ⟨"duplicate_sql_email".toList, [','].intercalate entry.2,
    "users".toList, "one canonical user per normalized email".toList,
    (Nat.repr entry.2.length).toList ++ " SQL users share ".toList ++
      displayEmail entry.1 options.includeEmail, .critical⟩

def inspectSqlUsers (users : List UserRow) : List IdentityFinding :=
  users.flatMap (inspectSqlUser w options) ++
    (w.order (idsByEmail w users)).flatMap (inspectEmail options)

def inspectReference (reference : Reference) : List IdentityFinding :=
  match w.db.query (.references reference) (w.db.orphans reference) with
  | .ok rows => rows.map fun row => ⟨"orphan_sql_reference".toList, row.1,
      reference.table ++ ':' :: row.2, "referencing SQL user exists".toList,
      "missing users.id".toList, .critical⟩
  | .error e => [⟨"sql_reference_check_failed".toList, [], reference.table,
      "reference check available".toList, e, .critical⟩]

def inspectSqlIntegrity : List IdentityFinding := allReferences.flatMap (inspectReference w)

/-- The scope of an expected tuple is its object. -/
def inspectExpectedRelation (e : ExpectedTuple) : List IdentityFinding :=
  match w.checkFga e.user e.relation e.object with
  | .ok allowed => flag (!allowed) ⟨"missing_fga_relation".toList, e.user, e.object,
      relationText e.relation, "not allowed".toList, .critical⟩
  | .error error => [⟨"openfga_check_failed".toList, e.user, e.object, relationText e.relation,
      error, .critical⟩]

def isSqlBackedDirectRelation (t : TupleText) : Bool :=
  let objectType := t.object.takeWhile fun c => c != ':'
  (t.relation == "owner".toList && objectType == "tenant".toList) ||
  (t.relation == "admin".toList && objectType == "workspace".toList) ||
  (t.relation == "member".toList && objectType == "workspace".toList) ||
  (t.relation == "explicit_viewer".toList && objectType == "document".toList)

def inspectSubject (userIds expectedKeys : List (List Char)) (t : TupleText)
    (subjectId : List Char) : List IdentityFinding :=
  flag (isInvitePlaceholderUserId subjectId) ⟨"legacy_invite_id".toList, subjectId, t.object,
    "Keycloak subject".toList, "user:invite_* tuple".toList, .critical⟩ ++
  flag (!userIds.contains subjectId) ⟨"openfga_subject_missing_in_sql".toList, subjectId, t.object,
    "users.id exists".toList, "OpenFGA user subject only".toList, .critical⟩ ++
  flag (isSqlBackedDirectRelation t && t.object != "platform:system".toList &&
      !expectedKeys.contains (tupleKey t.user t.relation t.object))
    ⟨"extra_fga_relation".toList, t.user, t.object, "SQL membership/share read model".toList,
      t.relation ++ " tuple".toList, .warning⟩

def inspectTuple (userIds expectedKeys : List (List Char)) (t : TupleText) :
    List IdentityFinding :=
  if "user:".toList.isPrefixOf t.user then
    inspectSubject userIds expectedKeys t (t.user.drop "user:".toList.length)
  else []

def inspectFgaTuples (userIds : List (List Char)) (expected : List ExpectedTuple) :
    List IdentityFinding :=
  match w.listAllTuples with
  | .ok tuples => tuples.flatMap (inspectTuple userIds (expected.map ExpectedTuple.key))
  | .error e => [⟨"openfga_inventory_failed".toList, [], "openfga".toList,
      "tuple read API available".toList, e, .warning⟩]

end Findings

section Run

variable (w : World) (options : Options)

/-- A failed query is a finding, and the report goes on without its rows. -/
def orFinding {α : Type} (rows : Except (List Char) (List α)) (category expected : List Char) :
    List α × List IdentityFinding :=
  match rows with
  | .ok rows => (rows, [])
  | .error e => ([], [⟨category, [], "postgresql".toList, expected, e, .critical⟩])

def findings : List IdentityFinding :=
  let users := orFinding (w.db.query .users (sqlUsers w.db options)) "sql_inventory_failed".toList
    "SQL user inventory available".toList
  let expected := orFinding (loadExpectedTuples w.db options)
    "sql_membership_inventory_failed".toList
    "membership and document ACL inventory available".toList
  users.2 ++ inspectSqlUsers w options users.1 ++ inspectSqlIntegrity w ++ expected.2 ++
    expected.1.flatMap (inspectExpectedRelation w) ++
    inspectFgaTuples w (users.1.map UserRow.id) expected.1

def isFound (user : UserRow) : Bool :=
  match w.getUserById user.id with
  | .ok (some _) => true
  | _ => false

def inventoryLimitation : List Char :=
  ("OpenFGA tuple inventory was unavailable; expected-relation checks still ran, but extra or " ++
    "unknown subjects could not be proven.").toList

def platformLimitation : List Char :=
  ("Platform admin lives only in OpenFGA (no SQL expected set). Inventory checks user subjects on " ++
    "platform:system when Read succeeds; missing platform-admin grants cannot be inferred from SQL " ++
    "membership alone.").toList

def countOf (category : List Char) (findings : List IdentityFinding) : Nat :=
  findings.countP fun f => f.category == category

def refreshSummary (users : List UserRow) (findings : List IdentityFinding) : Summary where
  sqlUsers := users.length
  keycloakUsersFound := users.countP (isFound w)
  missingInKeycloak := countOf "missing_in_keycloak".toList findings
  emailMismatches := countOf "email_mismatch".toList findings
  unverifiedUsers := countOf "unverified_keycloak_email".toList findings
  orphanSqlReferences := countOf "orphan_sql_reference".toList findings
  missingFgaRelations := countOf "missing_fga_relation".toList findings
  extraFgaRelations := countOf "extra_fga_relation".toList findings
  legacyInviteIds := countOf "legacy_invite_id".toList findings
  canonicalIdentityFailures := findings.countP fun f => f.severity == .critical

def runIdentityConsistencyReport : Report where
  summary := refreshSummary w
    (orFinding (w.db.query .users (sqlUsers w.db options)) [] []).1 (findings w options)
  findings := findings w options
  limitations :=
    (match w.listAllTuples with
      | .ok _ => []
      | .error _ => [inventoryLimitation]) ++ [platformLimitation]

def reportExitCode (report : Report) (strict : Bool) : Nat :=
  if report.findings.any fun f => f.severity == .critical then 2
  else if strict && !report.findings.isEmpty then 3
  else 0

end Run

end GmragApi.IdentityReport

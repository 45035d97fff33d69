import GmragApi.Revokes
import GmragApi.SqlText
import GmragApi.Uuid

/-! The cleanup of the placeholders of legacy invitations: it takes users by the pattern of their
id, revokes their tuples one by one and then deletes their rows. -/

namespace GmragApi.InviteCleanup

open Revokes Sql

structure UserRow where
  id : List Char
  email : List Char
  deriving DecidableEq

structure WorkspaceMemberRow where
  workspaceId : Uuid
  userId : List Char
  role : List Char
  deriving DecidableEq

structure TenantMemberRow where
  tenantId : Uuid
  userId : List Char
  deriving DecidableEq

structure DocumentShareRow where
  documentId : Uuid
  userId : List Char
  deriving DecidableEq

structure ChatSessionRow where
  id : Uuid
  userId : List Char
  deriving DecidableEq

/-- `users` stands in the order of the query, whatever the collation. -/
structure Database where
  users : List UserRow
  workspaceMembers : List WorkspaceMemberRow
  tenantMembers : List TenantMemberRow
  documentShares : List DocumentShareRow
  chatSessions : List ChatSessionRow

/-- A tuple as OpenFGA sees it; the answers of `list_objects` are any texts. -/
structure TupleText where
  user : List Char
  relation : List Char
  object : List Char
  deriving DecidableEq

structure State where
  db : Database
  store : Finset TupleText

def isInvitePlaceholderUserId (userId : List Char) : Bool := "invite_".toList.isPrefixOf userId

/-- `id LIKE 'invite_%'`. -/
def likeInvite (userId : List Char) : Bool := like "invite_%".toList userId

/-- The rows of the query. -/
def placeholders (db : Database) : List UserRow := db.users.filter fun user => likeInvite user.id

def fgaUser (userId : List Char) : List Char := "user:".toList ++ userId

def workspaceObject (id : Uuid) : List Char := "workspace:".toList ++ id.display
def tenantObject (id : Uuid) : List Char := "tenant:".toList ++ id.display
def documentObject (id : Uuid) : List Char := "document:".toList ++ id.display

inductive ListQuery
  | workspaceMember
  | workspaceAdmin
  | tenantOwner
  | documentExplicitViewer
  | documentOwner
  deriving DecidableEq

def ListQuery.relation : ListQuery → List Char
  | workspaceMember => "member".toList
  | workspaceAdmin => "admin".toList
  | tenantOwner => "owner".toList
  | documentExplicitViewer => "explicit_viewer".toList
  | documentOwner => "owner".toList

def listQueries : List ListQuery :=
  [.workspaceMember, .workspaceAdmin, .tenantOwner, .documentExplicitViewer, .documentOwner]

/-- The statements that only read. -/
inductive Read
  | placeholders
  | workspaceMemberCount (userId : List Char)
  | tenantMemberCount (userId : List Char)
  | documentShareCount (userId : List Char)
  | chatSessionCount (userId : List Char)
  | workspaceRows (userId : List Char)
  | tenantIds (userId : List Char)
  | documentIds (userId : List Char)
  deriving DecidableEq

/-- A transaction that fails before its commit is rolled back; a commit that fails may have taken
effect. -/
inductive TxFate
  | done
  | failed (applied : Bool)
  deriving DecidableEq

def TxFate.applied : TxFate → Bool
  | done => true
  | failed applied => applied

/-- What happens to the statements and requests of a run. -/
structure Faults where
  readFails : Read → Bool
  listObjects : List Char → ListQuery → Except AuthzError (List (List Char))
  revoke : List Char → Nat → Fate
  tx : List Char → TxFate

def workspaceTuples (userId : List Char) (row : WorkspaceMemberRow) : List TupleText :=
  let relation :=
    if toAsciiLowercase row.role = toAsciiLowercase "ADMIN".toList then "admin".toList
    else "member".toList
  [⟨fgaUser userId, relation, workspaceObject row.workspaceId⟩,
    ⟨fgaUser userId, "member".toList, workspaceObject row.workspaceId⟩,
    ⟨fgaUser userId, "admin".toList, workspaceObject row.workspaceId⟩]

/-- A failed query of OpenFGA adds nothing. -/
def listedTuples (faults : Faults) (userId : List Char) (query : ListQuery) : List TupleText :=
  match faults.listObjects userId query with
  | .ok objects => objects.map fun object => ⟨fgaUser userId, query.relation, object⟩
  | .error _ => []

def candidateTuples (faults : Faults) (db : Database) (userId : List Char) : List TupleText :=
  (db.workspaceMembers.filter fun row => row.userId = userId).flatMap (workspaceTuples userId) ++
    ((db.tenantMembers.filter fun row => row.userId = userId).map fun row =>
      ⟨fgaUser userId, "owner".toList, tenantObject row.tenantId⟩) ++
    ((db.documentShares.filter fun row => row.userId = userId).map fun row =>
      ⟨fgaUser userId, "explicit_viewer".toList, documentObject row.documentId⟩) ++
    listQueries.flatMap (listedTuples faults userId)

/-- `push_tuple`. -/
def pushTuple (tuples : List TupleText) (t : TupleText) : List TupleText :=
  if t ∈ tuples then tuples else tuples ++ [t]

/-- The tuples that are collected when no statement fails. -/
def collectedTuples (faults : Faults) (db : Database) (userId : List Char) : List TupleText :=
  (candidateTuples faults db userId).foldl pushTuple []

inductive CleanupError
  | database (read : Read)
  deriving DecidableEq

def Faults.run (faults : Faults) (read : Read) : Except CleanupError Unit :=
  if faults.readFails read then .error (.database read) else .ok ()

def findInvitePlaceholders (faults : Faults) (db : Database) :
    Except CleanupError (List UserRow) := do
  faults.run .placeholders
  .ok (placeholders db)

def collectOpenfgaTuplesForUser (faults : Faults) (db : Database) (userId : List Char) :
    Except CleanupError (List TupleText) := do
  faults.run (.workspaceRows userId)
  faults.run (.tenantIds userId)
  faults.run (.documentIds userId)
  .ok (collectedTuples faults db userId)

structure Snapshot where
  userId : List Char
  email : List Char
  workspaceMemberCount : Nat
  tenantMemberCount : Nat
  documentShareCount : Nat
  chatSessionCount : Nat
  openfgaTuples : List TupleText

def snapshotOf (faults : Faults) (db : Database) (user : UserRow) : Snapshot where
  userId := user.id
  email := user.email
  workspaceMemberCount := db.workspaceMembers.countP fun row => row.userId = user.id
  tenantMemberCount := db.tenantMembers.countP fun row => row.userId = user.id
  documentShareCount := db.documentShares.countP fun row => row.userId = user.id
  chatSessionCount := db.chatSessions.countP fun row => row.userId = user.id
  openfgaTuples := collectedTuples faults db user.id

def collectSnapshot (faults : Faults) (db : Database) (user : UserRow) :
    Except CleanupError Snapshot := do
  faults.run (.workspaceMemberCount user.id)
  faults.run (.tenantMemberCount user.id)
  faults.run (.documentShareCount user.id)
  faults.run (.chatSessionCount user.id)
  let openfgaTuples ← collectOpenfgaTuplesForUser faults db user.id
  .ok { snapshotOf faults db user with openfgaTuples }

def collectPlaceholderSnapshots (faults : Faults) (db : Database) :
    List UserRow → Except CleanupError (List Snapshot)
  | [] => .ok []
  | user :: users => do
    let snapshot ← collectSnapshot faults db user
    let snapshots ← collectPlaceholderSnapshots faults db users
    .ok (snapshot :: snapshots)

inductive ReportedError
  | openfgaDeleteFailed (userId : List Char) (e : AuthzError)
  | sqlDeleteFailed (userId : List Char)
  deriving DecidableEq

structure Report where
  placeholdersFound : Nat
  placeholders : List Snapshot
  openfgaTuplesFound : Nat
  openfgaTuplesDeleted : Nat
  documentSharesDeleted : Nat
  workspaceMembersDeleted : Nat
  tenantMembersDeleted : Nat
  chatSessionsDeleted : Nat
  usersDeleted : Nat
  errors : List ReportedError
  deleted : Bool

/-- The rows that the transaction leaves; its last statement has the pattern again. -/
def deleteSqlForPlaceholder (db : Database) (userId : List Char) : Database where
  users := db.users.filter fun row => !(row.id == userId && likeInvite row.id)
  workspaceMembers := db.workspaceMembers.filter fun row => row.userId != userId
  tenantMembers := db.tenantMembers.filter fun row => row.userId != userId
  documentShares := db.documentShares.filter fun row => row.userId != userId
  chatSessions := db.chatSessions.filter fun row => row.userId != userId

/-- What the transaction adds to the report, from the rows that are there before it. -/
def Report.count (report : Report) (db : Database) (userId : List Char) : Report :=
  { report with
    documentSharesDeleted :=
      report.documentSharesDeleted + db.documentShares.countP fun row => row.userId = userId
    workspaceMembersDeleted :=
      report.workspaceMembersDeleted + db.workspaceMembers.countP fun row => row.userId = userId
    tenantMembersDeleted :=
      report.tenantMembersDeleted + db.tenantMembers.countP fun row => row.userId = userId
    chatSessionsDeleted :=
      report.chatSessionsDeleted + db.chatSessions.countP fun row => row.userId = userId
    usersDeleted :=
      report.usersDeleted + db.users.countP fun row => row.id = userId ∧ likeInvite row.id = true }

/-- One placeholder: its tuples first, its rows only if none of the revokes is refused. -/
def removePlaceholder (faults : Faults) (acc : State × Report) (snapshot : Snapshot) :
    State × Report :=
  let userId := snapshot.userId
  let (s, report) := acc
  match deleteTuplesFgaFirst (faults.revoke userId) s.store snapshot.openfgaTuples with
  | (store, .error e) =>
    (⟨s.db, store⟩, { report with errors := report.errors ++ [.openfgaDeleteFailed userId e] })
  | (store, .ok ()) =>
    let report :=
      { report with
        openfgaTuplesDeleted := report.openfgaTuplesDeleted + snapshot.openfgaTuples.length }
    match faults.tx userId with
    | .done => (⟨deleteSqlForPlaceholder s.db userId, store⟩, report.count s.db userId)
    | .failed applied =>
      (⟨if applied then deleteSqlForPlaceholder s.db userId else s.db, store⟩,
        { report with errors := report.errors ++ [.sqlDeleteFailed userId] })

/-- Everything is read before anything is deleted. -/
def loadSnapshots (faults : Faults) (db : Database) : Except CleanupError (List Snapshot) := do
  let users ← findInvitePlaceholders faults db
  collectPlaceholderSnapshots faults db users

def cleanupInvitePlaceholders (allowDelete : Bool) (faults : Faults) (s : State) :
    State × Except CleanupError Report :=
  match loadSnapshots faults s.db with
  | .error e => (s, .error e)
  | .ok snapshots =>
    let report : Report :=
      { placeholdersFound := snapshots.length
        placeholders := snapshots
        openfgaTuplesFound := (snapshots.map fun snapshot => snapshot.openfgaTuples.length).sum
        openfgaTuplesDeleted := 0
        documentSharesDeleted := 0
        workspaceMembersDeleted := 0
        tenantMembersDeleted := 0
        chatSessionsDeleted := 0
        usersDeleted := 0
        errors := []
        deleted := allowDelete }
    if !allowDelete then (s, .ok report)
    else
      let (s, report) := snapshots.foldl (removePlaceholder faults) (s, report)
      (s, .ok report)

/-- A row of one of the tables. -/
inductive Row
  | user (row : UserRow)
  | workspaceMember (row : WorkspaceMemberRow)
  | tenantMember (row : TenantMemberRow)
  | documentShare (row : DocumentShareRow)
  | chatSession (row : ChatSessionRow)
  deriving DecidableEq

def Row.userId : Row → List Char
  | user row => row.id
  | workspaceMember row => row.userId
  | tenantMember row => row.userId
  | documentShare row => row.userId
  | chatSession row => row.userId

def Database.rows (db : Database) : List Row :=
  db.users.map .user ++ db.workspaceMembers.map .workspaceMember ++
    db.tenantMembers.map .tenantMember ++ db.documentShares.map .documentShare ++
    db.chatSessions.map .chatSession

/-- What the run must keep to: nothing goes but what belongs to a placeholder, and the rows of a
user go only if none of the tuples that were collected for the user is left. -/
structure Safe (faults : Faults) (before after : State) : Prop where
  rows : ∀ row ∈ before.db.rows, row ∉ after.db.rows → isInvitePlaceholderUserId row.userId = true
  tuples : ∀ t ∈ before.store, t ∉ after.store →
    ∃ userId, t.user = fgaUser userId ∧ isInvitePlaceholderUserId userId = true
  tuplesFirst : ∀ row ∈ before.db.rows, row ∉ after.db.rows →
    ∀ t ∈ collectedTuples faults before.db row.userId, t ∉ after.store

/-- The statements that read for one user. -/
def readsOf (userId : List Char) : List Read :=
  [.workspaceMemberCount userId, .tenantMemberCount userId, .documentShareCount userId,
    .chatSessionCount userId, .workspaceRows userId, .tenantIds userId, .documentIds userId]

def ReadFails (faults : Faults) (db : Database) : Prop :=
  faults.readFails .placeholders = true ∨
    ∃ user ∈ placeholders db, ∃ read ∈ readsOf user.id, faults.readFails read = true

/-- None of the revokes of the user is refused, and the transaction takes effect. -/
def Removes (faults : Faults) (db : Database) (userId : List Char) : Prop :=
  (∀ i < (collectedTuples faults db userId).length, (faults.revoke userId i).refused = false) ∧
    (faults.tx userId).applied = true

/-- A user whose id the pattern takes is a placeholder, or the failures spare it; and none of its
tuples is left by revokes that are all misread when its rows go. -/
def Careful (faults : Faults) (s : State) (userId : List Char) : Prop :=
  (isInvitePlaceholderUserId userId = true ∨ ¬ Removes faults s.db userId ∧
    ∀ t ∈ collectedTuples faults s.db userId, t ∈ s.store →
      KeptBy (faults.revoke userId) (collectedTuples faults s.db userId) t) ∧
  ((faults.tx userId).applied = true →
    Heard (faults.revoke userId) s.store (collectedTuples faults s.db userId))

section Tuples

variable {faults : Faults} {db : Database} {userId : List Char}

theorem fgaUser_injective {a b : List Char} (h : fgaUser a = fgaUser b) : a = b :=
  List.append_cancel_left h

theorem candidateTuples_user : ∀ t ∈ candidateTuples faults db userId, t.user = fgaUser userId := by
  intro t ht
  rcases List.mem_append.mp ht with ht | ht
  · rcases List.mem_append.mp ht with ht | ht
    · rcases List.mem_append.mp ht with ht | ht
      · obtain ⟨row, -, hrow⟩ := List.mem_flatMap.mp ht
        simp only [workspaceTuples, List.mem_cons, List.not_mem_nil, or_false] at hrow
        rcases hrow with rfl | rfl | rfl <;> rfl
      · obtain ⟨row, -, rfl⟩ := List.mem_map.mp ht
        rfl
    · obtain ⟨row, -, rfl⟩ := List.mem_map.mp ht
      rfl
  · obtain ⟨query, -, hquery⟩ := List.mem_flatMap.mp ht
    unfold listedTuples at hquery
    cases hlist : faults.listObjects userId query with
    | error e =>
      rw [hlist] at hquery
      cases hquery
    | ok objects =>
      rw [hlist] at hquery
      obtain ⟨object, -, rfl⟩ := List.mem_map.mp hquery
      rfl

theorem mem_foldl_pushTuple {tuples candidates : List TupleText} {t : TupleText} :
    t ∈ candidates.foldl pushTuple tuples ↔ t ∈ tuples ∨ t ∈ candidates := by
  induction candidates generalizing tuples with
  | nil => simp
  | cons c candidates ih =>
    have hpush : t ∈ pushTuple tuples c ↔ t ∈ tuples ∨ t = c := by
      unfold pushTuple
      split
      next hin =>
        refine ⟨.inl, fun h => h.elim id fun heq => heq ▸ hin⟩
      next => simp
    rw [List.foldl_cons, ih, hpush, List.mem_cons, or_assoc]

theorem collectedTuples_user : ∀ t ∈ collectedTuples faults db userId, t.user = fgaUser userId := by
  intro t ht
  rcases mem_foldl_pushTuple.mp ht with h | h
  · cases h
  · exact candidateTuples_user t h

end Tuples

section Reads

variable {faults : Faults} {db : Database} {user : UserRow} {users : List UserRow}

/-- The reads of one user end with its snapshot, or with the first statement that fails. -/
theorem collectSnapshot_eq : collectSnapshot faults db user =
    ((readsOf user.id).find? faults.readFails).elim (.ok (snapshotOf faults db user))
      fun read => .error (.database read) := by
  unfold collectSnapshot collectOpenfgaTuplesForUser readsOf Faults.run
  simp only [List.find?_cons, List.find?_nil]
  cases faults.readFails (.workspaceMemberCount user.id) <;> try rfl
  cases faults.readFails (.tenantMemberCount user.id) <;> try rfl
  cases faults.readFails (.documentShareCount user.id) <;> try rfl
  cases faults.readFails (.chatSessionCount user.id) <;> try rfl
  cases faults.readFails (.workspaceRows user.id) <;> try rfl
  cases faults.readFails (.tenantIds user.id) <;> try rfl
  cases faults.readFails (.documentIds user.id) <;> rfl

theorem collectPlaceholderSnapshots_ok
    (h : ∀ user ∈ users, ∀ read ∈ readsOf user.id, faults.readFails read = false) :
    collectPlaceholderSnapshots faults db users = .ok (users.map (snapshotOf faults db)) := by
  induction users with
  | nil => rfl
  | cons user users ih =>
    obtain ⟨hfirst, hrest⟩ := List.forall_mem_cons.mp h
    have hnone : (readsOf user.id).find? faults.readFails = none :=
      List.find?_eq_none.mpr fun read hread => by simp [hfirst read hread]
    rw [collectPlaceholderSnapshots, collectSnapshot_eq, hnone, ih hrest]
    rfl

theorem collectPlaceholderSnapshots_error
    (h : ∃ user ∈ users, ∃ read ∈ readsOf user.id, faults.readFails read = true) :
    ∃ e, collectPlaceholderSnapshots faults db users = .error e := by
  induction users with
  | nil =>
    obtain ⟨user, huser, -⟩ := h
    cases huser
  | cons user users ih =>
    rw [collectPlaceholderSnapshots, collectSnapshot_eq]
    cases hfind : (readsOf user.id).find? faults.readFails with
    | some read => exact ⟨_, rfl⟩
    | none =>
      have hrest : ∃ user ∈ users, ∃ read ∈ readsOf user.id, faults.readFails read = true := by
        obtain ⟨other, hother, read, hread, hfails⟩ := h
        rcases List.mem_cons.mp hother with rfl | hother
        · exact absurd hfails (List.find?_eq_none.mp hfind read hread)
        · exact ⟨other, hother, read, hread, hfails⟩
      obtain ⟨e, he⟩ := ih hrest
      exact ⟨e, by rw [he]; rfl⟩

end Reads

section Loop

variable {faults : Faults} {s : State} {report : Report} {users : List UserRow} {row : Row}
  {t : TupleText}

theorem mem_rows_deleteSql {db : Database} {userId : List Char} (h : likeInvite userId = true) :
    row ∈ (deleteSqlForPlaceholder db userId).rows ↔ row ∈ db.rows ∧ row.userId ≠ userId := by
  cases row with
  | user r =>
    simp only [Database.rows, deleteSqlForPlaceholder, Row.userId, List.mem_append, List.mem_map,
      List.mem_filter]
    simp
    grind
  | workspaceMember r => simp [Database.rows, deleteSqlForPlaceholder, Row.userId]
  | tenantMember r => simp [Database.rows, deleteSqlForPlaceholder, Row.userId]
  | documentShare r => simp [Database.rows, deleteSqlForPlaceholder, Row.userId]
  | chatSession r => simp [Database.rows, deleteSqlForPlaceholder, Row.userId]

theorem removePlaceholder_store {snapshot : Snapshot} :
    t ∈ (removePlaceholder faults (s, report) snapshot).1.store ↔
      t ∈ s.store ∧ KeptBy (faults.revoke snapshot.userId) snapshot.openfgaTuples t := by
  rw [← mem_deleteTuplesFgaFirst]
  generalize hout : deleteTuplesFgaFirst (faults.revoke snapshot.userId) s.store
    snapshot.openfgaTuples = out
  obtain ⟨store, reply⟩ := out
  cases reply with
  | error e => simp only [removePlaceholder, hout]
  | ok u =>
    cases htx : faults.tx snapshot.userId with
    | done => simp only [removePlaceholder, hout, htx]
    | failed applied => simp only [removePlaceholder, hout, htx]

theorem mem_rows_removePlaceholder {snapshot : Snapshot}
    (hlike : likeInvite snapshot.userId = true) :
    row ∈ (removePlaceholder faults (s, report) snapshot).1.db.rows ↔
      row ∈ s.db.rows ∧ ¬ (row.userId = snapshot.userId ∧
        (∀ i < snapshot.openfgaTuples.length, (faults.revoke snapshot.userId i).refused = false) ∧
        (faults.tx snapshot.userId).applied = true) := by
  rw [← @deleteTuplesFgaFirst_isOk _ _ _ s.store]
  generalize hout : deleteTuplesFgaFirst (faults.revoke snapshot.userId) s.store
    snapshot.openfgaTuples = out
  obtain ⟨store, reply⟩ := out
  cases reply with
  | error e => simp [removePlaceholder, hout, Except.isOk, Except.toBool]
  | ok u =>
    cases htx : faults.tx snapshot.userId with
    | done =>
      simp [removePlaceholder, hout, htx, Except.isOk, Except.toBool, TxFate.applied,
        mem_rows_deleteSql hlike]
    | failed applied =>
      cases applied with
      | false => simp [removePlaceholder, hout, htx, TxFate.applied]
      | true =>
        simp [removePlaceholder, hout, htx, Except.isOk, Except.toBool, TxFate.applied,
          mem_rows_deleteSql hlike]

/-- What the loop leaves of the rows and tuples, over all the users that it has been through. -/
theorem foldl_removePlaceholder {db : Database} (hlike : ∀ user ∈ users, likeInvite user.id = true) :
    let after := ((users.map (snapshotOf faults db)).foldl (removePlaceholder faults) (s, report)).1
    (∀ row, row ∈ after.db.rows ↔ row ∈ s.db.rows ∧
      ∀ user ∈ users, ¬ (row.userId = user.id ∧ Removes faults db user.id)) ∧
    ∀ t, t ∈ after.store ↔ t ∈ s.store ∧
      ∀ user ∈ users, KeptBy (faults.revoke user.id) (collectedTuples faults db user.id) t := by
  induction users generalizing s report with
  | nil => simp
  | cons user users ih =>
    obtain ⟨hfirst, hrest⟩ := List.forall_mem_cons.mp hlike
    generalize hnext : removePlaceholder faults (s, report) (snapshotOf faults db user) = next
    obtain ⟨s', report'⟩ := next
    obtain ⟨hrows, hstore⟩ := @ih s' report' hrest
    have hs' : (removePlaceholder faults (s, report) (snapshotOf faults db user)).1 = s' :=
      congrArg Prod.fst hnext
    simp only [List.map_cons, List.foldl_cons, hnext, List.forall_mem_cons]
    constructor
    · intro row
      rw [hrows row, ← hs', mem_rows_removePlaceholder hfirst, and_assoc]
      rfl
    · intro t
      rw [hstore t, ← hs', removePlaceholder_store, and_assoc]
      rfl

end Loop

section Run

variable {faults : Faults} {s : State} {row : Row} {t : TupleText}

theorem cleanup_of_readFails (h : ReadFails faults s.db) :
    (cleanupInvitePlaceholders true faults s).1 = s := by
  obtain ⟨e, he⟩ : ∃ e, loadSnapshots faults s.db = .error e := by
    unfold loadSnapshots findInvitePlaceholders Faults.run
    rcases h with h | h
    · exact ⟨.database .placeholders, by rw [h]; rfl⟩
    · cases hfind : faults.readFails .placeholders with
      | true => exact ⟨.database .placeholders, rfl⟩
      | false => exact collectPlaceholderSnapshots_error h
  unfold cleanupInvitePlaceholders
  simp only [he]

theorem cleanup_of_reads (h : ¬ ReadFails faults s.db) :
    let after := (cleanupInvitePlaceholders true faults s).1
    (∀ row, row ∈ after.db.rows ↔ row ∈ s.db.rows ∧ ∀ user ∈ placeholders s.db,
      ¬ (row.userId = user.id ∧ Removes faults s.db user.id)) ∧
    ∀ t, t ∈ after.store ↔ t ∈ s.store ∧ ∀ user ∈ placeholders s.db,
      KeptBy (faults.revoke user.id) (collectedTuples faults s.db user.id) t := by
  have hfind : faults.readFails .placeholders = false := by
    by_contra hfails
    exact h (.inl (by simpa using hfails))
  have hreads : ∀ user ∈ placeholders s.db, ∀ read ∈ readsOf user.id,
      faults.readFails read = false := by
    intro user huser read hread
    by_contra hfails
    exact h (.inr ⟨user, huser, read, hread, by simpa using hfails⟩)
  have hload : loadSnapshots faults s.db =
      .ok ((placeholders s.db).map (snapshotOf faults s.db)) := by
    unfold loadSnapshots findInvitePlaceholders Faults.run
    rw [hfind]
    exact collectPlaceholderSnapshots_ok hreads
  unfold cleanupInvitePlaceholders
  simp only [hload, Bool.not_true, Bool.false_eq_true, if_false]
  exact foldl_removePlaceholder fun user huser => (List.mem_filter.mp huser).2

/-- Only the revokes of its own user matter for a collected tuple. -/
theorem mem_store_of_collected (h : ¬ ReadFails faults s.db) {user : UserRow}
    (huser : user ∈ placeholders s.db) (ht : t ∈ collectedTuples faults s.db user.id) :
    t ∈ (cleanupInvitePlaceholders true faults s).1.store ↔
      t ∈ s.store ∧ KeptBy (faults.revoke user.id) (collectedTuples faults s.db user.id) t := by
  rw [(cleanup_of_reads h).2 t]
  refine and_congr_right fun _ => ⟨fun hall => hall user huser, fun hkept other hother => ?_⟩
  by_cases heq : other.id = user.id
  · rw [heq]
    exact hkept
  · refine keptBy_of_notMem fun hmem => heq ?_
    have hother := collectedTuples_user t hmem
    have hown := collectedTuples_user t ht
    exact fgaUser_injective (hother.symm.trans hown)

theorem careful_of_safe (hreads : ¬ ReadFails faults s.db)
    (hsafe : Safe faults s (cleanupInvitePlaceholders true faults s).1) {user : UserRow}
    (huser : user ∈ placeholders s.db) : Careful faults s user.id := by
  have hrow : Row.user user ∈ s.db.rows := by
    have hmem := (List.mem_filter.mp huser).1
    simp [Database.rows, hmem]
  have hgone : Removes faults s.db user.id →
      Row.user user ∉ (cleanupInvitePlaceholders true faults s).1.db.rows := by
    intro hremoves hin
    exact (((cleanup_of_reads hreads).1 _).mp hin).2 user huser ⟨rfl, hremoves⟩
  constructor
  · by_cases hplaceholder : isInvitePlaceholderUserId user.id = true
    · exact .inl hplaceholder
    refine .inr ⟨fun hremoves => hplaceholder (hsafe.rows _ hrow (hgone hremoves)), ?_⟩
    intro t ht hin
    by_contra hlost
    have hout : t ∉ (cleanupInvitePlaceholders true faults s).1.store := fun h =>
      hlost ((mem_store_of_collected hreads huser ht).mp h).2
    obtain ⟨userId, htuple, huserId⟩ := hsafe.tuples t hin hout
    have hown := collectedTuples_user t ht
    have heq : user.id = userId := fgaUser_injective (hown.symm.trans htuple)
    exact hplaceholder (heq ▸ huserId)
  · intro happlied htolerated t ht hin
    have hout := hsafe.tuplesFirst _ hrow (hgone ⟨htolerated, happlied⟩) t ht
    have hlost : ¬ KeptBy (faults.revoke user.id) (collectedTuples faults s.db user.id) t :=
      fun hkept => hout ((mem_store_of_collected hreads huser ht).mpr ⟨hin, hkept⟩)
    rw [keptBy_iff htolerated] at hlost
    push Not at hlost
    obtain ⟨i, hi, hheard⟩ := hlost
    exact ⟨i, hi, by simpa using hheard⟩

/-- A row that goes belongs to a user that the pattern takes. -/
theorem removes_of_gone (hreads : ¬ ReadFails faults s.db) (hin : row ∈ s.db.rows)
    (hout : row ∉ (cleanupInvitePlaceholders true faults s).1.db.rows) :
    ∃ user ∈ placeholders s.db, row.userId = user.id ∧ Removes faults s.db user.id := by
  by_contra hnone
  push Not at hnone
  refine hout (((cleanup_of_reads hreads).1 row).mpr ⟨hin, ?_⟩)
  exact fun user huser h => hnone user huser h.1 h.2

theorem safe_of_careful (hreads : ¬ ReadFails faults s.db)
    (hcareful : ∀ user ∈ placeholders s.db, Careful faults s user.id) :
    Safe faults s (cleanupInvitePlaceholders true faults s).1 := by
  refine ⟨?_, ?_, ?_⟩
  · intro row hin hout
    obtain ⟨user, huser, heq, hremoves⟩ := removes_of_gone hreads hin hout
    rcases (hcareful user huser).1 with hplaceholder | ⟨hnot, -⟩
    · exact heq ▸ hplaceholder
    · exact absurd hremoves hnot
  · intro t hin hout
    rw [(cleanup_of_reads hreads).2 t] at hout
    push Not at hout
    obtain ⟨user, huser, hlost⟩ := hout hin
    have ht : t ∈ collectedTuples faults s.db user.id := by
      by_contra hnot
      exact hlost (keptBy_of_notMem hnot)
    rcases (hcareful user huser).1 with hplaceholder | ⟨-, hkept⟩
    · exact ⟨user.id, collectedTuples_user t ht, hplaceholder⟩
    · exact absurd (hkept t ht hin) hlost
  · intro row hin hout t ht hleft
    obtain ⟨user, huser, heq, hremoves⟩ := removes_of_gone hreads hin hout
    rw [heq] at ht
    obtain ⟨hbefore, hkept⟩ := (mem_store_of_collected hreads huser ht).mp hleft
    obtain ⟨i, hi, hheard⟩ := (hcareful user huser).2 hremoves.2 hremoves.1 t ht hbefore
    have hmisread := (keptBy_iff hremoves.1).mp hkept i hi
    rw [hheard] at hmisread
    cases hmisread

/-- The run removes nothing of a real user, and no rows ahead of the tuples, exactly when a read
fails or every user that the pattern takes is dealt with carefully. -/
theorem cleanupInvitePlaceholders_safe_iff (faults : Faults) (s : State) :
    Safe faults s (cleanupInvitePlaceholders true faults s).1 ↔
      ReadFails faults s.db ∨ ∀ user ∈ placeholders s.db, Careful faults s user.id := by
  by_cases hreads : ReadFails faults s.db
  · rw [cleanup_of_readFails hreads]
    refine iff_of_true ⟨?_, ?_, ?_⟩ (.inl hreads)
    · exact fun row hin hout => absurd hin hout
    · exact fun t hin hout => absurd hin hout
    · exact fun row hin hout => absurd hin hout
  rw [or_iff_right hreads]
  constructor
  · exact fun hsafe user huser => careful_of_safe hreads hsafe huser
  · exact safe_of_careful hreads

/-- Without the permission the run only reports. -/
theorem cleanupInvitePlaceholders_dry_run (faults : Faults) (s : State) :
    (cleanupInvitePlaceholders false faults s).1 = s := by
  unfold cleanupInvitePlaceholders
  cases loadSnapshots faults s.db <;> rfl

end Run

/-- A run in which nothing fails; the text is that of OpenFGA. -/
def Faults.none : Faults where
  readFails := fun _ => false
  listObjects := fun _ _ => .ok []
  revoke := fun _ _ => .answered missingReply
  tx := fun _ => .done

/-- A user whose id only begins like that of a placeholder. -/
def inviteeState : State where
  db :=
    { users := [⟨"invitee-7".toList, "invitee@example.com".toList⟩]
      workspaceMembers := [⟨⟨3⟩, "invitee-7".toList, "MEMBER".toList⟩]
      tenantMembers := []
      documentShares := []
      chatSessions := [⟨⟨5⟩, "invitee-7".toList⟩] }
  store := {⟨"user:invitee-7".toList, "member".toList, workspaceObject ⟨3⟩⟩}

theorem invitee_loses_its_account :
    ¬ Safe Faults.none inviteeState
      (cleanupInvitePlaceholders true Faults.none inviteeState).1 := by
  intro hsafe
  have hgone : Row.user ⟨"invitee-7".toList, "invitee@example.com".toList⟩ ∉
      (cleanupInvitePlaceholders true Faults.none inviteeState).1.db.rows := by decide +kernel
  have hreal := hsafe.rows _ (by decide +kernel) hgone
  exact absurd hreal (by decide +kernel)

end GmragApi.InviteCleanup

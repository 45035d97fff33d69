import GmragApi.AuthzOutbox
import GmragApi.ProcessPool
import GmragApi.Transition
import Mathlib.Data.List.AList

/-! Workspace membership: the requests that add, change and remove members, and the authorization
outbox workers, each as a process that takes one statement or one OpenFGA call at a time. -/

namespace GmragApi.Members

inductive Role
  | member
  | admin
  deriving DecidableEq

def Role.asFgaRelation : Role → Relation
  | member => .member
  | admin => .admin

/-- The role whose relation `sync_existing_workspace_role` removes. -/
def Role.opposite : Role → Role
  | member => .admin
  | admin => .member

def memberTuple (workspace user : Nat) (role : Role) : TupleKey :=
  ⟨.user user, role.asFgaRelation, .workspace workspace⟩

/-- Tables that no step changes: the tenant of a workspace and the `OWNER` rows of a tenant. -/
structure Env where
  tenantOf : Nat → Option Nat
  tenantOwners : Nat → List Nat
  maxRetries : Int

/-- What a request does to one row of `workspace_members`. -/
inductive Change
  | setRole (role : Role)
  | remove
  deriving DecidableEq

structure Target where
  workspace : Nat
  user : Nat
  change : Change
  deriving DecidableEq

/-- Where a request or a worker stands: the next statement or call that it makes. -/
inductive Proc
  | addCheck (actor workspace user : Nat) (role : Role)
  | addCheckAssign (actor workspace user : Nat) (role : Role)
  | addInsert (workspace user : Nat) (role : Role)
  | addGrant (workspace user : Nat) (role : Role)
  | changeCheck (actor : Nat) (target : Target)
  | lockWorkspace (target : Target)
  | readRole (target : Target) (tenant : Nat)
  | listAdmins (target : Target) (tenant : Nat) (role : Role)
  | guardAdmins (target : Target) (tenant : Nat) (role : Role) (todo : List Nat)
  | listOwners (target : Target) (tenant : Nat) (role : Role)
  | guardOwners (target : Target) (role : Role) (todo : List Nat)
  | writeRow (target : Target) (role : Role)
  | revoke (target : Target) (role : Role)
  | deleteRow (target : Target) (role : Role)
  | commit (target : Target) (role : Role)
  | grant (workspace user : Nat) (role : Role) (event : Nat)
  | markEvent (event : Nat)
  | enqueueWrite (t : TupleKey)
  | enqueueSync (workspace user : Nat)
  | workTuple (row : Nat) (retryCount : Int) (event : AuthzOutboxEventType) (t : TupleKey)
  | workRead (row : Nat) (retryCount : Int) (workspace user : Nat)
  | workSync (row : Nat) (retryCount : Int) (deletes : List TupleKey) (write : Option TupleKey)
  | workProcessed (row : Nat)
  | workFailed (row : Nat) (retryCount : Int) (message : List Char)
  | done
  deriving DecidableEq

/-- `locks` maps a workspace to the process whose transaction holds its row `FOR UPDATE`. -/
structure State where
  members : AList fun _ : Nat × Nat => Role
  tuples : Fga.Store
  outbox : List AuthzRow
  locks : Nat → Option Nat
  procs : List Proc

def State.role (s : State) (workspace user : Nat) : Option Role := s.members.lookup (workspace, user)

def State.goto (s : State) (i : Nat) (p : Proc) : State := { s with procs := s.procs.set i p }

def State.unlock (s : State) (workspace : Nat) : State :=
  { s with locks := Function.update s.locks workspace none }

/-- A request whose transaction ends without a commit, or after it, answers its client. -/
def State.leave (s : State) (i workspace : Nat) (p : Proc) : State := (s.unlock workspace).goto i p

def otherAdmins (s : State) (workspace user : Nat) : List Nat :=
  (s.members.entries.filter fun e =>
    e.1.1 == workspace && decide (e.2 = .admin) && e.1.2 != user).map fun e => e.1.2

/-- After the guard, an update writes its row before it revokes, a removal revokes first. -/
def afterGuard (target : Target) (role : Role) : Proc :=
  match target.change with
  | .setRole _ => .writeRow target role
  | .remove => .revoke target role

/-- An admin that loses the role has to leave a management path. -/
def afterRead (target : Target) (tenant : Nat) (role : Role) : Proc :=
  if role = .admin then .listAdmins target tenant role else afterGuard target role

/-- `lock_workspace_tenant`, which waits while another transaction holds the row. -/
def lockStep (env : Env) (s : State) (i : Nat) (target : Target) : Option State :=
  if s.locks target.workspace = none then
    match env.tenantOf target.workspace with
    | some tenant =>
      some ({ s with locks := Function.update s.locks target.workspace (some i) }.goto i
        (.readRole target tenant))
    | none => some (s.goto i .done)
  else none

def readStep (s : State) (i : Nat) (target : Target) (tenant : Nat) : State :=
  match s.role target.workspace target.user with
  | none => s.leave i target.workspace .done
  | some role =>
    if target.change = .setRole role then s.leave i target.workspace .done
    else s.goto i (afterRead target tenant role)

def revokeStep (s : State) (i : Nat) (target : Target) (role : Role) (reply : Fga.WriteReply) :
    Option State :=
  (Fga.delete s.tuples (memberTuple target.workspace target.user role) reply).map fun tuples =>
    let s := { s with tuples := tuples }
    match target.change, reply.error with
    | .setRole _, none => s.goto i (.commit target role)
    | .setRole _, some _ =>
      s.leave i target.workspace (.enqueueSync target.workspace target.user)
    | .remove, none => s.goto i (.deleteRow target role)
    | .remove, some e =>
      if isMissingTupleDeleteError e then s.goto i (.deleteRow target role)
      else s.leave i target.workspace .done

/-- What recovers from a transaction that failed after the revoke. -/
def recovery (target : Target) (role : Role) : Proc :=
  match target.change with
  | .setRole _ => .enqueueSync target.workspace target.user
  | .remove => .enqueueWrite (memberTuple target.workspace target.user role)

def commitStep (s : State) (i : Nat) (target : Target) : State :=
  match target.change with
  | .setRole new =>
    let s := { s with
      members := s.members.insert (target.workspace, target.user) new
      outbox := s.outbox ++ [enqueueWorkspaceRoleSync target.workspace target.user] }
    s.leave i target.workspace (.grant target.workspace target.user new (s.outbox.length - 1))
  | .remove =>
    let s := { s with members := s.members.erase (target.workspace, target.user) }
    s.leave i target.workspace .done

/-- The end of a worker's call: a tolerated error counts as success. -/
def settled (event : AuthzOutboxEventType) (row : Nat) (retryCount : Int) (next : Proc) :
    Fga.WriteReply → Proc
  | .done => next
  | .failed e =>
    if isIdempotentOutcome event e then next
    else .workFailed row retryCount e.sanitizeErrorMessage

/-- The calls of `process_workspace_role_sync_row` for the role that it read. -/
def syncPlan (workspace user : Nat) : Option Role → List TupleKey × Option TupleKey
  | some role =>
    ([memberTuple workspace user role.opposite], some (memberTuple workspace user role))
  | none => ([memberTuple workspace user .admin, memberTuple workspace user .member], none)

def syncNext (row : Nat) (retryCount : Int) (deletes : List TupleKey) (write : Option TupleKey) :
    Proc :=
  if deletes = [] ∧ write = none then .workProcessed row else .workSync row retryCount deletes write

def checkStep (s : State) (i : Nat) (actual : Bool) (reply : Except AuthzError Bool)
    (next : Proc) : Option State :=
  if Fga.checkReply actual reply then
    match reply with
    | .ok true => some (s.goto i next)
    | _ => some (s.goto i .done)
  else none

/-- One member of a guard list: a path was found, it was not, or the check failed. -/
def guardStep (s : State) (i : Nat) (actual : Bool) (reply : Except AuthzError Bool)
    (target : Target) (found next : Proc) : Option State :=
  if Fga.checkReply actual reply then
    match reply with
    | .ok true => some (s.goto i found)
    | .ok false => some (s.goto i next)
    | .error _ => some (s.leave i target.workspace .done)
  else none

def writeStep (s : State) (i : Nat) (t : TupleKey) (reply : Fga.WriteReply) (next : Proc) :
    Option State :=
  (Fga.write s.tuples t reply).map fun tuples => { s with tuples := tuples }.goto i next

def deleteStep (s : State) (i : Nat) (t : TupleKey) (reply : Fga.WriteReply) (next : Proc) :
    Option State :=
  (Fga.delete s.tuples t reply).map fun tuples => { s with tuples := tuples }.goto i next

def enqueue (s : State) (i : Nat) (row : AuthzRow) : Bool → State
  | true => { s with outbox := s.outbox ++ [row] }.goto i .done
  | false => s.goto i .done

def updateRow (s : State) (i row : Nat) (f : AuthzRow → AuthzRow) : Bool → State
  | true => { s with outbox := s.outbox.modify row f }.goto i .done
  | false => s.goto i .done

/-- The next step of process `i`, which stands at `p`. -/
def advance (env : Env) (s : State) (i : Nat) (p : Proc) (reply : Reply) : Option State :=
  match p, reply with
  | .addCheck actor workspace user role, .checked r =>
    checkStep s i (Fga.checkCanManageMember s.tuples actor workspace) r
      (if role = .admin then .addCheckAssign actor workspace user role
        else .addInsert workspace user role)
  | .addCheckAssign actor workspace user role, .checked r =>
    checkStep s i (Fga.checkCanAssignRole s.tuples actor workspace) r
      (.addInsert workspace user role)
  | .addInsert workspace user role, .sql ok =>
    if ok ∧ s.role workspace user = none ∧ (env.tenantOf workspace).isSome then
      -- the foreign key makes the insert wait for a locked workspace row
      if s.locks workspace = none then
        some ({ s with members := s.members.insert (workspace, user) role }.goto i
          (.addGrant workspace user role))
      else none
    else some (s.goto i .done)
  | .addGrant workspace user role, .called r =>
    writeStep s i (memberTuple workspace user role) r
      (if r.error = none then .done else .enqueueWrite (memberTuple workspace user role))
  | .changeCheck actor target, .checked r =>
    match target.change with
    | .setRole _ =>
      checkStep s i (Fga.checkCanAssignRole s.tuples actor target.workspace) r
        (.lockWorkspace target)
    | .remove =>
      checkStep s i (Fga.checkCanManageMember s.tuples actor target.workspace) r
        (if target.user = actor then .done else .lockWorkspace target)
  | .lockWorkspace target, .sql true => lockStep env s i target
  | .lockWorkspace _, .sql false => some (s.goto i .done)
  | .readRole target tenant, .sql true => some (readStep s i target tenant)
  | .readRole target _, .sql false => some (s.leave i target.workspace .done)
  | .listAdmins target tenant role, .listed admins =>
    -- the rows come in any order
    if admins.Perm (otherAdmins s target.workspace target.user) then
      some (s.goto i (.guardAdmins target tenant role admins))
    else none
  | .listAdmins target _ _, .sql false => some (s.leave i target.workspace .done)
  | .guardAdmins target tenant role [], .sql _ => some (s.goto i (.listOwners target tenant role))
  | .guardAdmins target tenant role (admin :: rest), .checked r =>
    guardStep s i (Fga.checkWorkspaceAdmin s.tuples admin target.workspace) r target
      (afterGuard target role) (.guardAdmins target tenant role rest)
  | .listOwners target tenant role, .listed owners =>
    if owners.Perm (env.tenantOwners tenant) then some (s.goto i (.guardOwners target role owners))
    else none
  | .listOwners target _ _, .sql false => some (s.leave i target.workspace .done)
  | .guardOwners target _ [], .sql _ => some (s.leave i target.workspace .done)
  | .guardOwners target role (owner :: rest), .checked r =>
    match env.tenantOf target.workspace with
    | some tenant =>
      guardStep s i (Fga.isTenantOwner s.tuples owner tenant) r target (afterGuard target role)
        (.guardOwners target role rest)
    | none => none
  | .writeRow target role, .sql true => some (s.goto i (.revoke target role))
  | .writeRow target _, .sql false => some (s.leave i target.workspace .done)
  | .revoke target role, .called r => revokeStep s i target role r
  | .deleteRow target role, .sql true => some (s.goto i (.commit target role))
  | .deleteRow target role, .sql false =>
    some (s.leave i target.workspace (recovery target role))
  | .commit target _, .sql true => some (commitStep s i target)
  | .commit target role, .sql false => some (s.leave i target.workspace (recovery target role))
  | .grant workspace user role event, .called r =>
    writeStep s i (memberTuple workspace user role) r
      (if r.error = none then .markEvent event else .done)
  | .markEvent event, .sql ok => some (updateRow s i event markAuthzOutboxProcessed ok)
  | .enqueueWrite t, .sql ok => some (enqueue s i (enqueueTupleWrite t) ok)
  | .enqueueSync workspace user, .sql ok =>
    some (enqueue s i (enqueueWorkspaceRoleSync workspace user) ok)
  | .workTuple row retryCount .tupleWrite t, .called r =>
    writeStep s i t r (settled .tupleWrite row retryCount (.workProcessed row) r)
  | .workTuple row retryCount _ t, .called r =>
    deleteStep s i t r (settled .tupleDelete row retryCount (.workProcessed row) r)
  | .workRead row retryCount workspace user, .sql true =>
    let (deletes, write) := syncPlan workspace user (s.role workspace user)
    some (s.goto i (.workSync row retryCount deletes write))
  | .workRead _ _ _ _, .sql false => some (s.goto i .done)
  | .workSync row retryCount (t :: rest) write, .called r =>
    deleteStep s i t r (settled .tupleDelete row retryCount (syncNext row retryCount rest write) r)
  | .workSync row retryCount [] (some t), .called r =>
    writeStep s i t r (settled .tupleWrite row retryCount (.workProcessed row) r)
  | .workProcessed row, .sql ok => some (updateRow s i row markAuthzOutboxProcessed ok)
  | .workFailed row retryCount message, .sql ok =>
    some (updateRow s i row (markAuthzOutboxFailed retryCount message) ok)
  | _, _ => none

/-- The workspace whose lock a process may hold where it stands. -/
def Proc.workspace? : Proc → Option Nat
  | readRole target _ => some target.workspace
  | listAdmins target _ _ => some target.workspace
  | guardAdmins target _ _ _ => some target.workspace
  | listOwners target _ _ => some target.workspace
  | guardOwners target _ _ => some target.workspace
  | writeRow target _ => some target.workspace
  | revoke target _ => some target.workspace
  | deleteRow target _ => some target.workspace
  | commit target _ => some target.workspace
  | _ => none

def workStart (row : Nat) (r : AuthzRow) : Proc :=
  match r.task with
  | .write t => .workTuple row r.retryCount .tupleWrite t
  | .delete t => .workTuple row r.retryCount .tupleDelete t
  | .roleSync workspace user => .workRead row r.retryCount workspace user
  | .invalid message => .workFailed row r.retryCount message

inductive Act
  | addMember (actor workspace user : Nat) (role : Role)
  | updateRole (actor workspace user : Nat) (role : Role)
  | removeMember (actor workspace user : Nat)
  | work (row : Nat)
  | advance (i : Nat) (reply : Reply)
  | abort (i : Nat)

def State.start (s : State) (p : Proc) : State := { s with procs := s.procs ++ [p] }

/-- A dropped request or a killed worker rolls its transaction back. -/
def abortStep (s : State) (i : Nat) (p : Proc) : State :=
  match p.workspace? with
  | some workspace => s.leave i workspace .done
  | none => s.goto i .done

def step (env : Env) (s : State) : Act → Option State
  | .addMember actor workspace user role => some (s.start (.addCheck actor workspace user role))
  | .updateRole actor workspace user role =>
    some (s.start (.changeCheck actor ⟨workspace, user, .setRole role⟩))
  | .removeMember actor workspace user =>
    some (s.start (.changeCheck actor ⟨workspace, user, .remove⟩))
  | .work row =>
    match s.outbox[row]? with
    | some r => if r.retryable env.maxRetries then some (s.start (workStart row r)) else none
    | none => none
  | .advance i reply =>
    match s.procs[i]? with
    | some p => advance env s i p reply
    | none => none
  | .abort i => (s.procs[i]?).map fun p => abortStep s i p

end GmragApi.Members

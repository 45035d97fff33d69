import GmragApi.AuthzOutbox
import GmragApi.ProcessPool
import GmragApi.Transition
import Mathlib.Data.Finset.Image

/-! Document permissions: sharing, revoking, changing the access mode and replacing the whole list,
and the outbox workers, each as a process that takes one statement or one OpenFGA call at a time. -/

namespace GmragApi.DocumentAcl

inductive DocumentAccessMode
  | workspaceDefault
  | restricted
  deriving DecidableEq

structure Document where
  workspace : Nat
  accessMode : DocumentAccessMode
  deriving DecidableEq

def explicitViewerTuple (document user : Nat) : TupleKey :=
  ⟨.user user, .explicitViewer, .document document⟩

def uniqueUserIds (userIds : List Nat) : List Nat := userIds.eraseDups

/-- What `replace_document_permissions` is asked for. Its caller refuses `workspace_default` with
a list of users. -/
structure PermissionsRequest where
  document : Nat
  workspace : Nat
  requestedMode : DocumentAccessMode
  authorizedUserIds : List Nat
  default_lists_nobody : requestedMode = .workspaceDefault → authorizedUserIds = []
  deriving DecidableEq

structure GrantPlan where
  user : Nat
  insertSqlRow : Bool
  deriving DecidableEq

inductive Outcome
  | ok
  | notFound
  | failed
  deriving DecidableEq

/-- Where a call or a worker stands: the next statement or call that it makes. -/
inductive Proc
  | grantInsert (document user : Nat)
  | grantWrite (document user : Nat)
  | grantUndo (document user : Nat)
  | revokeTuple (document user : Nat)
  | revokeRow (document user : Nat)
  | modeLock (document workspace : Nat) (mode : DocumentAccessMode)
  | modeShares (document : Nat) (mode : DocumentAccessMode)
  | modeRevoke (document : Nat) (mode : DocumentAccessMode) (todo : List Nat)
  | modeCommit (document : Nat) (mode : DocumentAccessMode)
  | replaceLock (r : PermissionsRequest)
  | replaceRead (r : PermissionsRequest) (previous : DocumentAccessMode)
  | replaceCheck (r : PermissionsRequest) (previous : DocumentAccessMode) (current todo : List Nat)
      (grants : List GrantPlan)
  | replaceValidate (r : PermissionsRequest) (previous : DocumentAccessMode) (current : List Nat)
      (grants : List GrantPlan) (members : List Nat) (todo : List GrantPlan)
  | replaceCommit (r : PermissionsRequest) (previous : DocumentAccessMode) (current : List Nat)
      (grants : List GrantPlan)
  | replaceApply (r : PermissionsRequest) (revokes : List Nat) (grants : List GrantPlan)
  | replaceDelete (r : PermissionsRequest) (user : Nat) (revokes : List Nat)
      (grants : List GrantPlan)
  | replaceWrite (r : PermissionsRequest) (user : Nat) (grants : List GrantPlan)
  | enqueueWrite (r : PermissionsRequest) (user : Nat)
  | replaced (r : PermissionsRequest) (outcome : Outcome)
  | replay (row : Nat) (retryCount : Int) (event : AuthzOutboxEventType) (t : TupleKey)
  | rowProcessed (row : Nat)
  | rowFailed (row : Nat) (retryCount : Int) (message : List Char)
  | done
  deriving DecidableEq

/-- `locks` maps a document to the process whose transaction holds its row `FOR UPDATE`. -/
structure State where
  documents : Nat → Option Document
  shares : Finset (Nat × Nat)
  tuples : Fga.Store
  outbox : List AuthzRow
  locks : Nat → Option Nat
  procs : List Proc

def State.goto (s : State) (i : Nat) (p : Proc) : State := { s with procs := s.procs.set i p }

def State.lock (s : State) (document i : Nat) : State :=
  { s with locks := Function.update s.locks document (some i) }

/-- A transaction that ends frees the row of its document. -/
def State.leave (s : State) (i document : Nat) (p : Proc) : State :=
  { s with locks := Function.update s.locks document none }.goto i p

def State.setMode (s : State) (document : Nat) (mode : DocumentAccessMode) : State :=
  { s with
    documents := Function.update s.documents document
      ((s.documents document).map fun d => { d with accessMode := mode }) }

def State.sharesOf (s : State) (document : Nat) : Finset Nat :=
  (s.shares.filter fun share => share.1 = document).image Prod.snd

/-- The rows that a `SELECT` of the shares of a document returns, in any order. -/
def State.ListsShares (s : State) (document : Nat) (users : List Nat) : Prop :=
  users.Nodup ∧ users.toFinset = s.sharesOf document

instance (s : State) (document : Nat) (users : List Nat) :
    Decidable (s.ListsShares document users) :=
  inferInstanceAs (Decidable (_ ∧ _))

/-- `INSERT … ON CONFLICT DO NOTHING`: a new row waits for the lock on its document. -/
def insertShare (s : State) (i document user : Nat) (ok : Bool) (next failed : Proc) :
    Option State :=
  if ok = true ∧ (s.documents document).isSome then
    if (document, user) ∈ s.shares then some (s.goto i next)
    else if s.locks document = none then
      some ({ s with shares := insert (document, user) s.shares }.goto i next)
    else none
  else some (s.goto i failed)

def deleteShare (s : State) (i document user : Nat) (ok : Bool) (next failed : Proc) : State :=
  if ok then { s with shares := s.shares.erase (document, user) }.goto i next else s.goto i failed

def writeViewer (s : State) (i document user : Nat) (reply : Fga.WriteReply) (next failed : Proc) :
    Option State :=
  (Fga.write s.tuples (explicitViewerTuple document user) reply).map fun tuples =>
    { s with tuples := tuples }.goto i (if reply.error = none then next else failed)

/-- One tuple of `delete_tuples_fga_first`, which goes on where the tuple is missing. -/
def deleteViewerFgaFirst (s : State) (i document user : Nat) (reply : Fga.WriteReply)
    (next : Proc) (failed : State → State) : Option State :=
  (Fga.delete s.tuples (explicitViewerTuple document user) reply).map fun tuples =>
    let s := { s with tuples := tuples }
    match reply.error with
    | none => s.goto i next
    | some e => if isMissingTupleDeleteError e then s.goto i next else failed s

/-- The `SELECT … FOR UPDATE` of a document in its workspace. -/
def lockDocument (s : State) (i document workspace : Nat) (next : Document → Proc)
    (missing : Proc) : Option State :=
  match s.documents document with
  | some d =>
    if d.workspace = workspace then
      if s.locks document = none then some ((s.lock document i).goto i (next d)) else none
    else some (s.goto i missing)
  | none => some (s.goto i missing)

def commitMode (s : State) (i document : Nat) (mode : DocumentAccessMode) : State :=
  let s := s.setMode document mode
  match mode with
  | .workspaceDefault =>
    { s with shares := s.shares.filter fun share => share.1 ≠ document }.leave i document .done
  | .restricted => s.leave i document .done

/-- The users whom the grant loop of a request looks at. -/
def PermissionsRequest.planned (r : PermissionsRequest) : List Nat :=
  match r.requestedMode with
  | .workspaceDefault => []
  | .restricted => uniqueUserIds r.authorizedUserIds

def PermissionsRequest.toRevoke (r : PermissionsRequest) (current : List Nat) : List Nat :=
  current.filter fun user => decide (user ∉ r.authorizedUserIds)

theorem uniqueUserIds_nodup (userIds : List Nat) : (uniqueUserIds userIds).Nodup := by
  unfold uniqueUserIds
  induction h : userIds.length using Nat.strong_induction_on generalizing userIds with
  | _ n ih =>
    cases userIds with
    | nil => exact List.nodup_nil
    | cons user rest =>
      have hshorter := List.length_filter_le (fun u => !u == user) rest
      rw [List.eraseDups_cons]
      refine List.nodup_cons.mpr ⟨?_, ih _ ?_ _ rfl⟩
      · simp [List.mem_eraseDups]
      · rw [← h, List.length_cons]
        omega

theorem mem_planned {r : PermissionsRequest} {u : Nat} :
    u ∈ r.planned ↔ u ∈ r.authorizedUserIds := by
  unfold PermissionsRequest.planned
  split
  next h =>
    rw [r.default_lists_nobody h]
  next => exact List.mem_eraseDups

theorem mem_toRevoke {r : PermissionsRequest} {current : List Nat} {u : Nat} :
    u ∈ r.toRevoke current ↔ u ∈ current ∧ u ∉ r.authorizedUserIds := by
  simp [PermissionsRequest.toRevoke]

def PermissionsRequest.fail (r : PermissionsRequest) (s : State) (i : Nat) : State :=
  s.leave i r.document (.replaced r .failed)

/-- The commit that ends the locked part, or the early return of a request that changes nothing. -/
def commitPermissions (s : State) (i : Nat) (r : PermissionsRequest)
    (previous : DocumentAccessMode) (current : List Nat) (grants : List GrantPlan) (ok : Bool) :
    State :=
  if previous = r.requestedMode ∧ r.toRevoke current = [] ∧ grants = [] then
    s.leave i r.document (.replaced r .ok)
  else if ok then
    let s := if previous = r.requestedMode then s else s.setMode r.document r.requestedMode
    s.leave i r.document (.replaceApply r (r.toRevoke current) grants)
  else r.fail s i

def updateRow (s : State) (i row : Nat) (f : AuthzRow → AuthzRow) : Bool → State
  | true => { s with outbox := s.outbox.modify row f }.goto i .done
  | false => s.goto i .done

/-- The end of a replay: a tolerated error counts as success. -/
def replayed (event : AuthzOutboxEventType) (row : Nat) (retryCount : Int) :
    Fga.WriteReply → Proc
  | .done => .rowProcessed row
  | .failed e =>
    if isIdempotentOutcome event e then .rowProcessed row
    else .rowFailed row retryCount e.sanitizeErrorMessage

/-- One target of the plan that is already shared: only a missing tuple is granted again. -/
def checkViewer (s : State) (i : Nat) (r : PermissionsRequest) (previous : DocumentAccessMode)
    (current rest : List Nat) (grants : List GrantPlan) (user : Nat)
    (reply : Except AuthzError Bool) : Option State :=
  if Fga.checkReply (decide (explicitViewerTuple r.document user ∈ s.tuples)) reply then
    match reply with
    | .ok true => some (s.goto i (.replaceCheck r previous current rest grants))
    | .ok false =>
      some (s.goto i (.replaceCheck r previous current rest (grants ++ [⟨user, false⟩])))
    | .error _ => some (r.fail s i)
  else none

def validateGrant (s : State) (i : Nat) (r : PermissionsRequest) (members : List Nat)
    (grant : GrantPlan) (reply : Except AuthzError Bool) (next : Proc) : State :=
  if grant.user ∈ members then
    match reply with
    | .ok true => s.goto i next
    | _ => r.fail s i
  else r.fail s i

/-- The next step of process `i`, which stands at `p`. -/
def advance (s : State) (i : Nat) (p : Proc) (reply : Reply) : Option State :=
  match p, reply with
  | .grantInsert document user, .sql ok =>
    insertShare s i document user ok (.grantWrite document user) .done
  | .grantWrite document user, .called r =>
    writeViewer s i document user r .done (.grantUndo document user)
  | .grantUndo document user, .sql ok => some (deleteShare s i document user ok .done .done)
  | .revokeTuple document user, .called r =>
    (Fga.delete s.tuples (explicitViewerTuple document user) r).map fun tuples =>
      { s with tuples := tuples }.goto i
        (if r.error = none then .revokeRow document user else .done)
  | .revokeRow document user, .sql ok => some (deleteShare s i document user ok .done .done)
  | .modeLock document workspace mode, .sql true =>
    lockDocument s i document workspace
      (fun _ => if mode = .restricted then .modeRevoke document mode []
        else .modeShares document mode) .done
  | .modeLock _ _ _, .sql false => some (s.goto i .done)
  | .modeShares document mode, .listed users =>
    if s.ListsShares document users then some (s.goto i (.modeRevoke document mode users))
    else none
  | .modeShares document _, .sql false => some (s.leave i document .done)
  | .modeRevoke document mode (user :: rest), .called r =>
    deleteViewerFgaFirst s i document user r (.modeRevoke document mode rest)
      fun s => s.leave i document .done
  | .modeRevoke document mode [], .sql true => some (s.goto i (.modeCommit document mode))
  | .modeRevoke document _ [], .sql false => some (s.leave i document .done)
  | .modeCommit document mode, .sql true => some (commitMode s i document mode)
  | .modeCommit document _, .sql false => some (s.leave i document .done)
  | .replaceLock r, .sql true =>
    lockDocument s i r.document r.workspace (fun d => .replaceRead r d.accessMode)
      (.replaced r .notFound)
  | .replaceLock r, .sql false => some (s.goto i (.replaced r .failed))
  | .replaceRead r previous, .listed users =>
    if s.ListsShares r.document users then
      some (s.goto i (.replaceCheck r previous users r.planned []))
    else none
  | .replaceRead r _, .sql false => some (r.fail s i)
  | .replaceCheck r previous current (user :: rest) grants, .sql _ =>
    -- a user without a row is granted without a check
    if user ∈ current then none
    else some (s.goto i (.replaceCheck r previous current rest (grants ++ [⟨user, true⟩])))
  | .replaceCheck r previous current (user :: rest) grants, .checked reply =>
    if user ∈ current then checkViewer s i r previous current rest grants user reply else none
  | .replaceCheck r previous current [] grants, .listed members =>
    some (s.goto i (.replaceValidate r previous current grants members grants))
  | .replaceCheck r _ _ [] _, .sql false => some (r.fail s i)
  | .replaceCheck r previous current [] grants, .sql true =>
    -- nobody to validate: no query is made
    if grants = [] then some (s.goto i (.replaceCommit r previous current [])) else none
  | .replaceValidate r previous current grants members (grant :: rest), .checked reply =>
    some (validateGrant s i r members grant reply
      (.replaceValidate r previous current grants members rest))
  | .replaceValidate r previous current grants _ [], .sql _ =>
    some (s.goto i (.replaceCommit r previous current grants))
  | .replaceCommit r previous current grants, .sql ok =>
    some (commitPermissions s i r previous current grants ok)
  | .replaceApply r (user :: rest) grants, .called reply =>
    deleteViewerFgaFirst s i r.document user reply (.replaceDelete r user rest grants)
      fun s => s.goto i (.replaced r .failed)
  | .replaceDelete r user rest grants, .sql ok =>
    some (deleteShare s i r.document user ok (.replaceApply r rest grants) (.replaced r .failed))
  | .replaceApply r [] (⟨user, true⟩ :: rest), .sql ok =>
    insertShare s i r.document user ok (.replaceWrite r user rest) (.replaced r .failed)
  | .replaceApply r [] (⟨user, false⟩ :: rest), .sql _ =>
    some (s.goto i (.replaceWrite r user rest))
  | .replaceApply r [] [], .sql _ => some (s.goto i (.replaced r .ok))
  | .replaceWrite r user rest, .called reply =>
    writeViewer s i r.document user reply (.replaceApply r [] rest) (.enqueueWrite r user)
  | .enqueueWrite r user, .sql ok =>
    let s := if ok then
        { s with outbox := s.outbox ++ [enqueueTupleWrite (explicitViewerTuple r.document user)] }
      else s
    some (s.goto i (.replaced r .failed))
  | .replay row retryCount .tupleWrite t, .called r =>
    (Fga.write s.tuples t r).map fun tuples =>
      { s with tuples := tuples }.goto i (replayed .tupleWrite row retryCount r)
  | .replay row retryCount _ t, .called r =>
    (Fga.delete s.tuples t r).map fun tuples =>
      { s with tuples := tuples }.goto i (replayed .tupleDelete row retryCount r)
  | .rowProcessed row, .sql ok => some (updateRow s i row markAuthzOutboxProcessed ok)
  | .rowFailed row retryCount message, .sql ok =>
    some (updateRow s i row (markAuthzOutboxFailed retryCount message) ok)
  | _, _ => none

/-- The document whose lock a process holds where it stands. -/
def Proc.document? : Proc → Option Nat
  | modeShares document _ => some document
  | modeRevoke document _ _ => some document
  | modeCommit document _ => some document
  | replaceRead r _ => some r.document
  | replaceCheck r _ _ _ _ => some r.document
  | replaceValidate r _ _ _ _ _ => some r.document
  | replaceCommit r _ _ _ => some r.document
  | _ => none

/-- The request of a replacement that is under way. -/
def Proc.request? : Proc → Option PermissionsRequest
  | replaceLock r => some r
  | replaceRead r _ => some r
  | replaceCheck r _ _ _ _ => some r
  | replaceValidate r _ _ _ _ _ => some r
  | replaceCommit r _ _ _ => some r
  | replaceApply r _ _ => some r
  | replaceDelete r _ _ _ => some r
  | replaceWrite r _ _ => some r
  | enqueueWrite r _ => some r
  | _ => none

/-- A replacement that is dropped has not returned `Ok`. -/
def Proc.aborted (p : Proc) : Proc :=
  match p.request? with
  | some r => .replaced r .failed
  | none => .done

def abortStep (s : State) (i : Nat) (p : Proc) : State :=
  match p.document? with
  | some document => s.leave i document p.aborted
  | none => s.goto i p.aborted

def Proc.finished : Proc → Bool
  | replaced _ _ => true
  | done => true
  | _ => false

inductive Act
  | grant (document user : Nat)
  | revoke (document user : Nat)
  | setMode (document workspace : Nat) (mode : DocumentAccessMode)
  | replace (r : PermissionsRequest)
  | work (row : Nat)
  | advance (i : Nat) (reply : Reply)
  | abort (i : Nat)

def State.start (s : State) (p : Proc) : State := { s with procs := s.procs ++ [p] }

/-- A worker on a row that writes or deletes one tuple. -/
def workStart (row : Nat) (r : AuthzRow) : Option Proc :=
  match r.task with
  | .write t => some (.replay row r.retryCount .tupleWrite t)
  | .delete t => some (.replay row r.retryCount .tupleDelete t)
  | .roleSync _ _ => none
  | .invalid message => some (.rowFailed row r.retryCount message)

def step (maxRetries : Int) (s : State) : Act → Option State
  | .grant document user => some (s.start (.grantInsert document user))
  | .revoke document user => some (s.start (.revokeTuple document user))
  | .setMode document workspace mode => some (s.start (.modeLock document workspace mode))
  | .replace r => some (s.start (.replaceLock r))
  | .work row =>
    match s.outbox[row]? with
    | some r => if r.retryable maxRetries then (workStart row r).map s.start else none
    | none => none
  | .advance i reply =>
    match s.procs[i]? with
    | some p => advance s i p reply
    | none => none
  | .abort i =>
    match s.procs[i]? with
    | some p => if p.finished then none else some (abortStep s i p)
    | none => none

end GmragApi.DocumentAcl

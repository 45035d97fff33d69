import GmragApi.DocumentAcl
import GmragApi.Members

/-! The tuples of tenants, workspaces and documents beside the rows of SQL: the requests that create
and delete them run with those on document permissions and on members, and with the operators'
cleanup of orphan tuples. Each takes one statement or one OpenFGA call at a time. -/

namespace GmragApi.ResourceTuples

open DocumentAcl (Document DocumentAccessMode explicitViewerTuple)
open Members (Role memberTuple)

def tenantPlatformTuple (tenant : Nat) : TupleKey :=
  ⟨.object .platform, .platform, .tenant tenant⟩

def tenantOwnerTuple (tenant user : Nat) : TupleKey := ⟨.user user, .owner, .tenant tenant⟩

def workspaceTenantTuple (tenant workspace : Nat) : TupleKey :=
  ⟨.object (.tenant tenant), .tenant, .workspace workspace⟩

def documentWorkspaceTuple (workspace document : Nat) : TupleKey :=
  ⟨.object (.workspace workspace), .workspace, .document document⟩

/-- The ids that `load_resource_inventory` has read so far. -/
structure ResourceInventory where
  tenantIds : Finset Nat
  workspaceIds : Finset Nat
  documentIds : Finset Nat
  deriving DecidableEq

/-- The objects that `parse_resource_object` takes for a resource. -/
def isResource : FgaObject → Bool
  | .platform => false
  | .tenant _ => true
  | .workspace _ => true
  | .document _ => true

def resourceExists (inventory : ResourceInventory) : FgaObject → Bool
  | .platform => false
  | .tenant id => decide (id ∈ inventory.tenantIds)
  | .workspace id => decide (id ∈ inventory.workspaceIds)
  | .document id => decide (id ∈ inventory.documentIds)

/-- The tuples of the findings of `build_report`, before they are sorted. -/
def buildReport (inventory : ResourceInventory) (tuples : List TupleKey) : List TupleKey :=
  tuples.filter fun t => isResource t.object && !resourceExists inventory t.object

/-- What a deletion takes away. -/
inductive Target
  | document (workspace document : Nat)
  | workspace (workspace : Nat)
  deriving DecidableEq

/-- Where a request or a cleanup stands: the next statement or call that it makes. -/
inductive Proc
  | lockingDocument (workspace document : Nat)
  | listingShares (workspace document : Nat)
  | lockingWorkspace (workspace : Nat)
  | listingMembers (workspace tenant : Nat)
  | listingDocuments (workspace : Nat) (plan : List TupleKey)
  | listingWorkspaceShares (workspace : Nat) (plan : List TupleKey)
  | revoking (target : Target) (todo : List TupleKey)
  | uploading (workspace document : Nat) (mode : DocumentAccessMode)
  | linkingDocument (workspace document : Nat)
  | removingRow (workspace document : Nat)
  | creatingTenant (tenant : Nat)
  | addingOwner (tenant user : Nat)
  | creatingWorkspace (tenant workspace user : Nat)
  | granting (todo : List TupleKey)
  | recovering (t : TupleKey) (todo : List TupleKey)
  | loadingTenants (delete : Bool)
  | loadingWorkspaces (delete : Bool) (inventory : ResourceInventory)
  | loadingDocuments (delete : Bool) (inventory : ResourceInventory)
  | listingTuples (delete : Bool) (inventory : ResourceInventory) (tuples : List TupleKey)
  | reporting (delete : Bool) (inventory : ResourceInventory) (tuples : List TupleKey)
  | removing (todo removed : List TupleKey)
  | cleaned (removed : List TupleKey)
  | done
  deriving DecidableEq

/-- How the environment answers. A write that is `lost` has taken effect, but is reported as failed.
`rows` are the tuples that the rows of a query stand for, or the findings of a report, in any
order. -/
inductive Answer
  | sql (ok : Bool)
  | called (reply : Fga.WriteReply)
  | lost
  | rows (tuples : List TupleKey)
  | page (tuples : List TupleKey) (last : Bool)
  deriving DecidableEq

/-- `document` and `tenantOf` hold the columns of the rows whose ids are in `documents` and
`workspaces`; `removed` records the objects whose rows are gone. -/
structure State where
  tenants : Finset Nat
  tenantOwners : Nat → List Nat
  workspaces : Finset Nat
  tenantOf : Nat → Nat
  documents : Finset Nat
  document : Nat → Document
  shares : Finset (Nat × Nat)
  members : AList fun _ : Nat × Nat => Role
  tuples : Fga.Store
  outbox : List AuthzRow
  documentLocks : Nat → Option Nat
  workspaceLocks : Nat → Option Nat
  documentProcs : List DocumentAcl.Proc
  memberProcs : List Members.Proc
  procs : List Proc
  removed : Finset FgaObject

/-- What the calls on document permissions see. -/
def State.acl (s : State) : DocumentAcl.State where
  documents d := if d ∈ s.documents then some (s.document d) else none
  shares := s.shares
  tuples := s.tuples
  outbox := s.outbox
  locks := s.documentLocks
  procs := s.documentProcs

/-- They change columns of documents, but neither add nor remove one. -/
def State.withAcl (s : State) (acl : DocumentAcl.State) : State :=
  { s with
    document := fun d => (acl.documents d).getD (s.document d)
    shares := acl.shares
    tuples := acl.tuples
    outbox := acl.outbox
    documentLocks := acl.locks
    documentProcs := acl.procs }

def State.env (maxRetries : Int) (s : State) : Members.Env where
  tenantOf w := if w ∈ s.workspaces then some (s.tenantOf w) else none
  tenantOwners := s.tenantOwners
  maxRetries := maxRetries

/-- What the requests on members see. -/
def State.team (s : State) : Members.State where
  members := s.members
  tuples := s.tuples
  outbox := s.outbox
  locks := s.workspaceLocks
  procs := s.memberProcs

def State.withTeam (s : State) (team : Members.State) : State :=
  { s with
    members := team.members
    tuples := team.tuples
    outbox := team.outbox
    workspaceLocks := team.locks
    memberProcs := team.procs }

def State.inventory (s : State) : ResourceInventory := ⟨s.tenants, s.workspaces, s.documents⟩

/-- The row of the object is there. -/
def State.has (s : State) (o : FgaObject) : Bool := resourceExists s.inventory o

def State.documentsOf (s : State) (workspace : Nat) : Finset Nat :=
  s.documents.filter fun d => (s.document d).workspace = workspace

/-- The objects whose rows a deletion takes away, with those that the cascade takes. -/
def State.objectsOf (s : State) : Target → Finset FgaObject
  | .document workspace document =>
    (s.documentsOf workspace).filter (· = document) |>.image .document
  | .workspace workspace =>
    insert (.workspace workspace) ((s.documentsOf workspace).image .document)

/-- The tuples that a process has read or is about to delete. -/
def Proc.held : Proc → List TupleKey
  | revoking _ todo => todo
  | listingTuples _ _ tuples => tuples
  | reporting _ _ tuples => tuples
  | removing todo removed => todo ++ removed
  | cleaned removed => removed
  | _ => []

/-- A new id is drawn at random: nothing names it yet. -/
def State.unused (s : State) (o : FgaObject) : Bool :=
  decide (o ∉ s.removed) && !s.has o && decide (∀ t ∈ s.tuples, t.object ≠ o) &&
    s.procs.all fun p => p.held.all fun t => t.object != o

def State.goto (s : State) (i : Nat) (p : Proc) : State := { s with procs := s.procs.set i p }

def State.start (s : State) (p : Proc) : State := { s with procs := s.procs ++ [p] }

def State.lock (s : State) (i : Nat) : Target → State
  | .document _ d => { s with documentLocks := Function.update s.documentLocks d (some i) }
  | .workspace w => { s with workspaceLocks := Function.update s.workspaceLocks w (some i) }

/-- A deletion whose transaction ends frees its row. -/
def State.leave (s : State) (i : Nat) (target : Target) (p : Proc) : State :=
  match target with
  | .document _ d => { s with documentLocks := Function.update s.documentLocks d none }.goto i p
  | .workspace w => { s with workspaceLocks := Function.update s.workspaceLocks w none }.goto i p

def State.locked (s : State) : Target → Bool
  | .document _ d => (s.documentLocks d).isSome
  | .workspace w => (s.workspaceLocks w).isSome

/-- The cascade waits for the rows that other transactions hold. -/
def State.cascadeFree (s : State) : Target → Bool
  | .document _ _ => true
  | .workspace w => decide (∀ d ∈ s.documentsOf w, s.documentLocks d = none)

def membersOutside (gone : Finset FgaObject) (members : AList fun _ : Nat × Nat => Role) :
    AList fun _ : Nat × Nat => Role :=
  ⟨members.entries.filter fun e => decide (.workspace e.1.1 ∉ gone),
    members.nodupKeys.sublist List.filter_sublist⟩

/-- `DELETE FROM documents` or `DELETE FROM workspaces`, with the cascade. -/
def State.drop (s : State) (target : Target) : State :=
  let gone := s.objectsOf target
  { s with
    workspaces := s.workspaces.filter fun w => .workspace w ∉ gone
    documents := s.documents.filter fun d => .document d ∉ gone
    shares := s.shares.filter fun share => .document share.1 ∉ gone
    members := membersOutside gone s.members
    removed := gone ∪ s.removed }

def State.viewerTuples (s : State) (documents : Finset Nat) : Finset TupleKey :=
  (s.shares.filter fun share => share.1 ∈ documents).image fun share =>
    explicitViewerTuple share.1 share.2

def State.memberTuples (s : State) (workspace : Nat) : List TupleKey :=
  (s.members.entries.filter fun e => e.1.1 == workspace).map fun e =>
    memberTuple workspace e.1.2 e.2

def State.linkTuples (s : State) (workspace : Nat) : Finset TupleKey :=
  (s.documentsOf workspace).image (documentWorkspaceTuple workspace)

/-- The `SELECT … FOR UPDATE` of a deletion, which waits for other transactions on the row. -/
def lockTarget (s : State) (i : Nat) (target : Target) (found : Bool) (next : Proc) :
    Option State :=
  if found = true then
    if s.locked target = true then none else some ((s.lock i target).goto i next)
  else some (s.goto i .done)

/-- A query of the capture, inside of the transaction of a deletion. -/
def listRows (s : State) (i : Nat) (target : Target) (rows : Finset TupleKey)
    (next : List TupleKey → Proc) : Answer → Option State
  | .rows tuples =>
    if tuples.Nodup ∧ tuples.toFinset = rows then some (s.goto i (next tuples)) else none
  | .sql false => some (s.leave i target .done)
  | _ => none

def writeTuple (s : State) (i : Nat) (t : TupleKey) (reply : Fga.WriteReply) (next failed : Proc) :
    Option State :=
  (Fga.write s.tuples t reply).map fun tuples =>
    { s with tuples := tuples }.goto i (if reply.error = none then next else failed)

def loseWrite (s : State) (i : Nat) (t : TupleKey) (failed : Proc) : State :=
  { s with tuples := insert t s.tuples }.goto i failed

/-- One tuple of `delete_tuples_fga_first`, which goes on where the tuple is missing. -/
def deleteTupleFgaFirst (s : State) (i : Nat) (t : TupleKey) (reply : Fga.WriteReply)
    (deleted missing : Proc) (failed : State) : Option State :=
  (Fga.delete s.tuples t reply).map fun tuples =>
    match reply.error with
    | none => { s with tuples := tuples }.goto i deleted
    | some e => if isMissingTupleDeleteError e then s.goto i missing else failed

/-- The committed transaction of an upload; the foreign key waits for the row of the workspace. -/
def insertDocument (s : State) (i workspace document : Nat) (mode : DocumentAccessMode) :
    Option State :=
  if workspace ∈ s.workspaces then
    if s.workspaceLocks workspace = none ∧ s.unused (.document document) = true then
      some ({ s with
        documents := insert document s.documents
        document := Function.update s.document document ⟨workspace, mode⟩ }.goto i
          (.linkingDocument workspace document))
    else none
  else some (s.goto i .done)

def insertTenant (s : State) (i tenant : Nat) : Option State :=
  if s.unused (.tenant tenant) = true then
    some ({ s with tenants := insert tenant s.tenants }.goto i
      (.granting [tenantPlatformTuple tenant]))
  else none

def insertOwner (s : State) (i tenant user : Nat) : State :=
  if tenant ∈ s.tenants then
    let owners := s.tenantOwners tenant
    { s with
      tenantOwners := Function.update s.tenantOwners tenant
        (if user ∈ owners then owners else owners ++ [user]) }.goto i
      (.granting [tenantOwnerTuple tenant user])
  else s.goto i .done

def insertWorkspace (s : State) (i tenant workspace user : Nat) : Option State :=
  if tenant ∈ s.tenants then
    if s.unused (.workspace workspace) = true then
      some ({ s with
        workspaces := insert workspace s.workspaces
        tenantOf := Function.update s.tenantOf workspace tenant
        members := s.members.insert (workspace, user) .admin }.goto i
          (.granting [workspaceTenantTuple tenant workspace, memberTuple workspace user .admin]))
    else none
  else some (s.goto i .done)

def afterReport (delete : Bool) (todo : List TupleKey) : Proc :=
  if delete then .removing todo [] else .done

/-- The next step of process `i`, which stands at `p`. -/
def advance (s : State) (i : Nat) (p : Proc) (answer : Answer) : Option State :=
  match p, answer with
  | .lockingDocument workspace document, .sql true =>
    lockTarget s i (.document workspace document) (decide (document ∈ s.documentsOf workspace))
      (.listingShares workspace document)
  | .lockingDocument _ _, .sql false => some (s.goto i .done)
  | .listingShares workspace document, answer =>
    listRows s i (.document workspace document) (s.viewerTuples {document})
      (fun shares => .revoking (.document workspace document)
        (documentWorkspaceTuple workspace document :: shares)) answer
  | .lockingWorkspace workspace, .sql true =>
    lockTarget s i (.workspace workspace) (decide (workspace ∈ s.workspaces))
      (.listingMembers workspace (s.tenantOf workspace))
  | .lockingWorkspace _, .sql false => some (s.goto i .done)
  | .listingMembers workspace tenant, answer =>
    listRows s i (.workspace workspace) (s.memberTuples workspace).toFinset
      (fun members => .listingDocuments workspace (workspaceTenantTuple tenant workspace :: members))
      answer
  | .listingDocuments workspace plan, answer =>
    listRows s i (.workspace workspace) (s.linkTuples workspace)
      (fun links => .listingWorkspaceShares workspace (plan ++ links)) answer
  | .listingWorkspaceShares workspace plan, answer =>
    listRows s i (.workspace workspace) (s.viewerTuples (s.documentsOf workspace))
      (fun shares => .revoking (.workspace workspace) (plan ++ shares)) answer
  | .revoking target (t :: rest), .called reply =>
    deleteTupleFgaFirst s i t reply (.revoking target rest) (.revoking target rest)
      (s.leave i target .done)
  | .revoking target [], .sql true =>
    if s.cascadeFree target then some ((s.drop target).leave i target .done) else none
  | .revoking target [], .sql false => some (s.leave i target .done)
  | .uploading workspace document mode, .sql true => insertDocument s i workspace document mode
  | .uploading _ _ _, .sql false => some (s.goto i .done)
  | .linkingDocument workspace document, .called reply =>
    writeTuple s i (documentWorkspaceTuple workspace document) reply .done
      (.removingRow workspace document)
  | .linkingDocument workspace document, .lost =>
    some (loseWrite s i (documentWorkspaceTuple workspace document)
      (.removingRow workspace document))
  | .removingRow workspace document, .sql true =>
    if s.documentLocks document = none then
      some ((s.drop (.document workspace document)).goto i .done)
    else none
  | .removingRow _ _, .sql false => some (s.goto i .done)
  | .creatingTenant tenant, .sql true => insertTenant s i tenant
  | .creatingTenant _, .sql false => some (s.goto i .done)
  | .addingOwner tenant user, .sql true => some (insertOwner s i tenant user)
  | .addingOwner _ _, .sql false => some (s.goto i .done)
  | .creatingWorkspace tenant workspace user, .sql true =>
    insertWorkspace s i tenant workspace user
  | .creatingWorkspace _ _ _, .sql false => some (s.goto i .done)
  | .granting (t :: rest), .called reply =>
    writeTuple s i t reply (.granting rest) (.recovering t rest)
  | .granting (t :: rest), .lost => some (loseWrite s i t (.recovering t rest))
  | .granting [], .sql _ => some (s.goto i .done)
  | .recovering t rest, .sql ok =>
    let s := if ok then { s with outbox := s.outbox ++ [enqueueTupleWrite t] } else s
    some (s.goto i (.granting rest))
  | .loadingTenants delete, .sql true =>
    some (s.goto i (.loadingWorkspaces delete ⟨s.tenants, ∅, ∅⟩))
  | .loadingTenants _, .sql false => some (s.goto i .done)
  | .loadingWorkspaces delete inventory, .sql true =>
    some (s.goto i (.loadingDocuments delete { inventory with workspaceIds := s.workspaces }))
  | .loadingWorkspaces _ _, .sql false => some (s.goto i .done)
  | .loadingDocuments delete inventory, .sql true =>
    some (s.goto i (.listingTuples delete { inventory with documentIds := s.documents } []))
  | .loadingDocuments _ _, .sql false => some (s.goto i .done)
  | .listingTuples delete inventory tuples, .page listed last =>
    if ∀ t ∈ listed, t ∈ s.tuples then
      some (s.goto i (if last then .reporting delete inventory (tuples ++ listed)
        else .listingTuples delete inventory (tuples ++ listed)))
    else none
  | .listingTuples _ _ _, .called (.failed _) => some (s.goto i .done)
  | .reporting delete inventory tuples, .rows todo =>
    if todo.Perm (buildReport inventory tuples) then some (s.goto i (afterReport delete todo))
    else none
  | .removing (t :: rest) removed, .called reply =>
    deleteTupleFgaFirst s i t reply (.removing rest (t :: removed)) (.removing rest removed)
      (s.goto i (.cleaned removed))
  | .removing [] removed, .sql _ => some (s.goto i (.cleaned removed))
  | _, _ => none

/-- What a deletion that holds a lock is about to take away. -/
def Proc.target? : Proc → Option Target
  | listingShares workspace document => some (.document workspace document)
  | listingMembers workspace _ => some (.workspace workspace)
  | listingDocuments workspace _ => some (.workspace workspace)
  | listingWorkspaceShares workspace _ => some (.workspace workspace)
  | revoking target _ => some target
  | _ => none

def Proc.aborted : Proc → Proc
  | removing _ removed => .cleaned removed
  | _ => .done

def Proc.finished : Proc → Bool
  | cleaned _ => true
  | done => true
  | _ => false

def abortStep (s : State) (i : Nat) (p : Proc) : State :=
  match p.target? with
  | some target => s.leave i target .done
  | none => s.goto i p.aborted

inductive Act
  | acl (a : DocumentAcl.Act)
  | team (a : Members.Act)
  | deleteDocument (workspace document : Nat)
  | deleteWorkspace (workspace : Nat)
  | upload (workspace document : Nat) (mode : DocumentAccessMode)
  | createTenant (tenant : Nat)
  | addTenantOwner (tenant user : Nat)
  | createWorkspace (tenant workspace user : Nat)
  | cleanup (delete yes : Bool)
  | advance (i : Nat) (answer : Answer)
  | abort (i : Nat)

def step (maxRetries : Int) (s : State) : Act → Option State
  | .acl a => (DocumentAcl.step maxRetries s.acl a).map s.withAcl
  | .team a => (Members.step (s.env maxRetries) s.team a).map s.withTeam
  | .deleteDocument workspace document => some (s.start (.lockingDocument workspace document))
  | .deleteWorkspace workspace => some (s.start (.lockingWorkspace workspace))
  | .upload workspace document mode => some (s.start (.uploading workspace document mode))
  | .createTenant tenant => some (s.start (.creatingTenant tenant))
  | .addTenantOwner tenant user => some (s.start (.addingOwner tenant user))
  | .createWorkspace tenant workspace user =>
    some (s.start (.creatingWorkspace tenant workspace user))
  | .cleanup delete yes => if delete && !yes then none else some (s.start (.loadingTenants delete))
  | .advance i answer =>
    match s.procs[i]? with
    | some p => advance s i p answer
    | none => none
  | .abort i =>
    match s.procs[i]? with
    | some p => if p.finished then none else some (abortStep s i p)
    | none => none

/-- Before any request: no row is locked and none has been deleted. -/
structure Initial (s : State) : Prop where
  procs : s.procs = []
  documentProcs : s.documentProcs = []
  memberProcs : s.memberProcs = []
  documentLocks : ∀ d, s.documentLocks d = none
  workspaceLocks : ∀ w, s.workspaceLocks w = none
  removed : s.removed = ∅

end GmragApi.ResourceTuples

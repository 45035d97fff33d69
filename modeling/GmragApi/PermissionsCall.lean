import GmragApi.DocumentAcl
import Mathlib.Data.Finset.Sort
import Mathlib.Order.Lattice.Nat

/-! One call of `replace_document_permissions` that runs alone, with every statement and every
OpenFGA call in it that can fail, and with its audit record. -/

namespace GmragApi.PermissionsCall

open DocumentAcl

/-- The SQL statements of a call, by the user they are about. -/
inductive Statement
  | lockDocument
  | readShares
  | readMembers
  | updateMode
  | commit
  | deleteRow (user : Nat)
  | insertRow (user : Nat)
  | enqueue (user : Nat)

inductive FgaCall
  | checkViewer (user : Nat)
  | checkMember (user : Nat)
  | deleteTuple (user : Nat)
  | writeTuple (user : Nat)

/-- What becomes of a statement: one that fails may have taken effect all the same. -/
inductive SqlFate
  | done
  | failed (applied : Bool)
  deriving DecidableEq

inductive FgaFate
  | done
  | failed (applied : Bool) (e : AuthzError)
  deriving DecidableEq

structure Faults where
  sql : Statement → SqlFate
  fga : FgaCall → FgaFate

def Faults.none : Faults := ⟨fun _ => .done, fun _ => .done⟩

structure DocumentPermissionsAudit where
  previousMode : DocumentAccessMode
  requestedMode : DocumentAccessMode
  appliedMode : DocumentAccessMode
  grantedRequested : Nat
  grantedApplied : Nat
  revokedRequested : Nat
  revokedApplied : Nat
  completed : Bool
  failedStage : Option (List Char)

structure AuditEvent where
  actor : Nat
  workspace : Nat
  document : Nat
  metadata : DocumentPermissionsAudit

/-- `members` holds the rows of `workspace_members`, and `audits` the audit events that the call
tries to write. -/
structure World where
  documents : Nat → Option Document
  shares : Finset (Nat × Nat)
  members : Finset (Nat × Nat)
  tuples : Fga.Store
  outbox : List AuthzRow
  audits : List AuditEvent

inductive UpdateError
  | database
  | authz (e : AuthzError)
  | userNotWorkspaceMember (user : Nat)

/-- `member: [user] or admin`. -/
def checkWorkspaceMember (store : Fga.Store) (user workspace : Nat) : Bool :=
  decide (⟨.user user, .member, .workspace workspace⟩ ∈ store) ||
    Fga.checkWorkspaceAdmin store user workspace

/-- The rows of the document, in the order of the users. -/
def World.currentUserIds (w : World) (document : Nat) : List Nat :=
  ((w.shares.filter fun share => share.1 = document).image Prod.snd).sort (· ≤ ·)

def World.documentIn (w : World) (workspace document : Nat) : Option Document :=
  (w.documents document).filter fun d => d.workspace = workspace

def World.setMode (w : World) (document : Nat) (mode : DocumentAccessMode) : World :=
  { w with
    documents := Function.update w.documents document
      ((w.documents document).map fun d => { d with accessMode := mode }) }

/-- What OpenFGA replies to the deletion of a tuple that is not there. -/
def missingTuple : AuthzError := .openFga 400 "cannot delete a tuple which does not exist".toList

def existingTuple : AuthzError := .openFga 400 "cannot write a tuple which already exists".toList

structure Plan where
  previousMode : DocumentAccessMode
  toRevoke : List Nat
  toGrant : List GrantPlan

/-- One round of the revoke loop or of the grant loop. -/
inductive Round
  | revoke (user : Nat)
  | grant (g : GrantPlan)

def Round.user : Round → Nat
  | revoke user => user
  | grant g => g.user

def Plan.rounds (plan : Plan) : List Round :=
  plan.toRevoke.map Round.revoke ++ plan.toGrant.map Round.grant

structure Progress where
  world : World
  audit : DocumentPermissionsAudit
  mutated : Bool

section Call

variable (f : Faults) (r : PermissionsRequest)

def sqlRead (s : Statement) : Except UpdateError Unit :=
  match f.sql s with
  | .done => .ok ()
  | .failed _ => .error .database

def fgaCheck (c : FgaCall) (allowed : Bool) : Except UpdateError Bool :=
  match f.fga c with
  | .done => .ok allowed
  | .failed _ e => .error (.authz e)

/-- The grants of the plan; only a user who has a row is checked for a tuple. -/
def planGrants (w : World) (current : List Nat) : List Nat → Except UpdateError (List GrantPlan)
  | [] => .ok []
  | user :: rest =>
    if user ∈ current then do
      let hasExplicitViewer ← fgaCheck f (.checkViewer user)
        (decide (explicitViewerTuple r.document user ∈ w.tuples))
      let grants ← planGrants w current rest
      return if hasExplicitViewer then grants else ⟨user, false⟩ :: grants
    else do
      let grants ← planGrants w current rest
      return ⟨user, true⟩ :: grants

def validateGrants (w : World) : List GrantPlan → Except UpdateError Unit
  | [] => .ok ()
  | grant :: rest =>
    if (r.workspace, grant.user) ∈ w.members then do
      let allowed ← fgaCheck f (.checkMember grant.user)
        (checkWorkspaceMember w.tuples grant.user r.workspace)
      if allowed then validateGrants w rest
      else .error (.userNotWorkspaceMember grant.user)
    else .error (.userNotWorkspaceMember grant.user)

def validateGrantTargets (w : World) (grants : List GrantPlan) : Except UpdateError Unit :=
  if grants.isEmpty then .ok ()
  else do
    sqlRead f .readMembers
    validateGrants f r w grants

/-- What the call does before it changes anything; `none` when the document is not in the
workspace. -/
def prepare (w : World) : Except UpdateError (Option Plan) := do
  sqlRead f .lockDocument
  match w.documentIn r.workspace r.document with
  | none => return none
  | some d =>
    sqlRead f .readShares
    let current := w.currentUserIds r.document
    let grants ← planGrants f r w current r.planned
    validateGrantTargets f r w grants
    return some ⟨d.accessMode, r.toRevoke current, grants⟩

/-- The update of the mode, when it changes, and the commit. -/
def commitMode (w : World) (previousMode : DocumentAccessMode) : World × Except UpdateError Unit :=
  let changed := if previousMode = r.requestedMode then w else w.setMode r.document r.requestedMode
  if previousMode ≠ r.requestedMode ∧ f.sql .updateMode ≠ .done then (w, .error .database)
  else
    match f.sql .commit with
    | .done => (changed, .ok ())
    | .failed applied => (if applied then changed else w, .error .database)

def deleteTuple (w : World) (user : Nat) : World × Except AuthzError Unit :=
  let t := explicitViewerTuple r.document user
  let deleted := { w with tuples := w.tuples.erase t }
  match f.fga (.deleteTuple user) with
  | .done => if t ∈ w.tuples then (deleted, .ok ()) else (w, .error missingTuple)
  | .failed applied e => (if applied then deleted else w, .error e)

/-- `delete_tuples_fga_first` on one tuple. -/
def deleteTupleFgaFirst (w : World) (user : Nat) : World × Except AuthzError Unit :=
  match deleteTuple f r w user with
  | (w, .ok ()) => (w, .ok ())
  | (w, .error e) => (w, if isMissingTupleDeleteError e then .ok () else .error e)

def writeTuple (w : World) (user : Nat) : World × Except AuthzError Unit :=
  let t := explicitViewerTuple r.document user
  let written := { w with tuples := insert t w.tuples }
  match f.fga (.writeTuple user) with
  | .done => if t ∈ w.tuples then (w, .error existingTuple) else (written, .ok ())
  | .failed applied e => (if applied then written else w, .error e)

/-- A statement outside the transaction: the world after it, and whether it succeeded. -/
def execute (s : Statement) (w changed : World) : World × Bool :=
  match f.sql s with
  | .done => (changed, true)
  | .failed applied => (if applied then changed else w, false)

def Progress.failAt (p : Progress) (w : World) (stage : List Char) : Progress :=
  { p with world := w, audit := { p.audit with failedStage := some stage } }

def revokeRound (user : Nat) (p : Progress) : Progress × Option UpdateError :=
  match deleteTupleFgaFirst f r p.world user with
  | (w, .error e) => (p.failAt w "revoke".toList, some (.authz e))
  | (w, .ok ()) =>
    let p := { p with mutated := true }
    match execute f (.deleteRow user) w
        { w with shares := w.shares.erase (r.document, user) } with
    | (w, false) => (p.failAt w "revoke".toList, some .database)
    | (w, true) =>
      ({ p with world := w, audit := { p.audit with revokedApplied := p.audit.revokedApplied + 1 } },
        none)

def grantTuple (user : Nat) (p : Progress) : Progress × Option UpdateError :=
  match writeTuple f r p.world user with
  | (w, .error e) =>
    let (w, _) := execute f (.enqueue user) w
      { w with outbox := w.outbox ++ [enqueueTupleWrite (explicitViewerTuple r.document user)] }
    (p.failAt w "grant".toList, some (.authz e))
  | (w, .ok ()) =>
    ({ p with
        world := w
        audit := { p.audit with grantedApplied := p.audit.grantedApplied + 1 }
        mutated := true }, none)

def grantRound (g : GrantPlan) (p : Progress) : Progress × Option UpdateError :=
  if g.insertSqlRow then
    let row := (r.document, g.user)
    match execute f (.insertRow g.user) p.world
        { p.world with shares := insert row p.world.shares } with
    | (w, false) => (p.failAt w "grant".toList, some .database)
    | (w, true) =>
      grantTuple f r g.user { p with world := w, mutated := p.mutated || row ∉ p.world.shares }
  else grantTuple f r g.user p

def runRound : Round → Progress → Progress × Option UpdateError
  | .revoke user => revokeRound f r user
  | .grant g => grantRound f r g

/-- The two loops, up to the first failure. -/
def runRounds : List Round → Progress → Progress × Option UpdateError
  | [], p => (p, none)
  | round :: rounds, p =>
    match runRound f r round p with
    | (p, none) => runRounds rounds p
    | (p, some e) => (p, some e)

def writePermissionsAuditIfMutated (actor : Nat) (p : Progress) : World :=
  if p.mutated then
    { p.world with audits := p.world.audits ++ [⟨actor, r.workspace, r.document, p.audit⟩] }
  else p.world

def Plan.audit (plan : Plan) : DocumentPermissionsAudit where
  previousMode := plan.previousMode
  requestedMode := r.requestedMode
  appliedMode := plan.previousMode
  grantedRequested := plan.toGrant.length
  grantedApplied := 0
  revokedRequested := plan.toRevoke.length
  revokedApplied := 0
  completed := false
  failedStage := none

/-- Where the loops begin, after the commit. -/
def Plan.begin (plan : Plan) (w : World) : Progress where
  world := w
  audit :=
    if plan.previousMode = r.requestedMode then plan.audit r
    else { plan.audit r with appliedMode := r.requestedMode }
  mutated := plan.previousMode ≠ r.requestedMode

def applyPlan (w : World) (actor : Nat) (plan : Plan) : World × Except UpdateError (Option Unit) :=
  match commitMode f r w plan.previousMode with
  | (w, .error e) => (w, .error e)
  | (w, .ok ()) =>
    match runRounds f r plan.rounds (plan.begin r w) with
    | (p, some e) => (writePermissionsAuditIfMutated r actor p, .error e)
    | (p, none) =>
      (writePermissionsAuditIfMutated r actor { p with audit := { p.audit with completed := true } },
        .ok (some ()))

def replaceDocumentPermissions (w : World) (actor : Nat) :
    World × Except UpdateError (Option Unit) :=
  match prepare f r w with
  | .error e => (w, .error e)
  | .ok none => (w, .ok none)
  | .ok (some plan) =>
    if plan.previousMode = r.requestedMode ∧ plan.toRevoke = [] ∧ plan.toGrant = [] then
      (w, .ok (some ()))
    else applyPlan f r w actor plan

end Call

end GmragApi.PermissionsCall

import GmragApi.InviteCleanup
import GmragApi.Keycloak
import GmragApi.Members
import GmragApi.Upsert

/-! Who the rows of `users` and the grants stand for: profile synchronization, the requests that add
somebody by an email address, and an identity provider that changes its accounts meanwhile. -/

namespace GmragApi.VerifiedUsers

open InviteCleanup (UserRow TupleText fgaUser tenantObject workspaceObject)
open Keycloak (KeycloakUser normalizeEmail verifiedUserByEmail verifiedUserById)
open Lowercase (CaseTables)
open Members (Role)
open Transition

/-- What a validated token says of its bearer; a missing `email_verified` counts as false. -/
structure Claims where
  sub : List Char
  email : Option (List Char)
  emailVerified : Bool
  deriving DecidableEq

def claimsOf (account : KeycloakUser) : Claims :=
  ⟨account.id, account.email, account.emailVerified.getD false⟩

/-- Whom a recovery is for. -/
inductive Target
  | userId (id : List Char)
  | email (email : List Char)
  deriving DecidableEq

inductive Request
  | syncCurrentUser (claims : Claims)
  | addTenantOwner (tenantId : Uuid) (email : List Char)
  | addWorkspaceMember (workspaceId : Uuid) (role : Role) (email : List Char)
  | recoverWorkspaceAdmin (workspaceId : Uuid) (target : Target)
  deriving DecidableEq

/-- What a request gives its user. -/
inductive Scope
  | tenant (id : Uuid)
  | workspace (id : Uuid) (role : Role)
  deriving DecidableEq

def Request.scope : Request → Option Scope
  | syncCurrentUser _ => none
  | addTenantOwner tenantId _ => some (.tenant tenantId)
  | addWorkspaceMember workspaceId role _ => some (.workspace workspaceId role)
  | recoverWorkspaceAdmin workspaceId _ => some (.workspace workspaceId .admin)

def roleText : Role → List Char
  | .member => "member".toList
  | .admin => "admin".toList

def Scope.tuple (scope : Scope) (userId : List Char) : TupleText :=
  match scope with
  | tenant id => ⟨fgaUser userId, "owner".toList, tenantObject id⟩
  | workspace id role => ⟨fgaUser userId, roleText role, workspaceObject id⟩

/-- The answer of the admin API. -/
inductive Lookup
  | failed
  | byEmail (accounts : List KeycloakUser)
  | byId (account : Option KeycloakUser)

section Resolve

variable (tables : CaseTables)

/-- The end of `resolve_target`. -/
def resolvedTarget (account : Option KeycloakUser) : Option UserRow :=
  account.bind fun user =>
    ((user.email.map (normalizeEmail tables)).filter fun e => !e.isEmpty).map (UserRow.mk user.id)

/-- The account that the request goes on with, or the status of its answer. The recovery is a
command; 1 is its exit code. -/
def Request.resolve : Request → Lookup → Except Nat UserRow
  | syncCurrentUser claims, _ =>
    match (claims.email.map trim).filter fun email => !email.isEmpty with
    | none => .error 400
    | some email =>
      if claims.emailVerified then .ok ⟨claims.sub, normalizeEmail tables email⟩ else .error 400
  | addTenantOwner _ email, .byEmail accounts =>
    match verifiedUserByEmail tables accounts (normalizeEmail tables email) with
    | none => .error 400
    | some user =>
      match user.email.map (normalizeEmail tables) with
      | none => .error 400
      -- `upsert_user` normalizes what it is given
      | some keycloakEmail => .ok ⟨user.id, normalizeEmail tables keycloakEmail⟩
  | addWorkspaceMember _ _ email, .byEmail accounts =>
    match verifiedUserByEmail tables accounts (normalizeEmail tables email) with
    | none => .error 404
    | some user =>
      .ok ⟨user.id, (user.email.map (normalizeEmail tables)).getD (normalizeEmail tables email)⟩
  | recoverWorkspaceAdmin _ (.email email), .byEmail accounts =>
    match resolvedTarget tables
        (verifiedUserByEmail tables accounts (normalizeEmail tables email)) with
    | none => .error 1
    | some user => .ok user
  | recoverWorkspaceAdmin _ (.userId _), .byId account =>
    match resolvedTarget tables (verifiedUserById account) with
    | none => .error 1
    | some user => .ok user
  | _, _ => .error 500

/-- The address is refused before the provider is asked. -/
def Request.validEmail : Request → Bool
  | addTenantOwner _ email => (normalizeEmail tables email).contains '@'
  | addWorkspaceMember _ _ email => (normalizeEmail tables email).contains '@'
  | _ => true

end Resolve

/-- Where a request stands; every stage is one call or statement, or one transaction. -/
inductive Stage
  | authorize
  | lookup
  | upsert (user : UserRow)
  | insertOwner (user : UserRow)
  | write (user : UserRow)
  | enqueue (user : UserRow)
  | audit (user : UserRow) (synced : Bool)
  | answered (status : Nat)
  | dropped
  deriving DecidableEq

structure Proc where
  request : Request
  stage : Stage
  deriving DecidableEq

structure AuditRow where
  scope : Scope
  userId : List Char
  deriving DecidableEq

/-- `realm` records every account as it has been at the provider. -/
structure State where
  accounts : List KeycloakUser
  realm : List KeycloakUser
  tokens : List Claims
  users : List UserRow
  tenantOwners : List (Uuid × List Char)
  workspaceMembers : List (Uuid × List Char × Role)
  tuples : List TupleText
  outbox : List TupleText
  auditEvents : List AuditRow
  procs : List Proc

/-- What a call or a statement of a request answers. A write that is reported as failed may have
taken effect, or be refused because the tuple is there. -/
inductive Reply
  | allowed
  | refused (status : Nat)
  | looked (answer : Lookup)
  | sql (ok : Bool)
  | written
  | writeFailed (applied duplicate : Bool)

def setEmail (old new : UserRow) : UserRow := { old with email := new.email }

@[simp] theorem setEmail_id (old new : UserRow) : (setEmail old new).id = old.id := rfl
@[simp] theorem setEmail_email (old new : UserRow) : (setEmail old new).email = new.email := rfl

/-- `INSERT … ON CONFLICT (id) DO UPDATE SET email`: `email` is unique as well. -/
def upsertUser (users : List UserRow) (user : UserRow) : Option (List UserRow) :=
  if users.any fun old => old.email == user.email && old.id != user.id then none
  else Upsert.statement UserRow.id setEmail users [user]

def Request.failureStatus : Request → Nat
  | recoverWorkspaceAdmin _ _ => 1
  | _ => 500

/-- Only the profile synchronization tells an address that is taken from other failures. -/
def Request.conflictStatus : Request → Nat
  | syncCurrentUser _ => 409
  | r => r.failureStatus

section Advance

variable (tables : CaseTables) (s : State) (i : Nat) (r : Request)

def State.goto (stage : Stage) : State := { s with procs := s.procs.set i ⟨r, stage⟩ }

/-- The provider answers with accounts that it has; a profile is synchronized without it. -/
def Lookup.from (r : Request) : Lookup → Bool
  | .failed => true
  | .byEmail found => r.scope.isSome && found.all fun account => s.accounts.contains account
  | .byId account =>
    match r with
    | .recoverWorkspaceAdmin _ (.userId id) => account == s.accounts.find? fun a => a.id == trim id
    | _ => false

def lookupStep (answer : Lookup) : Option State :=
  if answer.from s r then
    match answer with
    | .failed => some (s.goto i r (.answered r.failureStatus))
    | _ =>
      match r.resolve tables answer with
      | .ok user => some (s.goto i r (.upsert user))
      | .error status => some (s.goto i r (.answered status))
  else none

/-- The statement alone, or with the membership in its transaction. -/
def upsertStep (user : UserRow) : State :=
  match upsertUser s.users user with
  | none => s.goto i r (.answered r.conflictStatus)
  | some users =>
    match r with
    | .syncCurrentUser _ => { s with users }.goto i r (.answered 200)
    | .addTenantOwner _ _ => { s with users }.goto i r (.insertOwner user)
    | .addWorkspaceMember workspaceId role _ =>
      if s.workspaceMembers.any fun m => m.1 == workspaceId && m.2.1 == user.id then
        s.goto i r (.answered 409)
      else
        let workspaceMembers := s.workspaceMembers ++ [(workspaceId, user.id, role)]
        { s with users, workspaceMembers }.goto i r (.write user)
    | .recoverWorkspaceAdmin workspaceId _ =>
      let others := s.workspaceMembers.filter fun m => !(m.1 == workspaceId && m.2.1 == user.id)
      let workspaceMembers := others ++ [(workspaceId, user.id, .admin)]
      { s with users, workspaceMembers }.goto i r (.write user)

/-- The row needs its user. -/
def insertOwnerStep (user : UserRow) : Option State :=
  match r with
  | .addTenantOwner tenantId _ =>
    if s.users.any fun u => u.id == user.id then
      let tenantOwners :=
        if s.tenantOwners.contains (tenantId, user.id) then s.tenantOwners
        else s.tenantOwners ++ [(tenantId, user.id)]
      some ({ s with tenantOwners }.goto i r (.write user))
    else some (s.goto i r (.answered 500))
  | _ => none

def Request.isRecovery : Request → Bool
  | recoverWorkspaceAdmin _ _ => true
  | _ => false

def afterEnqueue (user : UserRow) : Stage :=
  match r with
  | .addTenantOwner _ _ => .answered 500
  | _ => .audit user false

/-- Only the recovery fails with its audit event, or for a tuple that is left to the outbox. -/
def finalStatus (synced audited : Bool) : Nat :=
  match r with
  | .syncCurrentUser _ => 200
  | .addTenantOwner _ _ => 204
  | .addWorkspaceMember _ _ _ => 201
  | .recoverWorkspaceAdmin _ _ => if synced && audited then 0 else 1

def writeStep (scope : Scope) (user : UserRow) (applied : Bool) (stage : Stage) : State :=
  { s with tuples := s.tuples ++ if applied then [scope.tuple user.id] else [] }.goto i r stage

def enqueueStep (scope : Scope) (user : UserRow) (ok : Bool) : State :=
  { s with outbox := s.outbox ++ if ok then [scope.tuple user.id] else [] }.goto i r
    (afterEnqueue r user)

def auditStep (scope : Scope) (user : UserRow) (synced ok : Bool) : State :=
  { s with auditEvents := s.auditEvents ++ if ok then [AuditRow.mk scope user.id] else [] }.goto i r
    (.answered (finalStatus r synced ok))

end Advance

/-- The next step of request `i`. -/
def advance (tables : CaseTables) (s : State) (i : Nat) (r : Request) :
    Stage → Reply → Option State
  | .authorize, .allowed =>
    if r.validEmail tables then some (s.goto i r .lookup) else some (s.goto i r (.answered 400))
  | .authorize, .refused status => some (s.goto i r (.answered status))
  | .lookup, .looked answer => lookupStep tables s i r answer
  | .upsert user, .sql true => some (upsertStep s i r user)
  | .upsert _, .sql false => some (s.goto i r (.answered r.failureStatus))
  | .upsert _, .refused status =>
    -- the recovery finds no workspace or a management path, or is a dry run
    if r.isRecovery then some (s.goto i r (.answered status)) else none
  | .insertOwner user, .sql true => insertOwnerStep s i r user
  | .insertOwner _, .sql false => some (s.goto i r (.answered 500))
  | .write user, .allowed =>
    -- the recovery finds that OpenFGA gives the role already
    if r.isRecovery then some (s.goto i r (.audit user true)) else none
  | .write user, .written =>
    r.scope.map fun scope => writeStep s i r scope user true (.audit user true)
  | .write user, .writeFailed applied duplicate =>
    r.scope.map fun scope =>
      writeStep s i r scope user applied
        (if r.isRecovery && duplicate then .audit user true else .enqueue user)
  | .enqueue user, .sql ok => r.scope.map fun scope => enqueueStep s i r scope user ok
  | .audit user synced, .sql ok => r.scope.map fun scope => auditStep s i r scope user synced ok
  | _, _ => none

inductive Act
  | setAccount (account : KeycloakUser)
  | removeAccount (id : List Char)
  | issueToken (account : KeycloakUser)
  | start (request : Request)
  | advance (i : Nat) (reply : Reply)
  | abort (i : Nat)
  | replay (tuple : TupleText)
  | removeUser (id : List Char)

/-- A row of `users` goes with the rows that name it. -/
def State.removeUser (s : State) (id : List Char) : State :=
  { s with
    users := s.users.filter fun u => u.id != id
    tenantOwners := s.tenantOwners.filter fun o => o.2 != id
    workspaceMembers := s.workspaceMembers.filter fun m => m.2.1 != id }

/-- A token comes with its request. -/
def Request.admissible (s : State) : Request → Bool
  | syncCurrentUser claims => s.tokens.contains claims
  | _ => true

/-- The profile comes from the token; the address of an owner is looked at before the caller's
rights, that of a member after. -/
def Request.firstStage (tables : CaseTables) (r : Request) : Stage :=
  match r with
  | syncCurrentUser _ =>
    match r.resolve tables .failed with
    | .ok user => .upsert user
    | .error status => .answered status
  | addTenantOwner _ _ => if r.validEmail tables then .authorize else .answered 400
  | addWorkspaceMember _ _ _ => .authorize
  | recoverWorkspaceAdmin _ _ => .lookup

def step (tables : CaseTables) (s : State) : Act → Option State
  | .setAccount account =>
    some { s with
      accounts := account :: s.accounts.filter fun a => a.id != account.id
      realm := account :: s.realm }
  | .removeAccount id => some { s with accounts := s.accounts.filter fun a => a.id != id }
  | .issueToken account =>
    if s.accounts.contains account then
      some { s with tokens := claimsOf account :: s.tokens }
    else none
  | .start request =>
    if request.admissible s then
      some { s with procs := s.procs ++ [⟨request, request.firstStage tables⟩] }
    else none
  | .advance i reply =>
    match s.procs[i]? with
    | some p => advance tables s i p.request p.stage reply
    | none => none
  | .abort i => (s.procs[i]?).map fun p => s.goto i p.request .dropped
  | .replay tuple =>
    if s.outbox.contains tuple then some { s with tuples := s.tuples ++ [tuple] } else none
  | .removeUser id => some (s.removeUser id)

def Started (s : State) : Prop :=
  s.accounts = [] ∧ s.realm = [] ∧ s.tokens = [] ∧ s.users = [] ∧ s.tenantOwners = [] ∧
    s.workspaceMembers = [] ∧ s.tuples = [] ∧ s.outbox = [] ∧ s.auditEvents = [] ∧ s.procs = []

end GmragApi.VerifiedUsers

import GmragApi.Keycloak
import GmragApi.LastAdmin

/-! The operator's recovery of a workspace that nobody can manage, one statement or one OpenFGA call
at a time, beside the requests of its members. A statement, a call or a commit that is reported as
failed has had no effect here. -/

namespace GmragApi.AdminRecovery

open Lowercase (CaseTables)
open Members (Env Role memberTuple)
open Transition

inductive RecoveryMode
  | dryRun
  | apply
  deriving DecidableEq

/-- A verified account as the Keycloak lookup returns it. -/
structure VerifiedUser where
  id : Nat
  email : Option (List Char)

structure ResolvedTarget where
  id : Nat
  email : List Char
  deriving DecidableEq

inductive RecoveryOutcome
  | wouldRecover (targetUserId : Nat)
  | recovered (targetUserId : Nat)
  | alreadyHealthy
  | workspaceNotFound
  deriving DecidableEq

inductive RecoveryError
  | identityUnavailable
  | identityNotVerified
  | database
  | authorization (e : AuthzError)
  | partialFailure
  deriving DecidableEq

def isDuplicateTupleError : AuthzError → Bool
  | .openFga _ body =>
    let body := toAsciiLowercase body
    containsText body "already exists".toList || containsText body "already existed".toList
  | .http => false

/-- The lookup failed, found no verified account, or found one. -/
def resolveTarget (tables : CaseTables) :
    Option (Option VerifiedUser) → Except RecoveryError ResolvedTarget
  | none => .error .identityUnavailable
  | some none => .error .identityNotVerified
  | some (some user) =>
    match (user.email.map (Keycloak.normalizeEmail tables)).filter fun email => email ≠ [] with
    | some email => .ok ⟨user.id, email⟩
    | none => .error .identityNotVerified

/-- The next statement or call of a recovery. -/
inductive Stage
  | resolve
  | lockWorkspace (user : ResolvedTarget)
  | listAdmins (user : ResolvedTarget) (tenant : Nat)
  | checkAdmins (user : ResolvedTarget) (tenant : Nat) (todo : List Nat)
  | listOwners (user : ResolvedTarget) (tenant : Nat)
  | checkOwners (user : ResolvedTarget) (tenant : Nat) (todo : List Nat)
  | upsertUser (user : ResolvedTarget) (tenant : Nat)
  | upsertMember (user : ResolvedTarget) (tenant : Nat)
  | commit (user : ResolvedTarget) (tenant : Nat)
  | checkTuple (user : ResolvedTarget) (tenant : Nat)
  | writeTuple (user : ResolvedTarget) (tenant : Nat)
  | enqueueTuple (user : ResolvedTarget) (tenant : Nat)
  | audit (user : ResolvedTarget) (tenant : Nat) (fgaSynchronized : Bool)
  | answered (result : Except RecoveryError RecoveryOutcome)
  | dropped

/-- Inside the transaction, with the row of the workspace locked. -/
def Stage.locked : Stage → Bool
  | listAdmins .. => true
  | checkAdmins .. => true
  | listOwners .. => true
  | checkOwners .. => true
  | upsertUser .. => true
  | upsertMember .. => true
  | commit .. => true
  | _ => false

/-- `place` is an entry of the process pool that is done: it names the recovery's transaction where
the locks name their holders. -/
structure Recovery where
  workspace : Nat
  mode : RecoveryMode
  place : Nat
  stage : Stage

structure AdminRecovered where
  workspace : Nat
  tenant : Nat
  targetUserId : Nat
  fgaSynchronized : Bool
  deriving DecidableEq

structure State where
  team : Members.State
  users : Nat → Option (List Char)
  auditEvents : List AdminRecovered
  recoveries : List Recovery

/-- The answers to the Keycloak lookup, and to a statement or an OpenFGA call. -/
inductive Answer
  | resolved (reply : Option (Option VerifiedUser))
  | reply (r : Reply)

section Turn

variable (s : State) (i : Nat) (r : Recovery)

def State.goto (stage : Stage) : State :=
  { s with recoveries := s.recoveries.set i { r with stage := stage } }

/-- The transaction ends without a commit, or after it. -/
def State.leave (stage : Stage) : State :=
  { s with team := s.team.unlock r.workspace }.goto i r stage

def State.answer (result : Except RecoveryError RecoveryOutcome) : State :=
  s.leave i r (.answered result)

def workspaceAdmins (team : Members.State) (workspace : Nat) : List Nat :=
  (team.members.entries.filter fun e => e.1.1 == workspace && decide (e.2 = .admin)).map
    fun e => e.1.2

/-- A check of `workspace_has_management_path`. -/
def pathStep (actual : Bool) (reply : Except AuthzError Bool) (next : Stage) : Option State :=
  if Fga.checkReply actual reply then
    match reply with
    | .ok true => some (s.answer i r (.ok .alreadyHealthy))
    | .ok false => some (s.goto i r next)
    | .error e => some (s.answer i r (.error (.authorization e)))
  else none

def lockStep (env : Env) (user : ResolvedTarget) : Option State :=
  if s.team.locks r.workspace = none then
    match env.tenantOf r.workspace with
    | some tenant =>
      let locks := Function.update s.team.locks r.workspace (some r.place)
      some ({ s with team := { s.team with locks := locks } }.goto i r (.listAdmins user tenant))
    | none => some (s.goto i r (.answered (.ok .workspaceNotFound)))
  else none

def commitStep (user : ResolvedTarget) (tenant : Nat) : State :=
  let members := s.team.members.insert (r.workspace, user.id) .admin
  { s with
    team := { s.team with members := members }
    users := Function.update s.users user.id (some user.email) }.leave i r
      (.checkTuple user tenant)

def syncStep (user : ResolvedTarget) (tenant : Nat) (reply : Except AuthzError Bool) :
    Option State :=
  if Fga.checkReply (Fga.checkWorkspaceAdmin s.team.tuples user.id r.workspace) reply then
    match reply with
    | .ok true => some (s.goto i r (.audit user tenant true))
    | .ok false => some (s.goto i r (.writeTuple user tenant))
    | .error _ => some (s.goto i r (.enqueueTuple user tenant))
  else none

def afterWrite (user : ResolvedTarget) (tenant : Nat) : Fga.WriteReply → Stage
  | .done => .audit user tenant true
  | .failed e =>
    if isDuplicateTupleError e then .audit user tenant true else .enqueueTuple user tenant

def writeStep (user : ResolvedTarget) (tenant : Nat) (reply : Fga.WriteReply) : Option State :=
  (Fga.write s.team.tuples (memberTuple r.workspace user.id .admin) reply).map fun tuples =>
    { s with team := { s.team with tuples := tuples } }.goto i r (afterWrite user tenant reply)

/-- The recovery goes on when the event cannot be stored. -/
def enqueueStep (user : ResolvedTarget) (tenant : Nat) : Bool → State
  | true =>
    let row := enqueueTupleWrite (memberTuple r.workspace user.id .admin)
    { s with team := { s.team with outbox := s.team.outbox ++ [row] } }.goto i r
      (.audit user tenant false)
  | false => s.goto i r (.audit user tenant false)

def auditStep (user : ResolvedTarget) (tenant : Nat) (synced : Bool) : State :=
  let event : AdminRecovered := ⟨r.workspace, tenant, user.id, synced⟩
  { s with auditEvents := s.auditEvents ++ [event] }.goto i r
    (.answered (if synced then .ok (.recovered user.id) else .error .partialFailure))

end Turn

/-- The next step of recovery `i`, which is `r`. -/
def advance (env : Env) (tables : CaseTables) (s : State) (i : Nat) (r : Recovery) :
    Stage → Answer → Option State
  | .resolve, .resolved reply =>
    match resolveTarget tables reply with
    | .ok user => some (s.goto i r (.lockWorkspace user))
    | .error e => some (s.goto i r (.answered (.error e)))
  | .lockWorkspace user, .reply (.sql true) => lockStep s i r env user
  | .lockWorkspace _, .reply (.sql false) => some (s.goto i r (.answered (.error .database)))
  | .listAdmins user tenant, .reply (.listed admins) =>
    -- the rows come in any order
    if admins.Perm (workspaceAdmins s.team r.workspace) then
      some (s.goto i r (.checkAdmins user tenant admins))
    else none
  | .checkAdmins user tenant [], .reply (.sql _) => some (s.goto i r (.listOwners user tenant))
  | .checkAdmins user tenant (admin :: rest), .reply (.checked reply) =>
    pathStep s i r (Fga.checkWorkspaceAdmin s.team.tuples admin r.workspace) reply
      (.checkAdmins user tenant rest)
  | .listOwners user tenant, .reply (.listed owners) =>
    if owners.Perm (env.tenantOwners tenant) then
      some (s.goto i r (.checkOwners user tenant owners))
    else none
  | .checkOwners user tenant [], .reply (.sql _) =>
    match r.mode with
    | .dryRun => some (s.answer i r (.ok (.wouldRecover user.id)))
    | .apply => some (s.goto i r (.upsertUser user tenant))
  | .checkOwners user tenant (owner :: rest), .reply (.checked reply) =>
    pathStep s i r (Fga.isTenantOwner s.team.tuples owner tenant) reply
      (.checkOwners user tenant rest)
  | .upsertUser user tenant, .reply (.sql true) => some (s.goto i r (.upsertMember user tenant))
  | .upsertMember user tenant, .reply (.sql true) => some (s.goto i r (.commit user tenant))
  | .commit user tenant, .reply (.sql true) => some (commitStep s i r user tenant)
  | .checkTuple user tenant, .reply (.checked reply) => syncStep s i r user tenant reply
  | .writeTuple user tenant, .reply (.called reply) => writeStep s i r user tenant reply
  | .enqueueTuple user tenant, .reply (.sql ok) => some (enqueueStep s i r user tenant ok)
  | .audit user tenant synced, .reply (.sql true) => some (auditStep s i r user tenant synced)
  | .audit _ _ _, .reply (.sql false) => some (s.goto i r (.answered (.error .database)))
  | .listAdmins _ _, .reply (.sql false) => some (s.answer i r (.error .database))
  | .listOwners _ _, .reply (.sql false) => some (s.answer i r (.error .database))
  | .upsertUser _ _, .reply (.sql false) => some (s.answer i r (.error .database))
  | .upsertMember _ _, .reply (.sql false) => some (s.answer i r (.error .database))
  | .commit _ _, .reply (.sql false) => some (s.answer i r (.error .database))
  | _, _ => none

inductive Act
  | team (a : Members.Act)
  | recover (workspace : Nat) (mode : RecoveryMode)
  | advance (i : Nat) (answer : Answer)
  | abort (i : Nat)

def State.start (s : State) (workspace : Nat) (mode : RecoveryMode) : State :=
  { s with
    team := s.team.start .done
    recoveries := s.recoveries ++ [⟨workspace, mode, s.team.procs.length, .resolve⟩] }

/-- The command is killed. -/
def abortStep (s : State) (i : Nat) (r : Recovery) : State :=
  if r.stage.locked then s.leave i r .dropped else s.goto i r .dropped

def step (env : Env) (tables : CaseTables) (s : State) : Act → Option State
  | .team a => (Members.step env s.team a).map fun team => { s with team := team }
  | .recover workspace mode => some (s.start workspace mode)
  | .advance i answer =>
    match s.recoveries[i]? with
    | some r => advance env tables s i r r.stage answer
    | none => none
  | .abort i => (s.recoveries[i]?).map fun r => abortStep s i r

/-- What one step of recovery `r` does to the team, and the stage that it leads to. -/
inductive Turns (env : Env) (team : Members.State) (r : Recovery) :
    Answer → Stage → Stage → Members.State → Prop
  | resolved {answer user} : Turns env team r answer .resolve (.lockWorkspace user) team
  | missing {answer user} :
      Turns env team r answer (.lockWorkspace user) (.answered (.ok .workspaceNotFound)) team
  | lock {answer user tenant} : team.locks r.workspace = none →
      env.tenantOf r.workspace = some tenant →
      Turns env team r answer (.lockWorkspace user) (.listAdmins user tenant)
        { team with locks := Function.update team.locks r.workspace (some r.place) }
  | admins {answer user tenant admins} : admins.Perm (workspaceAdmins team r.workspace) →
      Turns env team r answer (.listAdmins user tenant) (.checkAdmins user tenant admins) team
  | adminPath {answer user tenant admin rest} :
      Fga.checkWorkspaceAdmin team.tuples admin r.workspace = true →
      Turns env team r answer (.checkAdmins user tenant (admin :: rest))
        (.answered (.ok .alreadyHealthy)) (team.unlock r.workspace)
  | nextAdmin {answer user tenant admin rest} :
      Fga.checkWorkspaceAdmin team.tuples admin r.workspace = false →
      Turns env team r answer (.checkAdmins user tenant (admin :: rest))
        (.checkAdmins user tenant rest) team
  | noAdmin {answer user tenant} :
      Turns env team r answer (.checkAdmins user tenant []) (.listOwners user tenant) team
  | owners {answer user tenant owners} : owners.Perm (env.tenantOwners tenant) →
      Turns env team r answer (.listOwners user tenant) (.checkOwners user tenant owners) team
  | ownerPath {answer user tenant owner rest} :
      Fga.isTenantOwner team.tuples owner tenant = true →
      Turns env team r answer (.checkOwners user tenant (owner :: rest))
        (.answered (.ok .alreadyHealthy)) (team.unlock r.workspace)
  | nextOwner {answer user tenant owner rest} :
      Fga.isTenantOwner team.tuples owner tenant = false →
      Turns env team r answer (.checkOwners user tenant (owner :: rest))
        (.checkOwners user tenant rest) team
  | wouldRecover {answer user tenant} : r.mode = .dryRun →
      Turns env team r answer (.checkOwners user tenant [])
        (.answered (.ok (.wouldRecover user.id))) (team.unlock r.workspace)
  | apply {answer user tenant} : r.mode = .apply →
      Turns env team r answer (.checkOwners user tenant []) (.upsertUser user tenant) team
  | userUpserted {answer user tenant} :
      Turns env team r answer (.upsertUser user tenant) (.upsertMember user tenant) team
  | memberUpserted {answer user tenant} :
      Turns env team r answer (.upsertMember user tenant) (.commit user tenant) team
  | committed {answer user tenant} :
      Turns env team r answer (.commit user tenant) (.checkTuple user tenant)
        ({ team with members := team.members.insert (r.workspace, user.id) .admin }.unlock
          r.workspace)
  | inSync {answer user tenant} :
      Fga.checkWorkspaceAdmin team.tuples user.id r.workspace = true →
      Turns env team r answer (.checkTuple user tenant) (.audit user tenant true) team
  | outOfSync {answer user tenant} :
      Turns env team r answer (.checkTuple user tenant) (.writeTuple user tenant) team
  | unchecked {answer user tenant} :
      Turns env team r answer (.checkTuple user tenant) (.enqueueTuple user tenant) team
  | written {answer user tenant} :
      Turns env team r answer (.writeTuple user tenant) (.audit user tenant true)
        { team with tuples := insert (memberTuple r.workspace user.id .admin) team.tuples }
  | duplicate {user tenant e} : isDuplicateTupleError e = true →
      Turns env team r (.reply (.called (.failed e))) (.writeTuple user tenant)
        (.audit user tenant true) team
  | refused {answer user tenant} :
      Turns env team r answer (.writeTuple user tenant) (.enqueueTuple user tenant) team
  | enqueued {answer user tenant} (outbox : List AuthzRow) :
      Turns env team r answer (.enqueueTuple user tenant) (.audit user tenant false)
        { team with outbox := outbox }
  | audited {answer user tenant synced} :
      Turns env team r answer (.audit user tenant synced)
        (.answered (if synced then .ok (.recovered user.id) else .error .partialFailure)) team
  | failed {answer stage e} : stage.locked = false → e ≠ .partialFailure →
      Turns env team r answer stage (.answered (.error e)) team
  | rolledBack {answer stage e} : stage.locked = true → e ≠ .partialFailure →
      Turns env team r answer stage (.answered (.error e)) (team.unlock r.workspace)
  | dropped {answer stage} : stage.locked = false → Turns env team r answer stage .dropped team
  | killed {answer stage} : stage.locked = true →
      Turns env team r answer stage .dropped (team.unlock r.workspace)

/-- Past the decision that nobody can manage the workspace. -/
def Stage.rescues : Stage → Bool
  | upsertUser .. => true
  | upsertMember .. => true
  | commit .. => true
  | checkTuple .. => true
  | writeTuple .. => true
  | enqueueTuple .. => true
  | audit .. => true
  | answered (.ok (.wouldRecover _)) => true
  | answered (.ok (.recovered _)) => true
  | answered (.error .partialFailure) => true
  | _ => false

/-- Recovery `i`, which is `r`, has taken a step. -/
def Turned (env : Env) (s : State) (i : Nat) (r : Recovery) (answer : Answer) (t : State) : Prop :=
  ∃ next, t.recoveries = s.recoveries.set i { r with stage := next } ∧
    Turns env s.team r answer r.stage next t.team ∧
    (r.stage.rescues = false → t.users = s.users ∧ t.auditEvents = s.auditEvents)

section Inversion

variable {env : Env} {tables : CaseTables} {s t : State} {i : Nat} {r : Recovery}
  {answer : Answer}

theorem Turned.of_goto {stage : Stage} (h : Turns env s.team r answer r.stage stage s.team) :
    Turned env s i r answer (s.goto i r stage) :=
  ⟨stage, rfl, h, fun _ => ⟨rfl, rfl⟩⟩

theorem Turned.of_leave {stage : Stage}
    (h : Turns env s.team r answer r.stage stage (s.team.unlock r.workspace)) :
    Turned env s i r answer (s.leave i r stage) :=
  ⟨stage, rfl, h, fun _ => ⟨rfl, rfl⟩⟩

theorem Turned.of_answer {e : RecoveryError} (hlock : r.stage.locked = true)
    (he : e ≠ .partialFailure) : Turned env s i r answer (s.answer i r (.error e)) :=
  .of_leave (.rolledBack hlock he)

theorem resolveTarget_error {tables : CaseTables} {reply : Option (Option VerifiedUser)}
    {e : RecoveryError} (h : resolveTarget tables reply = .error e) : e ≠ .partialFailure := by
  unfold resolveTarget at h
  split at h
  · cases h
    exact nofun
  · cases h
    exact nofun
  · split at h
    · cases h
    · cases h
      exact nofun

theorem pathStep_turned {actual : Bool} {reply : Except AuthzError Bool} {next : Stage}
    (hlock : r.stage.locked = true)
    (found : actual = true → Turns env s.team r answer r.stage (.answered (.ok .alreadyHealthy))
      (s.team.unlock r.workspace))
    (missed : actual = false → Turns env s.team r answer r.stage next s.team)
    (h : pathStep s i r actual reply next = some t) : Turned env s i r answer t := by
  obtain ⟨hr, h⟩ := Option.ite_none_right_eq_some.mp h
  split at h
  all_goals cases Option.some.inj h
  · have hactual : actual = true := by simpa [Fga.checkReply] using hr
    exact .of_leave (found hactual)
  · have hactual : actual = false := by simpa [Fga.checkReply] using hr
    exact .of_goto (missed hactual)
  · exact .of_answer hlock fun hfound => by cases hfound

theorem lockStep_turned {user : ResolvedTarget} (hstage : r.stage = .lockWorkspace user)
    (h : lockStep s i r env user = some t) : Turned env s i r answer t := by
  obtain ⟨hfree, h⟩ := Option.ite_none_right_eq_some.mp h
  split at h
  next tenant htenant =>
    cases Option.some.inj h
    refine ⟨_, rfl, ?_, fun _ => ⟨rfl, rfl⟩⟩
    rw [hstage]
    exact .lock hfree htenant
  next =>
    cases Option.some.inj h
    refine .of_goto ?_
    rw [hstage]
    exact .missing

theorem syncStep_turned {user : ResolvedTarget} {tenant : Nat} {reply : Except AuthzError Bool}
    (hstage : r.stage = .checkTuple user tenant)
    (h : syncStep s i r user tenant reply = some t) : Turned env s i r answer t := by
  obtain ⟨hr, h⟩ := Option.ite_none_right_eq_some.mp h
  split at h
  all_goals
    cases Option.some.inj h
    refine .of_goto ?_
    rw [hstage]
  · have hactual : Fga.checkWorkspaceAdmin s.team.tuples user.id r.workspace = true := by
      simpa [Fga.checkReply] using hr
    exact .inSync hactual
  · exact .outOfSync
  · exact .unchecked

theorem writeStep_turned {user : ResolvedTarget} {tenant : Nat} {reply : Fga.WriteReply}
    (hstage : r.stage = .writeTuple user tenant)
    (h : writeStep s i r user tenant reply = some t) :
    Turned env s i r (.reply (.called reply)) t := by
  obtain ⟨tuples, hw, rfl⟩ := Option.map_eq_some_iff.mp h
  refine ⟨_, rfl, ?_, fun _ => ⟨rfl, rfl⟩⟩
  rw [hstage]
  rcases Fga.write_cases hw with ⟨rfl, rfl⟩ | ⟨e, rfl, rfl⟩
  · exact .written
  · unfold afterWrite
    simp only
    split
    next hdup => exact .duplicate hdup
    next => exact .refused

theorem advance_turned (h : advance env tables s i r r.stage answer = some t) :
    Turned env s i r answer t := by
  generalize hstage : r.stage = stage at h
  unfold advance at h
  split at h
  next reply =>
    split at h
    next user huser =>
      cases Option.some.inj h
      refine .of_goto ?_
      rw [hstage]
      exact .resolved
    next e he =>
      cases Option.some.inj h
      exact .of_goto (.failed (hstage ▸ rfl) (resolveTarget_error he))
  next user => exact lockStep_turned hstage h
  next user =>
    cases Option.some.inj h
    exact .of_goto (.failed (hstage ▸ rfl) nofun)
  next user tenant admins =>
    obtain ⟨hperm, h⟩ := Option.ite_none_right_eq_some.mp h
    cases Option.some.inj h
    refine .of_goto ?_
    rw [hstage]
    exact .admins hperm
  next user tenant ok =>
    cases Option.some.inj h
    refine .of_goto ?_
    rw [hstage]
    exact .noAdmin
  next user tenant admin rest reply =>
    refine pathStep_turned (hstage ▸ rfl) ?_ ?_ h
    · intro hcheck
      rw [hstage]
      exact .adminPath hcheck
    · intro hcheck
      rw [hstage]
      exact .nextAdmin hcheck
  next user tenant owners =>
    obtain ⟨hperm, h⟩ := Option.ite_none_right_eq_some.mp h
    cases Option.some.inj h
    refine .of_goto ?_
    rw [hstage]
    exact .owners hperm
  next user tenant ok =>
    split at h
    next hmode =>
      cases Option.some.inj h
      refine .of_leave ?_
      rw [hstage]
      exact .wouldRecover hmode
    next hmode =>
      cases Option.some.inj h
      refine .of_goto ?_
      rw [hstage]
      exact .apply hmode
  next user tenant owner rest reply =>
    refine pathStep_turned (hstage ▸ rfl) ?_ ?_ h
    · intro hcheck
      rw [hstage]
      exact .ownerPath hcheck
    · intro hcheck
      rw [hstage]
      exact .nextOwner hcheck
  next user tenant =>
    cases Option.some.inj h
    refine .of_goto ?_
    rw [hstage]
    exact .userUpserted
  next user tenant =>
    cases Option.some.inj h
    refine .of_goto ?_
    rw [hstage]
    exact .memberUpserted
  next user tenant =>
    cases Option.some.inj h
    have hwrites : r.stage.rescues = true := hstage ▸ rfl
    refine ⟨_, rfl, ?_, fun h => absurd hwrites (by simp [h])⟩
    rw [hstage]
    exact .committed
  next user tenant reply => exact syncStep_turned hstage h
  next user tenant reply => exact writeStep_turned hstage h
  next user tenant ok =>
    cases Option.some.inj h
    cases ok with
    | true =>
      refine ⟨_, rfl, ?_, fun _ => ⟨rfl, rfl⟩⟩
      rw [hstage]
      exact .enqueued _
    | false =>
      refine ⟨_, rfl, ?_, fun _ => ⟨rfl, rfl⟩⟩
      rw [hstage]
      exact .enqueued s.team.outbox
  next user tenant synced =>
    cases Option.some.inj h
    have hwrites : r.stage.rescues = true := hstage ▸ rfl
    refine ⟨_, rfl, ?_, fun h => absurd hwrites (by simp [h])⟩
    rw [hstage]
    exact .audited
  next user tenant synced =>
    cases Option.some.inj h
    exact .of_goto (.failed (hstage ▸ rfl) nofun)
  -- a statement of the transaction has failed
  next => exact Option.some.inj h ▸ .of_answer (hstage ▸ rfl) nofun
  next => exact Option.some.inj h ▸ .of_answer (hstage ▸ rfl) nofun
  next => exact Option.some.inj h ▸ .of_answer (hstage ▸ rfl) nofun
  next => exact Option.some.inj h ▸ .of_answer (hstage ▸ rfl) nofun
  next => exact Option.some.inj h ▸ .of_answer (hstage ▸ rfl) nofun
  next => cases h

theorem abortStep_turned : Turned env s i r answer (abortStep s i r) := by
  unfold abortStep
  split
  next hlock => exact .of_leave (.killed hlock)
  next hfree => exact .of_goto (.dropped (by simpa using hfree))

theorem step_cases {a : Act} (h : step env tables s a = some t) :
    (∃ b team, a = .team b ∧ Members.step env s.team b = some team ∧
      t = { s with team := team }) ∨
    (∃ workspace mode, t = s.start workspace mode) ∨
    ∃ i r answer, s.recoveries[i]? = some r ∧ Turned env s i r answer t ∧
      (a = .advance i answer ∨ (a = .abort i ∧ answer = .reply (.sql false))) := by
  cases a with
  | team b =>
    obtain ⟨team, hteam, rfl⟩ := Option.map_eq_some_iff.mp h
    exact .inl ⟨b, team, rfl, hteam, rfl⟩
  | recover workspace mode =>
    cases Option.some.inj h
    exact .inr (.inl ⟨workspace, mode, rfl⟩)
  | advance i answer =>
    simp only [step] at h
    split at h
    next r hr => exact .inr (.inr ⟨i, r, answer, hr, advance_turned h, .inl rfl⟩)
    next => cases h
  | abort i =>
    obtain ⟨r, hr, rfl⟩ := Option.map_eq_some_iff.mp h
    exact .inr (.inr ⟨i, r, .reply (.sql false), hr, abortStep_turned, .inr ⟨rfl, rfl⟩⟩)

end Inversion

end GmragApi.AdminRecovery

import GmragApi.VerifiedUsers

/-! Every row of `users` and every grant stands for an account whose address the identity provider
has verified. -/

namespace GmragApi.VerifiedUsers

open InviteCleanup (UserRow TupleText fgaUser tenantObject workspaceObject)
open Keycloak (KeycloakUser normalizeEmail verifiedUserByEmail verifiedUserById)
open Lowercase (CaseTables asciiTables)
open Transition

/-- How a request spells an address that the provider gave it; `upsert_user` normalizes once
more. -/
def Spelled (tables : CaseTables) (raw email : List Char) : Prop :=
  email = normalizeEmail tables raw ∨ email = normalizeEmail tables (normalizeEmail tables raw)

/-- The provider has had the account with this address verified. -/
def Vouched (tables : CaseTables) (s : State) (id email : List Char) : Prop :=
  ∃ account ∈ s.realm, account.id = id ∧ account.emailVerified = some true ∧
    ∃ raw, account.email = some raw ∧ Spelled tables raw email

/-- The user is the one that the request names, by address or by id. -/
def Request.Names (tables : CaseTables) (user : UserRow) : Request → Prop
  | syncCurrentUser claims => user.id = claims.sub
  | addTenantOwner _ email =>
    user.email = normalizeEmail tables (normalizeEmail tables (normalizeEmail tables email))
  | addWorkspaceMember _ _ email =>
    user.email = normalizeEmail tables (normalizeEmail tables email)
  | recoverWorkspaceAdmin _ (.email email) =>
    user.email = normalizeEmail tables (normalizeEmail tables email)
  | recoverWorkspaceAdmin _ (.userId id) => user.id = trim id

def State.requests (s : State) : List Request := s.procs.map Proc.request

/-- A request for this grant has named the user, under an address that is vouched for. -/
def Granted (tables : CaseTables) (s : State) (scope : Scope) (userId : List Char) : Prop :=
  ∃ r ∈ s.requests, r.scope = some scope ∧
    ∃ email, r.Names tables ⟨userId, email⟩ ∧ Vouched tables s userId email

def Stage.user : Stage → Option UserRow
  | upsert user => some user
  | insertOwner user => some user
  | write user => some user
  | enqueue user => some user
  | audit user _ => some user
  | _ => none

structure Sound (tables : CaseTables) (s : State) : Prop where
  accounts : s.accounts ⊆ s.realm
  tokens : ∀ c ∈ s.tokens, ∃ account ∈ s.realm, claimsOf account = c
  ids : (s.users.map UserRow.id).Nodup
  emails : (s.users.map UserRow.email).Nodup
  users : ∀ u ∈ s.users, Vouched tables s u.id u.email
  tenantOwners : ∀ o ∈ s.tenantOwners, Granted tables s (.tenant o.1) o.2
  workspaceMembers : ∀ m ∈ s.workspaceMembers, Granted tables s (.workspace m.1 m.2.2) m.2.1
  tuples : ∀ t ∈ s.tuples, ∃ scope id, scope.tuple id = t ∧ Granted tables s scope id
  outbox : ∀ t ∈ s.outbox, ∃ scope id, scope.tuple id = t ∧ Granted tables s scope id
  auditEvents : ∀ e ∈ s.auditEvents, Granted tables s e.scope e.userId
  procs : ∀ (i : Nat) (p : Proc), s.procs[i]? = some p → ∀ u, p.stage.user = some u →
    p.request.Names tables u ∧ Vouched tables s u.id u.email

section Resolve

variable {tables : CaseTables} {s t : State} {r : Request} {user : UserRow}

theorem vouched_mono {id email : List Char} (hrealm : s.realm ⊆ t.realm)
    (h : Vouched tables s id email) : Vouched tables t id email := by
  obtain ⟨account, hmem, hrest⟩ := h
  exact ⟨account, hrealm hmem, hrest⟩

theorem granted_mono {scope : Scope} {id : List Char} (hrealm : s.realm ⊆ t.realm)
    (hrequests : s.requests ⊆ t.requests) (h : Granted tables s scope id) :
    Granted tables t scope id := by
  obtain ⟨r, hr, hscope, email, hnames, hvouched⟩ := h
  exact ⟨r, hrequests hr, hscope, email, hnames, vouched_mono hrealm hvouched⟩

theorem emailVerified_of_verified {account : KeycloakUser} (h : account.verified = true) :
    account.emailVerified = some true := by
  have hverified := (Bool.and_eq_true_iff.mp h).1
  cases hflag : account.emailVerified with
  | none =>
    rw [hflag] at hverified
    cases hverified
  | some flag =>
    rw [hflag] at hverified
    exact congrArg some hverified

/-- What the search by address finds has that address, verified. -/
theorem verifiedUserByEmail_found {found : List KeycloakUser} {account : KeycloakUser}
    {email : List Char} (hfound : ∀ a ∈ found, a ∈ s.realm)
    (h : verifiedUserByEmail tables found email = some account) :
    ∃ raw, account.email = some raw ∧ normalizeEmail tables raw = normalizeEmail tables email ∧
      ∀ stored, Spelled tables raw stored → Vouched tables s account.id stored := by
  have hmem := List.mem_of_find?_eq_some h
  have hchecked : (account.verified && account.hasEmail tables email) = true := by
    simpa using List.find?_some h
  obtain ⟨hverified, hhas⟩ := Bool.and_eq_true_iff.mp hchecked
  unfold KeycloakUser.hasEmail at hhas
  cases hraw : account.email with
  | none =>
    rw [hraw] at hhas
    cases hhas
  | some raw =>
    rw [hraw, Option.any_some, beq_iff_eq] at hhas
    refine ⟨raw, rfl, hhas, fun stored hstored => ?_⟩
    exact ⟨account, hfound account hmem, rfl, emailVerified_of_verified hverified, raw, hraw,
      hstored⟩

theorem byEmail_realm {found : List KeycloakUser} (hs : Sound tables s)
    (hfrom : Lookup.from s r (.byEmail found) = true) : ∀ a ∈ found, a ∈ s.realm := by
  intro a ha
  have hcontains := List.all_eq_true.mp (Bool.and_eq_true_iff.mp hfrom).2 a ha
  exact hs.accounts (List.contains_iff_mem.mp hcontains)

theorem resolvedTarget_account {found : Option KeycloakUser}
    (h : resolvedTarget tables found = some user) :
    ∃ account raw, found = some account ∧ account.email = some raw ∧
      user = ⟨account.id, normalizeEmail tables raw⟩ := by
  obtain ⟨account, hfound, h⟩ := Option.bind_eq_some_iff.mp h
  obtain ⟨email, hemail, rfl⟩ := Option.map_eq_some_iff.mp h
  obtain ⟨raw, hraw, rfl⟩ := Option.map_eq_some_iff.mp (Option.filter_eq_some_iff.mp hemail).1
  exact ⟨account, raw, hfound, hraw, rfl⟩

theorem addTenantOwner_names {tenantId : Uuid} {email : List Char} {answer : Lookup}
    (hs : Sound tables s) (hfrom : answer.from s (.addTenantOwner tenantId email) = true)
    (h : (Request.addTenantOwner tenantId email).resolve tables answer = .ok user) :
    (Request.addTenantOwner tenantId email).Names tables user ∧
      Vouched tables s user.id user.email := by
  cases answer with
  | failed => cases h
  | byId account => cases h
  | byEmail found =>
    unfold Request.resolve at h
    dsimp only at h
    split at h
    next => cases h
    next account haccount =>
      obtain ⟨raw, hraw, hsame, hvouched⟩ :=
        verifiedUserByEmail_found (byEmail_realm hs hfrom) haccount
      rw [hraw] at h
      cases h
      exact ⟨congrArg (normalizeEmail tables) hsame, hvouched _ (.inr rfl)⟩

theorem addWorkspaceMember_names {workspaceId : Uuid} {role : Members.Role} {email : List Char}
    {answer : Lookup} (hs : Sound tables s)
    (hfrom : answer.from s (.addWorkspaceMember workspaceId role email) = true)
    (h : (Request.addWorkspaceMember workspaceId role email).resolve tables answer = .ok user) :
    (Request.addWorkspaceMember workspaceId role email).Names tables user ∧
      Vouched tables s user.id user.email := by
  cases answer with
  | failed => cases h
  | byId account => cases h
  | byEmail found =>
    unfold Request.resolve at h
    dsimp only at h
    split at h
    next => cases h
    next account haccount =>
      obtain ⟨raw, hraw, hsame, hvouched⟩ :=
        verifiedUserByEmail_found (byEmail_realm hs hfrom) haccount
      rw [hraw] at h
      cases h
      exact ⟨hsame, hvouched _ (.inl rfl)⟩

theorem recovery_by_email_names {workspaceId : Uuid} {email : List Char} {answer : Lookup}
    (hs : Sound tables s)
    (hfrom : answer.from s (.recoverWorkspaceAdmin workspaceId (.email email)) = true)
    (h : (Request.recoverWorkspaceAdmin workspaceId (.email email)).resolve tables answer =
      .ok user) :
    (Request.recoverWorkspaceAdmin workspaceId (.email email)).Names tables user ∧
      Vouched tables s user.id user.email := by
  cases answer with
  | failed => cases h
  | byId account => cases h
  | byEmail found =>
    unfold Request.resolve at h
    dsimp only at h
    split at h
    next => cases h
    next target htarget =>
      cases h
      obtain ⟨account, raw, haccount, hraw, rfl⟩ := resolvedTarget_account htarget
      obtain ⟨raw', hraw', hsame, hvouched⟩ :=
        verifiedUserByEmail_found (byEmail_realm hs hfrom) haccount
      cases Option.some.inj (hraw.symm.trans hraw')
      exact ⟨hsame, hvouched _ (.inl rfl)⟩

theorem recovery_by_id_names {workspaceId : Uuid} {id : List Char} {answer : Lookup}
    (hs : Sound tables s)
    (hfrom : answer.from s (.recoverWorkspaceAdmin workspaceId (.userId id)) = true)
    (h : (Request.recoverWorkspaceAdmin workspaceId (.userId id)).resolve tables answer =
      .ok user) :
    (Request.recoverWorkspaceAdmin workspaceId (.userId id)).Names tables user ∧
      Vouched tables s user.id user.email := by
  cases answer with
  | failed => cases h
  | byEmail found => cases h
  | byId found =>
    unfold Request.resolve at h
    dsimp only at h
    split at h
    next => cases h
    next target htarget =>
      cases h
      obtain ⟨account, raw, haccount, hraw, rfl⟩ := resolvedTarget_account htarget
      obtain ⟨hfound, hverified⟩ := Option.filter_eq_some_iff.mp haccount
      have hsearch : found = s.accounts.find? fun a => a.id == trim id := beq_iff_eq.mp hfrom
      rw [hfound] at hsearch
      have hmem := List.mem_of_find?_eq_some hsearch.symm
      have hnamed : account.id = trim id := by simpa using List.find?_some hsearch.symm
      have hflag := emailVerified_of_verified hverified
      exact ⟨hnamed, account, hs.accounts hmem, rfl, hflag, raw, hraw, .inl rfl⟩

/-- The lookup of a request leads to the account that it names. -/
theorem resolve_names {answer : Lookup} (hs : Sound tables s) (hfrom : answer.from s r = true)
    (hanswer : answer ≠ .failed) (h : r.resolve tables answer = .ok user) :
    r.Names tables user ∧ Vouched tables s user.id user.email := by
  cases r with
  | syncCurrentUser claims =>
    cases answer with
    | failed => exact absurd rfl hanswer
    | byEmail found => cases hfrom
    | byId account => cases hfrom
  | addTenantOwner tenantId email => exact addTenantOwner_names hs hfrom h
  | addWorkspaceMember workspaceId role email => exact addWorkspaceMember_names hs hfrom h
  | recoverWorkspaceAdmin workspaceId target =>
    cases target with
    | email email => exact recovery_by_email_names hs hfrom h
    | userId id => exact recovery_by_id_names hs hfrom h

/-- The profile of a token is that of an account of the provider. -/
theorem resolve_claims {claims : Claims} {answer : Lookup} (hs : Sound tables s)
    (htoken : claims ∈ s.tokens)
    (h : (Request.syncCurrentUser claims).resolve tables answer = .ok user) :
    user.id = claims.sub ∧ Vouched tables s user.id user.email := by
  obtain ⟨account, hmem, rfl⟩ := hs.tokens claims htoken
  unfold Request.resolve at h
  dsimp only at h
  split at h
  next => cases h
  next email hemail =>
    split at h
    next hverified =>
      cases h
      obtain ⟨raw, hraw, rfl⟩ := Option.map_eq_some_iff.mp (Option.filter_eq_some_iff.mp hemail).1
      refine ⟨rfl, account, hmem, rfl, ?_, raw, hraw, .inl ?_⟩
      · cases hflag : account.emailVerified with
        | none =>
          rw [claimsOf, hflag] at hverified
          cases hverified
        | some flag =>
          rw [claimsOf, hflag] at hverified
          exact congrArg some hverified
      · show normalizeEmail tables (trim raw) = normalizeEmail tables raw
        rw [normalizeEmail, normalizeEmail, trim_trim]
    next => cases h

end Resolve

section Upsert

variable {users users' : List UserRow} {user : UserRow}

theorem upsertUser_mem (h : upsertUser users user = some users') :
    ∀ u ∈ users', u = user ∨ u ∈ users := by
  obtain ⟨-, h⟩ := Option.ite_none_left_eq_some.mp h
  intro u hu
  by_cases hid : u.id = user.id
  · have hemail : u.email = user.email := Upsert.field_of_proposed setEmail_id
      setEmail_email h (List.mem_singleton_self user) hu hid
    obtain ⟨id, email⟩ := u
    cases hid
    cases hemail
    exact .inl rfl
  · have hnot : u.id ∉ [user].map UserRow.id := fun hmem => hid (List.mem_singleton.mp hmem)
    exact .inr ((Upsert.mem_statement_of_notMem setEmail_id h hnot).mp hu)

theorem upsertUser_ids (hids : (users.map UserRow.id).Nodup)
    (h : upsertUser users user = some users') : (users'.map UserRow.id).Nodup := by
  obtain ⟨-, h⟩ := Option.ite_none_left_eq_some.mp h
  exact Upsert.statement_keys_nodup setEmail_id hids h

theorem upsertUser_emails (hids : (users.map UserRow.id).Nodup)
    (hemails : (users.map UserRow.email).Nodup) (h : upsertUser users user = some users') :
    (users'.map UserRow.email).Nodup := by
  obtain ⟨hclash, h⟩ := Option.ite_none_left_eq_some.mp h
  have hone : ([user].map UserRow.email).Nodup := List.nodup_singleton user.email
  refine Upsert.statement_column_nodup setEmail_id setEmail_email hids hemails hone ?_ h
  intro new hnew old hold hsame
  rw [List.mem_singleton.mp hnew] at hsame ⊢
  by_contra hne
  refine hclash (List.any_eq_true.mpr ⟨old, hold, ?_⟩)
  simp [hsame, hne]

end Upsert

section Steps

variable {tables : CaseTables} {s t : State} {i : Nat} {r : Request} {old stage : Stage}
  {user : UserRow}

theorem requests_goto (hp : s.procs[i]? = some ⟨r, old⟩) (stage : Stage) :
    (s.goto i r stage).requests = s.requests := by
  have hrequest : (s.procs.map Proc.request)[i]? = some r := by
    rw [List.getElem?_map, hp]
    rfl
  obtain ⟨hi, hsame⟩ := List.getElem?_eq_some_iff.mp hrequest
  show (s.procs.set i ⟨r, stage⟩).map Proc.request = s.procs.map Proc.request
  rw [List.map_set]
  show (s.procs.map Proc.request).set i r = s.procs.map Proc.request
  rw [← hsame, List.set_getElem_self]

/-- A request moves on. -/
theorem Sound.goto (hs : Sound tables s) (hp : s.procs[i]? = some ⟨r, old⟩)
    (huser : ∀ u, stage.user = some u → r.Names tables u ∧ Vouched tables s u.id u.email) :
    Sound tables (s.goto i r stage) := by
  have hgranted : ∀ scope id, Granted tables s scope id →
      Granted tables (s.goto i r stage) scope id := by
    intro scope id h
    have hrequests : s.requests ⊆ (s.goto i r stage).requests := by
      rw [requests_goto hp]
      exact List.Subset.refl _
    exact granted_mono (List.Subset.refl s.realm) hrequests h
  refine ⟨hs.accounts, hs.tokens, hs.ids, hs.emails, hs.users, ?_, ?_, ?_, ?_, ?_, ?_⟩
  · exact fun o ho => hgranted _ _ (hs.tenantOwners o ho)
  · exact fun m hm => hgranted _ _ (hs.workspaceMembers m hm)
  · intro tuple htuple
    obtain ⟨scope, id, hsame, hg⟩ := hs.tuples tuple htuple
    exact ⟨scope, id, hsame, hgranted _ _ hg⟩
  · intro tuple htuple
    obtain ⟨scope, id, hsame, hg⟩ := hs.outbox tuple htuple
    exact ⟨scope, id, hsame, hgranted _ _ hg⟩
  · exact fun e he => hgranted _ _ (hs.auditEvents e he)
  · exact ProcessPool.forall_set hp huser fun j c _ hc => hs.procs j c hc

/-- A request moves to a stage that holds no user, or that holds the same one. -/
theorem Sound.move (hs : Sound tables s) (hp : s.procs[i]? = some ⟨r, old⟩)
    (hstage : stage.user = none ∨ stage.user = old.user) : Sound tables (s.goto i r stage) := by
  refine hs.goto hp fun u hu => ?_
  rcases hstage with hnone | hsame
  · rw [hnone] at hu
    cases hu
  · exact hs.procs i _ hp u (hsame.symm.trans hu)

/-- What a request that got past the lookup grants is granted rightly. -/
theorem Sound.granted (hs : Sound tables s) (hp : s.procs[i]? = some ⟨r, old⟩)
    (huser : old.user = some user) {scope : Scope} (hscope : r.scope = some scope) :
    Granted tables s scope user.id := by
  obtain ⟨hnames, hvouched⟩ := hs.procs i _ hp user huser
  have hmem : r ∈ s.requests := List.mem_map.mpr ⟨⟨r, old⟩, List.mem_of_getElem? hp, rfl⟩
  exact ⟨r, hmem, hscope, user.email, hnames, hvouched⟩

/-- New rows of `users`, `workspace_members` and `tenant_members`. -/
theorem Sound.withRows (hs : Sound tables s) {users : List UserRow}
    {tenantOwners : List (Uuid × List Char)}
    {workspaceMembers : List (Uuid × List Char × Members.Role)}
    (hids : (users.map UserRow.id).Nodup) (hemails : (users.map UserRow.email).Nodup)
    (husers : ∀ u ∈ users, Vouched tables s u.id u.email)
    (howners : ∀ o ∈ tenantOwners, Granted tables s (.tenant o.1) o.2)
    (hmembers : ∀ m ∈ workspaceMembers, Granted tables s (.workspace m.1 m.2.2) m.2.1) :
    Sound tables { s with users, tenantOwners, workspaceMembers } :=
  ⟨hs.accounts, hs.tokens, hids, hemails, husers, howners, hmembers, hs.tuples, hs.outbox,
    hs.auditEvents, hs.procs⟩

/-- New tuples, events of the outbox and audit events. -/
theorem Sound.withGrants (hs : Sound tables s) {tuples outbox : List TupleText}
    {auditEvents : List AuditRow}
    (htuples : ∀ t ∈ tuples, ∃ scope id, scope.tuple id = t ∧ Granted tables s scope id)
    (houtbox : ∀ t ∈ outbox, ∃ scope id, scope.tuple id = t ∧ Granted tables s scope id)
    (haudit : ∀ e ∈ auditEvents, Granted tables s e.scope e.userId) :
    Sound tables { s with tuples, outbox, auditEvents } :=
  ⟨hs.accounts, hs.tokens, hs.ids, hs.emails, hs.users, hs.tenantOwners, hs.workspaceMembers,
    htuples, houtbox, haudit, hs.procs⟩

theorem lookupStep_sound (hs : Sound tables s) (hp : s.procs[i]? = some ⟨r, .lookup⟩)
    {answer : Lookup}
    (h : lookupStep tables s i r answer = some t) : Sound tables t := by
  obtain ⟨hfrom, h⟩ := Option.ite_none_right_eq_some.mp h
  split at h
  next =>
    cases Option.some.inj h
    exact hs.move hp (.inl rfl)
  next hanswer =>
    split at h
    next user huser =>
      cases Option.some.inj h
      refine hs.goto hp fun u hu => ?_
      cases Option.some.inj hu
      exact resolve_names hs hfrom hanswer huser
    next =>
      cases Option.some.inj h
      exact hs.move hp (.inl rfl)

theorem upsertStep_sound (hs : Sound tables s) (hp : s.procs[i]? = some ⟨r, .upsert user⟩) :
    Sound tables (upsertStep s i r user) := by
  obtain ⟨hnames, hvouched⟩ := hs.procs i _ hp user rfl
  unfold upsertStep
  cases hupsert : upsertUser s.users user with
  | none => exact hs.move hp (.inl rfl)
  | some users =>
    have hids := upsertUser_ids hs.ids hupsert
    have hemails := upsertUser_emails hs.ids hs.emails hupsert
    have husers : ∀ u ∈ users, Vouched tables s u.id u.email := by
      intro u hu
      rcases upsertUser_mem hupsert u hu with rfl | hu
      · exact hvouched
      · exact hs.users u hu
    cases r with
    | syncCurrentUser claims =>
      have hrows := hs.withRows hids hemails husers hs.tenantOwners hs.workspaceMembers
      exact hrows.move hp (.inl rfl)
    | addTenantOwner tenantId email =>
      have hrows := hs.withRows hids hemails husers hs.tenantOwners hs.workspaceMembers
      exact hrows.move hp (.inr rfl)
    | addWorkspaceMember workspaceId role email =>
      dsimp only
      split
      next => exact hs.move hp (.inl rfl)
      next =>
        have hmembers : ∀ m ∈ s.workspaceMembers ++ [(workspaceId, user.id, role)],
            Granted tables s (.workspace m.1 m.2.2) m.2.1 := by
          intro m hm
          rcases List.mem_append.mp hm with hm | hm
          · exact hs.workspaceMembers m hm
          · rw [List.mem_singleton.mp hm]
            exact hs.granted hp rfl rfl
        exact (hs.withRows hids hemails husers hs.tenantOwners hmembers).move hp (.inr rfl)
    | recoverWorkspaceAdmin workspaceId target =>
      have hmembers : ∀ m ∈ (s.workspaceMembers.filter fun m =>
          !(m.1 == workspaceId && m.2.1 == user.id)) ++ [(workspaceId, user.id, .admin)],
          Granted tables s (.workspace m.1 m.2.2) m.2.1 := by
        intro m hm
        rcases List.mem_append.mp hm with hm | hm
        · exact hs.workspaceMembers m (List.mem_filter.mp hm).1
        · rw [List.mem_singleton.mp hm]
          exact hs.granted hp rfl rfl
      exact (hs.withRows hids hemails husers hs.tenantOwners hmembers).move hp (.inr rfl)

theorem insertOwnerStep_sound (hs : Sound tables s)
    (hp : s.procs[i]? = some ⟨r, .insertOwner user⟩)
    (h : insertOwnerStep s i r user = some t) : Sound tables t := by
  unfold insertOwnerStep at h
  split at h
  next tenantId email =>
    split at h
    next =>
      cases Option.some.inj h
      have howners : ∀ o ∈ (if s.tenantOwners.contains (tenantId, user.id) then s.tenantOwners
          else s.tenantOwners ++ [(tenantId, user.id)]), Granted tables s (.tenant o.1) o.2 := by
        intro o ho
        split at ho
        next => exact hs.tenantOwners o ho
        next =>
          rcases List.mem_append.mp ho with ho | ho
          · exact hs.tenantOwners o ho
          · rw [List.mem_singleton.mp ho]
            exact hs.granted hp rfl rfl
      exact (hs.withRows hs.ids hs.emails hs.users howners hs.workspaceMembers).move hp (.inr rfl)
    next =>
      cases Option.some.inj h
      exact hs.move hp (.inl rfl)
  next => cases h

/-- The tuple of a request that got past the lookup may join the others. -/
theorem Sound.granted_append (hs : Sound tables s) (hp : s.procs[i]? = some ⟨r, old⟩)
    (huser : old.user = some user) {scope : Scope} (hscope : r.scope = some scope) (on : Bool)
    {tuples : List TupleText}
    (hold : ∀ t ∈ tuples, ∃ scope id, scope.tuple id = t ∧ Granted tables s scope id) :
    ∀ t ∈ tuples ++ (if on then [scope.tuple user.id] else []),
      ∃ scope id, scope.tuple id = t ∧ Granted tables s scope id := by
  intro t ht
  rcases List.mem_append.mp ht with ht | ht
  · exact hold t ht
  · split at ht
    next =>
      have hsame : t = scope.tuple user.id := List.mem_singleton.mp ht
      exact ⟨scope, user.id, hsame.symm, hs.granted hp huser hscope⟩
    next => cases ht

theorem writeStep_sound (hs : Sound tables s) (hp : s.procs[i]? = some ⟨r, old⟩)
    (huser : old.user = some user) {scope : Scope} (hscope : r.scope = some scope) {applied : Bool}
    (hstage : stage.user = none ∨ stage.user = old.user) :
    Sound tables (writeStep s i r scope user applied stage) := by
  have htuples := hs.granted_append hp huser hscope applied hs.tuples
  exact (hs.withGrants htuples hs.outbox hs.auditEvents).move hp hstage

theorem enqueueStep_sound (hs : Sound tables s) (hp : s.procs[i]? = some ⟨r, .enqueue user⟩)
    {scope : Scope} (hscope : r.scope = some scope) {ok : Bool} :
    Sound tables (enqueueStep s i r scope user ok) := by
  have houtbox := hs.granted_append hp rfl hscope ok hs.outbox
  refine (hs.withGrants hs.tuples houtbox hs.auditEvents).move hp ?_
  unfold afterEnqueue
  split
  next => exact .inl rfl
  next => exact .inr rfl

theorem auditStep_sound {synced : Bool} (hs : Sound tables s)
    (hp : s.procs[i]? = some ⟨r, .audit user synced⟩) {scope : Scope}
    (hscope : r.scope = some scope) {ok : Bool} :
    Sound tables (auditStep s i r scope user synced ok) := by
  have haudit : ∀ e ∈ s.auditEvents ++ (if ok then [AuditRow.mk scope user.id] else []),
      Granted tables s e.scope e.userId := by
    intro e he
    rcases List.mem_append.mp he with he | he
    · exact hs.auditEvents e he
    · split at he
      next =>
        rw [List.mem_singleton.mp he]
        exact hs.granted hp rfl hscope
      next => cases he
  exact (hs.withGrants hs.tuples hs.outbox haudit).move hp (.inl rfl)

theorem advance_sound (hs : Sound tables s) (hp : s.procs[i]? = some ⟨r, stage⟩) {reply : Reply}
    (h : advance tables s i r stage reply = some t) : Sound tables t := by
  unfold advance at h
  split at h
  next =>
    split at h
    all_goals
      cases Option.some.inj h
      exact hs.move hp (.inl rfl)
  next =>
    cases Option.some.inj h
    exact hs.move hp (.inl rfl)
  next => exact lookupStep_sound hs hp h
  next =>
    cases Option.some.inj h
    exact upsertStep_sound hs hp
  next =>
    cases Option.some.inj h
    exact hs.move hp (.inl rfl)
  next =>
    obtain ⟨-, h⟩ := Option.ite_none_right_eq_some.mp h
    cases Option.some.inj h
    exact hs.move hp (.inl rfl)
  next => exact insertOwnerStep_sound hs hp h
  next =>
    cases Option.some.inj h
    exact hs.move hp (.inl rfl)
  next =>
    obtain ⟨-, h⟩ := Option.ite_none_right_eq_some.mp h
    cases Option.some.inj h
    exact hs.move hp (.inr rfl)
  next user =>
    obtain ⟨scope, hscope, rfl⟩ := Option.map_eq_some_iff.mp h
    exact writeStep_sound hs hp rfl hscope (.inr rfl)
  next user applied duplicate =>
    obtain ⟨scope, hscope, rfl⟩ := Option.map_eq_some_iff.mp h
    refine writeStep_sound hs hp rfl hscope (.inr ?_)
    split <;> rfl
  next user ok =>
    obtain ⟨scope, hscope, rfl⟩ := Option.map_eq_some_iff.mp h
    exact enqueueStep_sound hs hp hscope
  next user synced ok =>
    obtain ⟨scope, hscope, rfl⟩ := Option.map_eq_some_iff.mp h
    exact auditStep_sound hs hp hscope
  next => cases h

/-- What is vouched for and granted stays so while the provider's history and the requests grow. -/
theorem Sound.carry (hs : Sound tables s) {accounts realm : List KeycloakUser}
    {tokens : List Claims} {procs : List Proc} (hrealm : s.realm ⊆ realm)
    (hrequests : s.requests ⊆ procs.map Proc.request) (haccounts : accounts ⊆ realm)
    (htokens : ∀ c ∈ tokens, ∃ account ∈ realm, claimsOf account = c)
    (hprocs : ∀ (i : Nat) (p : Proc), procs[i]? = some p → ∀ u, p.stage.user = some u →
      p.request.Names tables u ∧
        Vouched tables { s with accounts, realm, tokens, procs } u.id u.email) :
    Sound tables { s with accounts, realm, tokens, procs } := by
  have hgranted : ∀ scope id, Granted tables s scope id →
      Granted tables { s with accounts, realm, tokens, procs } scope id :=
    fun scope id => granted_mono hrealm hrequests
  have htuples : ∀ tuples : List TupleText,
      (∀ t ∈ tuples, ∃ scope id, scope.tuple id = t ∧ Granted tables s scope id) →
      ∀ t ∈ tuples, ∃ scope id, scope.tuple id = t ∧
        Granted tables { s with accounts, realm, tokens, procs } scope id := by
    intro tuples h t ht
    obtain ⟨scope, id, hsame, hg⟩ := h t ht
    exact ⟨scope, id, hsame, hgranted scope id hg⟩
  exact ⟨haccounts, htokens, hs.ids, hs.emails, fun u hu => vouched_mono hrealm (hs.users u hu),
    fun o ho => hgranted _ _ (hs.tenantOwners o ho),
    fun m hm => hgranted _ _ (hs.workspaceMembers m hm), htuples _ hs.tuples, htuples _ hs.outbox,
    fun e he => hgranted _ _ (hs.auditEvents e he), hprocs⟩

/-- The provider changes its accounts or issues tokens. -/
theorem Sound.provider (hs : Sound tables s) {accounts realm : List KeycloakUser}
    {tokens : List Claims} (hrealm : s.realm ⊆ realm) (haccounts : accounts ⊆ realm)
    (htokens : ∀ c ∈ tokens, ∃ account ∈ realm, claimsOf account = c) :
    Sound tables { s with accounts, realm, tokens } := by
  refine hs.carry hrealm (List.Subset.refl _) haccounts htokens fun i p hp u hu => ?_
  obtain ⟨hnames, hvouched⟩ := hs.procs i p hp u hu
  exact ⟨hnames, vouched_mono hrealm hvouched⟩

theorem firstStage_names (hs : Sound tables s) (hadmissible : r.admissible s = true)
    (h : (r.firstStage tables).user = some user) :
    r.Names tables user ∧ Vouched tables s user.id user.email := by
  cases r with
  | syncCurrentUser claims =>
    unfold Request.firstStage at h
    dsimp only at h
    split at h
    next found hfound =>
      cases Option.some.inj h
      exact resolve_claims hs (List.contains_iff_mem.mp hadmissible) hfound
    next => cases h
  | addTenantOwner tenantId email =>
    unfold Request.firstStage at h
    dsimp only at h
    split at h <;> cases h
  | addWorkspaceMember workspaceId role email => cases h
  | recoverWorkspaceAdmin workspaceId target => cases h

theorem step_sound {a : Act} (hs : Sound tables s) (h : step tables s a = some t) :
    Sound tables t := by
  cases a with
  | setAccount account =>
    cases Option.some.inj h
    have hrealm : s.realm ⊆ account :: s.realm := List.subset_cons_self _ _
    refine hs.provider hrealm ?_ fun c hc => ?_
    · refine List.cons_subset.mpr ⟨List.mem_cons_self, fun a ha => ?_⟩
      exact hrealm (hs.accounts (List.mem_filter.mp ha).1)
    · obtain ⟨a, ha, hclaims⟩ := hs.tokens c hc
      exact ⟨a, hrealm ha, hclaims⟩
  | removeAccount id =>
    cases Option.some.inj h
    refine hs.provider (List.Subset.refl _) (fun a ha => ?_) hs.tokens
    exact hs.accounts (List.mem_filter.mp ha).1
  | issueToken account =>
    obtain ⟨hcontains, h⟩ := Option.ite_none_right_eq_some.mp h
    cases Option.some.inj h
    have hmem := hs.accounts (List.contains_iff_mem.mp hcontains)
    refine hs.provider (List.Subset.refl _) hs.accounts fun c hc => ?_
    rcases List.mem_cons.mp hc with rfl | hc
    · exact ⟨account, hmem, rfl⟩
    · exact hs.tokens c hc
  | start request =>
    obtain ⟨hadmissible, h⟩ := Option.ite_none_right_eq_some.mp h
    cases Option.some.inj h
    refine hs.carry (List.Subset.refl _) ?_ hs.accounts hs.tokens ?_
    · rw [List.map_append]
      exact List.subset_append_left _ _
    · refine ProcessPool.forall_push ?_ hs.procs
      intro u hu
      obtain ⟨hnames, hvouched⟩ := firstStage_names hs hadmissible hu
      exact ⟨hnames, vouched_mono (List.Subset.refl s.realm) hvouched⟩
  | advance i reply =>
    cases hp : s.procs[i]? with
    | none =>
      simp only [step, hp] at h
      cases h
    | some p =>
      simp only [step, hp] at h
      exact advance_sound hs hp h
  | abort i =>
    obtain ⟨p, hp, rfl⟩ := Option.map_eq_some_iff.mp h
    exact hs.move hp (.inl rfl)
  | replay tuple =>
    obtain ⟨hcontains, h⟩ := Option.ite_none_right_eq_some.mp h
    cases Option.some.inj h
    refine hs.withGrants (fun t ht => ?_) hs.outbox hs.auditEvents
    rcases List.mem_append.mp ht with ht | ht
    · exact hs.tuples t ht
    · rw [List.mem_singleton.mp ht]
      exact hs.outbox tuple (List.contains_iff_mem.mp hcontains)
  | removeUser id =>
    cases Option.some.inj h
    refine hs.withRows ?_ ?_ ?_ ?_ ?_
    · exact hs.ids.sublist (List.filter_sublist.map _)
    · exact hs.emails.sublist (List.filter_sublist.map _)
    · exact fun u hu => hs.users u (List.mem_filter.mp hu).1
    · exact fun o ho => hs.tenantOwners o (List.mem_filter.mp ho).1
    · exact fun m hm => hs.workspaceMembers m (List.mem_filter.mp hm).1

theorem started_sound (h : Started s) : Sound tables s := by
  obtain ⟨haccounts, hrealm, htokens, husers, howners, hmembers, htuples, houtbox, haudit,
    hprocs⟩ := h
  refine ⟨?_, ?_, ?_, ?_, ?_, ?_, ?_, ?_, ?_, ?_, ?_⟩ <;> simp [*]

/-- In every interleaving of the requests with what happens at the provider, the rows of `users`
have distinct ids and distinct addresses, each an address that the provider has had verified for
this very id, and every membership, tuple, outbox event and audit event gives its right to a user
whom a request for it has named. -/
theorem users_are_vouched_for (h : Reach Started (step tables) anyStep s) :
    (s.users.map UserRow.id).Nodup ∧ (s.users.map UserRow.email).Nodup ∧
      (∀ u ∈ s.users, Vouched tables s u.id u.email) ∧
      (∀ o ∈ s.tenantOwners, Granted tables s (.tenant o.1) o.2) ∧
      (∀ m ∈ s.workspaceMembers, Granted tables s (.workspace m.1 m.2.2) m.2.1) ∧
      (∀ t ∈ s.tuples ++ s.outbox, ∃ scope id, scope.tuple id = t ∧ Granted tables s scope id) ∧
      ∀ e ∈ s.auditEvents, Granted tables s e.scope e.userId := by
  have hs : Sound tables s :=
    h.invariant (fun _ hi => started_sound hi) fun _ _ _ hi _ hstep => step_sound hi hstep
  refine ⟨hs.ids, hs.emails, hs.users, hs.tenantOwners, hs.workspaceMembers, ?_, hs.auditEvents⟩
  intro t ht
  rcases List.mem_append.mp ht with ht | ht
  · exact hs.tuples t ht
  · exact hs.outbox t ht

end Steps

def anna : KeycloakUser := ⟨['1'], some [' ', 'A', '@', 'x'], some true, none⟩
def ben : KeycloakUser := ⟨['2'], some ['B', '@', 'x'], some true, some true⟩

def unused : State := ⟨[], [], [], [], [], [], [], [], [], []⟩

/-- Anna signs in and is made an owner, whose tuple is left to the outbox; Ben is added to a
workspace after Anna's account has got a new address that nobody has verified. -/
def twoGrants : List Act :=
  [.setAccount anna, .setAccount ben, .issueToken anna, .start (.syncCurrentUser (claimsOf anna)),
    .advance 0 (.sql true), .start (.addTenantOwner ⟨3⟩ ['a', '@', 'X']), .advance 1 .allowed,
    .advance 1 (.looked (.byEmail [ben, anna])), .advance 1 (.sql true), .advance 1 (.sql true),
    .advance 1 (.writeFailed false false), .advance 1 (.sql true), .replay
      ((Scope.tenant ⟨3⟩).tuple ['1']), .setAccount ⟨['1'], some ['c', '@', 'x'], none, none⟩,
    .start (.addWorkspaceMember ⟨5⟩ .admin ['b', '@', 'x']), .advance 2 .allowed,
    .advance 2 (.looked (.byEmail [ben])), .advance 2 (.sql true), .advance 2 .written,
    .advance 2 (.sql true)]

def granted : State := (run (step asciiTables) unused twoGrants).getD unused

theorem users_are_vouched_for_grants :
    granted.users = [⟨['1'], ['a', '@', 'x']⟩, ⟨['2'], ['b', '@', 'x']⟩] ∧
      granted.tenantOwners = [(⟨3⟩, ['1'])] ∧
      (∀ u ∈ granted.users, Vouched asciiTables granted u.id u.email) ∧
      ∀ o ∈ granted.tenantOwners, Granted asciiTables granted (.tenant o.1) o.2 := by
  have hrun : run (step asciiTables) unused twoGrants = some granted := rfl
  have hstart : Started unused := ⟨rfl, rfl, rfl, rfl, rfl, rfl, rfl, rfl, rfl, rfl⟩
  have hvouched := users_are_vouched_for (.of_free_run hstart hrun)
  exact ⟨rfl, rfl, hvouched.2.2.1, hvouched.2.2.2.1⟩

end GmragApi.VerifiedUsers

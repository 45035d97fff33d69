import GmragApi.AdminRecovery

/-! A recovery beside the membership requests: what it answers stays true. -/

namespace GmragApi.AdminRecovery

open Lowercase (CaseTables asciiTables)
open Members (Env AdminPath OwnerPath ManagementPath PathWithout memberTuple)
open ProcessPool Transition

/-- The user is an `ADMIN`, or somebody else can manage the workspace. -/
def Seated (env : Env) (team : Members.State) (workspace user : Nat) : Prop :=
  team.role workspace user = some .admin ∨ ManagementPath env team workspace

/-- What a recovery has established where it stands. -/
def Stage.Knows (env : Env) (team : Members.State) (workspace : Nat) : Stage → Prop
  | .listAdmins _ tenant => env.tenantOf workspace = some tenant
  | .checkAdmins _ tenant todo => env.tenantOf workspace = some tenant ∧
    ∀ admin ∈ todo, team.role workspace admin = some .admin
  | .listOwners _ tenant => env.tenantOf workspace = some tenant
  | .checkOwners _ tenant todo => env.tenantOf workspace = some tenant ∧
    ∀ owner ∈ todo, owner ∈ env.tenantOwners tenant
  | .checkTuple user _ => Seated env team workspace user.id
  | .writeTuple user _ => Seated env team workspace user.id
  | .audit _ _ synced => synced = true → ManagementPath env team workspace
  | .answered (.ok (.recovered _)) => ManagementPath env team workspace
  | .answered (.ok .alreadyHealthy) => ManagementPath env team workspace
  | _ => True

structure Recovery.Sound (env : Env) (team : Members.State) (r : Recovery) : Prop where
  place : team.procs[r.place]? = some .done
  lock : r.stage.locked = true → team.locks r.workspace = some r.place
  knows : r.stage.Knows env team r.workspace

structure Inv (env : Env) (s : State) : Prop where
  consistent : Members.Inv s.team
  guarded : ∀ (i : Nat) (p : Members.Proc), s.team.procs[i]? = some p → p.Guarded env s.team
  sound : ∀ (i : Nat) (r : Recovery), s.recoveries[i]? = some r → r.Sound env s.team
  apart : ∀ (i j : Nat) (r r' : Recovery), s.recoveries[i]? = some r →
    s.recoveries[j]? = some r' → r.place = r'.place → i = j

/-- What a step may not take from the recovery whose transaction is at `place`. -/
structure Spares (env : Env) (team team' : Members.State) (place : Nat) : Prop where
  procs : team.procs[place]? = some .done → team'.procs[place]? = some .done
  lock : ∀ workspace, team.locks workspace = some place → team'.locks workspace = some place
  admin : ∀ workspace user, team.locks workspace = some place →
    team.role workspace user = some .admin → team'.role workspace user = some .admin
  seated : ∀ workspace user, Seated env team workspace user → Seated env team' workspace user
  path : ∀ workspace, ManagementPath env team workspace → ManagementPath env team' workspace

section Spares

variable {env : Env} {team team' : Members.State} {place : Nat}

theorem Spares.knows {workspace : Nat} {stage : Stage} (h : Spares env team team' place)
    (hlock : stage.locked = true → team.locks workspace = some place)
    (hk : stage.Knows env team workspace) : stage.Knows env team' workspace := by
  cases stage with
  | checkAdmins user tenant todo =>
    exact ⟨hk.1, fun admin ha => h.admin workspace admin (hlock rfl) (hk.2 admin ha)⟩
  | checkTuple user tenant => exact h.seated _ _ hk
  | writeTuple user tenant => exact h.seated _ _ hk
  | audit user tenant synced => exact fun hs => h.path _ (hk hs)
  | answered result =>
    cases result with
    | error e => trivial
    | ok outcome =>
      cases outcome with
      | recovered user => exact h.path _ hk
      | alreadyHealthy => exact h.path _ hk
      | _ => trivial
  | _ => exact hk

theorem Spares.sound {r : Recovery} (h : Spares env team team' r.place)
    (hr : r.Sound env team) : r.Sound env team' :=
  ⟨h.procs hr.place, fun hlock => h.lock _ (hr.lock hlock), h.knows hr.lock hr.knows⟩

/-- A new process starts. -/
theorem spares_start (p : Members.Proc) : Spares env team (team.start p) place where
  procs hplace := getElem?_push_iff.mpr (.inl hplace)
  lock _ hlock := hlock
  admin _ _ _ hrole := hrole
  seated _ _ hseat := hseat
  path _ hpath := hpath

/-- A process of the team other than the one at `place` moves. -/
theorem spares_of_moves {i : Nat} {p : Members.Proc} {reply : Reply}
    (h : Members.Moves env team i p reply team') (hc : p.Consistent team i)
    (hg : p.Guarded env team) (hi : i ≠ place) : Spares env team team' place where
  procs hplace := by
    obtain ⟨q, hprocs, -⟩ := h.self_consistent hc
    rw [hprocs, List.getElem?_set_ne hi]
    exact hplace
  lock workspace hlock := h.locks_other hc.1 (Ne.symm hi) hlock
  admin workspace user hlock hrole := by
    rcases h.role_kept hrole with hkept | ⟨target, role, rfl, rfl, -⟩
    · exact hkept
    · have howner := Members.lock_unique hc rfl hlock
      exact absurd howner.symm hi
  seated workspace user hseat := by
    rcases hseat with hrole | hpath
    · rcases h.role_kept hrole with hkept | ⟨target, role, rfl, rfl, rfl⟩
      · exact .inl hkept
      · -- the row that is changed is an `ADMIN`, so the guard has found another path
        obtain ⟨hrow, -⟩ := hc.2 target role rfl
        have hadmin : role = .admin := Option.some.inj (hrow.symm.trans hrole)
        have hpath := (hg hadmin).path
        exact .inr (h.management_path_kept hc hg hpath)
    · exact .inr (h.management_path_kept hc hg hpath)
  path workspace hpath := h.management_path_kept hc hg hpath

end Spares

/-- What a step of the recovery at `place` may do to the team. -/
structure Aids (team team' : Members.State) (place : Nat) : Prop where
  procs : team'.procs = team.procs
  locks : ∀ workspace j, j ≠ place → team.locks workspace = some j →
    team'.locks workspace = some j
  role : ∀ workspace user role, team.role workspace user = some role →
    team'.role workspace user = some role ∨
      (team'.role workspace user = some .admin ∧ team.locks workspace = some place)
  tuples : team.tuples ⊆ team'.tuples

section Aids

variable {env : Env} {team team' : Members.State} {place : Nat}

theorem Aids.admin (h : Aids team team' place) {workspace user : Nat}
    (hrole : team.role workspace user = some .admin) :
    team'.role workspace user = some .admin := by
  rcases h.role _ _ _ hrole with hkept | ⟨hadmin, -⟩
  · exact hkept
  · exact hadmin

theorem Aids.adminPath (h : Aids team team' place) {workspace user : Nat}
    (hpath : AdminPath team workspace user) : AdminPath team' workspace user := by
  refine ⟨h.admin hpath.1, ?_⟩
  exact Fga.checkWorkspaceAdmin_of_kept (fun hk => h.tuples hk) (fun k hk _ => h.tuples hk) hpath.2

theorem Aids.isTenantOwner (h : Aids team team' place) {owner tenant : Nat}
    (hcheck : Fga.isTenantOwner team.tuples owner tenant = true) :
    Fga.isTenantOwner team'.tuples owner tenant = true := by
  simp only [Fga.isTenantOwner, decide_eq_true_eq] at hcheck ⊢
  exact h.tuples hcheck

theorem Aids.ownerPath (h : Aids team team' place) {workspace : Nat}
    (hpath : OwnerPath env team workspace) : OwnerPath env team' workspace := by
  obtain ⟨tenant, htenant, owner, howner, hcheck⟩ := hpath
  exact ⟨tenant, htenant, owner, howner, h.isTenantOwner hcheck⟩

theorem Aids.pathWithout (h : Aids team team' place) {workspace excluded : Nat}
    (hpath : PathWithout env team workspace excluded) :
    PathWithout env team' workspace excluded := by
  rcases hpath with ⟨user, hne, ha⟩ | ho
  · exact .inl ⟨user, hne, h.adminPath ha⟩
  · exact .inr (h.ownerPath ho)

theorem Aids.managementPath (h : Aids team team' place) {workspace : Nat}
    (hpath : ManagementPath env team workspace) : ManagementPath env team' workspace := by
  rcases hpath with ⟨user, ha⟩ | ho
  · exact .inl ⟨user, h.adminPath ha⟩
  · exact .inr (h.ownerPath ho)

theorem Aids.seated (h : Aids team team' place) {workspace user : Nat}
    (hseat : Seated env team workspace user) : Seated env team' workspace user := by
  rcases hseat with hrole | hpath
  · exact .inl (h.admin hrole)
  · exact .inr (h.managementPath hpath)

theorem Aids.spares (h : Aids team team' place) {other : Nat} (hne : other ≠ place) :
    Spares env team team' other where
  procs hplace := by
    rw [h.procs]
    exact hplace
  lock workspace hlock := h.locks workspace other hne hlock
  admin _ _ _ hrole := h.admin hrole
  seated _ _ hseat := h.seated hseat
  path _ hpath := h.managementPath hpath

/-- A process of the team still finds the row that it has read. -/
theorem Aids.consistent (h : Aids team team' place) {i : Nat} {p : Members.Proc} (hi : i ≠ place)
    (hc : p.Consistent team i) : p.Consistent team' i := by
  refine ⟨fun w hw => h.locks w i hi (hc.1 w hw), fun target role hheld => ?_⟩
  obtain ⟨hrow, hne⟩ := hc.2 target role hheld
  rcases h.role _ _ _ hrow with hkept | ⟨-, hlock⟩
  · exact ⟨hkept, hne⟩
  · have howner := hc.1 _ (Members.Proc.held_workspace hheld)
    rw [howner] at hlock
    exact absurd (Option.some.inj hlock) hi

theorem Aids.guarded (h : Aids team team' place) {p : Members.Proc} (hg : p.Guarded env team) :
    p.Guarded env team' := by
  cases p with
  | guardAdmins target tenant role todo =>
    exact ⟨hg.1, fun admin ha => ⟨(hg.2 admin ha).1, h.admin (hg.2 admin ha).2⟩⟩
  | writeRow target role => exact fun hrole => h.pathWithout (hg hrole)
  | revoke target role => exact fun hrole => h.pathWithout (hg hrole)
  | deleteRow target role => exact fun hrole => h.pathWithout (hg hrole)
  | commit target role => exact fun hrole => h.pathWithout (hg hrole)
  | _ => exact hg

theorem aids_refl : Aids team team place :=
  ⟨rfl, fun _ _ _ hlock => hlock, fun _ _ _ hrole => .inl hrole, fun _ hk => hk⟩

theorem aids_unlock {workspace : Nat} (hlock : team.locks workspace = some place) :
    Aids team (team.unlock workspace) place := by
  refine ⟨rfl, fun w j hj hw => ?_, fun _ _ _ hrole => .inl hrole, fun _ hk => hk⟩
  have hne : w ≠ workspace := by
    rintro rfl
    rw [hlock] at hw
    exact hj (Option.some.inj hw).symm
  exact (Function.update_of_ne hne _ _).trans hw

end Aids

section Turn

variable {env : Env} {team team' : Members.State} {r : Recovery} {answer : Answer}
  {stage next : Stage}

theorem insert_admin_role (team : Members.State) (workspace user w u : Nat) :
    (team.members.insert (workspace, user) Members.Role.admin).lookup (w, u) =
      if (w, u) = (workspace, user) then some .admin else team.role w u := by
  by_cases h : (w, u) = (workspace, user)
  · rw [if_pos h, h]
    exact AList.lookup_insert _
  · rw [if_neg h]
    exact AList.lookup_insert_ne h

theorem Turns.aids (h : Turns env team r answer stage next team')
    (hlock : stage.locked = true → team.locks r.workspace = some r.place) :
    Aids team team' r.place := by
  cases h with
  | lock hfree htenant =>
    refine ⟨rfl, fun w j hj hw => ?_, fun _ _ _ hrole => .inl hrole, fun _ hk => hk⟩
    have hne : w ≠ r.workspace := by
      rintro rfl
      rw [hfree] at hw
      cases hw
    exact (Function.update_of_ne hne _ _).trans hw
  | adminPath hcheck => exact aids_unlock (hlock rfl)
  | ownerPath hcheck => exact aids_unlock (hlock rfl)
  | wouldRecover hmode => exact aids_unlock (hlock rfl)
  | rolledBack hl he => exact aids_unlock (hlock hl)
  | killed hl => exact aids_unlock (hlock hl)
  | @committed _ user tenant =>
    have hunlock := aids_unlock (hlock rfl)
    refine ⟨rfl, hunlock.locks, fun w u role hrole => ?_, fun _ hk => hk⟩
    have hlookup := insert_admin_role team r.workspace user.id w u
    by_cases heq : (w, u) = (r.workspace, user.id)
    · rw [if_pos heq] at hlookup
      obtain ⟨rfl, -⟩ := Prod.mk.inj heq
      exact .inr ⟨hlookup, hlock rfl⟩
    · rw [if_neg heq] at hlookup
      exact .inl (hlookup.trans hrole)
  | written =>
    exact ⟨rfl, fun _ _ _ hw => hw, fun _ _ _ hrole => .inl hrole,
      fun _ hk => Finset.mem_insert_of_mem hk⟩
  | enqueued outbox =>
    exact ⟨rfl, fun _ _ _ hw => hw, fun _ _ _ hrole => .inl hrole, fun _ hk => hk⟩
  | _ => exact aids_refl

theorem Turns.lock_kept (h : Turns env team r answer stage next team')
    (hlock : stage.locked = true → team.locks r.workspace = some r.place)
    (hnext : next.locked = true) : team'.locks r.workspace = some r.place := by
  cases h with
  | lock hfree htenant => exact Function.update_self _ _ _
  | admins hperm => exact hlock rfl
  | nextAdmin hcheck => exact hlock rfl
  | noAdmin => exact hlock rfl
  | owners hperm => exact hlock rfl
  | nextOwner hcheck => exact hlock rfl
  | apply hmode => exact hlock rfl
  | userUpserted => exact hlock rfl
  | memberUpserted => exact hlock rfl
  | audited => split at hnext <;> cases hnext
  | _ => cases hnext

theorem mem_workspaceAdmins {workspace admin : Nat} :
    admin ∈ workspaceAdmins team workspace ↔ team.role workspace admin = some .admin := by
  constructor
  · intro h
    obtain ⟨⟨⟨w, u⟩, role⟩, he, rfl⟩ := List.mem_map.mp h
    obtain ⟨hmem, hp⟩ := List.mem_filter.mp he
    simp only [Bool.and_eq_true, beq_iff_eq, decide_eq_true_eq] at hp
    obtain ⟨rfl, rfl⟩ := hp
    exact AList.mem_lookup_iff.mpr hmem
  · intro h
    have hmem := AList.mem_lookup_iff.mp h
    exact List.mem_map.mpr ⟨_, List.mem_filter.mpr ⟨hmem, by simp⟩, rfl⟩

/-- A user that is seated can manage the workspace once its check succeeds. -/
theorem Seated.path {workspace user : Nat} (h : Seated env team workspace user)
    (hcheck : Fga.checkWorkspaceAdmin team.tuples user workspace = true) :
    ManagementPath env team workspace := by
  rcases h with hrole | hpath
  · exact .inl ⟨user, hrole, hcheck⟩
  · exact hpath

theorem checkWorkspaceAdmin_of_tuple {tuples : Fga.Store} {workspace user : Nat}
    (h : memberTuple workspace user .admin ∈ tuples) :
    Fga.checkWorkspaceAdmin tuples user workspace = true := by
  have hdirect : (⟨.user user, .admin, .workspace workspace⟩ : TupleKey) ∈ tuples := h
  simp [Fga.checkWorkspaceAdmin, hdirect]

/-- OpenFGA answers that a tuple exists only if it does. -/
def Honest (team : Members.State) (workspace : Nat) : Stage → Answer → Prop
  | .writeTuple user _, .reply (.called (.failed e)) =>
    isDuplicateTupleError e = true → memberTuple workspace user.id .admin ∈ team.tuples
  | _, _ => True

theorem Turns.knows (h : Turns env team r answer stage next team')
    (ha : Aids team team' r.place) (hk : stage.Knows env team r.workspace)
    (honest : Honest team r.workspace stage answer) : next.Knows env team' r.workspace := by
  cases h with
  | lock hfree htenant => exact htenant
  | admins hperm => exact ⟨hk, fun admin h => mem_workspaceAdmins.mp (hperm.mem_iff.mp h)⟩
  | adminPath hcheck =>
    exact ha.managementPath (.inl ⟨_, hk.2 _ (List.mem_cons_self ..), hcheck⟩)
  | nextAdmin => exact ⟨hk.1, fun admin h => hk.2 admin (List.mem_cons_of_mem _ h)⟩
  | noAdmin => exact hk.1
  | owners hperm => exact ⟨hk, fun owner h => hperm.mem_iff.mp h⟩
  | ownerPath hcheck =>
    exact ha.managementPath (.inr ⟨_, hk.1, _, hk.2 _ (List.mem_cons_self ..), hcheck⟩)
  | nextOwner => exact ⟨hk.1, fun owner h => hk.2 owner (List.mem_cons_of_mem _ h)⟩
  | @committed _ user tenant =>
    refine .inl ?_
    have hlookup := insert_admin_role team r.workspace user.id r.workspace user.id
    rw [if_pos rfl] at hlookup
    exact hlookup
  | inSync hcheck => exact fun _ => hk.path hcheck
  | outOfSync => exact hk
  | @written _ user tenant =>
    intro _
    exact (ha.seated hk).path (checkWorkspaceAdmin_of_tuple (Finset.mem_insert_self _ _))
  | duplicate hdup => exact fun _ => hk.path (checkWorkspaceAdmin_of_tuple (honest hdup))
  | enqueued => exact nofun
  | @audited _ user tenant synced =>
    cases synced with
    | true => exact hk rfl
    | false => trivial
  | _ => trivial

theorem Recovery.Sound.turned (h : Turns env team r answer r.stage next team')
    (hr : r.Sound env team) (honest : Honest team r.workspace r.stage answer) :
    Recovery.Sound env team' { r with stage := next } := by
  have ha := h.aids hr.lock
  refine ⟨?_, h.lock_kept hr.lock, h.knows ha hr.knows honest⟩
  rw [ha.procs]
  exact hr.place

end Turn

section Step

variable {env : Env} {tables : CaseTables} {team team' : Members.State} {s t : State} {i : Nat}
  {r : Recovery} {answer : Answer}

theorem guarded_step {a : Members.Act} (hi : Members.Inv team)
    (hg : ∀ (i : Nat) (p : Members.Proc), team.procs[i]? = some p → p.Guarded env team)
    (hok : Members.fromRequest team a) (h : Members.step env team a = some team') :
    ∀ (i : Nat) (p : Members.Proc), team'.procs[i]? = some p → p.Guarded env team' := by
  rcases Members.step_cases h with ⟨p, rfl, hp, hworker⟩ | ⟨i, p, reply, hp, hm, -⟩
  · refine forall_push (Members.Proc.guarded_of_outside hp ?_) hg
    cases hw : p.isWorker with
    | false => rfl
    | true =>
      obtain ⟨row, rfl⟩ := hworker hw
      exact hok.elim
  · obtain ⟨q, hprocs, hself⟩ := hm.self_guarded (hg i p hp)
    rw [hprocs]
    exact forall_set hp hself fun j q hj hq =>
      hm.other_guarded (hg i p hp).not_worker (hi i p hp) hj (hi j q hq) (hg j q hq)

/-- What is done does not move, and is not undone by an abort. -/
theorem step_beside {a : Members.Act} {place : Nat} (hplace : team.procs[place]? = some .done)
    (h : Members.step env team a = some team') :
    (∃ p, team' = team.start p) ∨ team' = team.goto place .done ∨
      ∃ i p reply, team.procs[i]? = some p ∧ Members.Moves env team i p reply team' ∧
        i ≠ place := by
  rcases Members.step_cases h with ⟨p, hstart, -, -⟩ | ⟨i, p, reply, hp, hm, ha⟩
  · exact .inl ⟨p, hstart⟩
  · by_cases hi : i = place
    · subst hi
      cases Option.some.inj (hplace.symm.trans hp)
      rcases ha with rfl | ⟨rfl, -⟩
      · simp only [Members.step, hp] at h
        cases reply <;> cases h
      · simp only [Members.step, hp] at h
        exact .inr (.inl (Option.some.inj h).symm)
    · exact .inr (.inr ⟨i, p, reply, hp, hm, hi⟩)

theorem spares_of_step {a : Members.Act} {place : Nat} (hi : Members.Inv team)
    (hg : ∀ (i : Nat) (p : Members.Proc), team.procs[i]? = some p → p.Guarded env team)
    (hplace : team.procs[place]? = some .done) (h : Members.step env team a = some team') :
    Spares env team team' place := by
  rcases step_beside hplace h with ⟨p, rfl⟩ | rfl | ⟨i, p, reply, hp, hm, hne⟩
  · exact spares_start p
  · have hlt := (List.getElem?_eq_some_iff.mp hplace).1
    exact ⟨fun _ => List.getElem?_set_self hlt, fun _ hlock => hlock, fun _ _ _ hrole => hrole,
      fun _ _ hseat => hseat, fun _ hpath => hpath⟩
  · exact spares_of_moves hm (hi i p hp) (hg i p hp) hne

/-- No outbox worker runs, and OpenFGA reports a duplicate only where there is one. -/
def faithful (s : State) : Act → Prop
  | .team a => Members.fromRequest s.team a
  | .advance i answer => ∀ r, s.recoveries[i]? = some r → Honest s.team r.workspace r.stage answer
  | _ => True

def Answer.isRefusal : Answer → Bool
  | .reply (.called (.failed _)) => true
  | _ => false

theorem honest_of_answer {workspace : Nat} {stage : Stage} (h : answer.isRefusal = false) :
    Honest team workspace stage answer := by
  unfold Honest
  split
  · cases h
  · trivial

theorem turned_inv (hi : Inv env s) (hr : s.recoveries[i]? = some r)
    (h : Turned env s i r answer t) (honest : Honest s.team r.workspace r.stage answer) :
    Inv env t := by
  obtain ⟨next, hrec, hturn, -⟩ := h
  have hsound := hi.sound i r hr
  have ha := hturn.aids hsound.lock
  refine ⟨?_, ?_, ?_, ?_⟩
  · intro j p hp
    rw [ha.procs] at hp
    by_cases hj : j = r.place
    · subst hj
      cases Option.some.inj (hsound.place.symm.trans hp)
      exact Members.Proc.consistent_of_outside rfl
    · exact ha.consistent hj (hi.consistent j p hp)
  · intro j p hp
    rw [ha.procs] at hp
    exact ha.guarded (hi.guarded j p hp)
  · rw [hrec]
    refine forall_set hr (hsound.turned hturn honest) fun j other hj hother => ?_
    have hne : other.place ≠ r.place := fun h => hj (hi.apart j i other r hother hr h)
    exact (ha.spares hne).sound (hi.sound j other hother)
  · have placed : ∀ (j : Nat) (c : Recovery), t.recoveries[j]? = some c →
        ∃ c', s.recoveries[j]? = some c' ∧ c'.place = c.place := by
      rw [hrec]
      exact forall_set hr ⟨r, hr, rfl⟩ fun j c _ hc => ⟨c, hc, rfl⟩
    intro j k a b hja hkb hab
    obtain ⟨a', ha', haa⟩ := placed j a hja
    obtain ⟨b', hb', hbb⟩ := placed k b hkb
    exact hi.apart j k a' b' ha' hb' (by omega)

theorem start_inv (hi : Inv env s) (workspace : Nat) (mode : RecoveryMode) :
    Inv env (s.start workspace mode) := by
  have hlt : ∀ (j : Nat) (r : Recovery), s.recoveries[j]? = some r →
      r.place < s.team.procs.length := fun j r hr =>
    (List.getElem?_eq_some_iff.mp (hi.sound j r hr).place).1
  have hplace : (s.team.procs ++ [Members.Proc.done])[s.team.procs.length]? = some .done :=
    getElem?_push_iff.mpr (.inr ⟨rfl, rfl⟩)
  refine ⟨?_, ?_, ?_, ?_⟩
  · exact forall_push (Members.Proc.consistent_of_outside rfl) hi.consistent
  · exact forall_push (Members.Proc.guarded_of_outside rfl rfl) hi.guarded
  · exact forall_push ⟨hplace, nofun, trivial⟩ fun j r hr =>
      (spares_start .done).sound (hi.sound j r hr)
  · intro j k a b ha hb hab
    rcases getElem?_push_iff.mp ha with ha | ⟨rfl, rfl⟩
    · rcases getElem?_push_iff.mp hb with hb | ⟨rfl, rfl⟩
      · exact hi.apart j k a b ha hb hab
      · exact absurd hab (Nat.ne_of_lt (hlt j a ha))
    · rcases getElem?_push_iff.mp hb with hb | ⟨rfl, rfl⟩
      · exact absurd hab.symm (Nat.ne_of_lt (hlt k b hb))
      · rfl

theorem step_inv {a : Act} (hi : Inv env s) (hok : faithful s a)
    (h : step env tables s a = some t) : Inv env t := by
  rcases step_cases h with ⟨b, team, rfl, hteam, rfl⟩ | ⟨workspace, mode, rfl⟩ |
    ⟨i, r, answer, hr, hturn, ha⟩
  · refine ⟨Members.step_inv hi.consistent hteam, ?_, ?_, hi.apart⟩
    · exact guarded_step hi.consistent hi.guarded hok hteam
    · intro i r hr
      have hsound := hi.sound i r hr
      exact (spares_of_step hi.consistent hi.guarded hsound.place hteam).sound hsound
  · exact start_inv hi workspace mode
  · refine turned_inv hi hr hturn ?_
    rcases ha with rfl | ⟨-, rfl⟩
    · exact hok r hr
    · exact honest_of_answer rfl

/-- No recovery and no request has started. -/
def Fresh (s : State) : Prop := Members.Idle s.team ∧ s.recoveries = []

theorem fresh_inv (h : Fresh s) : Inv env s := by
  obtain ⟨⟨hprocs, -⟩, hrec⟩ := h
  refine ⟨?_, ?_, ?_, ?_⟩
  · intro i p hp
    rw [hprocs] at hp
    cases hp
  · intro i p hp
    rw [hprocs] at hp
    cases hp
  · intro i r hr
    rw [hrec] at hr
    cases hr
  · intro i j r r' hr
    rw [hrec] at hr
    cases hr

theorem step_path {a : Act} {workspace : Nat} (hi : Inv env s) (hok : faithful s a)
    (h : step env tables s a = some t) (hpath : ManagementPath env s.team workspace) :
    ManagementPath env t.team workspace := by
  rcases step_cases h with ⟨b, team, rfl, hteam, rfl⟩ | ⟨_, _, rfl⟩ | ⟨i, r, answer, hr, hturn, -⟩
  · have hguard : Members.GuardInv env workspace s.team := ⟨hi.consistent, hi.guarded, hpath⟩
    exact (Members.step_guardInv hguard hok hteam).2.2
  · exact hpath
  · obtain ⟨next, -, hturn, -⟩ := hturn
    exact (hturn.aids (hi.sound i r hr).lock).managementPath hpath

/-- The answers after which the operator may rely on a management path. -/
def RecoveryOutcome.healthy : RecoveryOutcome → Bool
  | recovered _ => true
  | alreadyHealthy => true
  | _ => false

theorem Recovery.Sound.healthy {outcome : RecoveryOutcome} (h : r.Sound env team)
    (hstage : r.stage = .answered (.ok outcome)) (hout : outcome.healthy = true) :
    ManagementPath env team r.workspace := by
  have hk := h.knows
  rw [hstage] at hk
  cases outcome with
  | recovered user => exact hk
  | alreadyHealthy => exact hk
  | _ => cases hout

/-- What a recovery has reported stays true: from then on somebody can manage the workspace,
whatever requests and other recoveries run beside it. -/
theorem recovery_leaves_management_path {outcome : RecoveryOutcome} {as : List Act}
    (h : Reach Fresh (step env tables) faithful s) (hr : s.recoveries[i]? = some r)
    (hstage : r.stage = .answered (.ok outcome)) (hout : outcome.healthy = true)
    (hm : Meets (step env tables) faithful s as) (hrun : run (step env tables) s as = some t) :
    ManagementPath env t.team r.workspace := by
  have hi : Inv env s := h.invariant (fun s hs => fresh_inv hs) fun s t a hi hok hs =>
    step_inv hi hok hs
  have hpath := (hi.sound i r hr).healthy hstage hout
  have keep : ∀ s t a, (Inv env s ∧ ManagementPath env s.team r.workspace) → faithful s a →
      step env tables s a = some t → Inv env t ∧ ManagementPath env t.team r.workspace :=
    fun s t a hs hok hstep => ⟨step_inv hs.1 hok hstep, step_path hs.1 hok hstep hs.2⟩
  exact (run_invariant keep ⟨hi, hpath⟩ hm hrun).2

/-- No worker, and no call that writes a tuple fails. -/
def Act.isSmooth : Act → Bool
  | .team (.work _) => false
  | .advance _ answer => !answer.isRefusal
  | _ => true

theorem faithful_of_smooth {a : Act} (h : a.isSmooth = true) : faithful s a := by
  cases a with
  | team b =>
    cases b with
    | work row => cases h
    | _ => trivial
  | advance i answer => exact fun r _ => honest_of_answer (by simpa [Act.isSmooth] using h)
  | _ => trivial

theorem meets_of_smooth {as : List Act} (h : ∀ a ∈ as, a.isSmooth = true) :
    Meets (step env tables) faithful s as := by
  induction as generalizing s with
  | nil => trivial
  | cons a as ih =>
    exact ⟨faithful_of_smooth (h a (List.mem_cons_self ..)),
      fun t _ => ih fun b hb => h b (List.mem_cons_of_mem _ hb)⟩

end Step

/-- A workspace without members. -/
def abandoned : State where
  team := { Members.twoAdmins with members := ∅, tuples := ∅ }
  users := fun _ => none
  auditEvents := []
  recoveries := []

def rescue : List Act :=
  [.recover 0 .apply, .advance 0 (.resolved (some (some ⟨5, some ['e']⟩))),
    .advance 0 (.reply (.sql true)), .advance 0 (.reply (.listed [])),
    .advance 0 (.reply (.sql true)), .advance 0 (.reply (.listed [])),
    .advance 0 (.reply (.sql true)), .advance 0 (.reply (.sql true)),
    .advance 0 (.reply (.sql true)), .advance 0 (.reply (.sql true)),
    .advance 0 (.reply (.checked (.ok false))), .advance 0 (.reply (.called .done)),
    .advance 0 (.reply (.sql true))]

def rescued : State := (run (step Members.sampleEnv asciiTables) abandoned rescue).getD abandoned

/-- The new admin resigns, as far as the guard lets it. -/
def resignation : List Act := [.team (.removeMember 5 0 5), .team (.advance 1 (.checked (.ok true)))]

def resigned : State :=
  (run (step Members.sampleEnv asciiTables) rescued resignation).getD rescued

theorem recovery_leaves_management_path_rescue :
    rescued.team.role 0 5 = some .admin ∧ ManagementPath Members.sampleEnv resigned.team 0 := by
  have hrun : run (step Members.sampleEnv asciiTables) abandoned rescue = some rescued := rfl
  have hreach := Reach.of_run (.start ⟨⟨rfl, fun _ => rfl⟩, rfl⟩ : Reach Fresh _ faithful abandoned)
    (meets_of_smooth (by decide)) hrun
  have hr : rescued.recoveries[0]? = some ⟨0, .apply, 0, .answered (.ok (.recovered 5))⟩ := rfl
  have hmeets : Meets (step Members.sampleEnv asciiTables) faithful rescued resignation :=
    meets_of_smooth (by decide)
  exact ⟨rfl, recovery_leaves_management_path hreach hr rfl rfl hmeets rfl⟩

end GmragApi.AdminRecovery

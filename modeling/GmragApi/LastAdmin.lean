import GmragApi.MemberLocks

/-! No interleaving of the membership requests takes the last management path of a workspace. -/

namespace GmragApi.Members

open Transition ProcessPool

/-- A workspace `ADMIN` whose OpenFGA check succeeds. -/
def AdminPath (s : State) (workspace user : Nat) : Prop :=
  s.role workspace user = some .admin ∧ Fga.checkWorkspaceAdmin s.tuples user workspace = true

/-- An `OWNER` of the tenant whose OpenFGA check succeeds. -/
def OwnerPath (env : Env) (s : State) (workspace : Nat) : Prop :=
  ∃ tenant, env.tenantOf workspace = some tenant ∧
    ∃ owner ∈ env.tenantOwners tenant, Fga.isTenantOwner s.tuples owner tenant = true

def ManagementPath (env : Env) (s : State) (workspace : Nat) : Prop :=
  (∃ user, AdminPath s workspace user) ∨ OwnerPath env s workspace

/-- A path that is left when `excluded` is no admin any more. -/
def PathWithout (env : Env) (s : State) (workspace excluded : Nat) : Prop :=
  (∃ user, user ≠ excluded ∧ AdminPath s workspace user) ∨ OwnerPath env s workspace

/-- What `ensure_management_path_after_losing_admin` has established where a process stands. -/
def Proc.Guarded (env : Env) (s : State) : Proc → Prop
  | readRole target tenant => env.tenantOf target.workspace = some tenant
  | listAdmins target tenant _ => env.tenantOf target.workspace = some tenant
  | guardAdmins target tenant _ todo => env.tenantOf target.workspace = some tenant ∧
    ∀ admin ∈ todo, admin ≠ target.user ∧ s.role target.workspace admin = some .admin
  | listOwners target tenant _ => env.tenantOf target.workspace = some tenant
  | guardOwners target _ todo => ∃ tenant, env.tenantOf target.workspace = some tenant ∧
    ∀ owner ∈ todo, owner ∈ env.tenantOwners tenant
  | writeRow target role => role = .admin → PathWithout env s target.workspace target.user
  | revoke target role => role = .admin → PathWithout env s target.workspace target.user
  | deleteRow target role => role = .admin → PathWithout env s target.workspace target.user
  | commit target role => role = .admin → PathWithout env s target.workspace target.user
  | p => p.isWorker = false

theorem mem_otherAdmins {s : State} {workspace user admin : Nat}
    (h : admin ∈ otherAdmins s workspace user) :
    admin ≠ user ∧ s.role workspace admin = some .admin := by
  obtain ⟨⟨⟨w, u⟩, role⟩, he, rfl⟩ := List.mem_map.mp h
  obtain ⟨hmem, hp⟩ := List.mem_filter.mp he
  simp only [Bool.and_eq_true, beq_iff_eq, decide_eq_true_eq, bne_iff_ne] at hp
  obtain ⟨⟨rfl, rfl⟩, hu⟩ := hp
  exact ⟨hu, AList.mem_lookup_iff.mpr hmem⟩

theorem Proc.Guarded.not_worker {env : Env} {s : State} {p : Proc} (h : p.Guarded env s) :
    p.isWorker = false := by
  cases p <;> first | rfl | exact h

theorem Proc.guarded_of_outside {env : Env} {s : State} {p : Proc} (hp : p.workspace? = none)
    (hw : p.isWorker = false) : p.Guarded env s := by
  cases p <;> first | exact hw | cases hp

theorem afterGuard_guarded {env : Env} {s : State} {target : Target} {role : Role}
    (h : role = .admin → PathWithout env s target.workspace target.user) :
    (afterGuard target role).Guarded env s := by
  unfold afterGuard
  split <;> exact h

section Move

variable {env : Env} {s t : State} {i : Nat} {p q : Proc} {reply : Reply} {workspace : Nat}

/-- The moves that can end the admin path of a user. -/
def Proc.TakesFrom (p : Proc) (workspace user : Nat) : Prop :=
  ∃ target role, (p = .revoke target role ∨ p = .commit target role) ∧
    workspace = target.workspace ∧ user = target.user

theorem Moves.adminPath_kept (h : Moves env s i p reply t) (hp : p.isWorker = false) {user : Nat}
    (ha : AdminPath s workspace user) :
    AdminPath t workspace user ∨ p.TakesFrom workspace user := by
  obtain ⟨hrole, hcheck⟩ := ha
  by_cases htakes : p.TakesFrom workspace user
  · exact .inr htakes
  refine .inl ⟨?_, ?_⟩
  · rcases h.role_kept hrole with hkept | ⟨target, role, hcommit, hw, hu⟩
    · exact hkept
    · exact absurd ⟨target, role, .inr hcommit, hw, hu⟩ htakes
  · refine Fga.checkWorkspaceAdmin_of_kept ?_ ?_ hcheck
    · intro hk
      rcases h.tuple_kept hk with hkept | hworker | ⟨target, role, hrevoke, heq⟩
      · exact hkept
      · rw [hp] at hworker
        cases hworker
      · simp only [memberTuple, TupleKey.mk.injEq, Subject.user.injEq, FgaObject.workspace.injEq]
          at heq
        exact absurd ⟨target, role, .inl hrevoke, heq.2.2, heq.1⟩ htakes
    · intro k hk hrel
      rcases h.tuple_kept hk with hkept | hworker | ⟨target, role, -, heq⟩
      · exact hkept
      · rw [hp] at hworker
        cases hworker
      · subst heq
        cases role <;> cases hrel <;> contradiction

theorem Moves.ownerPath_kept (h : Moves env s i p reply t) (hp : p.isWorker = false)
    (ho : OwnerPath env s workspace) : OwnerPath env t workspace := by
  obtain ⟨tenant, htenant, owner, hmem, hcheck⟩ := ho
  refine ⟨tenant, htenant, owner, hmem, ?_⟩
  simp only [Fga.isTenantOwner, decide_eq_true_eq] at hcheck ⊢
  rcases h.tuple_kept hcheck with hkept | hworker | ⟨target, role, -, heq⟩
  · exact hkept
  · rw [hp] at hworker
    cases hworker
  · cases role <;> cases heq

theorem Moves.pathWithout_kept (h : Moves env s i p reply t) (hp : p.isWorker = false)
    {excluded : Nat} (takes : ∀ user, p.TakesFrom workspace user → user = excluded)
    (hpath : PathWithout env s workspace excluded) : PathWithout env t workspace excluded := by
  rcases hpath with ⟨user, hne, ha⟩ | ho
  · rcases h.adminPath_kept hp ha with ha | htakes
    · exact .inl ⟨user, hne, ha⟩
    · exact absurd (takes user htakes) hne
  · exact .inr (h.ownerPath_kept hp ho)

theorem PathWithout.path {excluded : Nat} (h : PathWithout env s workspace excluded) :
    ManagementPath env s workspace := by
  rcases h with ⟨user, -, ha⟩ | ho
  · exact .inl ⟨user, ha⟩
  · exact .inr ho

theorem Proc.TakesFrom.user_eq {p : Proc} {target : Target} {role : Role} {user : Nat}
    (h : p.TakesFrom workspace user) (hheld : p.held? = some (target, role)) :
    user = target.user := by
  obtain ⟨other, r, rfl | rfl, -, rfl⟩ := h
  · cases hheld
    rfl
  · cases hheld
    rfl

theorem Moves.management_path_kept (h : Moves env s i p reply t) (hc : p.Consistent s i)
    (hg : p.Guarded env s) (hpath : ManagementPath env s workspace) :
    ManagementPath env t workspace := by
  have hp := hg.not_worker
  rcases hpath with ⟨user, ha⟩ | ho
  · rcases h.adminPath_kept hp ha with ha | ⟨target, role, hstand, rfl, rfl⟩
    · exact .inl ⟨user, ha⟩
    · -- the row that is taken is the one the guard looked past
      have hheld : p.held? = some (target, role) := by
        rcases hstand with rfl | rfl <;> rfl
      have hrole : role = .admin := by
        have hrow := (hc.2 target role hheld).1
        rw [ha.1] at hrow
        exact (Option.some.inj hrow).symm
      have hleft : PathWithout env s target.workspace target.user := by
        rcases hstand with rfl | rfl
        · exact hg hrole
        · exact hg hrole
      exact (h.pathWithout_kept hp (fun u hu => hu.user_eq hheld) hleft).path
  · exact .inr (h.ownerPath_kept hp ho)

theorem Next.guarded (h : Next env s p q) (hg : p.Guarded env s) : q.Guarded env s := by
  cases h with
  | @read target tenant role hrow hne =>
    unfold afterRead
    split
    next => exact hg
    next hrole => exact afterGuard_guarded fun h => absurd h hrole
  | admins hperm => exact ⟨hg, fun admin ha => mem_otherAdmins (hperm.mem_iff.mp ha)⟩
  | @adminPath target tenant role admin rest hcheck =>
    obtain ⟨hne, hrow⟩ := hg.2 admin (List.mem_cons_self ..)
    exact afterGuard_guarded fun _ => .inl ⟨admin, hne, hrow, hcheck⟩
  | nextAdmin => exact ⟨hg.1, fun admin ha => hg.2 admin (List.mem_cons_of_mem _ ha)⟩
  | noAdmin => exact hg.1
  | owners hperm => exact ⟨_, hg, fun owner ho => hperm.mem_iff.mp ho⟩
  | @ownerPath target tenant role owner rest htenant hcheck =>
    obtain ⟨other, hother, hmem⟩ := hg
    rw [htenant] at hother
    cases hother
    exact afterGuard_guarded fun _ =>
      .inr ⟨tenant, htenant, owner, hmem owner (List.mem_cons_self ..), hcheck⟩
  | nextOwner =>
    obtain ⟨tenant, htenant, hmem⟩ := hg
    exact ⟨tenant, htenant, fun owner ho => hmem owner (List.mem_cons_of_mem _ ho)⟩
  | wrote => exact hg
  | deleted => exact hg

theorem Proc.LeadsOut.not_worker (h : p.LeadsOut q) (hp : p.isWorker = false) :
    q.isWorker = false := by
  cases hq : q.isWorker with
  | false => rfl
  | true => rw [h.2 hq] at hp; cases hp

theorem Moves.self_guarded (h : Moves env s i p reply t) (hg : p.Guarded env s) :
    ∃ q, t.procs = s.procs.set i q ∧ q.Guarded env t := by
  have hp := hg.not_worker
  have hm := h
  cases h with
  | quiet outbox hw hq => exact ⟨_, rfl, Proc.guarded_of_outside hq.1 (hq.not_worker hp)⟩
  | insert hfree hnew => exact ⟨_, rfl, rfl⟩
  | write hk hq => exact ⟨_, rfl, Proc.guarded_of_outside hq.1 (hq.not_worker hp)⟩
  | drop k hw hq => rw [hp] at hw; cases hw
  | lock hfree htenant => exact ⟨_, rfl, htenant⟩
  | leave hw hq => exact ⟨_, rfl, Proc.guarded_of_outside hq.1 (hq.not_worker hp)⟩
  | next hn => exact ⟨_, rfl, hn.guarded hg⟩
  | @revoke target role =>
    refine ⟨_, rfl, ?_⟩
    have hleft : role = .admin → PathWithout env _ target.workspace target.user := fun hrole =>
      hm.pathWithout_kept hp (fun u hu => hu.user_eq rfl) (hg hrole)
    unfold afterRevoke
    split <;> exact hleft
  | skipRevoke hchange hmissing => exact ⟨_, rfl, hg⟩
  | @commit target role =>
    obtain ⟨q, hq, hw, hprocs⟩ := commitStep_procs s i target
    exact ⟨q, hprocs, Proc.guarded_of_outside hq hw⟩

/-- Another process is outside of the transaction of `q`, so it cannot take what `q` relies on. -/
theorem Moves.other_guarded (h : Moves env s i p reply t) (hp : p.isWorker = false)
    (hc : p.Consistent s i) {j : Nat} (hj : j ≠ i) (hq : q.Consistent s j)
    (hg : q.Guarded env s) : q.Guarded env t := by
  have apart : ∀ w, q.workspace? = some w → p.workspace? ≠ some w := fun w hw hpw =>
    hj (lock_unique hc hpw (hq.1 w hw))
  have path : ∀ w u, q.workspace? = some w → PathWithout env s w u → PathWithout env t w u := by
    intro w u hw hpath
    refine h.pathWithout_kept hp ?_ hpath
    rintro user ⟨target, role, hstand, rfl, -⟩
    refine absurd ?_ (apart _ hw)
    rcases hstand with rfl | rfl <;> rfl
  cases q with
  | guardAdmins target tenant role todo =>
    refine ⟨hg.1, fun admin ha => ?_⟩
    obtain ⟨hne, hrow⟩ := hg.2 admin ha
    rcases h.role_kept hrow with hkept | ⟨other, r, rfl, hw, -⟩
    · exact ⟨hne, hkept⟩
    · exact absurd (hw ▸ rfl) (apart _ rfl)
  | writeRow target role => exact fun hrole => path _ _ rfl (hg hrole)
  | revoke target role => exact fun hrole => path _ _ rfl (hg hrole)
  | deleteRow target role => exact fun hrole => path _ _ rfl (hg hrole)
  | commit target role => exact fun hrole => path _ _ rfl (hg hrole)
  | _ => exact hg

end Move

/-- No request is in flight and no row is locked. -/
def Idle (s : State) : Prop := s.procs = [] ∧ ∀ workspace, s.locks workspace = none

/-- The three requests alone, with no outbox worker beside them. -/
def fromRequest : State → Act → Prop
  | _, .work _ => False
  | _, _ => True

def GuardInv (env : Env) (workspace : Nat) (s : State) : Prop :=
  Inv s ∧ (∀ (i : Nat) (p : Proc), s.procs[i]? = some p → p.Guarded env s) ∧
    ManagementPath env s workspace

theorem step_guardInv {env : Env} {workspace : Nat} {s t : State} {a : Act}
    (h : GuardInv env workspace s) (hok : fromRequest s a) (hs : step env s a = some t) :
    GuardInv env workspace t := by
  obtain ⟨hi, hg, hpath⟩ := h
  refine ⟨step_inv hi hs, ?_⟩
  rcases step_cases hs with ⟨p, rfl, hp, hworker⟩ | ⟨i, p, reply, hp, hm, -⟩
  · refine ⟨forall_push (Proc.guarded_of_outside hp ?_) fun j q hq => hg j q hq, hpath⟩
    cases hw : p.isWorker with
    | false => rfl
    | true =>
      obtain ⟨row, rfl⟩ := hworker hw
      exact hok.elim
  · refine ⟨?_, hm.management_path_kept (hi i p hp) (hg i p hp) hpath⟩
    obtain ⟨q, hprocs, hself⟩ := hm.self_guarded (hg i p hp)
    rw [hprocs]
    exact forall_set hp hself fun j r hj hr =>
      hm.other_guarded (hg i p hp).not_worker (hi i p hp) hj (hi j r hr) (hg j r hr)

/-- Last-admin guard: a workspace with a management path has one in every state that the
requests reach, whatever the OpenFGA calls answer. -/
theorem last_admin_guard (env : Env) (workspace : Nat) {s : State}
    (h : Reach (fun s => Idle s ∧ ManagementPath env s workspace) (step env) fromRequest s) :
    ManagementPath env s workspace := by
  have hinv : GuardInv env workspace s := by
    refine h.invariant ?_ fun s t a hi hok hs => step_guardInv hi hok hs
    rintro s ⟨⟨hprocs, -⟩, hpath⟩
    refine ⟨?_, ?_, hpath⟩
    · intro i p hp
      rw [hprocs] at hp
      cases hp
    · intro i p hp
      rw [hprocs] at hp
      cases hp
  exact hinv.2.2

def sampleEnv : Env := ⟨fun _ => some 0, fun _ => [], 5⟩

def twoAdmins : State where
  members := (AList.singleton (0, 1) Role.admin).insert (0, 2) Role.admin
  tuples := {memberTuple 0 1 .admin, memberTuple 0 2 .admin}
  outbox := []
  locks := fun _ => none
  procs := []

/-- Admin 1 removes admin 2. -/
def removal : List Act :=
  [.removeMember 1 0 2, .advance 0 (.checked (.ok true)), .advance 0 (.sql true),
    .advance 0 (.sql true), .advance 0 (.listed [1]), .advance 0 (.checked (.ok true)),
    .advance 0 (.called .done), .advance 0 (.sql true), .advance 0 (.sql true)]

def oneAdmin : State := (run (step sampleEnv) twoAdmins removal).getD twoAdmins

theorem last_admin_guard_removal :
    oneAdmin.role 0 2 = none ∧ ManagementPath sampleEnv oneAdmin 0 := by
  have hr : run (step sampleEnv) twoAdmins removal = some oneAdmin := rfl
  have hstart : Idle twoAdmins ∧ ManagementPath sampleEnv twoAdmins 0 :=
    ⟨⟨rfl, fun _ => rfl⟩, .inl ⟨1, rfl, by decide⟩⟩
  have hmeets : Meets (step sampleEnv) fromRequest twoAdmins removal := by
    repeat' first | exact trivial | refine ⟨trivial, fun t _ => ?_⟩
  exact ⟨rfl, last_admin_guard sampleEnv 0 (Reach.of_run (.start hstart) hmeets hr)⟩

end GmragApi.Members

import GmragApi.Fga
import GmragApi.Userset
import Mathlib.Data.Finset.Union

/-! The authorization model: what each relation of platforms, tenants, workspaces and documents
means, and that the checks of the service are its checks. -/

namespace GmragApi.Fga

open Userset (Rewrite View Holds)

/-- The relations of the model: those that the service names, and `tenant_owner`. -/
inductive ModelRelation
  | of (relation : Relation)
  | tenantOwner
  deriving DecidableEq

/-- `model.fga`. -/
def modelRule : FgaObject → ModelRelation → Option (Rewrite ModelRelation)
  | .platform, .of .admin => some .direct
  | .tenant _, .of .platform => some .direct
  | .tenant _, .of .owner => some .direct
  | .tenant _, .of .admin =>
    some (.union (.computed (.of .owner)) (.linked (.of .platform) (.of .admin)))
  | .workspace _, .of .tenant => some .direct
  | .workspace _, .tenantOwner => some (.linked (.of .tenant) (.of .owner))
  | .workspace _, .of .admin => some (.union .direct (.computed .tenantOwner))
  | .workspace _, .of .member => some (.union .direct (.computed (.of .admin)))
  | .workspace _, .of .canAssignRole => some (.computed .tenantOwner)
  | .workspace _, .of .canManageMember => some (.union .direct (.computed (.of .admin)))
  | .document _, .of .workspace => some .direct
  | .document _, .of .owner => some .direct
  | .document _, .of .explicitViewer => some .direct
  | .document _, .of .bypassViewer => some (.linked (.of .workspace) .tenantOwner)
  | _, _ => none

/-- The types that a relation takes in its tuples: `[user]`, `[platform]`, `[tenant]` or
`[workspace]`. -/
def admits : FgaObject → Relation → Subject → Bool
  | .platform, .admin, .user _ => true
  | .tenant _, .platform, .object .platform => true
  | .tenant _, .owner, .user _ => true
  | .workspace _, .tenant, .object (.tenant _) => true
  | .workspace _, .admin, .user _ => true
  | .workspace _, .member, .user _ => true
  | .workspace _, .canManageMember, .user _ => true
  | .document _, .workspace, .object (.workspace _) => true
  | .document _, .owner, .user _ => true
  | .document _, .explicitViewer, .user _ => true
  | _, _, _ => false

def subjectObjects : Subject → Finset FgaObject
  | .user _ => ∅
  | .object o => {o}

def storeView (store : Store) : View Subject FgaObject ModelRelation where
  direct o r u :=
    match r with
    | .of relation => decide (⟨u, relation, o⟩ ∈ store) && admits o relation u
    | .tenantOwner => false
  linked o r :=
    match r with
    | .of relation =>
      (store.filter fun k => k.object = o ∧ k.relation = relation ∧
        admits o relation k.user = true).biUnion fun k => subjectObjects k.user
    | .tenantOwner => ∅

/-- How many relations a relation goes through. -/
def modelRank : FgaObject → ModelRelation → Nat
  | .tenant _, .of .admin => 1
  | .workspace _, .tenantOwner => 1
  | .workspace _, .of .admin => 2
  | .workspace _, .of .canAssignRole => 2
  | .workspace _, .of .member => 3
  | .workspace _, .of .canManageMember => 3
  | .document _, .of .bypassViewer => 2
  | _, _ => 0

/-- `check` on a store: no relation goes through more than three others. -/
def modelCheck (store : Store) (user : Nat) (relation : Relation) (o : FgaObject) : Bool :=
  Userset.check modelRule (storeView store) (.user user) 4 o (.of relation)

/-- The user holds the relation by the rules of the model. -/
def Grants (store : Store) (user : Nat) (relation : ModelRelation) (o : FgaObject) : Prop :=
  Holds modelRule (storeView store) (.user user) o relation

section Meaning

variable {store : Store} {user tenant workspace document : Nat} {o o' : FgaObject}
  {relation : Relation}

theorem mem_linked : o' ∈ (storeView store).linked o (.of relation) ↔
    ⟨.object o', relation, o⟩ ∈ store ∧ admits o relation (.object o') = true := by
  simp only [storeView, Finset.mem_biUnion, Finset.mem_filter]
  constructor
  · rintro ⟨⟨subject, r, object⟩, ⟨hk, rfl, rfl, hadmits⟩, ho⟩
    cases subject with
    | user id => exact absurd ho (Finset.notMem_empty _)
    | object o'' =>
      rw [Finset.mem_singleton.mp ho]
      exact ⟨hk, hadmits⟩
  · rintro ⟨hk, hadmits⟩
    exact ⟨_, ⟨hk, rfl, rfl, hadmits⟩, Finset.mem_singleton_self _⟩

theorem direct_iff : (storeView store).direct o (.of relation) (.user user) = true ↔
    ⟨.user user, relation, o⟩ ∈ store ∧ admits o relation (.user user) = true := by
  simp [storeView]

theorem linked_platform (h : o ∈ (storeView store).linked (.tenant tenant) (.of .platform)) :
    o = .platform := by
  have hadmits := (mem_linked.mp h).2
  cases o with
  | platform => rfl
  | _ => cases hadmits

theorem linked_tenant (h : o ∈ (storeView store).linked (.workspace workspace) (.of .tenant)) :
    ∃ tenant, o = .tenant tenant := by
  have hadmits := (mem_linked.mp h).2
  cases o with
  | tenant tenant => exact ⟨tenant, rfl⟩
  | _ => cases hadmits

theorem linked_workspace (h : o ∈ (storeView store).linked (.document document) (.of .workspace)) :
    ∃ workspace, o = .workspace workspace := by
  have hadmits := (mem_linked.mp h).2
  cases o with
  | workspace workspace => exact ⟨workspace, rfl⟩
  | _ => cases hadmits

theorem model_ranked (store : Store) : Userset.Ranked modelRule (storeView store) modelRank := by
  intro o r e he
  cases o with
  | platform =>
    cases r with
    | tenantOwner => cases he
    | of relation =>
      cases relation <;> cases he
      trivial
  | tenant t =>
    cases r with
    | tenantOwner => cases he
    | of relation =>
      cases relation <;> cases he <;> try trivial
      refine ⟨Nat.zero_lt_one, fun o' ho => ?_⟩
      rw [linked_platform ho]
      exact Nat.zero_lt_one
  | workspace w =>
    cases r with
    | tenantOwner =>
      cases he
      intro o' ho
      obtain ⟨t, rfl⟩ := linked_tenant ho
      exact Nat.zero_lt_one
    | of relation =>
      cases relation <;> cases he
      all_goals
        first | trivial | exact ⟨trivial, Nat.lt_succ_self _⟩ | exact Nat.lt_succ_self _
  | document d =>
    cases r with
    | tenantOwner => cases he
    | of relation =>
      cases relation <;> cases he <;> try trivial
      intro o' ho
      obtain ⟨w, rfl⟩ := linked_workspace ho
      exact Nat.lt_succ_self _

theorem modelRank_lt (o : FgaObject) (r : ModelRelation) : modelRank o r < 4 := by
  unfold modelRank
  split <;> omega

/-- The check decides what the rules derive. -/
theorem modelCheck_iff :
    modelCheck store user relation o = true ↔ Grants store user (.of relation) o :=
  Userset.check_eq_true_iff (model_ranked store) (modelRank_lt o _)

/-- A rule that is there says what the relation means. -/
theorem grants_iff {r : ModelRelation} {e : Rewrite ModelRelation} (h : modelRule o r = some e) :
    Grants store user r o ↔
      Userset.Satisfies modelRule (storeView store) (.user user) o r e :=
  Userset.holds_iff h

theorem grants_owner_tenant : Grants store user (.of .owner) (.tenant tenant) ↔
    ⟨.user user, .owner, .tenant tenant⟩ ∈ store := by
  rw [grants_iff rfl, Userset.satisfies_direct_iff, direct_iff]
  exact and_iff_left rfl

theorem grants_admin_platform : Grants store user (.of .admin) .platform ↔
    ⟨.user user, .admin, .platform⟩ ∈ store := by
  rw [grants_iff rfl, Userset.satisfies_direct_iff, direct_iff]
  exact and_iff_left rfl

theorem grants_admin_tenant : Grants store user (.of .admin) (.tenant tenant) ↔
    ⟨.user user, .owner, .tenant tenant⟩ ∈ store ∨
      ⟨.object .platform, .platform, .tenant tenant⟩ ∈ store ∧
        ⟨.user user, .admin, .platform⟩ ∈ store := by
  rw [grants_iff rfl, Userset.satisfies_union_iff, Userset.satisfies_computed_iff,
    Userset.satisfies_linked_iff]
  refine or_congr grants_owner_tenant ?_
  constructor
  · rintro ⟨o', ho, hadmin⟩
    rw [linked_platform ho] at hadmin ho
    exact ⟨(mem_linked.mp ho).1, grants_admin_platform.mp hadmin⟩
  · rintro ⟨hlink, hadmin⟩
    exact ⟨.platform, mem_linked.mpr ⟨hlink, rfl⟩, grants_admin_platform.mpr hadmin⟩

theorem grants_tenantOwner : Grants store user .tenantOwner (.workspace workspace) ↔
    ∃ tenant, ⟨.object (.tenant tenant), .tenant, .workspace workspace⟩ ∈ store ∧
      ⟨.user user, .owner, .tenant tenant⟩ ∈ store := by
  rw [grants_iff rfl, Userset.satisfies_linked_iff]
  constructor
  · rintro ⟨o', ho, howner⟩
    obtain ⟨tenant, rfl⟩ := linked_tenant ho
    exact ⟨tenant, (mem_linked.mp ho).1, grants_owner_tenant.mp howner⟩
  · rintro ⟨tenant, hlink, howner⟩
    exact ⟨.tenant tenant, mem_linked.mpr ⟨hlink, rfl⟩, grants_owner_tenant.mpr howner⟩

theorem grants_admin : Grants store user (.of .admin) (.workspace workspace) ↔
    ⟨.user user, .admin, .workspace workspace⟩ ∈ store ∨
      Grants store user .tenantOwner (.workspace workspace) := by
  rw [grants_iff rfl, Userset.satisfies_union_iff, Userset.satisfies_direct_iff,
    Userset.satisfies_computed_iff, direct_iff]
  exact or_congr (and_iff_left rfl) Iff.rfl

theorem grants_member : Grants store user (.of .member) (.workspace workspace) ↔
    ⟨.user user, .member, .workspace workspace⟩ ∈ store ∨
      Grants store user (.of .admin) (.workspace workspace) := by
  rw [grants_iff rfl, Userset.satisfies_union_iff, Userset.satisfies_direct_iff,
    Userset.satisfies_computed_iff, direct_iff]
  exact or_congr (and_iff_left rfl) Iff.rfl

theorem grants_canManageMember : Grants store user (.of .canManageMember) (.workspace workspace) ↔
    ⟨.user user, .canManageMember, .workspace workspace⟩ ∈ store ∨
      Grants store user (.of .admin) (.workspace workspace) := by
  rw [grants_iff rfl, Userset.satisfies_union_iff, Userset.satisfies_direct_iff,
    Userset.satisfies_computed_iff, direct_iff]
  exact or_congr (and_iff_left rfl) Iff.rfl

theorem grants_canAssignRole : Grants store user (.of .canAssignRole) (.workspace workspace) ↔
    Grants store user .tenantOwner (.workspace workspace) := by
  rw [grants_iff rfl, Userset.satisfies_computed_iff]
  rfl

theorem grants_explicitViewer : Grants store user (.of .explicitViewer) (.document document) ↔
    ⟨.user user, .explicitViewer, .document document⟩ ∈ store := by
  rw [grants_iff rfl, Userset.satisfies_direct_iff, direct_iff]
  exact and_iff_left rfl

theorem grants_bypassViewer : Grants store user (.of .bypassViewer) (.document document) ↔
    ∃ workspace, ⟨.object (.workspace workspace), .workspace, .document document⟩ ∈ store ∧
      Grants store user .tenantOwner (.workspace workspace) := by
  rw [grants_iff rfl, Userset.satisfies_linked_iff]
  constructor
  · rintro ⟨o', ho, howner⟩
    obtain ⟨workspace, rfl⟩ := linked_workspace ho
    exact ⟨workspace, (mem_linked.mp ho).1, howner⟩
  · rintro ⟨workspace, hlink, howner⟩
    exact ⟨.workspace workspace, mem_linked.mpr ⟨hlink, rfl⟩, howner⟩

end Meaning

section Service

variable {store : Store} {user workspace tenant : Nat}

theorem isWorkspaceTenantOwner_iff : isWorkspaceTenantOwner store user workspace = true ↔
    Grants store user .tenantOwner (.workspace workspace) := by
  rw [grants_tenantOwner, isWorkspaceTenantOwner, decide_eq_true_eq]
  constructor
  · rintro ⟨⟨subject, r, object⟩, hk, rfl, rfl, howns⟩
    cases subject with
    | user id => cases howns
    | object o =>
      cases o with
      | tenant tenant => exact ⟨tenant, hk, of_decide_eq_true howns⟩
      | _ => cases howns
  · rintro ⟨tenant, hlink, howner⟩
    exact ⟨_, hlink, rfl, rfl, decide_eq_true howner⟩

/-- The checks that the requests on members make are those of the model. -/
theorem checkWorkspaceAdmin_eq :
    checkWorkspaceAdmin store user workspace = modelCheck store user .admin (.workspace workspace) := by
  rw [Bool.eq_iff_iff, modelCheck_iff, grants_admin, checkWorkspaceAdmin, Bool.or_eq_true,
    decide_eq_true_eq, isWorkspaceTenantOwner_iff]

theorem checkCanManageMember_eq : checkCanManageMember store user workspace =
    modelCheck store user .canManageMember (.workspace workspace) := by
  rw [Bool.eq_iff_iff, modelCheck_iff, grants_canManageMember, checkCanManageMember,
    Bool.or_eq_true, decide_eq_true_eq, checkWorkspaceAdmin_eq, modelCheck_iff]

theorem checkCanAssignRole_eq : checkCanAssignRole store user workspace =
    modelCheck store user .canAssignRole (.workspace workspace) := by
  rw [Bool.eq_iff_iff, modelCheck_iff, grants_canAssignRole, checkCanAssignRole,
    isWorkspaceTenantOwner_iff]

theorem isTenantOwner_eq :
    isTenantOwner store user tenant = modelCheck store user .owner (.tenant tenant) := by
  rw [Bool.eq_iff_iff, modelCheck_iff, grants_owner_tenant, isTenantOwner, decide_eq_true_eq]

end Service

end GmragApi.Fga

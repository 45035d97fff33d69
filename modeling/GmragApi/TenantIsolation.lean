import GmragApi.AuthorizationModel
import GmragApi.MemberConfinement
import GmragApi.ResourceMoves

/-! Authority stays inside of a tenant: what the tuples of the store say of tenants, workspaces and
documents, over every run of the requests, the workers and the cleanup. -/

namespace GmragApi.ResourceTuples

open DocumentAcl (explicitViewerTuple)
open Members (Role memberTuple)
open Fga (modelCheck Grants)

/-- The row of the object is there, or was. -/
def State.Known (s : State) (o : FgaObject) : Prop := s.has o = true ∨ o ∈ s.removed

/-- A tuple that the rows of SQL bear out: owners are owners there, and links name the tenant of
the workspace and the workspace of the document. No barred user is a member. -/
def Placed (barred : Nat → Nat → Prop) (s : State) (t : TupleKey) : Prop :=
  match t.user, t.relation, t.object with
  | .user _, .admin, .platform => True
  | .object .platform, .platform, .tenant _ => True
  | .user u, .owner, .tenant tenant => u ∈ s.tenantOwners tenant
  | .object (.tenant tenant), .tenant, .workspace w =>
    s.Known (.workspace w) ∧ s.tenantOf w = tenant
  | .user u, .admin, .workspace w => ¬barred w u
  | .user u, .member, .workspace w => ¬barred w u
  | .object (.workspace w), .workspace, .document d =>
    s.Known (.document d) ∧ (s.document d).workspace = w
  | .user _, .explicitViewer, .document _ => True
  | _, _, _ => False

/-- The tuples that a request still has to write or to enqueue. -/
def Proc.carried : Proc → List TupleKey
  | linkingDocument workspace document => [documentWorkspaceTuple workspace document]
  | granting todo => todo
  | recovering t todo => t :: todo
  | _ => []

/-- The owner that a request still has to add. -/
def Proc.adds : Proc → Option (Nat × Nat)
  | addingOwner tenant user => some (tenant, user)
  | _ => none

/-- A request that writes what is placed, and adds no owner who is barred. -/
def Proc.Isolated (barred : Nat → Nat → Prop) (s : State) (p : Proc) : Prop :=
  (∀ t ∈ p.carried, Placed barred s t) ∧
    ∀ tenant user, p.adds = some (tenant, user) → ∀ w, barred w user → s.tenantOf w ≠ tenant

/-- What the store and the outbox hold is placed, and barred users have neither a row nor a
tenant of their own to come in by. -/
structure Isolated (barred : Nat → Nat → Prop) (s : State) : Prop where
  tuples : ∀ t ∈ s.tuples, Placed barred s t
  outbox : WritesOnly (Placed barred s) s.outbox
  rows : ∀ w u role, s.members.lookup (w, u) = some role → ¬barred w u
  documentProcs : ∀ p ∈ s.documentProcs, ∀ t, p.carried = some t → Placed barred s t
  memberProcs : ∀ p ∈ s.memberProcs, p.Confined barred (Placed barred s)
  procs : ∀ p ∈ s.procs, p.Isolated barred s
  known : ∀ w u, barred w u → s.Known (.workspace w)
  strangers : ∀ w u, barred w u → u ∉ s.tenantOwners (s.tenantOf w)

/-- Rows go, but what they said is not unsaid: no row comes back with another tenant. -/
structure Extends (s t : State) : Prop where
  known : ∀ o, s.Known o → t.Known o
  owners : ∀ tenant u, u ∈ s.tenantOwners tenant → u ∈ t.tenantOwners tenant
  tenantOf : ∀ w, s.Known (.workspace w) → t.tenantOf w = s.tenantOf w
  workspaceOf : ∀ d, s.Known (.document d) → (t.document d).workspace = (s.document d).workspace

section Placement

variable {barred : Nat → Nat → Prop} {s t : State} {k : TupleKey} {p q : Proc}

theorem Extends.of_columns (hknown : ∀ o, s.Known o → t.Known o)
    (howners : t.tenantOwners = s.tenantOwners) (htenants : t.tenantOf = s.tenantOf)
    (hdocuments : t.document = s.document) : Extends s t := by
  refine ⟨hknown, fun tenant u hu => ?_, fun w _ => ?_, fun d _ => ?_⟩
  · rw [howners]
    exact hu
  · rw [htenants]
  · rw [hdocuments]

theorem Placed.extend (h : Placed barred s k) (he : Extends s t) : Placed barred t k := by
  unfold Placed at h ⊢
  split at h
  · trivial
  · trivial
  · exact he.owners _ _ h
  · exact ⟨he.known _ h.1, (he.tenantOf _ h.1).trans h.2⟩
  · exact h
  · exact h
  · exact ⟨he.known _ h.1, (he.workspaceOf _ h.1).trans h.2⟩
  · trivial
  · exact h.elim

theorem placed_memberTuple {w u : Nat} {role : Role} (h : ¬barred w u) :
    Placed barred s (memberTuple w u role) := by
  cases role <;> exact h

theorem placed_explicitViewer (d u : Nat) : Placed barred s (explicitViewerTuple d u) := trivial

theorem Proc.Isolated.extend (hp : p.Isolated barred s) (he : Extends s t)
    (hknown : ∀ w u, barred w u → s.Known (.workspace w)) : p.Isolated barred t := by
  refine ⟨fun k hk => (hp.1 k hk).extend he, fun tenant user ha w hw => ?_⟩
  rw [he.tenantOf w (hknown w user hw)]
  exact hp.2 tenant user ha w hw

theorem Proc.isolated_of (hc : q.carried = []) (ha : q.adds = none) : q.Isolated barred s := by
  refine ⟨fun k hk => ?_, fun tenant user h => ?_⟩
  · rw [hc] at hk
    exact absurd hk List.not_mem_nil
  · rw [ha] at h
    cases h

theorem Proc.isolated_carries (h : ∀ k ∈ q.carried, Placed barred s k) (ha : q.adds = none) :
    q.Isolated barred s := by
  refine ⟨h, fun tenant user h => ?_⟩
  rw [ha] at h
  cases h

end Placement

section Authority

variable {barred : Nat → Nat → Prop} {s : State} {store : Fga.Store} {u w d tenant : Nat}
  {relation : Relation}

/-- Who owns the tenant of a workspace by the tuples does so by the rows of SQL. -/
theorem grants_tenantOwner_placed (h : ∀ k ∈ store, Placed barred s k)
    (hg : Grants store u .tenantOwner (.workspace w)) :
    s.Known (.workspace w) ∧ u ∈ s.tenantOwners (s.tenantOf w) := by
  obtain ⟨tenant, hlink, howner⟩ := Fga.grants_tenantOwner.mp hg
  obtain ⟨hknown, rfl⟩ : s.Known (.workspace w) ∧ s.tenantOf w = tenant := h _ hlink
  exact ⟨hknown, h _ howner⟩

theorem grants_admin_placed (h : ∀ k ∈ store, Placed barred s k)
    (hg : Grants store u (.of .admin) (.workspace w)) :
    (∃ role, memberTuple w u role ∈ store) ∨
      s.Known (.workspace w) ∧ u ∈ s.tenantOwners (s.tenantOf w) := by
  rcases Fga.grants_admin.mp hg with hdirect | howner
  · exact .inl ⟨.admin, hdirect⟩
  · exact .inr (grants_tenantOwner_placed h howner)

/-- A user without the relation's rule holds it by a tuple alone, or not at all. -/
theorem grants_workspace_placed (h : ∀ k ∈ store, Placed barred s k)
    (hg : Grants store u (.of relation) (.workspace w)) :
    (∃ role, memberTuple w u role ∈ store) ∨
      s.Known (.workspace w) ∧ u ∈ s.tenantOwners (s.tenantOf w) := by
  cases relation with
  | admin => exact grants_admin_placed h hg
  | member =>
    rcases Fga.grants_member.mp hg with hdirect | hadmin
    · exact .inl ⟨.member, hdirect⟩
    · exact grants_admin_placed h hadmin
  | canManageMember =>
    rcases Fga.grants_canManageMember.mp hg with hdirect | hadmin
    · exact (h _ hdirect).elim
    · exact grants_admin_placed h hadmin
  | canAssignRole => exact .inr (grants_tenantOwner_placed h (Fga.grants_canAssignRole.mp hg))
  | tenant =>
    have hadmits := (Fga.direct_iff.mp ((Userset.satisfies_direct_iff).mp
      ((Fga.grants_iff rfl).mp hg))).2
    cases hadmits
  | _ => exact absurd hg (Userset.not_holds_of_none rfl)

end Authority

theorem grants_document_placed {barred : Nat → Nat → Prop} {s : State} {store : Fga.Store}
    {u d : Nat} {relation : Relation} (h : ∀ k ∈ store, Placed barred s k)
    (hg : Grants store u (.of relation) (.document d)) :
    explicitViewerTuple d u ∈ store ∨
      s.Known (.document d) ∧ u ∈ s.tenantOwners (s.tenantOf (s.document d).workspace) := by
  cases relation with
  | explicitViewer => exact .inl (Fga.grants_explicitViewer.mp hg)
  | bypassViewer =>
    obtain ⟨w, hlink, howner⟩ := Fga.grants_bypassViewer.mp hg
    obtain ⟨hknown, rfl⟩ : s.Known (.document d) ∧ (s.document d).workspace = w := h _ hlink
    exact .inr ⟨hknown, (grants_tenantOwner_placed h howner).2⟩
  | owner =>
    have hdirect := Fga.direct_iff.mp (Userset.satisfies_direct_iff.mp ((Fga.grants_iff rfl).mp hg))
    exact (h _ hdirect.1).elim
  | workspace =>
    have hdirect := Fga.direct_iff.mp (Userset.satisfies_direct_iff.mp ((Fga.grants_iff rfl).mp hg))
    cases hdirect.2
  | _ => exact absurd hg (Userset.not_holds_of_none rfl)

theorem grants_tenant_placed {barred : Nat → Nat → Prop} {s : State} {store : Fga.Store}
    {u tenant : Nat} {relation : Relation} (h : ∀ k ∈ store, Placed barred s k)
    (hg : Grants store u (.of relation) (.tenant tenant)) :
    u ∈ s.tenantOwners tenant ∨ ⟨.user u, .admin, .platform⟩ ∈ store := by
  cases relation with
  | owner => exact .inl (h _ (Fga.grants_owner_tenant.mp hg))
  | admin =>
    rcases Fga.grants_admin_tenant.mp hg with howner | ⟨-, hadmin⟩
    · exact .inl (h _ howner)
    · exact .inr hadmin
  | platform =>
    have hdirect := Fga.direct_iff.mp (Userset.satisfies_direct_iff.mp ((Fga.grants_iff rfl).mp hg))
    cases hdirect.2
  | _ => exact absurd hg (Userset.not_holds_of_none rfl)

/-- A barred user passes no check of the workspace. -/
theorem bars_placed {barred : Nat → Nat → Prop} {s : State}
    (strangers : ∀ w u, barred w u → u ∉ s.tenantOwners (s.tenantOf w)) :
    Members.Bars barred (Placed barred s) := by
  have hnone : ∀ store : Fga.Store, (∀ k ∈ store, Placed barred s k) → ∀ w u, barred w u →
      ∀ relation, ¬Grants store u (.of relation) (.workspace w) := by
    intro store hstore w u hu relation hg
    rcases grants_workspace_placed hstore hg with ⟨role, hmember⟩ | ⟨-, howner⟩
    · have hplaced := hstore _ hmember
      cases role <;> exact hplaced hu
    · exact strangers w u hu howner
  refine ⟨fun w u role h => placed_memberTuple h, fun store hstore w u hu => ?_,
    fun store hstore w u hu => ?_⟩
  · rw [Fga.checkCanManageMember_eq, Bool.eq_false_iff]
    exact fun h => hnone store hstore w u hu _ (Fga.modelCheck_iff.mp h)
  · rw [Fga.checkCanAssignRole_eq, Bool.eq_false_iff]
    exact fun h => hnone store hstore w u hu _ (Fga.modelCheck_iff.mp h)

section Steps

variable {barred : Nat → Nat → Prop} {s t : State} {i : Nat} {p q : Proc} {answer : Answer}

theorem Isolated.acl (hs : Isolated barred s) : DocumentAcl.Confined (Placed barred s) s.acl :=
  ⟨hs.tuples, hs.outbox, hs.documentProcs⟩

theorem Isolated.team (hs : Isolated barred s) :
    Members.Confined barred (Placed barred s) s.team :=
  ⟨hs.tuples, hs.outbox, hs.rows, hs.memberProcs⟩

theorem Isolated.goto (hs : Isolated barred s) (hq : q.Isolated barred s) :
    Isolated barred (s.goto i q) := by
  refine ⟨hs.tuples, hs.outbox, hs.rows, hs.documentProcs, hs.memberProcs, fun p hp => ?_,
    hs.known, hs.strangers⟩
  rcases List.mem_or_eq_of_mem_set hp with hp | rfl
  · exact hs.procs p hp
  · exact hq

theorem Isolated.gotoOf (hs : Isolated barred s) (hc : q.carried = []) (ha : q.adds = none) :
    Isolated barred (s.goto i q) :=
  hs.goto (Proc.isolated_of hc ha)

theorem Isolated.leaveDone {target : Target} (hs : Isolated barred s) :
    Isolated barred (s.leave i target .done) := by
  cases target with
  | document w d =>
    exact Isolated.gotoOf ⟨hs.tuples, hs.outbox, hs.rows, hs.documentProcs, hs.memberProcs,
      hs.procs, hs.known, hs.strangers⟩ rfl rfl
  | workspace w =>
    exact Isolated.gotoOf ⟨hs.tuples, hs.outbox, hs.rows, hs.documentProcs, hs.memberProcs,
      hs.procs, hs.known, hs.strangers⟩ rfl rfl

theorem Isolated.lock {target : Target} (hs : Isolated barred s) :
    Isolated barred (s.lock i target) := by
  cases target with
  | document w d =>
    exact ⟨hs.tuples, hs.outbox, hs.rows, hs.documentProcs, hs.memberProcs, hs.procs, hs.known,
      hs.strangers⟩
  | workspace w =>
    exact ⟨hs.tuples, hs.outbox, hs.rows, hs.documentProcs, hs.memberProcs, hs.procs, hs.known,
      hs.strangers⟩

theorem Isolated.withTuples {tuples : Fga.Store} (hs : Isolated barred s)
    (h : ∀ k ∈ tuples, Placed barred s k) : Isolated barred { s with tuples := tuples } :=
  ⟨h, hs.outbox, hs.rows, hs.documentProcs, hs.memberProcs, hs.procs, hs.known, hs.strangers⟩

/-- What changes tables alone keeps the isolation, as long as it extends what they say. -/
theorem Isolated.extend (hs : Isolated barred s) (he : Extends s t) (htuples : t.tuples = s.tuples)
    (houtbox : t.outbox = s.outbox) (hdocument : t.documentProcs = s.documentProcs)
    (hmember : t.memberProcs = s.memberProcs) (hprocs : t.procs = s.procs)
    (hrows : ∀ w u role, t.members.lookup (w, u) = some role → ¬barred w u)
    (hstrangers : ∀ w u, barred w u → u ∉ t.tenantOwners (t.tenantOf w)) :
    Isolated barred t where
  tuples k hk := by
    rw [htuples] at hk
    exact (hs.tuples k hk).extend he
  outbox r hr k hk := by
    rw [houtbox] at hr
    exact (hs.outbox r hr k hk).extend he
  rows := hrows
  documentProcs p hp k hk := by
    rw [hdocument] at hp
    exact (hs.documentProcs p hp k hk).extend he
  memberProcs p hp := by
    rw [hmember] at hp
    have hconfined := hs.memberProcs p hp
    exact ⟨fun k hk => (hconfined.carried k hk).extend he, hconfined.named, hconfined.asked⟩
  procs p hp := by
    rw [hprocs] at hp
    exact (hs.procs p hp).extend he hs.known
  known w u hu := he.known _ (hs.known w u hu)
  strangers := hstrangers

theorem lockTarget_isolated {target : Target} {found : Bool} (hs : Isolated barred s)
    (hc : q.carried = []) (ha : q.adds = none) (h : lockTarget s i target found q = some t) :
    Isolated barred t := by
  unfold lockTarget at h
  split at h
  · obtain ⟨-, h⟩ := Option.ite_none_left_eq_some.mp h
    cases Option.some.inj h
    exact hs.lock.gotoOf hc ha
  · cases Option.some.inj h
    exact hs.gotoOf rfl rfl

theorem listRows_isolated {target : Target} {rows : Finset TupleKey} {next : List TupleKey → Proc}
    (hs : Isolated barred s) (hc : ∀ tuples, (next tuples).carried = [])
    (ha : ∀ tuples, (next tuples).adds = none) (h : listRows s i target rows next answer = some t) :
    Isolated barred t := by
  unfold listRows at h
  split at h
  · obtain ⟨-, h⟩ := Option.ite_none_right_eq_some.mp h
    cases Option.some.inj h
    exact hs.gotoOf (hc _) (ha _)
  · cases Option.some.inj h
    exact hs.leaveDone
  · cases h

theorem writeTuple_isolated {k : TupleKey} {reply : Fga.WriteReply} {next failed : Proc}
    (hs : Isolated barred s) (hk : Placed barred s k) (hnext : next.Isolated barred s)
    (hfailed : failed.Isolated barred s) (h : writeTuple s i k reply next failed = some t) :
    Isolated barred t := by
  obtain ⟨tuples, hw, rfl⟩ := Option.map_eq_some_iff.mp h
  have hs' := hs.withTuples (forall_mem_write hs.tuples hk hw)
  split
  · exact hs'.goto hnext
  · exact hs'.goto hfailed

theorem loseWrite_isolated {k : TupleKey} {failed : Proc} (hs : Isolated barred s)
    (hk : Placed barred s k) (hfailed : failed.Isolated barred s) :
    Isolated barred (loseWrite s i k failed) := by
  have hs' : Isolated barred { s with tuples := insert k s.tuples } := by
    refine hs.withTuples fun l hl => ?_
    rcases Finset.mem_insert.mp hl with rfl | hl
    · exact hk
    · exact hs.tuples l hl
  exact hs'.goto hfailed

theorem deleteTupleFgaFirst_isolated {k : TupleKey} {reply : Fga.WriteReply}
    {deleted missing : Proc} {failed : State} (hs : Isolated barred s) (hd : deleted.carried = [])
    (hda : deleted.adds = none) (hm : missing.carried = []) (hma : missing.adds = none)
    (hf : Isolated barred failed)
    (h : deleteTupleFgaFirst s i k reply deleted missing failed = some t) :
    Isolated barred t := by
  obtain ⟨tuples, hdel, h⟩ := Option.map_eq_some_iff.mp h
  split at h
  · rw [← h]
    exact (hs.withTuples (forall_mem_delete hs.tuples hdel)).gotoOf hd hda
  · split at h
    · rw [← h]
      exact hs.gotoOf hm hma
    · rw [← h]
      exact hf

theorem unused_unknown {o : FgaObject} (h : s.unused o = true) : ¬s.Known o := by
  simp only [State.unused, Bool.and_eq_true, decide_eq_true_eq, Bool.not_eq_true'] at h
  rintro (hhas | hremoved)
  · rw [h.1.1.2] at hhas
    cases hhas
  · exact h.1.1.1 hremoved

theorem known_workspace {w : Nat} : s.Known (.workspace w) ↔
    w ∈ s.workspaces ∨ .workspace w ∈ s.removed :=
  or_congr_left decide_eq_true_iff

theorem known_document {d : Nat} : s.Known (.document d) ↔
    d ∈ s.documents ∨ .document d ∈ s.removed :=
  or_congr_left decide_eq_true_iff

/-- Tables that only grow know no less. -/
theorem Known.grow {o : FgaObject} (h : s.Known o) (htenants : s.tenants ⊆ t.tenants)
    (hworkspaces : s.workspaces ⊆ t.workspaces) (hdocuments : s.documents ⊆ t.documents)
    (hremoved : s.removed ⊆ t.removed) : t.Known o := by
  rcases h with hhas | hgone
  · refine .inl ?_
    cases o with
    | platform => exact hhas
    | tenant id => exact decide_eq_true (htenants (of_decide_eq_true hhas))
    | workspace id => exact decide_eq_true (hworkspaces (of_decide_eq_true hhas))
    | document id => exact decide_eq_true (hdocuments (of_decide_eq_true hhas))
  · exact .inr (hremoved hgone)

theorem insertTenant_isolated {tenant : Nat} (hs : Isolated barred s)
    (h : insertTenant s i tenant = some t) : Isolated barred t := by
  obtain ⟨-, h⟩ := Option.ite_none_right_eq_some.mp h
  cases Option.some.inj h
  have hgrown : Isolated barred { s with tenants := insert tenant s.tenants } := by
    refine hs.extend (Extends.of_columns (fun o ho => ?_) rfl rfl rfl) rfl rfl rfl rfl rfl hs.rows
      hs.strangers
    exact Known.grow ho (Finset.subset_insert _ _) subset_rfl subset_rfl subset_rfl
  refine hgrown.goto (Proc.isolated_carries (fun k hk => ?_) rfl)
  rw [List.mem_singleton.mp hk]
  trivial

theorem mem_addOwner {owners : Nat → List Nat} {tenant tenant' user u : Nat} :
    u ∈ Function.update owners tenant (if user ∈ owners tenant then owners tenant
      else owners tenant ++ [user]) tenant' ↔
      u ∈ owners tenant' ∨ tenant' = tenant ∧ u = user := by
  by_cases heq : tenant' = tenant
  · subst heq
    rw [Function.update_self]
    split
    next h =>
      refine ⟨.inl, ?_⟩
      rintro (hu | ⟨-, rfl⟩)
      · exact hu
      · exact h
    next => simp [List.mem_append]
  · simp [heq]

/-- A new owner is barred from no workspace of the tenant. -/
theorem insertOwner_isolated {tenant user : Nat} (hs : Isolated barred s)
    (hp : ∀ w, barred w user → s.tenantOf w ≠ tenant) :
    Isolated barred (insertOwner s i tenant user) := by
  unfold insertOwner
  split
  · have hgrown : Isolated barred { s with
        tenantOwners := Function.update s.tenantOwners tenant (if user ∈ s.tenantOwners tenant then
          s.tenantOwners tenant else s.tenantOwners tenant ++ [user]) } := by
      refine hs.extend ⟨fun o ho => ho, fun _ _ hu => mem_addOwner.mpr (.inl hu), fun w _ => rfl,
        fun d _ => rfl⟩ rfl rfl rfl rfl rfl hs.rows fun w u hu hmem => ?_
      rcases mem_addOwner.mp hmem with hmem | ⟨htenant, rfl⟩
      · exact hs.strangers w u hu hmem
      · exact hp w hu htenant
    refine hgrown.goto (Proc.isolated_carries (fun k hk => ?_) rfl)
    rw [List.mem_singleton.mp hk]
    exact mem_addOwner.mpr (.inr ⟨rfl, rfl⟩)
  · exact hs.gotoOf rfl rfl

/-- A new workspace is known to nobody, so nobody is barred from it. -/
theorem insertWorkspace_isolated {tenant workspace user : Nat} (hs : Isolated barred s)
    (h : insertWorkspace s i tenant workspace user = some t) : Isolated barred t := by
  unfold insertWorkspace at h
  split at h
  · obtain ⟨hunused, h⟩ := Option.ite_none_right_eq_some.mp h
    cases Option.some.inj h
    have hnew := unused_unknown hunused
    have hfree : ∀ u, ¬barred workspace u := fun u hu => hnew (hs.known workspace u hu)
    have hother : ∀ w, s.Known (.workspace w) → w ≠ workspace := by
      rintro w hw rfl
      exact hnew hw
    have hgrown : Isolated barred { s with
        workspaces := insert workspace s.workspaces
        tenantOf := Function.update s.tenantOf workspace tenant
        members := s.members.insert (workspace, user) .admin } := by
      refine hs.extend ⟨fun o ho => ?_, fun _ _ hu => hu, fun w hw => ?_, fun d _ => rfl⟩
        rfl rfl rfl rfl rfl (fun w u role hrole => ?_) fun w u hu => ?_
      · exact Known.grow ho subset_rfl (Finset.subset_insert _ _) subset_rfl subset_rfl
      · exact Function.update_of_ne (hother w hw) _ _
      · by_cases heq : (w, u) = (workspace, user)
        · rw [(Prod.mk.inj heq).1]
          exact hfree u
        · exact hs.rows w u role ((AList.lookup_insert_ne heq).symm.trans hrole)
      · show u ∉ s.tenantOwners (Function.update s.tenantOf workspace tenant w)
        rw [Function.update_of_ne (hother w (hs.known w u hu))]
        exact hs.strangers w u hu
    refine hgrown.goto (Proc.isolated_carries (fun k hk => ?_) rfl)
    rcases List.mem_cons.mp hk with rfl | hk
    · exact ⟨known_workspace.mpr (.inl (Finset.mem_insert_self _ _)), Function.update_self _ _ _⟩
    · rw [List.mem_singleton.mp hk]
      exact placed_memberTuple (hfree user)
  · cases Option.some.inj h
    exact hs.gotoOf rfl rfl

theorem insertDocument_isolated {workspace document : Nat} {mode : DocumentAcl.DocumentAccessMode}
    (hs : Isolated barred s) (h : insertDocument s i workspace document mode = some t) :
    Isolated barred t := by
  unfold insertDocument at h
  split at h
  · obtain ⟨⟨-, hunused⟩, h⟩ := Option.ite_none_right_eq_some.mp h
    cases Option.some.inj h
    have hnew := unused_unknown hunused
    have hgrown : Isolated barred { s with
        documents := insert document s.documents
        document := Function.update s.document document ⟨workspace, mode⟩ } := by
      refine hs.extend ⟨fun o ho => ?_, fun _ _ hu => hu, fun w _ => rfl, fun d hd => ?_⟩
        rfl rfl rfl rfl rfl hs.rows hs.strangers
      · exact Known.grow ho subset_rfl subset_rfl (Finset.subset_insert _ _) subset_rfl
      · have hne : d ≠ document := by
          rintro rfl
          exact hnew hd
        simp [Function.update_of_ne hne]
    refine hgrown.goto (Proc.isolated_carries (fun k hk => ?_) rfl)
    rw [List.mem_singleton.mp hk]
    exact ⟨known_document.mpr (.inl (Finset.mem_insert_self _ _)), by simp⟩
  · cases Option.some.inj h
    exact hs.gotoOf rfl rfl

/-- The rows that a deletion takes away are remembered. -/
theorem drop_isolated {target : Target} (hs : Isolated barred s) :
    Isolated barred (s.drop target) := by
  refine hs.extend (Extends.of_columns (fun o ho => ?_) rfl rfl rfl) rfl rfl rfl rfl rfl
    (fun w u role hrole => ?_) hs.strangers
  · by_cases hgone : o ∈ s.objectsOf target
    · exact .inr (Finset.mem_union_left _ hgone)
    · rcases ho with hhas | hremoved
      · refine .inl ?_
        cases o with
        | platform => exact hhas
        | tenant id => exact hhas
        | workspace id =>
          exact decide_eq_true (Finset.mem_filter.mpr ⟨of_decide_eq_true hhas, hgone⟩)
        | document id =>
          exact decide_eq_true (Finset.mem_filter.mpr ⟨of_decide_eq_true hhas, hgone⟩)
      · exact .inr (Finset.mem_union_right _ hremoved)
  · have hmem := AList.mem_lookup_iff.mp hrole
    exact hs.rows w u role (AList.mem_lookup_iff.mpr (List.mem_filter.mp hmem).1)

theorem advance_deletion_isolated (hs : Isolated barred s) (hp : p.target?.isSome ∨
      (∃ w d, p = .lockingDocument w d) ∨ (∃ w, p = .lockingWorkspace w) ∨
      ∃ w d, p = .removingRow w d) (h : advance s i p answer = some t) : Isolated barred t := by
  obtain hp | ⟨w, d, rfl⟩ | ⟨w, rfl⟩ | ⟨w, d, rfl⟩ := hp
  · cases p with
    | listingShares w d => exact listRows_isolated hs (fun _ => rfl) (fun _ => rfl) h
    | listingMembers w tenant => exact listRows_isolated hs (fun _ => rfl) (fun _ => rfl) h
    | listingDocuments w plan => exact listRows_isolated hs (fun _ => rfl) (fun _ => rfl) h
    | listingWorkspaceShares w plan => exact listRows_isolated hs (fun _ => rfl) (fun _ => rfl) h
    | revoking target todo =>
      cases todo with
      | nil =>
        cases answer with
        | sql ok =>
          cases ok with
          | true =>
            obtain ⟨-, h⟩ := Option.ite_none_right_eq_some.mp h
            cases Option.some.inj h
            exact (drop_isolated hs).leaveDone
          | false =>
            cases Option.some.inj h
            exact hs.leaveDone
        | _ => cases h
      | cons k rest =>
        cases answer with
        | called reply => exact deleteTupleFgaFirst_isolated hs rfl rfl rfl rfl hs.leaveDone h
        | _ => cases h
    | _ => cases hp
  · cases answer with
    | sql ok =>
      cases ok with
      | true => exact lockTarget_isolated hs rfl rfl h
      | false =>
        cases Option.some.inj h
        exact hs.gotoOf rfl rfl
    | _ => cases h
  · cases answer with
    | sql ok =>
      cases ok with
      | true => exact lockTarget_isolated hs rfl rfl h
      | false =>
        cases Option.some.inj h
        exact hs.gotoOf rfl rfl
    | _ => cases h
  · cases answer with
    | sql ok =>
      cases ok with
      | true =>
        obtain ⟨-, h⟩ := Option.ite_none_right_eq_some.mp h
        cases Option.some.inj h
        exact (drop_isolated hs).gotoOf rfl rfl
      | false =>
        cases Option.some.inj h
        exact hs.gotoOf rfl rfl
    | _ => cases h

theorem advance_cleanup_isolated (hs : Isolated barred s) {delete : Bool}
    (hp : p = .loadingTenants delete ∨ (∃ inventory, p = .loadingWorkspaces delete inventory) ∨
      (∃ inventory, p = .loadingDocuments delete inventory) ∨
      (∃ inventory tuples, p = .listingTuples delete inventory tuples) ∨
      ∃ inventory tuples, p = .reporting delete inventory tuples)
    (h : advance s i p answer = some t) : Isolated barred t := by
  obtain rfl | ⟨inventory, rfl⟩ | ⟨inventory, rfl⟩ | ⟨inventory, tuples, rfl⟩ |
    ⟨inventory, tuples, rfl⟩ := hp
  · cases answer with
    | sql ok => cases ok <;> cases Option.some.inj h <;> exact hs.gotoOf rfl rfl
    | _ => cases h
  · cases answer with
    | sql ok => cases ok <;> cases Option.some.inj h <;> exact hs.gotoOf rfl rfl
    | _ => cases h
  · cases answer with
    | sql ok => cases ok <;> cases Option.some.inj h <;> exact hs.gotoOf rfl rfl
    | _ => cases h
  · cases answer with
    | page listed last =>
      obtain ⟨-, h⟩ := Option.ite_none_right_eq_some.mp h
      cases last <;> cases Option.some.inj h <;> exact hs.gotoOf rfl rfl
    | called reply =>
      cases reply with
      | done => cases h
      | failed e =>
        cases Option.some.inj h
        exact hs.gotoOf rfl rfl
    | _ => cases h
  · cases answer with
    | rows todo =>
      obtain ⟨-, h⟩ := Option.ite_none_right_eq_some.mp h
      cases delete <;> cases Option.some.inj h <;> exact hs.gotoOf rfl rfl
    | _ => cases h

/-- The grants that follow a new row, each written or, where the call failed, enqueued. -/
theorem advance_grant_isolated (hs : Isolated barred s) (hp : p.Isolated barred s)
    (hw : (∃ todo, p = .granting todo) ∨ ∃ k todo, p = .recovering k todo)
    (h : advance s i p answer = some t) : Isolated barred t := by
  obtain ⟨todo, rfl⟩ | ⟨k, todo, rfl⟩ := hw
  · cases todo with
    | nil =>
      cases answer with
      | sql ok =>
        cases Option.some.inj h
        exact hs.gotoOf rfl rfl
      | _ => cases h
    | cons k rest =>
      cases answer with
      | called reply =>
        have hrest : ∀ k ∈ rest, Placed barred s k := fun k hk => hp.1 k (List.mem_cons_of_mem _ hk)
        exact writeTuple_isolated hs (hp.1 k List.mem_cons_self)
          (Proc.isolated_carries (q := .granting rest) hrest rfl)
          (Proc.isolated_carries (q := .recovering k rest) hp.1 rfl) h
      | lost =>
        cases Option.some.inj h
        exact loseWrite_isolated hs (hp.1 k List.mem_cons_self)
          (Proc.isolated_carries (q := .recovering k rest) hp.1 rfl)
      | _ => cases h
  · have hrest : ∀ k' ∈ todo, Placed barred s k' :=
      fun k' hk => hp.1 k' (List.mem_cons_of_mem _ hk)
    cases answer with
    | sql ok =>
      cases ok with
      | true =>
        cases Option.some.inj h
        have henqueued : Isolated barred { s with outbox := s.outbox ++ [enqueueTupleWrite k] } :=
          ⟨hs.tuples, writesOnly_enqueueTupleWrite hs.outbox (hp.1 k List.mem_cons_self), hs.rows,
            hs.documentProcs, hs.memberProcs, hs.procs, hs.known, hs.strangers⟩
        exact henqueued.goto (Proc.isolated_carries hrest rfl)
      | false =>
        cases Option.some.inj h
        exact hs.goto (Proc.isolated_carries hrest rfl)
    | _ => cases h

theorem advance_isolated (hs : Isolated barred s) (hp : p.Isolated barred s)
    (h : advance s i p answer = some t) : Isolated barred t := by
  cases p with
  | lockingDocument w d =>
    exact advance_deletion_isolated hs (.inr (.inl ⟨w, d, rfl⟩)) h
  | listingShares w d => exact advance_deletion_isolated hs (.inl rfl) h
  | lockingWorkspace w => exact advance_deletion_isolated hs (.inr (.inr (.inl ⟨w, rfl⟩))) h
  | listingMembers w tenant => exact advance_deletion_isolated hs (.inl rfl) h
  | listingDocuments w plan => exact advance_deletion_isolated hs (.inl rfl) h
  | listingWorkspaceShares w plan => exact advance_deletion_isolated hs (.inl rfl) h
  | revoking target todo => exact advance_deletion_isolated hs (.inl rfl) h
  | uploading w d mode =>
    cases answer with
    | sql ok =>
      cases ok with
      | true => exact insertDocument_isolated hs h
      | false =>
        cases Option.some.inj h
        exact hs.gotoOf rfl rfl
    | _ => cases h
  | linkingDocument w d =>
    cases answer with
    | called reply =>
      exact writeTuple_isolated hs (hp.1 _ List.mem_cons_self) (Proc.isolated_of rfl rfl)
        (Proc.isolated_of rfl rfl) h
    | lost =>
      cases Option.some.inj h
      exact loseWrite_isolated hs (hp.1 _ List.mem_cons_self) (Proc.isolated_of rfl rfl)
    | _ => cases h
  | removingRow w d =>
    exact advance_deletion_isolated hs (.inr (.inr (.inr ⟨w, d, rfl⟩))) h
  | creatingTenant tenant =>
    cases answer with
    | sql ok =>
      cases ok with
      | true => exact insertTenant_isolated hs h
      | false =>
        cases Option.some.inj h
        exact hs.gotoOf rfl rfl
    | _ => cases h
  | addingOwner tenant user =>
    cases answer with
    | sql ok =>
      cases ok with
      | true =>
        cases Option.some.inj h
        exact insertOwner_isolated hs (hp.2 tenant user rfl)
      | false =>
        cases Option.some.inj h
        exact hs.gotoOf rfl rfl
    | _ => cases h
  | creatingWorkspace tenant w user =>
    cases answer with
    | sql ok =>
      cases ok with
      | true => exact insertWorkspace_isolated hs h
      | false =>
        cases Option.some.inj h
        exact hs.gotoOf rfl rfl
    | _ => cases h
  | granting todo => exact advance_grant_isolated hs hp (.inl ⟨todo, rfl⟩) h
  | recovering k todo => exact advance_grant_isolated hs hp (.inr ⟨k, todo, rfl⟩) h
  | loadingTenants delete => exact advance_cleanup_isolated hs (.inl rfl) h
  | loadingWorkspaces delete inventory =>
    exact advance_cleanup_isolated hs (.inr (.inl ⟨_, rfl⟩)) h
  | loadingDocuments delete inventory =>
    exact advance_cleanup_isolated hs (.inr (.inr (.inl ⟨_, rfl⟩))) h
  | listingTuples delete inventory tuples =>
    exact advance_cleanup_isolated hs (.inr (.inr (.inr (.inl ⟨_, _, rfl⟩)))) h
  | reporting delete inventory tuples =>
    exact advance_cleanup_isolated hs (.inr (.inr (.inr (.inr ⟨_, _, rfl⟩)))) h
  | removing todo removed =>
    cases todo with
    | nil =>
      cases answer with
      | sql ok =>
        cases Option.some.inj h
        exact hs.gotoOf rfl rfl
      | _ => cases h
    | cons k rest =>
      cases answer with
      | called reply =>
        exact deleteTupleFgaFirst_isolated hs rfl rfl rfl rfl (hs.gotoOf rfl rfl) h
      | _ => cases h
  | cleaned removed => cases answer <;> cases h
  | done => cases answer <;> cases h

theorem start_isolated (hs : Isolated barred s) (hp : p.Isolated barred s) :
    Isolated barred (s.start p) := by
  refine ⟨hs.tuples, hs.outbox, hs.rows, hs.documentProcs, hs.memberProcs, fun q hq => ?_,
    hs.known, hs.strangers⟩
  rcases List.mem_append.mp hq with hq | hq
  · exact hs.procs q hq
  · rw [List.mem_singleton.mp hq]
    exact hp

/-- Columns of a document change, its workspace does not. -/
theorem withAcl_extends {maxRetries : Int} {a : DocumentAcl.Act} {acl : DocumentAcl.State}
    (h : DocumentAcl.step maxRetries s.acl a = some acl) : Extends s (s.withAcl acl) := by
  refine ⟨fun o ho => ho, fun _ _ hu => hu, fun w _ => rfl, fun d _ => ?_⟩
  by_cases hd : d ∈ s.documents
  · exact withAcl_workspace h hd
  · have hw := DocumentAcl.step_workspace h d
    simp only [State.acl, if_neg hd, Option.map_none, Option.map_eq_none_iff] at hw
    simp [State.withAcl, hw]

/-- Nobody but a barred user adds a barred user, and no barred user is made an owner of the
tenant. -/
def Keeps (barred : Nat → Nat → Prop) (s : State) : Act → Prop
  | .team a => Members.Asked barred a
  | .addTenantOwner tenant user => ∀ w, barred w user → s.tenantOf w ≠ tenant
  | _ => True

theorem step_isolated {maxRetries : Int} {a : Act} (hs : Isolated barred s)
    (ha : Keeps barred s a) (h : step maxRetries s a = some t) : Isolated barred t := by
  cases a with
  | acl a =>
    obtain ⟨acl, hacl, rfl⟩ := Option.map_eq_some_iff.mp h
    have hconfined := DocumentAcl.step_confined placed_explicitViewer hs.acl hacl
    have he := withAcl_extends hacl
    refine ⟨fun k hk => (hconfined.tuples k hk).extend he,
      fun r hr k hk => (hconfined.outbox r hr k hk).extend he, hs.rows,
      fun p hp k hk => (hconfined.procs p hp k hk).extend he, fun p hp => ?_,
      fun p hp => (hs.procs p hp).extend he hs.known, hs.known, hs.strangers⟩
    have hp := hs.memberProcs p hp
    exact ⟨fun k hk => (hp.carried k hk).extend he, hp.named, hp.asked⟩
  | team a =>
    obtain ⟨team, hteam, rfl⟩ := Option.map_eq_some_iff.mp h
    have hconfined := Members.step_confined (bars_placed hs.strangers) hs.team ha hteam
    exact ⟨hconfined.tuples, hconfined.outbox, hconfined.rows, hs.documentProcs, hconfined.procs,
      hs.procs, hs.known, hs.strangers⟩
  | addTenantOwner tenant user =>
    cases Option.some.inj h
    exact start_isolated hs ⟨nofun, fun _ _ heq => by cases heq; exact ha⟩
  | cleanup delete yes =>
    obtain ⟨-, h⟩ := Option.ite_none_left_eq_some.mp h
    cases Option.some.inj h
    exact start_isolated hs (Proc.isolated_of rfl rfl)
  | advance i answer =>
    simp only [step] at h
    split at h
    next p hp => exact advance_isolated hs (hs.procs p (List.mem_of_getElem? hp)) h
    next => cases h
  | abort i =>
    simp only [step] at h
    split at h
    next p hp =>
      obtain ⟨-, h⟩ := Option.ite_none_left_eq_some.mp h
      cases Option.some.inj h
      unfold abortStep
      split
      · exact hs.leaveDone
      · cases p <;> exact hs.gotoOf rfl rfl
    next => cases h
  | _ =>
    cases Option.some.inj h
    exact start_isolated hs (Proc.isolated_of rfl rfl)

end Steps

/-- Before any request: what the store and the outbox hold agrees with the rows, and the barred
users are outside of their workspaces. -/
structure Founded (barred : Nat → Nat → Prop) (s : State) : Prop where
  procs : s.procs = []
  documentProcs : s.documentProcs = []
  memberProcs : s.memberProcs = []
  tuples : ∀ t ∈ s.tuples, Placed barred s t
  outbox : WritesOnly (Placed barred s) s.outbox
  rows : ∀ w u role, s.members.lookup (w, u) = some role → ¬barred w u
  known : ∀ w u, barred w u → s.Known (.workspace w)
  strangers : ∀ w u, barred w u → u ∉ s.tenantOwners (s.tenantOf w)

theorem Founded.isolated {barred : Nat → Nat → Prop} {s : State} (h : Founded barred s) :
    Isolated barred s where
  tuples := h.tuples
  outbox := h.outbox
  rows := h.rows
  documentProcs p hp := by
    rw [h.documentProcs] at hp
    exact absurd hp List.not_mem_nil
  memberProcs p hp := by
    rw [h.memberProcs] at hp
    exact absurd hp List.not_mem_nil
  procs p hp := by
    rw [h.procs] at hp
    exact absurd hp List.not_mem_nil
  known := h.known
  strangers := h.strangers

/-- Two tenants, each with an owner and a workspace. -/
def twoTenants : State where
  tenants := {0, 1}
  tenantOwners := fun tenant => if tenant = 0 then [3] else if tenant = 1 then [4] else []
  workspaces := {0, 1}
  tenantOf := fun w => w
  documents := {0}
  document := fun _ => ⟨0, .restricted⟩
  shares := ∅
  members := ∅
  tuples := {tenantOwnerTuple 0 3, tenantOwnerTuple 1 4, workspaceTenantTuple 0 0,
    workspaceTenantTuple 1 1, documentWorkspaceTuple 0 0}
  outbox := []
  documentLocks := fun _ => none
  workspaceLocks := fun _ => none
  documentProcs := []
  memberProcs := []
  procs := []
  removed := ∅

theorem twoTenants_founded {barred : Nat → Nat → Prop}
    (h : ∀ w u, barred w u → w = 0 ∧ u = 4) : Founded barred twoTenants where
  procs := rfl
  documentProcs := rfl
  memberProcs := rfl
  tuples := by
    intro t ht
    simp only [twoTenants, Finset.mem_insert, Finset.mem_singleton] at ht
    rcases ht with rfl | rfl | rfl | rfl | rfl
    · exact List.mem_singleton_self _
    · exact List.mem_singleton_self _
    · exact ⟨known_workspace.mpr (.inl (by decide)), rfl⟩
    · exact ⟨known_workspace.mpr (.inl (by decide)), rfl⟩
    · exact ⟨known_document.mpr (.inl (by decide)), rfl⟩
  outbox r hr := absurd hr List.not_mem_nil
  rows w u role hrole := by
    rw [twoTenants, AList.lookup_empty] at hrole
    cases hrole
  known w u hu := by
    obtain ⟨rfl, rfl⟩ := h w u hu
    exact known_workspace.mpr (.inl (by decide))
  strangers w u hu := by
    obtain ⟨rfl, rfl⟩ := h w u hu
    decide

/-- The owner of the other tenant asks to become an admin, and creates a workspace. -/
def strangerAsks : List Act :=
  [.team (.addMember 4 0 4 .admin), .team (.advance 0 (.checked (.ok false))),
    .createWorkspace 1 5 4, .advance 0 (.sql true), .advance 0 (.called .done),
    .advance 0 (.called .done)]

/-- Whatever runs beside what, authority over a workspace comes from a tuple on that workspace or
from owning its tenant in SQL, over a document from a share of it or from owning the tenant of its
workspace, and over a tenant from owning it or from the platform. -/
theorem authority_from_own_tuple_or_tenant {maxRetries : Int} {s : State}
    (h : Transition.Reach (Founded fun _ _ => False) (step maxRetries) Transition.anyStep s)
    (u : Nat) (relation : Relation) :
    (∀ w, modelCheck s.tuples u relation (.workspace w) = true →
      (∃ role, memberTuple w u role ∈ s.tuples) ∨
        s.Known (.workspace w) ∧ u ∈ s.tenantOwners (s.tenantOf w)) ∧
    (∀ d, modelCheck s.tuples u relation (.document d) = true →
      explicitViewerTuple d u ∈ s.tuples ∨
        s.Known (.document d) ∧ u ∈ s.tenantOwners (s.tenantOf (s.document d).workspace)) ∧
    ∀ tenant, modelCheck s.tuples u relation (.tenant tenant) = true →
      u ∈ s.tenantOwners tenant ∨ ⟨.user u, .admin, .platform⟩ ∈ s.tuples := by
  have hs : Isolated (fun _ _ => False) s :=
    h.invariant (fun _ hs => hs.isolated) fun s t a hs _ hstep => step_isolated hs (by
      cases a with
      | team a => cases a <;> first | trivial | exact fun hu => hu.elim
      | addTenantOwner tenant user => exact fun _ hu => hu.elim
      | _ => trivial) hstep
  refine ⟨fun w hc => ?_, fun d hc => ?_, fun tenant hc => ?_⟩
  · exact grants_workspace_placed hs.tuples (Fga.modelCheck_iff.mp hc)
  · exact grants_document_placed hs.tuples (Fga.modelCheck_iff.mp hc)
  · exact grants_tenant_placed hs.tuples (Fga.modelCheck_iff.mp hc)

theorem authority_from_own_tuple_or_tenant_sample :
    ∃ t, Transition.run (step 5) twoTenants strangerAsks = some t ∧
      modelCheck t.tuples 3 .bypassViewer (.document 0) = true ∧
      modelCheck t.tuples 4 .admin (.workspace 5) = true ∧
      ((∃ role, memberTuple 5 4 role ∈ t.tuples) ∨
        t.Known (.workspace 5) ∧ 4 ∈ t.tenantOwners (t.tenantOf 5)) := by
  have hrun : (Transition.run (step 5) twoTenants strangerAsks).any (fun t =>
      modelCheck t.tuples 3 .bypassViewer (.document 0) &&
        modelCheck t.tuples 4 .admin (.workspace 5)) = true := by decide +kernel
  obtain ⟨t, ht, h⟩ := (Option.any_eq_true _ _).mp hrun
  obtain ⟨hviewer, hadmin⟩ := Bool.and_eq_true_iff.mp h
  have hreach : Transition.Reach (Founded fun _ _ => False) (step 5) Transition.anyStep t :=
    .of_free_run (twoTenants_founded nofun) ht
  exact ⟨t, ht, hviewer, hadmin,
    (authority_from_own_tuple_or_tenant hreach 4 .admin).1 5 hadmin⟩

end GmragApi.ResourceTuples

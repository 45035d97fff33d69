import GmragApi.TupleOrigins

/-! Users who are kept out of a workspace: nobody but one who manages its members can let them in. -/

namespace GmragApi

namespace Members

/-- A tuple that a process carries to a later call or statement. -/
def Proc.carried : Proc → Option TupleKey
  | enqueueWrite t => some t
  | workTuple _ _ .tupleWrite t => some t
  | workSync _ _ _ write => write
  | _ => none

/-- The member to whom a process gives a role, or whose role it has read. -/
def Proc.named : Proc → Option (Nat × Nat)
  | addInsert workspace user _ => some (workspace, user)
  | addGrant workspace user _ => some (workspace, user)
  | grant workspace user _ _ => some (workspace, user)
  | listAdmins target _ _ => some (target.workspace, target.user)
  | guardAdmins target _ _ _ => some (target.workspace, target.user)
  | listOwners target _ _ => some (target.workspace, target.user)
  | guardOwners target _ _ => some (target.workspace, target.user)
  | writeRow target _ => some (target.workspace, target.user)
  | revoke target _ => some (target.workspace, target.user)
  | deleteRow target _ => some (target.workspace, target.user)
  | commit target _ => some (target.workspace, target.user)
  | _ => none

/-- Who asks to add whom, before the request has passed its checks. -/
def Proc.asked : Proc → Option (Nat × Nat × Nat)
  | addCheck actor workspace user _ => some (actor, workspace, user)
  | addCheckAssign actor workspace user _ => some (actor, workspace, user)
  | _ => none

/-- A process that gives nothing to a barred user: who adds one is barred as well. -/
structure Proc.Confined (barred : Nat → Nat → Prop) (P : TupleKey → Prop) (p : Proc) : Prop where
  carried : ∀ t, p.carried = some t → P t
  named : ∀ w u, p.named = some (w, u) → ¬barred w u
  asked : ∀ actor w u, p.asked = some (actor, w, u) → barred w u → barred w actor

/-- No barred user has a row, and nothing but what `P` allows is in the store or on its way. -/
structure Confined (barred : Nat → Nat → Prop) (P : TupleKey → Prop) (s : State) : Prop where
  tuples : ∀ t ∈ s.tuples, P t
  outbox : WritesOnly P s.outbox
  rows : ∀ w u role, s.role w u = some role → ¬barred w u
  procs : ∀ p ∈ s.procs, p.Confined barred P

/-- What `P` allows and forbids: the tuples of members that are not barred, and authority of those
that are. -/
structure Bars (barred : Nat → Nat → Prop) (P : TupleKey → Prop) : Prop where
  member : ∀ w u role, ¬barred w u → P (memberTuple w u role)
  manages : ∀ store : Fga.Store, (∀ t ∈ store, P t) → ∀ w u, barred w u →
    Fga.checkCanManageMember store u w = false
  assigns : ∀ store : Fga.Store, (∀ t ∈ store, P t) → ∀ w u, barred w u →
    Fga.checkCanAssignRole store u w = false

section Steps

variable {barred : Nat → Nat → Prop} {P : TupleKey → Prop} {env : Env} {s t : State} {i : Nat}
  {p q : Proc} {reply : Reply}

theorem Proc.confined_of (hc : q.carried = none) (hn : q.named = none) (ha : q.asked = none) :
    q.Confined barred P := by
  refine ⟨fun t h => ?_, fun w u h => ?_, fun actor w u h => ?_⟩
  · rw [hc] at h
    cases h
  · rw [hn] at h
    cases h
  · rw [ha] at h
    cases h

theorem Proc.confined_named {w u : Nat} (hu : ¬barred w u) (hc : q.carried = none)
    (hn : q.named = some (w, u)) (ha : q.asked = none) : q.Confined barred P := by
  refine ⟨fun t h => ?_, fun w' u' h => ?_, fun actor w u h => ?_⟩
  · rw [hc] at h
    cases h
  · rw [hn] at h
    cases h
    exact hu
  · rw [ha] at h
    cases h

theorem Proc.confined_carried {k : TupleKey} (hk : P k) (hc : q.carried = some k)
    (hn : q.named = none) (ha : q.asked = none) : q.Confined barred P := by
  refine ⟨fun t h => ?_, fun w u h => ?_, fun actor w u h => ?_⟩
  · rw [hc] at h
    cases h
    exact hk
  · rw [hn] at h
    cases h
  · rw [ha] at h
    cases h

theorem Confined.goto (hs : Confined barred P s) (hq : q.Confined barred P) :
    Confined barred P (s.goto i q) := by
  refine ⟨hs.tuples, hs.outbox, hs.rows, fun p hp => ?_⟩
  rcases List.mem_or_eq_of_mem_set hp with hp | rfl
  · exact hs.procs p hp
  · exact hq

theorem Confined.unlock {workspace : Nat} (hs : Confined barred P s) :
    Confined barred P (s.unlock workspace) :=
  ⟨hs.tuples, hs.outbox, hs.rows, hs.procs⟩

theorem Confined.leave {workspace : Nat} (hs : Confined barred P s) (hq : q.Confined barred P) :
    Confined barred P (s.leave i workspace q) :=
  hs.unlock.goto hq

theorem Confined.gotoDone (hs : Confined barred P s) : Confined barred P (s.goto i .done) :=
  hs.goto (Proc.confined_of rfl rfl rfl)

theorem Confined.leaveDone {workspace : Nat} (hs : Confined barred P s) :
    Confined barred P (s.leave i workspace .done) :=
  hs.leave (Proc.confined_of rfl rfl rfl)

theorem Confined.withTuples {tuples : Fga.Store} (hs : Confined barred P s)
    (h : ∀ t ∈ tuples, P t) : Confined barred P { s with tuples := tuples } :=
  ⟨h, hs.outbox, hs.rows, hs.procs⟩

theorem Confined.withOutbox {outbox : List AuthzRow} (hs : Confined barred P s)
    (h : WritesOnly P outbox) : Confined barred P { s with outbox := outbox } :=
  ⟨hs.tuples, h, hs.rows, hs.procs⟩

theorem Confined.insertRow {workspace user : Nat} {role : Role} (hs : Confined barred P s)
    (hu : ¬barred workspace user) :
    Confined barred P { s with members := s.members.insert (workspace, user) role } := by
  refine ⟨hs.tuples, hs.outbox, fun w u r hr => ?_, hs.procs⟩
  by_cases heq : (w, u) = (workspace, user)
  · obtain ⟨rfl, rfl⟩ := Prod.mk.inj heq
    exact hu
  · have hold : s.role w u = some r := (AList.lookup_insert_ne heq).symm.trans hr
    exact hs.rows w u r hold

theorem Confined.eraseRow {workspace user : Nat} (hs : Confined barred P s) :
    Confined barred P { s with members := s.members.erase (workspace, user) } := by
  refine ⟨hs.tuples, hs.outbox, fun w u r hr => ?_, hs.procs⟩
  by_cases heq : (w, u) = (workspace, user)
  · have hnone : (s.members.erase (workspace, user)).lookup (w, u) = none := by
      rw [heq]
      exact AList.lookup_erase _ _
    cases hnone.symm.trans hr
  · have hold : s.role w u = some r := (AList.lookup_erase_ne heq).symm.trans hr
    exact hs.rows w u r hold

theorem checkStep_confined {actual : Bool} {r : Except AuthzError Bool}
    (hs : Confined barred P s) (hq : actual = true → q.Confined barred P)
    (h : checkStep s i actual r q = some t) : Confined barred P t := by
  obtain ⟨hr, h⟩ := Option.ite_none_right_eq_some.mp h
  split at h
  all_goals cases Option.some.inj h
  · have hactual : actual = true := by simpa [Fga.checkReply] using hr
    exact hs.goto (hq hactual)
  · exact hs.gotoDone

theorem guardStep_confined {actual : Bool} {r : Except AuthzError Bool} {target : Target}
    {found next : Proc} (hs : Confined barred P s) (hfound : found.Confined barred P)
    (hnext : next.Confined barred P) (h : guardStep s i actual r target found next = some t) :
    Confined barred P t := by
  obtain ⟨-, h⟩ := Option.ite_none_right_eq_some.mp h
  split at h
  all_goals cases Option.some.inj h
  · exact hs.goto hfound
  · exact hs.goto hnext
  · exact hs.leaveDone

theorem writeStep_confined {k : TupleKey} {r : Fga.WriteReply} (hs : Confined barred P s)
    (hk : P k) (hq : q.Confined barred P) (h : writeStep s i k r q = some t) :
    Confined barred P t := by
  obtain ⟨tuples, hw, rfl⟩ := Option.map_eq_some_iff.mp h
  exact (hs.withTuples (forall_mem_write hs.tuples hk hw)).goto hq

theorem deleteStep_confined {k : TupleKey} {r : Fga.WriteReply} (hs : Confined barred P s)
    (hq : q.Confined barred P) (h : deleteStep s i k r q = some t) : Confined barred P t := by
  obtain ⟨tuples, hd, rfl⟩ := Option.map_eq_some_iff.mp h
  exact (hs.withTuples (forall_mem_delete hs.tuples hd)).goto hq

theorem updateRow_confined {row : Nat} {f : AuthzRow → AuthzRow} {ok : Bool}
    (hs : Confined barred P s) (hf : ∀ r, (f r).task = r.task) :
    Confined barred P (updateRow s i row f ok) := by
  cases ok with
  | true => exact (hs.withOutbox (writesOnly_modify hs.outbox hf)).gotoDone
  | false => exact hs.gotoDone

theorem enqueue_confined {r : AuthzRow} {ok : Bool} (hs : Confined barred P s)
    (hr : WritesOnly P (s.outbox ++ [r])) : Confined barred P (enqueue s i r ok) := by
  cases ok with
  | true => exact (hs.withOutbox hr).gotoDone
  | false => exact hs.gotoDone

theorem settled_confined {event : AuthzOutboxEventType} {row : Nat} {n : Int}
    (hq : q.Confined barred P) (r : Fga.WriteReply) :
    (settled event row n q r).Confined barred P := by
  unfold settled
  split
  · exact hq
  · split
    · exact hq
    · exact Proc.confined_of rfl rfl rfl

theorem syncNext_confined {row : Nat} {n : Int} {deletes : List TupleKey}
    {write : Option TupleKey} (h : ∀ k, write = some k → P k) :
    (syncNext row n deletes write).Confined barred P := by
  unfold syncNext
  split
  · exact Proc.confined_of rfl rfl rfl
  · exact ⟨h, nofun, nofun⟩

theorem afterGuard_confined {target : Target} {role : Role}
    (hu : ¬barred target.workspace target.user) : (afterGuard target role).Confined barred P := by
  unfold afterGuard
  split
  · exact Proc.confined_named hu rfl rfl rfl
  · exact Proc.confined_named hu rfl rfl rfl

theorem afterRead_confined {target : Target} {tenant : Nat} {role : Role}
    (hu : ¬barred target.workspace target.user) :
    (afterRead target tenant role).Confined barred P := by
  unfold afterRead
  split
  · exact Proc.confined_named hu rfl rfl rfl
  · exact afterGuard_confined hu

theorem recovery_confined (bars : Bars barred P) {target : Target} {role : Role}
    (hu : ¬barred target.workspace target.user) : (recovery target role).Confined barred P := by
  unfold recovery
  split
  · exact Proc.confined_of rfl rfl rfl
  · exact Proc.confined_carried (bars.member _ _ role hu) rfl rfl rfl

theorem lockStep_confined {target : Target} (hs : Confined barred P s)
    (h : lockStep env s i target = some t) : Confined barred P t := by
  obtain ⟨-, h⟩ := Option.ite_none_right_eq_some.mp h
  split at h
  all_goals cases Option.some.inj h
  · exact Confined.goto ⟨hs.tuples, hs.outbox, hs.rows, hs.procs⟩ (Proc.confined_of rfl rfl rfl)
  · exact hs.gotoDone

/-- A request goes on only for a member that has a row, and so is not barred. -/
theorem readStep_confined {target : Target} {tenant : Nat} (hs : Confined barred P s) :
    Confined barred P (readStep s i target tenant) := by
  unfold readStep
  split
  next => exact hs.leaveDone
  next role hrole =>
    split
    · exact hs.leaveDone
    · exact hs.goto (afterRead_confined (hs.rows _ _ role hrole))

theorem revokeStep_confined {target : Target} {role : Role} {r : Fga.WriteReply}
    (hs : Confined barred P s) (hu : ¬barred target.workspace target.user)
    (h : revokeStep s i target role r = some t) : Confined barred P t := by
  obtain ⟨tuples, hd, h⟩ := Option.map_eq_some_iff.mp h
  have hs' := hs.withTuples (forall_mem_delete hs.tuples hd)
  simp only at h
  split at h
  · rw [← h]
    exact hs'.goto (Proc.confined_named hu rfl rfl rfl)
  · rw [← h]
    exact hs'.leave (Proc.confined_of rfl rfl rfl)
  · rw [← h]
    exact hs'.goto (Proc.confined_named hu rfl rfl rfl)
  · split at h
    · rw [← h]
      exact hs'.goto (Proc.confined_named hu rfl rfl rfl)
    · rw [← h]
      exact hs'.leaveDone

theorem commitStep_confined {target : Target} (hs : Confined barred P s)
    (hu : ¬barred target.workspace target.user) : Confined barred P (commitStep s i target) := by
  unfold commitStep
  split
  · exact ((hs.insertRow hu).withOutbox
      (writesOnly_enqueueWorkspaceRoleSync hs.outbox)).leave (Proc.confined_named hu rfl rfl rfl)
  · exact hs.eraseRow.leaveDone

theorem syncPlan_write {workspace user : Nat} {k : TupleKey} {role : Option Role}
    (h : (syncPlan workspace user role).2 = some k) :
    ∃ r, role = some r ∧ k = memberTuple workspace user r := by
  cases role with
  | none => cases h
  | some r =>
    cases h
    exact ⟨r, rfl, rfl⟩

theorem advance_check_confined (bars : Bars barred P) (hs : Confined barred P s)
    {actor workspace user : Nat} (hp : p.Confined barred P)
    (ha : p.asked = some (actor, workspace, user)) (h : advance env s i p reply = some t) :
    Confined barred P t := by
  have hbarred := hp.asked actor workspace user ha
  cases p with
  | addCheck actor' workspace' user' role =>
    cases ha
    cases reply with
    | checked r =>
      refine checkStep_confined hs (fun hactual => ?_) h
      have huser : ¬barred workspace user := by
        intro hu
        have hfalse := bars.manages s.tuples hs.tuples workspace actor (hbarred hu)
        rw [hactual] at hfalse
        cases hfalse
      split
      · exact ⟨nofun, nofun, fun actor' w u heq hu => by cases heq; exact absurd hu huser⟩
      · exact Proc.confined_named huser rfl rfl rfl
    | _ => cases h
  | addCheckAssign actor' workspace' user' role =>
    cases ha
    cases reply with
    | checked r =>
      refine checkStep_confined hs (fun hactual => ?_) h
      have huser : ¬barred workspace user := by
        intro hu
        have hfalse := bars.assigns s.tuples hs.tuples workspace actor (hbarred hu)
        rw [hactual] at hfalse
        cases hfalse
      exact Proc.confined_named huser rfl rfl rfl
    | _ => cases h
  | _ => cases ha

theorem advance_worker_confined (bars : Bars barred P) (hs : Confined barred P s)
    (hp : p.Confined barred P) (hw : ∃ row n, (∃ event k, p = .workTuple row n event k) ∨
      (∃ w u, p = .workRead row n w u) ∨ (∃ deletes write, p = .workSync row n deletes write))
    (h : advance env s i p reply = some t) : Confined barred P t := by
  obtain ⟨row, n, ⟨event, k, rfl⟩ | ⟨w, u, rfl⟩ | ⟨deletes, write, rfl⟩⟩ := hw
  · cases reply with
    | called r =>
      have hnext : (settled event row n (.workProcessed row) r).Confined barred P :=
        settled_confined (Proc.confined_of rfl rfl rfl) r
      cases event with
      | tupleWrite => exact writeStep_confined hs (hp.carried k rfl) hnext h
      | tupleDelete => exact deleteStep_confined hs hnext h
      | workspaceRoleSync =>
        exact deleteStep_confined hs (settled_confined (Proc.confined_of rfl rfl rfl) r) h
    | _ => cases event <;> cases h
  · cases reply with
    | sql ok =>
      cases ok with
      | true =>
        cases Option.some.inj h
        refine hs.goto ⟨fun k hk => ?_, nofun, nofun⟩
        obtain ⟨r, hr, rfl⟩ := syncPlan_write hk
        exact bars.member w u r (hs.rows w u r hr)
      | false =>
        cases Option.some.inj h
        exact hs.gotoDone
    | _ => cases h
  · cases reply with
    | called r =>
      cases deletes with
      | cons k rest =>
        exact deleteStep_confined hs (settled_confined (syncNext_confined hp.carried) r) h
      | nil =>
        cases write with
        | some k =>
          exact writeStep_confined hs (hp.carried k rfl)
            (settled_confined (Proc.confined_of rfl rfl rfl) r) h
        | none => cases h
    | _ => cases deletes <;> cases write <;> cases h

theorem advance_guard_confined (hs : Confined barred P s) {target : Target}
    (hu : ¬barred target.workspace target.user)
    (hw : ∃ role, (∃ tenant, p = .listAdmins target tenant role) ∨
      (∃ tenant todo, p = .guardAdmins target tenant role todo) ∨
      (∃ tenant, p = .listOwners target tenant role) ∨ ∃ todo, p = .guardOwners target role todo)
    (h : advance env s i p reply = some t) : Confined barred P t := by
  obtain ⟨role, ⟨tenant, rfl⟩ | ⟨tenant, todo, rfl⟩ | ⟨tenant, rfl⟩ | ⟨todo, rfl⟩⟩ := hw
  · cases reply with
    | listed admins =>
      obtain ⟨-, h⟩ := Option.ite_none_right_eq_some.mp h
      cases Option.some.inj h
      exact hs.goto (Proc.confined_named hu rfl rfl rfl)
    | sql ok =>
      cases ok with
      | true => cases h
      | false =>
        cases Option.some.inj h
        exact hs.leaveDone
    | _ => cases h
  · cases todo with
    | nil =>
      cases reply with
      | sql ok =>
        cases Option.some.inj h
        exact hs.goto (Proc.confined_named hu rfl rfl rfl)
      | _ => cases h
    | cons admin rest =>
      cases reply with
      | checked r =>
        exact guardStep_confined hs (afterGuard_confined hu)
          (Proc.confined_named hu rfl rfl rfl) h
      | _ => cases h
  · cases reply with
    | listed owners =>
      obtain ⟨-, h⟩ := Option.ite_none_right_eq_some.mp h
      cases Option.some.inj h
      exact hs.goto (Proc.confined_named hu rfl rfl rfl)
    | sql ok =>
      cases ok with
      | true => cases h
      | false =>
        cases Option.some.inj h
        exact hs.leaveDone
    | _ => cases h
  · cases todo with
    | nil =>
      cases reply with
      | sql ok =>
        cases Option.some.inj h
        exact hs.leaveDone
      | _ => cases h
    | cons owner rest =>
      cases reply with
      | checked r =>
        simp only [advance] at h
        split at h
        · exact guardStep_confined hs (afterGuard_confined hu)
            (Proc.confined_named hu rfl rfl rfl) h
        · cases h
      | _ => cases h

/-- One statement or one call keeps barred users out. -/
theorem advance_confined (bars : Bars barred P) (hs : Confined barred P s)
    (hp : p.Confined barred P) (h : advance env s i p reply = some t) : Confined barred P t := by
  cases p with
  | addCheck actor workspace user role => exact advance_check_confined bars hs hp rfl h
  | addCheckAssign actor workspace user role => exact advance_check_confined bars hs hp rfl h
  | addInsert workspace user role =>
    have hu := hp.named _ _ rfl
    cases reply with
    | sql ok =>
      simp only [advance] at h
      split at h
      · obtain ⟨-, h⟩ := Option.ite_none_right_eq_some.mp h
        cases Option.some.inj h
        exact (hs.insertRow hu).goto (Proc.confined_named hu rfl rfl rfl)
      · cases Option.some.inj h
        exact hs.gotoDone
    | _ => cases h
  | addGrant workspace user role =>
    have hk := bars.member _ _ role (hp.named _ _ rfl)
    cases reply with
    | called r =>
      refine writeStep_confined hs hk ?_ h
      split
      · exact Proc.confined_of rfl rfl rfl
      · exact Proc.confined_carried hk rfl rfl rfl
    | _ => cases h
  | changeCheck actor target =>
    cases reply with
    | checked r =>
      simp only [advance] at h
      split at h
      · exact checkStep_confined hs (fun _ => Proc.confined_of rfl rfl rfl) h
      · refine checkStep_confined hs (fun _ => ?_) h
        split <;> exact Proc.confined_of rfl rfl rfl
    | _ => cases h
  | lockWorkspace target =>
    cases reply with
    | sql ok =>
      cases ok with
      | true => exact lockStep_confined hs h
      | false =>
        cases Option.some.inj h
        exact hs.gotoDone
    | _ => cases h
  | readRole target tenant =>
    cases reply with
    | sql ok =>
      cases ok with
      | true =>
        cases Option.some.inj h
        exact readStep_confined hs
      | false =>
        cases Option.some.inj h
        exact hs.leaveDone
    | _ => cases h
  | listAdmins target tenant role =>
    exact advance_guard_confined hs (hp.named _ _ rfl) ⟨role, .inl ⟨tenant, rfl⟩⟩ h
  | guardAdmins target tenant role todo =>
    exact advance_guard_confined hs (hp.named _ _ rfl) ⟨role, .inr (.inl ⟨tenant, todo, rfl⟩)⟩ h
  | listOwners target tenant role =>
    exact advance_guard_confined hs (hp.named _ _ rfl)
      ⟨role, .inr (.inr (.inl ⟨tenant, rfl⟩))⟩ h
  | guardOwners target role todo =>
    exact advance_guard_confined hs (hp.named _ _ rfl)
      ⟨role, .inr (.inr (.inr ⟨todo, rfl⟩))⟩ h
  | writeRow target role =>
    cases reply with
    | sql ok =>
      cases ok with
      | true =>
        cases Option.some.inj h
        exact hs.goto (Proc.confined_named (hp.named _ _ rfl) rfl rfl rfl)
      | false =>
        cases Option.some.inj h
        exact hs.leaveDone
    | _ => cases h
  | revoke target role =>
    cases reply with
    | called r => exact revokeStep_confined hs (hp.named _ _ rfl) h
    | _ => cases h
  | deleteRow target role =>
    have hu := hp.named _ _ rfl
    cases reply with
    | sql ok =>
      cases ok with
      | true =>
        cases Option.some.inj h
        exact hs.goto (Proc.confined_named hu rfl rfl rfl)
      | false =>
        cases Option.some.inj h
        exact hs.leave (recovery_confined bars hu)
    | _ => cases h
  | commit target role =>
    have hu := hp.named _ _ rfl
    cases reply with
    | sql ok =>
      cases ok with
      | true =>
        cases Option.some.inj h
        exact commitStep_confined hs hu
      | false =>
        cases Option.some.inj h
        exact hs.leave (recovery_confined bars hu)
    | _ => cases h
  | grant workspace user role event =>
    cases reply with
    | called r =>
      refine writeStep_confined hs (bars.member _ _ role (hp.named _ _ rfl)) ?_ h
      split <;> exact Proc.confined_of rfl rfl rfl
    | _ => cases h
  | markEvent event =>
    cases reply with
    | sql ok =>
      cases Option.some.inj h
      exact updateRow_confined hs fun r => rfl
    | _ => cases h
  | enqueueWrite k =>
    cases reply with
    | sql ok =>
      cases Option.some.inj h
      exact enqueue_confined hs (writesOnly_enqueueTupleWrite hs.outbox (hp.carried k rfl))
    | _ => cases h
  | enqueueSync workspace user =>
    cases reply with
    | sql ok =>
      cases Option.some.inj h
      exact enqueue_confined hs (writesOnly_enqueueWorkspaceRoleSync hs.outbox)
    | _ => cases h
  | workTuple row n event k =>
    exact advance_worker_confined bars hs hp ⟨row, n, .inl ⟨event, k, rfl⟩⟩ h
  | workRead row n w u => exact advance_worker_confined bars hs hp ⟨row, n, .inr (.inl ⟨w, u, rfl⟩)⟩ h
  | workSync row n deletes write =>
    exact advance_worker_confined bars hs hp ⟨row, n, .inr (.inr ⟨deletes, write, rfl⟩)⟩ h
  | workProcessed row =>
    cases reply with
    | sql ok =>
      cases Option.some.inj h
      exact updateRow_confined hs fun r => rfl
    | _ => cases h
  | workFailed row n message =>
    cases reply with
    | sql ok =>
      cases Option.some.inj h
      exact updateRow_confined hs fun r => rfl
    | _ => cases h
  | done => cases reply <;> cases h

theorem start_confined (hs : Confined barred P s) (hp : p.Confined barred P) :
    Confined barred P (s.start p) := by
  refine ⟨hs.tuples, hs.outbox, hs.rows, fun q hq => ?_⟩
  rcases List.mem_append.mp hq with hq | hq
  · exact hs.procs q hq
  · rw [List.mem_singleton.mp hq]
    exact hp

/-- A request that adds a barred user comes from a barred user. -/
def Asked (barred : Nat → Nat → Prop) : Act → Prop
  | .addMember actor workspace user _ => barred workspace user → barred workspace actor
  | _ => True

theorem step_confined (bars : Bars barred P) {a : Act} (hs : Confined barred P s)
    (ha : Asked barred a) (h : step env s a = some t) : Confined barred P t := by
  cases a with
  | addMember actor workspace user role =>
    cases Option.some.inj h
    exact start_confined hs ⟨nofun, nofun, fun _ _ _ heq => by cases heq; exact ha⟩
  | updateRole actor workspace user role =>
    cases Option.some.inj h
    exact start_confined hs (Proc.confined_of rfl rfl rfl)
  | removeMember actor workspace user =>
    cases Option.some.inj h
    exact start_confined hs (Proc.confined_of rfl rfl rfl)
  | work row =>
    simp only [step] at h
    split at h
    next r hr =>
      obtain ⟨-, h⟩ := Option.ite_none_right_eq_some.mp h
      cases Option.some.inj h
      refine start_confined hs ?_
      unfold workStart
      split
      next k hk =>
        exact Proc.confined_carried (hs.outbox r (List.mem_of_getElem? hr) k hk) rfl rfl rfl
      all_goals exact Proc.confined_of rfl rfl rfl
    next => cases h
  | advance i reply =>
    simp only [step] at h
    split at h
    next p hp => exact advance_confined bars hs (hs.procs p (List.mem_of_getElem? hp)) h
    next => cases h
  | abort i =>
    obtain ⟨p, -, rfl⟩ := Option.map_eq_some_iff.mp h
    unfold abortStep
    split
    · exact hs.leaveDone
    · exact hs.gotoDone

end Steps

end Members

end GmragApi

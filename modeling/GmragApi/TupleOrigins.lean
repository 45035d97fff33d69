import GmragApi.DocumentAcl
import GmragApi.Members

/-! Where tuples come from: the tuples that requests and workers still have to write, and what a
step adds to those in the store and in the outbox. -/

namespace GmragApi

/-- A row of the outbox writes only what `P` allows. -/
def WritesOnly (P : TupleKey → Prop) (outbox : List AuthzRow) : Prop :=
  ∀ r ∈ outbox, ∀ t, r.task = .write t → P t

section Outbox

variable {P : TupleKey → Prop} {outbox : List AuthzRow}

theorem writesOnly_append {r : AuthzRow} (h : WritesOnly P outbox)
    (hr : ∀ t, r.task = .write t → P t) : WritesOnly P (outbox ++ [r]) := by
  intro r' hr' t ht
  rcases List.mem_append.mp hr' with hr' | hr'
  · exact h r' hr' t ht
  · rw [List.mem_singleton.mp hr'] at ht
    exact hr t ht

theorem writesOnly_enqueueTupleWrite {t : TupleKey} (h : WritesOnly P outbox) (ht : P t) :
    WritesOnly P (outbox ++ [enqueueTupleWrite t]) := by
  refine writesOnly_append h fun t' ht' => ?_
  rw [enqueueTupleWrite_task] at ht'
  cases ht'
  exact ht

theorem writesOnly_enqueueWorkspaceRoleSync {workspace user : Nat} (h : WritesOnly P outbox) :
    WritesOnly P (outbox ++ [enqueueWorkspaceRoleSync workspace user]) := by
  refine writesOnly_append h fun t ht => ?_
  rw [enqueueWorkspaceRoleSync_task] at ht
  cases ht

/-- Settling a row changes neither its event nor its payload. -/
theorem writesOnly_modify {row : Nat} {f : AuthzRow → AuthzRow} (h : WritesOnly P outbox)
    (hf : ∀ r, (f r).task = r.task) : WritesOnly P (outbox.modify row f) := by
  intro r hr t ht
  obtain ⟨i, hi⟩ := List.mem_iff_getElem?.mp hr
  rw [List.getElem?_modify] at hi
  obtain ⟨r', hr', heq⟩ := Option.map_eq_some_iff.mp hi
  have hmem := List.mem_of_getElem? hr'
  split at heq
  · rw [← heq, hf] at ht
    exact h r' hmem t ht
  · rw [← heq] at ht
    exact h r' hmem t ht

theorem forall_mem_insert {store : Fga.Store} {t : TupleKey} (h : ∀ k ∈ store, P k) (ht : P t) :
    ∀ k ∈ insert t store, P k := by
  intro k hk
  rcases Finset.mem_insert.mp hk with rfl | hk
  · exact ht
  · exact h k hk

theorem forall_mem_write {store store' : Fga.Store} {t : TupleKey} {reply : Fga.WriteReply}
    (h : ∀ k ∈ store, P k) (ht : P t) (hw : Fga.write store t reply = some store') :
    ∀ k ∈ store', P k := by
  rcases Fga.write_cases hw with ⟨-, rfl⟩ | ⟨e, -, rfl⟩
  · exact forall_mem_insert h ht
  · exact h

theorem forall_mem_delete {store store' : Fga.Store} {t : TupleKey} {reply : Fga.WriteReply}
    (h : ∀ k ∈ store, P k) (hd : Fga.delete store t reply = some store') : ∀ k ∈ store', P k := by
  rcases Fga.delete_cases hd with ⟨-, rfl⟩ | ⟨e, -, rfl⟩
  · exact fun k hk => h k (Finset.mem_of_mem_erase hk)
  · exact h

end Outbox

namespace DocumentAcl

/-- A tuple that a worker carries to its call. -/
def Proc.carried : Proc → Option TupleKey
  | replay _ _ .tupleWrite t => some t
  | _ => none

/-- Nothing but what `P` allows is in the store or on its way. -/
structure Confined (P : TupleKey → Prop) (s : State) : Prop where
  tuples : ∀ t ∈ s.tuples, P t
  outbox : WritesOnly P s.outbox
  procs : ∀ p ∈ s.procs, ∀ t, p.carried = some t → P t

section Steps

variable {P : TupleKey → Prop} {s t : State} {i : Nat} {p q : Proc} {reply : Reply}

theorem Confined.goto (hs : Confined P s) (hq : ∀ t, q.carried = some t → P t) :
    Confined P (s.goto i q) := by
  refine ⟨hs.tuples, hs.outbox, fun p hp => ?_⟩
  rcases List.mem_or_eq_of_mem_set hp with hp | rfl
  · exact hs.procs p hp
  · exact hq

theorem Confined.gotoOf (hs : Confined P s) (hq : q.carried = none) : Confined P (s.goto i q) := by
  refine hs.goto fun t ht => ?_
  rw [hq] at ht
  cases ht

theorem Confined.leaveOf {document : Nat} (hs : Confined P s) (hq : q.carried = none) :
    Confined P (s.leave i document q) :=
  Confined.gotoOf ⟨hs.tuples, hs.outbox, hs.procs⟩ hq

theorem Confined.withTuples {tuples : Fga.Store} (hs : Confined P s) (h : ∀ t ∈ tuples, P t) :
    Confined P { s with tuples := tuples } :=
  ⟨h, hs.outbox, hs.procs⟩

theorem Confined.withOutbox {outbox : List AuthzRow} (hs : Confined P s)
    (h : WritesOnly P outbox) : Confined P { s with outbox := outbox } :=
  ⟨hs.tuples, h, hs.procs⟩

theorem insertShare_confined {document user : Nat} {ok : Bool} {next failed : Proc}
    (hs : Confined P s) (hn : next.carried = none) (hf : failed.carried = none)
    (h : insertShare s i document user ok next failed = some t) : Confined P t := by
  unfold insertShare at h
  split at h
  · split at h
    · cases Option.some.inj h
      exact hs.gotoOf hn
    · obtain ⟨-, h⟩ := Option.ite_none_right_eq_some.mp h
      cases Option.some.inj h
      exact Confined.gotoOf ⟨hs.tuples, hs.outbox, hs.procs⟩ hn
  · cases Option.some.inj h
    exact hs.gotoOf hf

theorem deleteShare_confined {document user : Nat} {ok : Bool} {next failed : Proc}
    (hs : Confined P s) (hn : next.carried = none) (hf : failed.carried = none) :
    Confined P (deleteShare s i document user ok next failed) := by
  unfold deleteShare
  split
  · exact Confined.gotoOf ⟨hs.tuples, hs.outbox, hs.procs⟩ hn
  · exact hs.gotoOf hf

theorem writeViewer_confined {document user : Nat} {r : Fga.WriteReply} {next failed : Proc}
    (hP : ∀ d u, P (explicitViewerTuple d u)) (hs : Confined P s) (hn : next.carried = none)
    (hf : failed.carried = none) (h : writeViewer s i document user r next failed = some t) :
    Confined P t := by
  obtain ⟨tuples, hw, rfl⟩ := Option.map_eq_some_iff.mp h
  refine (hs.withTuples (forall_mem_write hs.tuples (hP document user) hw)).gotoOf ?_
  split
  · exact hn
  · exact hf

theorem deleteViewerFgaFirst_confined {document user : Nat} {r : Fga.WriteReply} {next : Proc}
    {failed : State → State} (hs : Confined P s) (hn : next.carried = none)
    (hf : ∀ s, Confined P s → Confined P (failed s))
    (h : deleteViewerFgaFirst s i document user r next failed = some t) : Confined P t := by
  obtain ⟨tuples, hd, h⟩ := Option.map_eq_some_iff.mp h
  have hs' := hs.withTuples (forall_mem_delete hs.tuples hd)
  simp only at h
  split at h
  · rw [← h]
    exact hs'.gotoOf hn
  · split at h
    · rw [← h]
      exact hs'.gotoOf hn
    · rw [← h]
      exact hf _ hs'

theorem lockDocument_confined {document workspace : Nat} {next : Document → Proc} {missing : Proc}
    (hs : Confined P s) (hn : ∀ d, (next d).carried = none) (hm : missing.carried = none)
    (h : lockDocument s i document workspace next missing = some t) : Confined P t := by
  unfold lockDocument at h
  split at h
  · split at h
    · obtain ⟨-, h⟩ := Option.ite_none_right_eq_some.mp h
      cases Option.some.inj h
      exact Confined.gotoOf ⟨hs.tuples, hs.outbox, hs.procs⟩ (hn _)
    · cases Option.some.inj h
      exact hs.gotoOf hm
  · cases Option.some.inj h
    exact hs.gotoOf hm

theorem commitMode_confined {document : Nat} {mode : DocumentAccessMode} (hs : Confined P s) :
    Confined P (commitMode s i document mode) := by
  cases mode with
  | workspaceDefault => exact Confined.leaveOf ⟨hs.tuples, hs.outbox, hs.procs⟩ rfl
  | restricted => exact Confined.leaveOf ⟨hs.tuples, hs.outbox, hs.procs⟩ rfl

theorem fail_confined {r : PermissionsRequest} (hs : Confined P s) : Confined P (r.fail s i) :=
  hs.leaveOf rfl

theorem commitPermissions_confined {r : PermissionsRequest} {previous : DocumentAccessMode}
    {current : List Nat} {grants : List GrantPlan} {ok : Bool} (hs : Confined P s) :
    Confined P (commitPermissions s i r previous current grants ok) := by
  unfold commitPermissions
  split
  · exact hs.leaveOf rfl
  · split
    · refine Confined.leaveOf ?_ rfl
      split
      · exact hs
      · exact ⟨hs.tuples, hs.outbox, hs.procs⟩
    · exact fail_confined hs

theorem updateRow_confined {row : Nat} {f : AuthzRow → AuthzRow} {ok : Bool}
    (hs : Confined P s) (hf : ∀ r, (f r).task = r.task) :
    Confined P (updateRow s i row f ok) := by
  cases ok with
  | true => exact (hs.withOutbox (writesOnly_modify hs.outbox hf)).gotoOf rfl
  | false => exact hs.gotoOf rfl

theorem replayed_carried (event : AuthzOutboxEventType) (row : Nat) (n : Int)
    (r : Fga.WriteReply) : (replayed event row n r).carried = none := by
  unfold replayed
  split
  · rfl
  · split <;> rfl

theorem checkViewer_confined {r : PermissionsRequest} {previous : DocumentAccessMode}
    {current rest : List Nat} {grants : List GrantPlan} {user : Nat}
    {answer : Except AuthzError Bool} (hs : Confined P s)
    (h : checkViewer s i r previous current rest grants user answer = some t) :
    Confined P t := by
  obtain ⟨-, h⟩ := Option.ite_none_right_eq_some.mp h
  split at h
  all_goals cases Option.some.inj h
  · exact hs.gotoOf rfl
  · exact hs.gotoOf rfl
  · exact fail_confined hs

theorem validateGrant_confined {r : PermissionsRequest} {members : List Nat} {grant : GrantPlan}
    {answer : Except AuthzError Bool} {next : Proc} (hs : Confined P s)
    (hn : next.carried = none) : Confined P (validateGrant s i r members grant answer next) := by
  unfold validateGrant
  split
  · split
    · exact hs.gotoOf hn
    · exact fail_confined hs
  · exact fail_confined hs

theorem enqueueWrite_confined (hP : ∀ d u, P (explicitViewerTuple d u)) {r : PermissionsRequest}
    {user : Nat} {ok : Bool} (hs : Confined P s)
    (h : advance s i (.enqueueWrite r user) (.sql ok) = some t) : Confined P t := by
  cases Option.some.inj h
  refine Confined.gotoOf ?_ rfl
  split
  · exact hs.withOutbox (writesOnly_enqueueTupleWrite hs.outbox (hP r.document user))
  · exact hs

theorem advance_mode_confined (hs : Confined P s) {document : Nat} {mode : DocumentAccessMode}
    (hp : (∃ workspace, p = .modeLock document workspace mode) ∨ p = .modeShares document mode ∨
      (∃ todo, p = .modeRevoke document mode todo) ∨ p = .modeCommit document mode)
    (h : advance s i p reply = some t) : Confined P t := by
  obtain ⟨workspace, rfl⟩ | rfl | ⟨todo, rfl⟩ | rfl := hp
  · cases reply with
    | sql ok =>
      cases ok with
      | true =>
        refine lockDocument_confined hs (fun d => ?_) rfl h
        split <;> rfl
      | false =>
        cases Option.some.inj h
        exact hs.gotoOf rfl
    | _ => cases h
  · cases reply with
    | listed users =>
      obtain ⟨-, h⟩ := Option.ite_none_right_eq_some.mp h
      cases Option.some.inj h
      exact hs.gotoOf rfl
    | sql ok =>
      cases ok with
      | true => cases h
      | false =>
        cases Option.some.inj h
        exact hs.leaveOf rfl
    | _ => cases h
  · cases todo with
    | nil =>
      cases reply with
      | sql ok =>
        cases ok with
        | true =>
          cases Option.some.inj h
          exact hs.gotoOf rfl
        | false =>
          cases Option.some.inj h
          exact hs.leaveOf rfl
      | _ => cases h
    | cons user rest =>
      cases reply with
      | called r => exact deleteViewerFgaFirst_confined hs rfl (fun s hs => hs.leaveOf rfl) h
      | _ => cases h
  · cases reply with
    | sql ok =>
      cases ok with
      | true =>
        cases Option.some.inj h
        exact commitMode_confined hs
      | false =>
        cases Option.some.inj h
        exact hs.leaveOf rfl
    | _ => cases h

/-- The locked part of a replacement, which reads and plans. -/
theorem advance_plan_confined (hs : Confined P s) {r : PermissionsRequest}
    (hp : p = .replaceLock r ∨ (∃ previous, p = .replaceRead r previous) ∨
      (∃ previous current todo grants, p = .replaceCheck r previous current todo grants) ∨
      (∃ previous current grants members todo,
        p = .replaceValidate r previous current grants members todo) ∨
      ∃ previous current grants, p = .replaceCommit r previous current grants)
    (h : advance s i p reply = some t) : Confined P t := by
  obtain rfl | ⟨previous, rfl⟩ | ⟨previous, current, todo, grants, rfl⟩ |
    ⟨previous, current, grants, members, todo, rfl⟩ | ⟨previous, current, grants, rfl⟩ := hp
  · cases reply with
    | sql ok =>
      cases ok with
      | true => exact lockDocument_confined hs (fun d => rfl) rfl h
      | false =>
        cases Option.some.inj h
        exact hs.gotoOf rfl
    | _ => cases h
  · cases reply with
    | listed users =>
      obtain ⟨-, h⟩ := Option.ite_none_right_eq_some.mp h
      cases Option.some.inj h
      exact hs.gotoOf rfl
    | sql ok =>
      cases ok with
      | true => cases h
      | false =>
        cases Option.some.inj h
        exact fail_confined hs
    | _ => cases h
  · cases todo with
    | nil =>
      cases reply with
      | listed members =>
        cases Option.some.inj h
        exact hs.gotoOf rfl
      | sql ok =>
        cases ok with
        | true =>
          obtain ⟨-, h⟩ := Option.ite_none_right_eq_some.mp h
          cases Option.some.inj h
          exact hs.gotoOf rfl
        | false =>
          cases Option.some.inj h
          exact fail_confined hs
      | _ => cases h
    | cons user rest =>
      cases reply with
      | sql ok =>
        obtain ⟨-, h⟩ := Option.ite_none_left_eq_some.mp h
        cases Option.some.inj h
        exact hs.gotoOf rfl
      | checked answer =>
        obtain ⟨-, h⟩ := Option.ite_none_right_eq_some.mp h
        exact checkViewer_confined hs h
      | _ => cases h
  · cases todo with
    | nil =>
      cases reply with
      | sql ok =>
        cases Option.some.inj h
        exact hs.gotoOf rfl
      | _ => cases h
    | cons grant rest =>
      cases reply with
      | checked answer =>
        cases Option.some.inj h
        exact validateGrant_confined hs rfl
      | _ => cases h
  · cases reply with
    | sql ok =>
      cases Option.some.inj h
      exact commitPermissions_confined hs
    | _ => cases h

/-- One statement or one call of a document call or of a worker. -/
theorem advance_confined (hP : ∀ d u, P (explicitViewerTuple d u)) (hs : Confined P s)
    (hp : ∀ t, p.carried = some t → P t) (h : advance s i p reply = some t) : Confined P t := by
  cases p with
  | grantInsert document user =>
    cases reply with
    | sql ok => exact insertShare_confined hs rfl rfl h
    | _ => cases h
  | grantWrite document user =>
    cases reply with
    | called r => exact writeViewer_confined hP hs rfl rfl h
    | _ => cases h
  | grantUndo document user =>
    cases reply with
    | sql ok =>
      cases Option.some.inj h
      exact deleteShare_confined hs rfl rfl
    | _ => cases h
  | revokeTuple document user =>
    cases reply with
    | called r =>
      obtain ⟨tuples, hd, rfl⟩ := Option.map_eq_some_iff.mp h
      refine (hs.withTuples (forall_mem_delete hs.tuples hd)).gotoOf ?_
      split <;> rfl
    | _ => cases h
  | revokeRow document user =>
    cases reply with
    | sql ok =>
      cases Option.some.inj h
      exact deleteShare_confined hs rfl rfl
    | _ => cases h
  | modeLock document workspace mode => exact advance_mode_confined hs (.inl ⟨_, rfl⟩) h
  | modeShares document mode => exact advance_mode_confined hs (.inr (.inl rfl)) h
  | modeRevoke document mode todo =>
    exact advance_mode_confined hs (.inr (.inr (.inl ⟨_, rfl⟩))) h
  | modeCommit document mode => exact advance_mode_confined hs (.inr (.inr (.inr rfl))) h
  | replaceLock r => exact advance_plan_confined hs (.inl rfl) h
  | replaceRead r previous => exact advance_plan_confined hs (.inr (.inl ⟨_, rfl⟩)) h
  | replaceCheck r previous current todo grants =>
    exact advance_plan_confined hs (.inr (.inr (.inl ⟨_, _, _, _, rfl⟩))) h
  | replaceValidate r previous current grants members todo =>
    exact advance_plan_confined hs (.inr (.inr (.inr (.inl ⟨_, _, _, _, _, rfl⟩)))) h
  | replaceCommit r previous current grants =>
    exact advance_plan_confined hs (.inr (.inr (.inr (.inr ⟨_, _, _, rfl⟩)))) h
  | replaceApply r revokes grants =>
    cases revokes with
    | cons user rest =>
      cases reply with
      | called answer => exact deleteViewerFgaFirst_confined hs rfl (fun s hs => hs.gotoOf rfl) h
      | _ => cases h
    | nil =>
      cases grants with
      | nil =>
        cases reply with
        | sql ok =>
          cases Option.some.inj h
          exact hs.gotoOf rfl
        | _ => cases h
      | cons grant rest =>
        obtain ⟨user, insertSqlRow⟩ := grant
        cases insertSqlRow with
        | true =>
          cases reply with
          | sql ok => exact insertShare_confined hs rfl rfl h
          | _ => cases h
        | false =>
          cases reply with
          | sql ok =>
            cases Option.some.inj h
            exact hs.gotoOf rfl
          | _ => cases h
  | replaceDelete r user revokes grants =>
    cases reply with
    | sql ok =>
      cases Option.some.inj h
      exact deleteShare_confined hs rfl rfl
    | _ => cases h
  | replaceWrite r user grants =>
    cases reply with
    | called answer => exact writeViewer_confined hP hs rfl rfl h
    | _ => cases h
  | enqueueWrite r user =>
    cases reply with
    | sql ok => exact enqueueWrite_confined hP hs h
    | _ => cases h
  | replay row n event k =>
    cases reply with
    | called r =>
      cases event with
      | tupleWrite =>
        obtain ⟨tuples, hw, rfl⟩ := Option.map_eq_some_iff.mp h
        exact (hs.withTuples (forall_mem_write hs.tuples (hp k rfl) hw)).gotoOf
          (replayed_carried _ _ _ _)
      | tupleDelete =>
        obtain ⟨tuples, hd, rfl⟩ := Option.map_eq_some_iff.mp h
        exact (hs.withTuples (forall_mem_delete hs.tuples hd)).gotoOf (replayed_carried _ _ _ _)
      | workspaceRoleSync =>
        obtain ⟨tuples, hd, rfl⟩ := Option.map_eq_some_iff.mp h
        exact (hs.withTuples (forall_mem_delete hs.tuples hd)).gotoOf (replayed_carried _ _ _ _)
    | _ => cases event <;> cases h
  | rowProcessed row =>
    cases reply with
    | sql ok =>
      cases Option.some.inj h
      exact updateRow_confined hs fun r => rfl
    | _ => cases h
  | rowFailed row n message =>
    cases reply with
    | sql ok =>
      cases Option.some.inj h
      exact updateRow_confined hs fun r => rfl
    | _ => cases h
  | replaced r outcome => cases reply <;> cases h
  | done => cases reply <;> cases h

theorem start_confined (hs : Confined P s) (hp : ∀ t, p.carried = some t → P t) :
    Confined P (s.start p) := by
  refine ⟨hs.tuples, hs.outbox, fun q hq => ?_⟩
  rcases List.mem_append.mp hq with hq | hq
  · exact hs.procs q hq
  · rw [List.mem_singleton.mp hq]
    exact hp

theorem aborted_carried (p : Proc) : p.aborted.carried = none := by
  unfold Proc.aborted
  split <;> rfl

theorem step_confined (hP : ∀ d u, P (explicitViewerTuple d u)) {maxRetries : Int} {a : Act}
    (hs : Confined P s) (h : step maxRetries s a = some t) : Confined P t := by
  cases a with
  | work row =>
    simp only [step] at h
    split at h
    next r hr =>
      obtain ⟨-, h⟩ := Option.ite_none_right_eq_some.mp h
      obtain ⟨p, hp, rfl⟩ := Option.map_eq_some_iff.mp h
      refine start_confined hs fun k hk => ?_
      unfold workStart at hp
      split at hp
      next k' hk' =>
        cases Option.some.inj hp
        cases hk
        exact hs.outbox r (List.mem_of_getElem? hr) k hk'
      next =>
        cases Option.some.inj hp
        cases hk
      next => cases hp
      next =>
        cases Option.some.inj hp
        cases hk
    next => cases h
  | advance i reply =>
    simp only [step] at h
    split at h
    next p hp => exact advance_confined hP hs (hs.procs p (List.mem_of_getElem? hp)) h
    next => cases h
  | abort i =>
    simp only [step] at h
    split at h
    next p hp =>
      obtain ⟨-, h⟩ := Option.ite_none_left_eq_some.mp h
      cases Option.some.inj h
      unfold abortStep
      split
      · exact hs.leaveOf (aborted_carried p)
      · exact hs.gotoOf (aborted_carried p)
    next => cases h
  | _ =>
    cases Option.some.inj h
    exact start_confined hs nofun

end Steps

end DocumentAcl

end GmragApi

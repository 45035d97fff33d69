import GmragApi.Members

/-! What one statement or one OpenFGA call of a process can change. -/

namespace GmragApi.Members

/-- The member whose row a transaction has read, with the role that it found. -/
def Proc.held? : Proc → Option (Target × Role)
  | listAdmins target _ role => some (target, role)
  | guardAdmins target _ role _ => some (target, role)
  | listOwners target _ role => some (target, role)
  | guardOwners target role _ => some (target, role)
  | writeRow target role => some (target, role)
  | revoke target role => some (target, role)
  | deleteRow target role => some (target, role)
  | commit target role => some (target, role)
  | _ => none

def Proc.isWorker : Proc → Bool
  | workTuple .. => true
  | workRead .. => true
  | workSync .. => true
  | workProcessed _ => true
  | workFailed .. => true
  | _ => false

/-- The tuple that the next call of a process writes. -/
def Proc.writes? : Proc → Option TupleKey
  | addGrant workspace user role => some (memberTuple workspace user role)
  | grant workspace user role _ => some (memberTuple workspace user role)
  | workTuple _ _ .tupleWrite t => some t
  | workSync _ _ [] (some t) => some t
  | _ => none

/-- Outside of a locked transaction, and a worker only if `p` is one. -/
def Proc.LeadsOut (p q : Proc) : Prop :=
  q.workspace? = none ∧ (q.isWorker = true → p.isWorker = true)

/-- The steps inside a locked transaction that change neither table nor store. -/
inductive Next (env : Env) (s : State) : Proc → Proc → Prop
  | read {target tenant role} : s.role target.workspace target.user = some role →
      target.change ≠ .setRole role →
      Next env s (.readRole target tenant) (afterRead target tenant role)
  | admins {target tenant role admins} :
      admins.Perm (otherAdmins s target.workspace target.user) →
      Next env s (.listAdmins target tenant role) (.guardAdmins target tenant role admins)
  | adminPath {target tenant role admin rest} :
      Fga.checkWorkspaceAdmin s.tuples admin target.workspace = true →
      Next env s (.guardAdmins target tenant role (admin :: rest)) (afterGuard target role)
  | nextAdmin {target tenant role admin rest} :
      Next env s (.guardAdmins target tenant role (admin :: rest))
        (.guardAdmins target tenant role rest)
  | noAdmin {target tenant role} :
      Next env s (.guardAdmins target tenant role []) (.listOwners target tenant role)
  | owners {target tenant role owners} : owners.Perm (env.tenantOwners tenant) →
      Next env s (.listOwners target tenant role) (.guardOwners target role owners)
  | ownerPath {target tenant role owner rest} : env.tenantOf target.workspace = some tenant →
      Fga.isTenantOwner s.tuples owner tenant = true →
      Next env s (.guardOwners target role (owner :: rest)) (afterGuard target role)
  | nextOwner {target role owner rest} :
      Next env s (.guardOwners target role (owner :: rest)) (.guardOwners target role rest)
  | wrote {target role} : Next env s (.writeRow target role) (.revoke target role)
  | deleted {target role} : Next env s (.deleteRow target role) (.commit target role)

/-- Where a process stands after its revoke took effect. -/
def afterRevoke (target : Target) (role : Role) : Proc :=
  match target.change with
  | .setRole _ => .commit target role
  | .remove => .deleteRow target role

/-- Everything that process `i` can do from where it stands. -/
inductive Moves (env : Env) (s : State) (i : Nat) : Proc → Reply → State → Prop
  | quiet {p q reply} (outbox : List AuthzRow) : p.workspace? = none → p.LeadsOut q →
      Moves env s i p reply ({ s with outbox := outbox }.goto i q)
  | insert {workspace user role reply} : s.locks workspace = none →
      s.role workspace user = none →
      Moves env s i (.addInsert workspace user role) reply
        ({ s with members := s.members.insert (workspace, user) role }.goto i
          (.addGrant workspace user role))
  | write {p q t} : p.writes? = some t → p.LeadsOut q →
      Moves env s i p (.called .done) ({ s with tuples := insert t s.tuples }.goto i q)
  | drop {p q reply} (t : TupleKey) : p.isWorker = true → q.workspace? = none →
      Moves env s i p reply ({ s with tuples := s.tuples.erase t }.goto i q)
  | lock {target tenant reply} : s.locks target.workspace = none →
      env.tenantOf target.workspace = some tenant →
      Moves env s i (.lockWorkspace target) reply
        ({ s with locks := Function.update s.locks target.workspace (some i) }.goto i
          (.readRole target tenant))
  | leave {p q workspace reply} : p.workspace? = some workspace → p.LeadsOut q →
      Moves env s i p reply (s.leave i workspace q)
  | next {p q reply} : Next env s p q → Moves env s i p reply (s.goto i q)
  | revoke {target role} :
      Moves env s i (.revoke target role) (.called .done)
        ({ s with tuples := s.tuples.erase (memberTuple target.workspace target.user role) }.goto i
          (afterRevoke target role))
  | skipRevoke {target role e} : target.change = .remove → isMissingTupleDeleteError e = true →
      Moves env s i (.revoke target role) (.called (.failed e)) (s.goto i (.deleteRow target role))
  | commit {target role} :
      Moves env s i (.commit target role) (.sql true) (commitStep s i target)

section Inversion

variable {env : Env} {s t : State} {i : Nat} {p q : Proc} {reply : Reply}

theorem Proc.leadsOut_of (hq : q.workspace? = none) (hw : q.isWorker = false) : p.LeadsOut q := by
  refine ⟨hq, fun h => ?_⟩
  rw [hw] at h
  cases h

theorem Proc.leadsOut_worker (hp : p.isWorker = true) (hq : q.workspace? = none) :
    p.LeadsOut q :=
  ⟨hq, fun _ => hp⟩

theorem moves_goto (hp : p.workspace? = none) (hq : p.LeadsOut q) :
    Moves env s i p reply (s.goto i q) :=
  .quiet s.outbox hp hq

theorem moves_done (hp : p.workspace? = none) : Moves env s i p reply (s.goto i .done) :=
  moves_goto hp (Proc.leadsOut_of rfl rfl)

theorem writeStep_moves {k : TupleKey} {r : Fga.WriteReply} (hp : p.workspace? = none)
    (hk : p.writes? = some k) (hq : p.LeadsOut q) (h : writeStep s i k r q = some t) :
    Moves env s i p (.called r) t := by
  obtain ⟨tuples, hw, rfl⟩ := Option.map_eq_some_iff.mp h
  rcases Fga.write_cases hw with ⟨rfl, rfl⟩ | ⟨e, rfl, rfl⟩
  · exact .write hk hq
  · exact moves_goto hp hq

theorem deleteStep_moves {k : TupleKey} {r : Fga.WriteReply} (hp : p.workspace? = none)
    (hk : p.isWorker = true) (hq : q.workspace? = none) (h : deleteStep s i k r q = some t) :
    Moves env s i p (.called r) t := by
  obtain ⟨tuples, hw, rfl⟩ := Option.map_eq_some_iff.mp h
  rcases Fga.delete_cases hw with ⟨rfl, rfl⟩ | ⟨e, rfl, rfl⟩
  · exact .drop k hk hq
  · exact moves_goto hp (Proc.leadsOut_worker hk hq)

theorem checkStep_moves {actual : Bool} {r : Except AuthzError Bool} (hp : p.workspace? = none)
    (hq : p.LeadsOut q) (h : checkStep s i actual r q = some t) : Moves env s i p reply t := by
  obtain ⟨-, h⟩ := Option.ite_none_right_eq_some.mp h
  split at h
  all_goals cases Option.some.inj h
  · exact moves_goto hp hq
  · exact moves_done hp

/-- A check of the guard that found a path, found none, or failed. -/
theorem guardStep_moves {actual : Bool} {r : Except AuthzError Bool} {target : Target}
    {found next : Proc} (hp : p.workspace? = some target.workspace)
    (hfound : actual = true → Next env s p found) (hnext : Next env s p next)
    (h : guardStep s i actual r target found next = some t) : Moves env s i p reply t := by
  obtain ⟨hr, h⟩ := Option.ite_none_right_eq_some.mp h
  split at h
  all_goals cases Option.some.inj h
  · have hactual : actual = true := by simpa [Fga.checkReply] using hr
    exact .next (hfound hactual)
  · exact .next hnext
  · exact .leave hp (Proc.leadsOut_of rfl rfl)

theorem lockStep_moves {target : Target} (h : lockStep env s i target = some t) :
    Moves env s i (.lockWorkspace target) reply t := by
  obtain ⟨hfree, h⟩ := Option.ite_none_right_eq_some.mp h
  split at h
  next tenant htenant =>
    cases Option.some.inj h
    exact .lock hfree htenant
  next =>
    cases Option.some.inj h
    exact moves_done rfl

theorem readStep_moves {target : Target} {tenant : Nat} :
    Moves env s i (.readRole target tenant) reply (readStep s i target tenant) := by
  unfold readStep
  split
  next => exact .leave rfl (Proc.leadsOut_of rfl rfl)
  next role hrole =>
    split
    · exact .leave rfl (Proc.leadsOut_of rfl rfl)
    · exact .next (.read hrole ‹_›)

theorem revokeStep_moves {target : Target} {role : Role} {r : Fga.WriteReply}
    (h : revokeStep s i target role r = some t) :
    Moves env s i (.revoke target role) (.called r) t := by
  obtain ⟨tuples, hd, h⟩ := Option.map_eq_some_iff.mp h
  rcases Fga.delete_cases hd with ⟨rfl, rfl⟩ | ⟨e, rfl, rfl⟩
  · have heq : t = { s with
        tuples := s.tuples.erase (memberTuple target.workspace target.user role) }.goto i
          (afterRevoke target role) := by
      rw [← h]
      unfold afterRevoke
      cases target.change <;> simp [Fga.WriteReply.error]
    rw [heq]
    exact .revoke
  · cases hc : target.change with
    | setRole new =>
      have heq : t = s.leave i target.workspace (.enqueueSync target.workspace target.user) := by
        simpa [hc, Fga.WriteReply.error] using h.symm
      rw [heq]
      exact .leave rfl (Proc.leadsOut_of rfl rfl)
    | remove =>
      simp only [hc, Fga.WriteReply.error] at h
      by_cases hm : isMissingTupleDeleteError e = true
      · rw [if_pos hm] at h
        rw [← h]
        exact .skipRevoke hc hm
      · rw [if_neg hm] at h
        rw [← h]
        exact .leave rfl (Proc.leadsOut_of rfl rfl)

theorem recovery_leadsOut (target : Target) (role : Role) : p.LeadsOut (recovery target role) := by
  unfold recovery
  split <;> exact Proc.leadsOut_of rfl rfl

theorem settled_leadsOut (hp : p.isWorker = true) {event : AuthzOutboxEventType} {row : Nat}
    {n : Int} (hq : q.workspace? = none) (r : Fga.WriteReply) :
    p.LeadsOut (settled event row n q r) := by
  refine Proc.leadsOut_worker hp ?_
  unfold settled
  split
  · exact hq
  · split
    · exact hq
    · rfl

theorem updateRow_moves {row : Nat} {f : AuthzRow → AuthzRow} {ok : Bool}
    (hp : p.workspace? = none) : Moves env s i p reply (updateRow s i row f ok) := by
  cases ok with
  | true => exact .quiet _ hp (Proc.leadsOut_of rfl rfl)
  | false => exact moves_done hp

theorem enqueue_moves {row : AuthzRow} {ok : Bool} (hp : p.workspace? = none) :
    Moves env s i p reply (enqueue s i row ok) := by
  cases ok with
  | true => exact .quiet _ hp (Proc.leadsOut_of rfl rfl)
  | false => exact moves_done hp

theorem syncNext_workspace (row : Nat) (n : Int) (deletes : List TupleKey)
    (write : Option TupleKey) : (syncNext row n deletes write).workspace? = none := by
  unfold syncNext
  split <;> rfl

theorem advance_request_moves (hp : p.workspace? = none) (hw : p.isWorker = false)
    (h : advance env s i p reply = some t) : Moves env s i p reply t := by
  cases p with
  | addCheck actor workspace user role =>
    cases reply with
    | checked r => exact checkStep_moves hp (by split <;> exact Proc.leadsOut_of rfl rfl) h
    | _ => cases h
  | addCheckAssign actor workspace user role =>
    cases reply with
    | checked r => exact checkStep_moves hp (Proc.leadsOut_of rfl rfl) h
    | _ => cases h
  | addInsert workspace user role =>
    cases reply with
    | sql ok =>
      simp only [advance] at h
      split at h
      next hnew =>
        obtain ⟨hfree, h⟩ := Option.ite_none_right_eq_some.mp h
        cases Option.some.inj h
        exact .insert hfree hnew.2.1
      next =>
        cases Option.some.inj h
        exact moves_done hp
    | _ => cases h
  | addGrant workspace user role =>
    cases reply with
    | called r => exact writeStep_moves hp rfl (by split <;> exact Proc.leadsOut_of rfl rfl) h
    | _ => cases h
  | changeCheck actor target =>
    cases reply with
    | checked r =>
      simp only [advance] at h
      split at h
      · exact checkStep_moves hp (Proc.leadsOut_of rfl rfl) h
      · exact checkStep_moves hp (by split <;> exact Proc.leadsOut_of rfl rfl) h
    | _ => cases h
  | lockWorkspace target =>
    cases reply with
    | sql ok =>
      cases ok with
      | true => exact lockStep_moves h
      | false =>
        cases Option.some.inj h
        exact moves_done hp
    | _ => cases h
  | grant workspace user role event =>
    cases reply with
    | called r => exact writeStep_moves hp rfl (by split <;> exact Proc.leadsOut_of rfl rfl) h
    | _ => cases h
  | markEvent event =>
    cases reply with
    | sql ok =>
      cases Option.some.inj h
      exact updateRow_moves hp
    | _ => cases h
  | enqueueWrite k =>
    cases reply with
    | sql ok =>
      cases Option.some.inj h
      exact enqueue_moves hp
    | _ => cases h
  | enqueueSync workspace user =>
    cases reply with
    | sql ok =>
      cases Option.some.inj h
      exact enqueue_moves hp
    | _ => cases h
  | done => cases reply <;> cases h
  | workTuple => cases hw
  | workRead => cases hw
  | workSync => cases hw
  | workProcessed => cases hw
  | workFailed => cases hw
  | _ => cases hp

theorem advance_worker_moves (hw : p.isWorker = true) (h : advance env s i p reply = some t) :
    Moves env s i p reply t := by
  cases p with
  | workTuple row n event k =>
    cases reply with
    | called r =>
      cases event with
      | tupleWrite => exact writeStep_moves rfl rfl (settled_leadsOut hw rfl r) h
      | tupleDelete => exact deleteStep_moves rfl hw (settled_leadsOut hw rfl r).1 h
      | workspaceRoleSync => exact deleteStep_moves rfl hw (settled_leadsOut hw rfl r).1 h
    | _ => cases event <;> cases h
  | workRead row n workspace user =>
    cases reply with
    | sql ok =>
      cases ok with
      | true =>
        cases Option.some.inj h
        exact moves_goto rfl (Proc.leadsOut_worker hw rfl)
      | false =>
        cases Option.some.inj h
        exact moves_done rfl
    | _ => cases h
  | workSync row n deletes write =>
    cases reply with
    | called r =>
      cases deletes with
      | cons k rest =>
        exact deleteStep_moves rfl hw (settled_leadsOut hw (syncNext_workspace ..) r).1 h
      | nil =>
        cases write with
        | some k => exact writeStep_moves rfl rfl (settled_leadsOut hw rfl r) h
        | none => cases h
    | _ => cases deletes <;> cases write <;> cases h
  | workProcessed row =>
    cases reply with
    | sql ok =>
      cases Option.some.inj h
      exact updateRow_moves rfl
    | _ => cases h
  | workFailed row n message =>
    cases reply with
    | sql ok =>
      cases Option.some.inj h
      exact updateRow_moves rfl
    | _ => cases h
  | _ => cases hw

theorem advance_locked_moves {workspace : Nat} (hp : p.workspace? = some workspace)
    (h : advance env s i p reply = some t) : Moves env s i p reply t := by
  cases p with
  | readRole target tenant =>
    cases reply with
    | sql ok =>
      cases ok with
      | true =>
        cases Option.some.inj h
        exact readStep_moves
      | false =>
        cases Option.some.inj h
        exact .leave rfl (Proc.leadsOut_of rfl rfl)
    | _ => cases h
  | listAdmins target tenant role =>
    cases reply with
    | sql ok =>
      cases ok with
      | true => cases h
      | false =>
        cases Option.some.inj h
        exact .leave rfl (Proc.leadsOut_of rfl rfl)
    | listed admins =>
      obtain ⟨hperm, h⟩ := Option.ite_none_right_eq_some.mp h
      cases Option.some.inj h
      exact .next (.admins hperm)
    | _ => cases h
  | guardAdmins target tenant role todo =>
    cases todo with
    | nil =>
      cases reply with
      | sql ok =>
        cases Option.some.inj h
        exact .next .noAdmin
      | _ => cases h
    | cons admin rest =>
      cases reply with
      | checked r => exact guardStep_moves rfl .adminPath .nextAdmin h
      | _ => cases h
  | listOwners target tenant role =>
    cases reply with
    | sql ok =>
      cases ok with
      | true => cases h
      | false =>
        cases Option.some.inj h
        exact .leave rfl (Proc.leadsOut_of rfl rfl)
    | listed owners =>
      obtain ⟨hperm, h⟩ := Option.ite_none_right_eq_some.mp h
      cases Option.some.inj h
      exact .next (.owners hperm)
    | _ => cases h
  | guardOwners target role todo =>
    cases todo with
    | nil =>
      cases reply with
      | sql ok =>
        cases Option.some.inj h
        exact .leave rfl (Proc.leadsOut_of rfl rfl)
      | _ => cases h
    | cons owner rest =>
      cases reply with
      | checked r =>
        simp only [advance] at h
        split at h
        next tenant htenant =>
          exact guardStep_moves rfl (fun ho => .ownerPath htenant ho) .nextOwner h
        next => cases h
      | _ => cases h
  | writeRow target role =>
    cases reply with
    | sql ok =>
      cases ok with
      | true =>
        cases Option.some.inj h
        exact .next .wrote
      | false =>
        cases Option.some.inj h
        exact .leave rfl (Proc.leadsOut_of rfl rfl)
    | _ => cases h
  | revoke target role =>
    cases reply with
    | called r => exact revokeStep_moves h
    | _ => cases h
  | deleteRow target role =>
    cases reply with
    | sql ok =>
      cases ok with
      | true =>
        cases Option.some.inj h
        exact .next .deleted
      | false =>
        cases Option.some.inj h
        exact .leave rfl (recovery_leadsOut target role)
    | _ => cases h
  | commit target role =>
    cases reply with
    | sql ok =>
      cases ok with
      | true =>
        cases Option.some.inj h
        exact .commit
      | false =>
        cases Option.some.inj h
        exact .leave rfl (recovery_leadsOut target role)
    | _ => cases h
  | _ => cases hp

theorem advance_moves (h : advance env s i p reply = some t) : Moves env s i p reply t := by
  cases hp : p.workspace? with
  | some workspace => exact advance_locked_moves hp h
  | none =>
    cases hw : p.isWorker with
    | true => exact advance_worker_moves hw h
    | false => exact advance_request_moves hp hw h

theorem abortStep_moves : Moves env s i p reply (abortStep s i p) := by
  unfold abortStep
  split
  next workspace hp => exact .leave hp (Proc.leadsOut_of rfl rfl)
  next hp => exact moves_done hp

theorem step_cases {a : Act} (h : step env s a = some t) :
    (∃ p, t = s.start p ∧ p.workspace? = none ∧
      (p.isWorker = true → ∃ row, a = .work row)) ∨
    ∃ i p reply, s.procs[i]? = some p ∧ Moves env s i p reply t ∧
      (a = .advance i reply ∨ (a = .abort i ∧ reply = .sql false)) := by
  cases a with
  | addMember actor workspace user role =>
    cases Option.some.inj h
    exact .inl ⟨_, rfl, rfl, nofun⟩
  | updateRole actor workspace user role =>
    cases Option.some.inj h
    exact .inl ⟨_, rfl, rfl, nofun⟩
  | removeMember actor workspace user =>
    cases Option.some.inj h
    exact .inl ⟨_, rfl, rfl, nofun⟩
  | work row =>
    simp only [step] at h
    split at h
    next r hr =>
      obtain ⟨-, h⟩ := Option.ite_none_right_eq_some.mp h
      cases Option.some.inj h
      refine .inl ⟨_, rfl, ?_, fun _ => ⟨row, rfl⟩⟩
      unfold workStart
      split <;> rfl
    next => cases h
  | advance i reply =>
    simp only [step] at h
    split at h
    next p hp => exact .inr ⟨i, p, reply, hp, advance_moves h, .inl rfl⟩
    next => cases h
  | abort i =>
    obtain ⟨p, hp, rfl⟩ := Option.map_eq_some_iff.mp h
    exact .inr ⟨i, p, .sql false, hp, abortStep_moves, .inr ⟨rfl, rfl⟩⟩

end Inversion

@[simp] theorem State.leave_role (s : State) (i workspace : Nat) (p : Proc) :
    (s.leave i workspace p).role = s.role := rfl

theorem State.leave_locks_of_ne {s : State} {i workspace other : Nat} {p : Proc}
    (h : other ≠ workspace) : (s.leave i workspace p).locks other = s.locks other :=
  Function.update_of_ne h _ _

theorem commitStep_role (s : State) (i : Nat) (target : Target) (w u : Nat) :
    (commitStep s i target).role w u =
      if (w, u) = (target.workspace, target.user) then
        match target.change with
        | .setRole new => some new
        | .remove => none
      else s.role w u := by
  unfold commitStep
  cases target.change with
  | setRole new =>
    by_cases h : (w, u) = (target.workspace, target.user)
    · rw [if_pos h, State.leave_role, State.role, h]
      exact AList.lookup_insert _
    · rw [if_neg h, State.leave_role, State.role]
      exact AList.lookup_insert_ne h
  | remove =>
    by_cases h : (w, u) = (target.workspace, target.user)
    · rw [if_pos h, State.leave_role, State.role, h]
      exact AList.lookup_erase _ _
    · rw [if_neg h, State.leave_role, State.role]
      exact AList.lookup_erase_ne h

theorem commitStep_locks_of_ne {s : State} {i : Nat} {target : Target} {other : Nat}
    (h : other ≠ target.workspace) : (commitStep s i target).locks other = s.locks other := by
  unfold commitStep
  cases target.change <;> exact State.leave_locks_of_ne h

theorem commitStep_tuples (s : State) (i : Nat) (target : Target) :
    (commitStep s i target).tuples = s.tuples := by
  unfold commitStep
  cases target.change <;> rfl

theorem commitStep_procs (s : State) (i : Nat) (target : Target) :
    ∃ q, q.workspace? = none ∧ q.isWorker = false ∧
      (commitStep s i target).procs = s.procs.set i q := by
  unfold commitStep
  cases target.change with
  | setRole new => exact ⟨_, rfl, rfl, rfl⟩
  | remove => exact ⟨_, rfl, rfl, rfl⟩

theorem insert_role {s : State} {workspace user : Nat} {role : Role}
    (h : s.role workspace user = none) {w u : Nat} {r : Role} (hr : s.role w u = some r) :
    (s.members.insert (workspace, user) role).lookup (w, u) = some r := by
  have hne : (w, u) ≠ (workspace, user) := by
    intro heq
    cases heq
    rw [h] at hr
    cases hr
  rw [AList.lookup_insert_ne hne]
  exact hr

section Frame

variable {env : Env} {s t : State} {i : Nat} {p : Proc} {reply : Reply}

theorem Moves.locks_other (h : Moves env s i p reply t)
    (own : ∀ w, p.workspace? = some w → s.locks w = some i) {w j : Nat} (hj : j ≠ i)
    (hw : s.locks w = some j) : t.locks w = some j := by
  have hother : ∀ v, p.workspace? = some v → w ≠ v := by
    rintro v hv rfl
    rw [own w hv] at hw
    exact hj (Option.some.inj hw).symm
  cases h with
  | @lock target tenant _ hfree _ =>
    have hne : w ≠ target.workspace := by
      rintro rfl
      rw [hfree] at hw
      cases hw
    exact (Function.update_of_ne hne _ _).trans hw
  | leave hv _ => exact (State.leave_locks_of_ne (hother _ hv)).trans hw
  | @commit target role => exact (commitStep_locks_of_ne (hother target.workspace rfl)).trans hw
  | _ => exact hw

/-- A row that is there changes only when a transaction on it commits. -/
theorem Moves.role_kept (h : Moves env s i p reply t) {w u : Nat} {r : Role}
    (hr : s.role w u = some r) : t.role w u = some r ∨ ∃ target role, p = .commit target role ∧
      w = target.workspace ∧ u = target.user := by
  cases h with
  | insert hfree hnew => exact .inl (insert_role hnew hr)
  | @commit target role =>
    by_cases heq : (w, u) = (target.workspace, target.user)
    · obtain ⟨hw, hu⟩ := Prod.mk.inj heq
      exact .inr ⟨target, role, rfl, hw, hu⟩
    · rw [commitStep_role, if_neg heq]
      exact .inl hr
  | _ => exact .inl hr

/-- Only a worker and the revoke of a request take a tuple out of the store. -/
theorem Moves.tuple_kept (h : Moves env s i p reply t) {k : TupleKey} (hk : k ∈ s.tuples) :
    k ∈ t.tuples ∨ p.isWorker = true ∨ ∃ target role, p = .revoke target role ∧
      k = memberTuple target.workspace target.user role := by
  cases h with
  | write _ _ => exact .inl (Finset.mem_insert_of_mem hk)
  | drop _ hw _ => exact .inr (.inl hw)
  | @revoke target role =>
    by_cases heq : k = memberTuple target.workspace target.user role
    · exact .inr (.inr ⟨target, role, rfl, heq⟩)
    · exact .inl (Finset.mem_erase_of_ne_of_mem heq hk)
  | commit =>
    rw [commitStep_tuples]
    exact .inl hk
  | _ => exact .inl hk

end Frame

end GmragApi.Members

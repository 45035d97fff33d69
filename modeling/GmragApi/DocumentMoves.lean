import GmragApi.DocumentAcl

/-! What one statement or one OpenFGA call of a document call can change. -/

namespace GmragApi.DocumentAcl

/-- The user's tuple for the document is in the store. -/
def State.Views (s : State) (document user : Nat) : Prop :=
  explicitViewerTuple document user ∈ s.tuples

instance (s : State) (document user : Nat) : Decidable (s.Views document user) :=
  inferInstanceAs (Decidable (_ ∈ s.tuples))

/-- Steps outside of a locked transaction that change neither table nor store. -/
inductive Outside (s : State) : Proc → Reply → Proc → Prop
  | rowPresent {d u reply} : (d, u) ∈ s.shares → Outside s (.grantInsert d u) reply (.grantWrite d u)
  | grantRefused {d u e} : Outside s (.grantWrite d u) (.called (.failed e)) (.grantUndo d u)
  | stop {p reply} : p.document? = none → p.request? = none → p.finished = false →
      Outside s p reply .done
  | fail {p r reply outcome} : p.document? = none → p.request? = some r → outcome ≠ .ok →
      Outside s p reply (.replaced r outcome)
  | sharePresent {r u rest reply} : (r.document, u) ∈ s.shares →
      Outside s (.replaceApply r [] (⟨u, true⟩ :: rest)) reply (.replaceWrite r u rest)
  | regrant {r u rest reply} :
      Outside s (.replaceApply r [] (⟨u, false⟩ :: rest)) reply (.replaceWrite r u rest)
  | applied {r reply} : Outside s (.replaceApply r [] []) reply (.replaced r .ok)
  | writeRefused {r u rest e} :
      Outside s (.replaceWrite r u rest) (.called (.failed e)) (.enqueueWrite r u)
  | missing {r u rest grants e} : isMissingTupleDeleteError e = true →
      Outside s (.replaceApply r (u :: rest) grants) (.called (.failed e))
        (.replaceDelete r u rest grants)
  | replayed {row n event t reply} (outcome : AuthzOutboxEventType) (next : Fga.WriteReply) :
      Outside s (.replay row n event t) reply (replayed outcome row n next)

/-- Steps inside a locked transaction that change neither table nor store. -/
inductive Inside (s : State) : Proc → Reply → Proc → Prop
  | shares {d mode users reply} : s.ListsShares d users →
      Inside s (.modeShares d mode) reply (.modeRevoke d mode users)
  | missing {d mode u rest e} : isMissingTupleDeleteError e = true →
      Inside s (.modeRevoke d mode (u :: rest)) (.called (.failed e)) (.modeRevoke d mode rest)
  | wrote {d mode reply} : Inside s (.modeRevoke d mode []) reply (.modeCommit d mode)
  | read {r previous users reply} : s.ListsShares r.document users →
      Inside s (.replaceRead r previous) reply (.replaceCheck r previous users r.planned [])
  | newUser {r previous current u rest grants reply} : u ∉ current →
      Inside s (.replaceCheck r previous current (u :: rest) grants) reply
        (.replaceCheck r previous current rest (grants ++ [⟨u, true⟩]))
  | viewer {r previous current u rest grants reply} : u ∈ current → s.Views r.document u →
      Inside s (.replaceCheck r previous current (u :: rest) grants) reply
        (.replaceCheck r previous current rest grants)
  | noViewer {r previous current u rest grants reply} : u ∈ current → ¬ s.Views r.document u →
      Inside s (.replaceCheck r previous current (u :: rest) grants) reply
        (.replaceCheck r previous current rest (grants ++ [⟨u, false⟩]))
  | validate {r previous current grants members reply} :
      Inside s (.replaceCheck r previous current [] grants) reply
        (.replaceValidate r previous current grants members grants)
  | nobody {r previous current reply} :
      Inside s (.replaceCheck r previous current [] []) reply (.replaceCommit r previous current [])
  | valid {r previous current grants members grant rest reply} :
      Inside s (.replaceValidate r previous current grants members (grant :: rest)) reply
        (.replaceValidate r previous current grants members rest)
  | allValid {r previous current grants members reply} :
      Inside s (.replaceValidate r previous current grants members []) reply
        (.replaceCommit r previous current grants)

/-- A call that inserts the row of a user goes on to write the tuple. -/
inductive Inserts : Proc → Nat → Nat → Proc → Prop
  | grant {d u} : Inserts (.grantInsert d u) d u (.grantWrite d u)
  | replace {r u rest} :
      Inserts (.replaceApply r [] (⟨u, true⟩ :: rest)) r.document u (.replaceWrite r u rest)

inductive Writes : Proc → TupleKey → Proc → Prop
  | grant {d u} : Writes (.grantWrite d u) (explicitViewerTuple d u) .done
  | replace {r u rest} :
      Writes (.replaceWrite r u rest) (explicitViewerTuple r.document u) (.replaceApply r [] rest)
  | replay {row n t} : Writes (.replay row n .tupleWrite t) t (.rowProcessed row)

/-- A call that takes the tuple of a user. -/
inductive Takes : Proc → Nat → Nat → Proc → Prop
  | revoke {d u} : Takes (.revokeTuple d u) d u (.revokeRow d u)
  | mode {d mode u rest} : Takes (.modeRevoke d mode (u :: rest)) d u (.modeRevoke d mode rest)
  | replace {r u rest grants} :
      Takes (.replaceApply r (u :: rest) grants) r.document u (.replaceDelete r u rest grants)

inductive Deletes : Proc → Nat → Nat → Proc → Prop
  | undo {d u} : Deletes (.grantUndo d u) d u .done
  | revoke {d u} : Deletes (.revokeRow d u) d u .done
  | replace {r u rest grants} :
      Deletes (.replaceDelete r u rest grants) r.document u (.replaceApply r rest grants)

inductive Locks (document : Document) : Proc → Nat → Proc → Prop
  | restrict {d workspace} : Locks document (.modeLock d workspace .restricted) d
      (.modeRevoke d .restricted [])
  | widen {d workspace} : Locks document (.modeLock d workspace .workspaceDefault) d
      (.modeShares d .workspaceDefault)
  | replace {r} : Locks document (.replaceLock r) r.document (.replaceRead r document.accessMode)

/-- Everything that process `i` can do from where it stands. -/
inductive Moves (s : State) (i : Nat) : Proc → Reply → State → Prop
  | quiet {p q reply} (outbox : List AuthzRow) : Outside s p reply q →
      Moves s i p reply ({ s with outbox := outbox }.goto i q)
  | inside {p q reply} : Inside s p reply q → Moves s i p reply (s.goto i q)
  | insert {p d u q reply} : Inserts p d u q → (s.documents d).isSome → s.locks d = none →
      Moves s i p reply ({ s with shares := insert (d, u) s.shares }.goto i q)
  | write {p t q} : Writes p t q →
      Moves s i p (.called .done) ({ s with tuples := insert t s.tuples }.goto i q)
  | take {p d u q} : Takes p d u q →
      Moves s i p (.called .done)
        ({ s with tuples := s.tuples.erase (explicitViewerTuple d u) }.goto i q)
  | replayDelete {row n event t} :
      Moves s i (.replay row n event t) (.called .done)
        ({ s with tuples := s.tuples.erase t }.goto i (.rowProcessed row))
  | delete {p d u q} : Deletes p d u q →
      Moves s i p (.sql true) ({ s with shares := s.shares.erase (d, u) }.goto i q)
  | lock {p d q} {document : Document} : s.documents d = some document → s.locks d = none →
      Locks document p d q → Moves s i p (.sql true) ((s.lock d i).goto i q)
  | leave {p d reply} : p.document? = some d → Moves s i p reply (s.leave i d p.aborted)
  | commitMode {d mode} : Moves s i (.modeCommit d mode) (.sql true) (commitMode s i d mode)
  | unchanged {r current reply} : r.toRevoke current = [] →
      Moves s i (.replaceCommit r r.requestedMode current []) reply
        (s.leave i r.document (.replaced r .ok))
  | commitReplace {r previous current grants} (t : State) :
      t = (if previous = r.requestedMode then s else s.setMode r.document r.requestedMode) →
      Moves s i (.replaceCommit r previous current grants) (.sql true)
        (t.leave i r.document (.replaceApply r (r.toRevoke current) grants))

section Inversion

variable {s t : State} {i : Nat} {p q : Proc} {reply : Reply}

theorem moves_goto (h : Outside s p reply q) : Moves s i p reply (s.goto i q) :=
  .quiet s.outbox h

theorem insertShare_moves {d u : Nat} {ok : Bool} {next failed : Proc}
    (present : (d, u) ∈ s.shares → Outside s p reply next) (inserts : Inserts p d u next)
    (fails : Outside s p reply failed) (h : insertShare s i d u ok next failed = some t) :
    Moves s i p reply t := by
  unfold insertShare at h
  split at h
  next hok =>
    split at h
    next hin =>
      cases Option.some.inj h
      exact moves_goto (present hin)
    next =>
      obtain ⟨hfree, h⟩ := Option.ite_none_right_eq_some.mp h
      cases Option.some.inj h
      exact .insert inserts hok.2 hfree
  next =>
    cases Option.some.inj h
    exact moves_goto fails

theorem deleteShare_moves {d u : Nat} {ok : Bool} {next failed : Proc} (hreply : reply = .sql ok)
    (deletes : Deletes p d u next) (fails : Outside s p reply failed) :
    Moves s i p reply (deleteShare s i d u ok next failed) := by
  subst hreply
  cases ok with
  | true => exact .delete deletes
  | false => exact moves_goto fails

theorem writeViewer_moves {d u : Nat} {r : Fga.WriteReply} {next failed : Proc}
    (writes : Writes p (explicitViewerTuple d u) next)
    (refused : ∀ e, Outside s p (.called (.failed e)) failed)
    (h : writeViewer s i d u r next failed = some t) : Moves s i p (.called r) t := by
  obtain ⟨tuples, hw, rfl⟩ := Option.map_eq_some_iff.mp h
  rcases Fga.write_cases hw with ⟨rfl, rfl⟩ | ⟨e, rfl, rfl⟩
  · exact .write writes
  · exact moves_goto (refused e)

/-- `delete_tuples_fga_first` on one tuple: taken, missing, or refused. -/
theorem deleteViewerFgaFirst_moves {d u : Nat} {r : Fga.WriteReply} {next : Proc}
    (failed : State → State) (takes : Takes p d u next)
    (missing : ∀ e, isMissingTupleDeleteError e = true →
      Moves s i p (.called (.failed e)) (s.goto i next))
    (refused : ∀ e, Moves s i p (.called (.failed e)) (failed s))
    (h : deleteViewerFgaFirst s i d u r next failed = some t) : Moves s i p (.called r) t := by
  obtain ⟨tuples, hd, h⟩ := Option.map_eq_some_iff.mp h
  rcases Fga.delete_cases hd with ⟨rfl, rfl⟩ | ⟨e, rfl, rfl⟩
  · rw [← h]
    exact .take takes
  · simp only [Fga.WriteReply.error] at h
    split at h
    next hm =>
      rw [← h]
      exact missing e hm
    next =>
      rw [← h]
      exact refused e

theorem lockDocument_moves {d workspace : Nat} {next : Document → Proc} {missing : Proc}
    (locks : ∀ document, Locks document p d (next document))
    (fails : Outside s p (.sql true) missing)
    (h : lockDocument s i d workspace next missing = some t) : Moves s i p (.sql true) t := by
  unfold lockDocument at h
  split at h
  next document hd =>
    split at h
    · obtain ⟨hfree, h⟩ := Option.ite_none_right_eq_some.mp h
      cases Option.some.inj h
      exact .lock hd hfree (locks document)
    · cases Option.some.inj h
      exact moves_goto fails
  next =>
    cases Option.some.inj h
    exact moves_goto fails

theorem checkViewer_moves {r : PermissionsRequest} {previous : DocumentAccessMode}
    {current rest : List Nat} {grants : List GrantPlan} {user : Nat}
    {answer : Except AuthzError Bool} (hu : user ∈ current)
    (h : checkViewer s i r previous current rest grants user answer = some t) :
    Moves s i (.replaceCheck r previous current (user :: rest) grants) reply t := by
  obtain ⟨hanswer, h⟩ := Option.ite_none_right_eq_some.mp h
  split at h
  all_goals cases Option.some.inj h
  · have hviews : s.Views r.document user := by simpa [Fga.checkReply, State.Views] using hanswer
    exact .inside (.viewer hu hviews)
  · have hviews : ¬ s.Views r.document user := by simpa [Fga.checkReply, State.Views] using hanswer
    exact .inside (.noViewer hu hviews)
  · exact .leave rfl

theorem validateGrant_moves {r : PermissionsRequest} {previous : DocumentAccessMode}
    {current members : List Nat} {grants rest : List GrantPlan} {grant : GrantPlan}
    {answer : Except AuthzError Bool} :
    Moves s i (.replaceValidate r previous current grants members (grant :: rest)) reply
      (validateGrant s i r members grant answer
        (.replaceValidate r previous current grants members rest)) := by
  unfold validateGrant
  split
  · split
    · exact .inside .valid
    · exact .leave rfl
  · exact .leave rfl

theorem commitPermissions_moves {r : PermissionsRequest} {previous : DocumentAccessMode}
    {current : List Nat} {grants : List GrantPlan} {ok : Bool} :
    Moves s i (.replaceCommit r previous current grants) (.sql ok)
      (commitPermissions s i r previous current grants ok) := by
  unfold commitPermissions
  split
  next hsame =>
    obtain ⟨rfl, hrevoke, rfl⟩ := hsame
    exact .unchanged hrevoke
  next =>
    cases ok with
    | true => exact .commitReplace _ rfl
    | false => exact .leave rfl

theorem updateRow_moves {row : Nat} {f : AuthzRow → AuthzRow} {ok : Bool}
    (hd : p.document? = none) (hr : p.request? = none) (hf : p.finished = false) :
    Moves s i p reply (updateRow s i row f ok) := by
  cases ok with
  | true => exact .quiet _ (.stop hd hr hf)
  | false => exact moves_goto (.stop hd hr hf)

/-- The single grants and revokes, and the workers. -/
theorem advance_single_moves (hd : p.document? = none) (hr : p.request? = none)
    (hm : ∀ d workspace mode, p ≠ .modeLock d workspace mode)
    (h : advance s i p reply = some t) : Moves s i p reply t := by
  cases p with
  | grantInsert d u =>
    cases reply with
    | sql ok => exact insertShare_moves .rowPresent .grant (.stop rfl rfl rfl) h
    | _ => cases h
  | grantWrite d u =>
    cases reply with
    | called r => exact writeViewer_moves .grant (fun e => .grantRefused) h
    | _ => cases h
  | grantUndo d u =>
    cases reply with
    | sql ok =>
      cases Option.some.inj h
      exact deleteShare_moves rfl .undo (.stop rfl rfl rfl)
    | _ => cases h
  | revokeTuple d u =>
    cases reply with
    | called r =>
      obtain ⟨tuples, hw, rfl⟩ := Option.map_eq_some_iff.mp h
      rcases Fga.delete_cases hw with ⟨rfl, rfl⟩ | ⟨e, rfl, rfl⟩
      · exact .take .revoke
      · exact moves_goto (.stop rfl rfl rfl)
    | _ => cases h
  | revokeRow d u =>
    cases reply with
    | sql ok =>
      cases Option.some.inj h
      exact deleteShare_moves rfl .revoke (.stop rfl rfl rfl)
    | _ => cases h
  | modeLock d workspace mode => exact absurd rfl (hm d workspace mode)
  | replay row n event k =>
    cases reply with
    | called r =>
      cases event with
      | tupleWrite =>
        obtain ⟨tuples, hw, rfl⟩ := Option.map_eq_some_iff.mp h
        rcases Fga.write_cases hw with ⟨rfl, rfl⟩ | ⟨e, rfl, rfl⟩
        · exact .write .replay
        · exact moves_goto (.replayed .tupleWrite (.failed e))
      | tupleDelete =>
        obtain ⟨tuples, hw, rfl⟩ := Option.map_eq_some_iff.mp h
        rcases Fga.delete_cases hw with ⟨rfl, rfl⟩ | ⟨e, rfl, rfl⟩
        · exact .replayDelete
        · exact moves_goto (.replayed .tupleDelete (.failed e))
      | workspaceRoleSync =>
        obtain ⟨tuples, hw, rfl⟩ := Option.map_eq_some_iff.mp h
        rcases Fga.delete_cases hw with ⟨rfl, rfl⟩ | ⟨e, rfl, rfl⟩
        · exact .replayDelete
        · exact moves_goto (.replayed .tupleDelete (.failed e))
    | _ => cases event <;> cases h
  | rowProcessed row =>
    cases reply with
    | sql ok =>
      cases Option.some.inj h
      exact updateRow_moves rfl rfl rfl
    | _ => cases h
  | rowFailed row n message =>
    cases reply with
    | sql ok =>
      cases Option.some.inj h
      exact updateRow_moves rfl rfl rfl
    | _ => cases h
  | done => cases reply <;> cases h
  | replaced r outcome => cases reply <;> cases h
  | _ => first | (cases hd; done) | cases hr

theorem advance_mode_moves {d : Nat} {mode : DocumentAccessMode}
    (hp : (∃ workspace, p = .modeLock d workspace mode) ∨ p = .modeShares d mode ∨
      (∃ todo, p = .modeRevoke d mode todo) ∨ p = .modeCommit d mode)
    (h : advance s i p reply = some t) : Moves s i p reply t := by
  rcases hp with ⟨workspace, rfl⟩ | rfl | ⟨todo, rfl⟩ | rfl
  · cases reply with
    | sql ok =>
      cases ok with
      | true =>
        refine lockDocument_moves (fun document => ?_) (.stop rfl rfl rfl) h
        cases mode with
        | workspaceDefault => exact .widen
        | restricted => exact .restrict
      | false =>
        cases Option.some.inj h
        exact moves_goto (.stop rfl rfl rfl)
    | _ => cases h
  · cases reply with
    | sql ok =>
      cases ok with
      | true => cases h
      | false =>
        cases Option.some.inj h
        exact .leave rfl
    | listed users =>
      obtain ⟨hlists, h⟩ := Option.ite_none_right_eq_some.mp h
      cases Option.some.inj h
      exact .inside (.shares hlists)
    | _ => cases h
  · cases todo with
    | nil =>
      cases reply with
      | sql ok =>
        cases ok with
        | true =>
          cases Option.some.inj h
          exact .inside .wrote
        | false =>
          cases Option.some.inj h
          exact .leave rfl
      | _ => cases h
    | cons u rest =>
      cases reply with
      | called r =>
        exact deleteViewerFgaFirst_moves (fun s => s.leave i d .done) .mode
          (fun e he => .inside (.missing he)) (fun e => .leave rfl) h
      | _ => cases h
  · cases reply with
    | sql ok =>
      cases ok with
      | true =>
        cases Option.some.inj h
        exact .commitMode
      | false =>
        cases Option.some.inj h
        exact .leave rfl
    | _ => cases h

/-- The part of a replacement that plans under the lock. -/
theorem advance_plan_moves {r : PermissionsRequest} (hr : p.request? = some r)
    (hd : p.document? ≠ none) (h : advance s i p reply = some t) : Moves s i p reply t := by
  cases p with
  | replaceRead r previous =>
    cases reply with
    | sql ok =>
      cases ok with
      | true => cases h
      | false =>
        cases Option.some.inj h
        exact .leave rfl
    | listed users =>
      obtain ⟨hlists, h⟩ := Option.ite_none_right_eq_some.mp h
      cases Option.some.inj h
      exact .inside (.read hlists)
    | _ => cases h
  | replaceCheck r previous current todo grants =>
    cases todo with
    | nil =>
      cases reply with
      | sql ok =>
        cases ok with
        | true =>
          obtain ⟨rfl, h⟩ := Option.ite_none_right_eq_some.mp h
          cases Option.some.inj h
          exact .inside .nobody
        | false =>
          cases Option.some.inj h
          exact .leave rfl
      | listed members =>
        cases Option.some.inj h
        exact .inside .validate
      | _ => cases h
    | cons user rest =>
      cases reply with
      | sql ok =>
        obtain ⟨hu, h⟩ := Option.ite_none_left_eq_some.mp h
        cases Option.some.inj h
        exact .inside (.newUser hu)
      | checked answer =>
        obtain ⟨hu, h⟩ := Option.ite_none_right_eq_some.mp h
        exact checkViewer_moves hu h
      | _ => cases h
  | replaceValidate r previous current grants members todo =>
    cases todo with
    | nil =>
      cases reply with
      | sql ok =>
        cases Option.some.inj h
        exact .inside .allValid
      | _ => cases h
    | cons grant rest =>
      cases reply with
      | checked answer =>
        cases Option.some.inj h
        exact validateGrant_moves
      | _ => cases h
  | replaceCommit r previous current grants =>
    cases reply with
    | sql ok =>
      cases Option.some.inj h
      exact commitPermissions_moves
    | _ => cases h
  | _ => first | (cases hr; done) | exact absurd rfl hd

/-- The part of a replacement before its lock, and the loops after its commit. -/
theorem advance_apply_moves {r : PermissionsRequest} (hr : p.request? = some r)
    (hd : p.document? = none) (h : advance s i p reply = some t) : Moves s i p reply t := by
  cases p with
  | replaceLock r =>
    cases reply with
    | sql ok =>
      cases ok with
      | true =>
        exact lockDocument_moves (fun document => .replace) (.fail rfl rfl Outcome.noConfusion) h
      | false =>
        cases Option.some.inj h
        exact moves_goto (.fail rfl rfl Outcome.noConfusion)
    | _ => cases h
  | replaceApply r revokes grants =>
    cases revokes with
    | cons u rest =>
      cases reply with
      | called answer =>
        exact deleteViewerFgaFirst_moves (fun s => s.goto i (.replaced r .failed)) .replace
          (fun e he => moves_goto (.missing he))
          (fun e => moves_goto (.fail rfl rfl Outcome.noConfusion)) h
      | _ => cases grants <;> cases h
    | nil =>
      cases grants with
      | nil =>
        cases reply with
        | sql ok =>
          cases Option.some.inj h
          exact moves_goto .applied
        | _ => cases h
      | cons grant rest =>
        obtain ⟨u, insertSqlRow⟩ := grant
        cases insertSqlRow with
        | true =>
          cases reply with
          | sql ok =>
            exact insertShare_moves .sharePresent .replace
              (.fail rfl rfl Outcome.noConfusion) h
          | _ => cases h
        | false =>
          cases reply with
          | sql ok =>
            cases Option.some.inj h
            exact moves_goto .regrant
          | _ => cases h
  | replaceDelete r u revokes grants =>
    cases reply with
    | sql ok =>
      cases Option.some.inj h
      exact deleteShare_moves rfl .replace (.fail rfl rfl Outcome.noConfusion)
    | _ => cases h
  | replaceWrite r u grants =>
    cases reply with
    | called answer => exact writeViewer_moves .replace (fun e => .writeRefused) h
    | _ => cases h
  | enqueueWrite r u =>
    cases reply with
    | sql ok =>
      cases Option.some.inj h
      cases ok with
      | true => exact .quiet _ (.fail rfl rfl Outcome.noConfusion)
      | false => exact moves_goto (.fail rfl rfl Outcome.noConfusion)
    | _ => cases h
  | _ => first | (cases hr; done) | cases hd

theorem advance_moves (h : advance s i p reply = some t) : Moves s i p reply t := by
  cases hr : p.request? with
  | some r =>
    cases hd : p.document? with
    | none => exact advance_apply_moves hr hd h
    | some d => exact advance_plan_moves hr (by rw [hd]; exact Option.some_ne_none d) h
  | none =>
    cases p with
    | modeLock d workspace mode => exact advance_mode_moves (.inl ⟨workspace, rfl⟩) h
    | modeShares d mode => exact advance_mode_moves (.inr (.inl rfl)) h
    | modeRevoke d mode todo => exact advance_mode_moves (.inr (.inr (.inl ⟨todo, rfl⟩))) h
    | modeCommit d mode => exact advance_mode_moves (.inr (.inr (.inr rfl))) h
    | _ => first | (cases hr; done) | exact advance_single_moves rfl rfl nofun h

theorem abortStep_moves (hp : p.finished = false) : Moves s i p reply (abortStep s i p) := by
  unfold abortStep
  split
  next d hd => exact .leave hd
  next hd =>
    unfold Proc.aborted
    split
    next r hr => exact moves_goto (.fail hd hr Outcome.noConfusion)
    next hr => exact moves_goto (.stop hd hr hp)

/-- Where a call or a worker begins. -/
def Proc.Starts (p : Proc) : Prop :=
  (∃ d u, p = .grantInsert d u) ∨ (∃ d u, p = .revokeTuple d u) ∨
    (∃ d workspace mode, p = .modeLock d workspace mode) ∨ (∃ r, p = .replaceLock r) ∨
    (∃ row n event t, p = .replay row n event t) ∨ ∃ row n message, p = .rowFailed row n message

theorem step_advance {maxRetries : Int} (h : step maxRetries s (.advance i reply) = some t) :
    ∃ p, s.procs[i]? = some p ∧ Moves s i p reply t := by
  simp only [step] at h
  split at h
  next p hp => exact ⟨p, hp, advance_moves h⟩
  next => cases h

theorem step_abort {maxRetries : Int} (h : step maxRetries s (.abort i) = some t) :
    ∃ p, s.procs[i]? = some p ∧ Moves s i p (.sql false) t := by
  simp only [step] at h
  split at h
  next p hp =>
    obtain ⟨hf, h⟩ := Option.ite_none_left_eq_some.mp h
    cases Option.some.inj h
    exact ⟨p, hp, abortStep_moves (by simpa using hf)⟩
  next => cases h

theorem step_cases {maxRetries : Int} {a : Act} (h : step maxRetries s a = some t) :
    (∃ p, t = s.start p ∧ p.Starts) ∨
    ∃ i p reply, s.procs[i]? = some p ∧ Moves s i p reply t ∧
      (a = .advance i reply ∨ (a = .abort i ∧ reply = .sql false)) := by
  cases a with
  | grant d u =>
    cases Option.some.inj h
    exact .inl ⟨_, rfl, .inl ⟨d, u, rfl⟩⟩
  | revoke d u =>
    cases Option.some.inj h
    exact .inl ⟨_, rfl, .inr (.inl ⟨d, u, rfl⟩)⟩
  | setMode d workspace mode =>
    cases Option.some.inj h
    exact .inl ⟨_, rfl, .inr (.inr (.inl ⟨d, workspace, mode, rfl⟩))⟩
  | replace r =>
    cases Option.some.inj h
    exact .inl ⟨_, rfl, .inr (.inr (.inr (.inl ⟨r, rfl⟩)))⟩
  | work row =>
    simp only [step] at h
    split at h
    next r hr =>
      obtain ⟨-, h⟩ := Option.ite_none_right_eq_some.mp h
      obtain ⟨p, hp, rfl⟩ := Option.map_eq_some_iff.mp h
      refine .inl ⟨p, rfl, .inr (.inr (.inr (.inr ?_)))⟩
      unfold workStart at hp
      split at hp
      all_goals cases hp
      · exact .inl ⟨_, _, _, _, rfl⟩
      · exact .inl ⟨_, _, _, _, rfl⟩
      · exact .inr ⟨_, _, _, rfl⟩
    next => cases h
  | advance i reply =>
    obtain ⟨p, hp, hm⟩ := step_advance h
    exact .inr ⟨i, p, reply, hp, hm, .inl rfl⟩
  | abort i =>
    obtain ⟨p, hp, hm⟩ := step_abort h
    exact .inr ⟨i, p, .sql false, hp, hm, .inr ⟨rfl, rfl⟩⟩

end Inversion

end GmragApi.DocumentAcl

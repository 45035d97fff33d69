import GmragApi.LastAdmin

/-! Which runs leave no workspace tuple in OpenFGA without its row in `workspace_members`. -/

namespace GmragApi.Members

open Transition

/-- Every direct role tuple has the row of that user with that role. -/
def NoOverGrant (s : State) : Prop :=
  ∀ workspace user role, memberTuple workspace user role ∈ s.tuples →
    s.role workspace user = some role

/-- No request or worker is in flight, and no row is left for a worker. -/
def Quiescent (env : Env) (s : State) : Prop :=
  (∀ p ∈ s.procs, p = .done) ∧ ∀ r ∈ s.outbox, r.retryable env.maxRetries = false

/-- A role tuple is written only while the row has that role, and a transaction commits only while
the tuple of the role that it takes away is out of the store. -/
def tuplesFollowRows (s : State) : Act → Prop
  | .advance i (.called .done) => ∀ p workspace user role, s.procs[i]? = some p →
    p.writes? = some (memberTuple workspace user role) → s.role workspace user = some role
  | .advance i (.sql true) => ∀ target role, s.procs[i]? = some (.commit target role) →
    memberTuple target.workspace target.user role ∉ s.tuples
  | _ => True

theorem memberTuple_injective {w w' u u' : Nat} {r r' : Role}
    (h : memberTuple w u r = memberTuple w' u' r') : w = w' ∧ u = u' ∧ r = r' := by
  simp only [memberTuple, TupleKey.mk.injEq, Subject.user.injEq, FgaObject.workspace.injEq] at h
  obtain ⟨hu, hr, hw⟩ := h
  refine ⟨hw, hu, ?_⟩
  cases r <;> cases r' <;> first | rfl | cases hr

section Move

variable {env : Env} {s t : State} {i : Nat} {p : Proc} {reply : Reply}

/-- A commit changes one row, and with it what the tuples of that user have behind them. -/
theorem commit_noOverGrant_iff {target : Target} {role : Role} (hn : NoOverGrant s)
    (hrow : s.role target.workspace target.user = some role) (hne : target.change ≠ .setRole role) :
    NoOverGrant (commitStep s i target) ↔
      memberTuple target.workspace target.user role ∉ s.tuples := by
  constructor
  · intro h hk
    have hr := h _ _ role (by rw [commitStep_tuples]; exact hk)
    rw [commitStep_role, if_pos rfl] at hr
    cases hchange : target.change with
    | setRole new =>
      rw [hchange] at hr hne
      cases hr
      exact hne rfl
    | remove =>
      rw [hchange] at hr
      cases hr
  · intro hgone w u r hk
    rw [commitStep_tuples] at hk
    have hr := hn w u r hk
    rw [commitStep_role, if_neg]
    · exact hr
    · intro heq
      obtain ⟨rfl, rfl⟩ := Prod.mk.inj heq
      rw [hrow] at hr
      cases hr
      exact hgone hk

theorem Moves.noOverGrant (h : Moves env s i p reply t) (hc : p.Consistent s i)
    (written : reply = .called .done → ∀ w u r, p.writes? = some (memberTuple w u r) →
      s.role w u = some r)
    (committed : ∀ target role, p = .commit target role → reply = .sql true →
      memberTuple target.workspace target.user role ∉ s.tuples)
    (hn : NoOverGrant s) : NoOverGrant t := by
  cases h with
  | insert hfree hnew => exact fun w u r hk => insert_role hnew (hn w u r hk)
  | write hwrites hq =>
    intro w u r hk
    rcases Finset.mem_insert.mp hk with rfl | hk
    · exact written rfl w u r hwrites
    · exact hn w u r hk
  | drop k hw hq => exact fun w u r hk => hn w u r (Finset.mem_of_mem_erase hk)
  | revoke => exact fun w u r hk => hn w u r (Finset.mem_of_mem_erase hk)
  | @commit target role =>
    obtain ⟨hrow, hne⟩ := hc.2 target role rfl
    exact (commit_noOverGrant_iff hn hrow hne).mpr (committed target role rfl rfl)
  | _ => exact hn

theorem step_noOverGrant {a : Act} (hi : Inv s) (hn : NoOverGrant s) (hok : tuplesFollowRows s a)
    (h : step env s a = some t) : NoOverGrant t := by
  rcases step_cases h with ⟨p, rfl, -, -⟩ | ⟨i, p, reply, hp, hm, ha⟩
  · exact hn
  refine hm.noOverGrant (hi i p hp) ?_ ?_ hn
  · rintro rfl w u r hwrites
    rcases ha with rfl | ⟨-, hreply⟩
    · exact hok p w u r hp hwrites
    · cases hreply
  · rintro target role rfl rfl
    rcases ha with rfl | ⟨-, hreply⟩
    · exact hok target role hp
    · cases hreply

theorem advance_write {k : TupleKey} (hwrites : p.writes? = some k)
    (h : advance env s i p (.called .done) = some t) : k ∈ t.tuples ∧ t.role = s.role := by
  have wrote : ∀ q, writeStep s i k .done q = some t → k ∈ t.tuples ∧ t.role = s.role := by
    intro q hq
    obtain ⟨tuples, hw, rfl⟩ := Option.map_eq_some_iff.mp hq
    rcases Fga.write_cases hw with ⟨-, rfl⟩ | ⟨e, he, -⟩
    · exact ⟨Finset.mem_insert_self _ _, rfl⟩
    · cases he
  cases p with
  | addGrant workspace user role =>
    cases hwrites
    exact wrote _ h
  | grant workspace user role event =>
    cases hwrites
    exact wrote _ h
  | workTuple row n event t =>
    cases event with
    | tupleWrite =>
      cases hwrites
      exact wrote _ h
    | _ => cases hwrites
  | workSync row n deletes write =>
    cases deletes with
    | nil =>
      cases write with
      | some t =>
        cases hwrites
        exact wrote _ h
      | none => cases hwrites
    | cons k rest => cases hwrites
  | _ => cases hwrites

theorem noOverGrant_step {a : Act} (hi : Inv s) (hn : NoOverGrant s)
    (h : step env s a = some t) (ht : NoOverGrant t) : tuplesFollowRows s a := by
  cases a with
  | advance i reply =>
    have moved : ∀ p, s.procs[i]? = some p → advance env s i p reply = some t := by
      intro p hp
      simpa only [step, hp] using h
    cases reply with
    | called r =>
      cases r with
      | done =>
        intro p w u role hp hwrites
        obtain ⟨hk, hrole⟩ := advance_write hwrites (moved p hp)
        rw [← hrole]
        exact ht w u role hk
      | failed e => trivial
    | sql ok =>
      cases ok with
      | true =>
        intro target role hp
        obtain ⟨hrow, hne⟩ := (hi i _ hp).2 target role rfl
        have hcommit : commitStep s i target = t := Option.some.inj (moved _ hp)
        exact (commit_noOverGrant_iff hn hrow hne).mp (hcommit ▸ ht)
      | false => trivial
    | checked r => trivial
    | listed users => trivial
  | _ => trivial

end Move

/-- A run keeps every role tuple of OpenFGA backed by its row, in every state that it visits,
exactly when its writes and commits follow the rows. -/
theorem no_over_grant_iff (env : Env) {s t : State} (as : List Act) (hidle : Idle s)
    (hn : NoOverGrant s) (hr : run (step env) s as = some t) :
    Always (step env) NoOverGrant s as ↔ Meets (step env) tuplesFollowRows s as := by
  have hi : Inv s := by
    intro i p hp
    rw [hidle.1] at hp
    cases hp
  exact always_iff_meets (fun _ _ _ hi h => step_inv hi h)
    (fun _ _ _ hi hn hok h => step_noOverGrant hi hn hok h)
    (fun _ _ _ hi hn h ht => noOverGrant_step hi hn h ht) hi hn hr

def newMember : State where
  members := AList.singleton (0, 1) Role.admin
  tuples := {memberTuple 0 1 .admin}
  outbox := []
  locks := fun _ => none
  procs := []

theorem newMember_noOverGrant : NoOverGrant newMember := by
  intro w u r hk
  obtain ⟨rfl, rfl, rfl⟩ := memberTuple_injective (Finset.mem_singleton.mp hk)
  rfl

/-- Admin 1 adds user 2 and OpenFGA takes the tuple. -/
def addition : List Act :=
  [.addMember 1 0 2 .member, .advance 0 (.checked (.ok true)), .advance 0 (.sql true),
    .advance 0 (.called .done)]

def twoMembers : State := (run (step sampleEnv) newMember addition).getD newMember

theorem no_over_grant_iff_addition :
    Always (step sampleEnv) NoOverGrant newMember addition ↔
      Meets (step sampleEnv) tuplesFollowRows newMember addition := by
  have hr : run (step sampleEnv) newMember addition = some twoMembers := rfl
  exact no_over_grant_iff sampleEnv addition ⟨rfl, fun _ => rfl⟩ newMember_noOverGrant hr

def missingTuple : AuthzError := .openFga 400 "cannot delete a tuple which does not exist".toList

/-- The tuple of an added user is not written, the user is removed, and a worker replays the write. -/
def staleReplay : List Act :=
  [.addMember 1 0 2 .member, .advance 0 (.checked (.ok true)), .advance 0 (.sql true),
    .advance 0 (.called (.failed .http)), .advance 0 (.sql true),
    .removeMember 1 0 2, .advance 1 (.checked (.ok true)), .advance 1 (.sql true),
    .advance 1 (.sql true), .advance 1 (.called (.failed missingTuple)), .advance 1 (.sql true),
    .advance 1 (.sql true),
    .work 0, .advance 2 (.called .done), .advance 2 (.sql true)]

def replayed : State := (run (step sampleEnv) newMember staleReplay).getD newMember

theorem removed_member_regains_tuple :
    Idle newMember ∧ newMember.outbox = [] ∧ NoOverGrant newMember ∧
      Reach (· = newMember) (step sampleEnv) anyStep replayed ∧ Quiescent sampleEnv replayed ∧
      memberTuple 0 2 .member ∈ replayed.tuples ∧ replayed.role 0 2 = none := by
  have hr : run (step sampleEnv) newMember staleReplay = some replayed := rfl
  exact ⟨⟨rfl, fun _ => rfl⟩, rfl, newMember_noOverGrant, Reach.of_free_run rfl hr,
    ⟨by decide, by decide⟩, by decide, rfl⟩

end GmragApi.Members

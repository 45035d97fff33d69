import GmragApi.DocumentViewers
import GmragApi.MemberMoves
import GmragApi.ResourceTuples

/-! What one step can change of the rows and tuples of resources. -/

namespace GmragApi

namespace DocumentAcl

/-- The tuple that the next call of a process writes. -/
def Proc.writes? : Proc → Option TupleKey
  | grantWrite d u => some (explicitViewerTuple d u)
  | replaceWrite r u _ => some (explicitViewerTuple r.document u)
  | replay _ _ .tupleWrite t => some t
  | _ => none

variable {s t : State} {i : Nat} {p q : Proc} {reply : Reply}

theorem Writes.writes? {k : TupleKey} (h : Writes p k q) : p.writes? = some k := by
  cases h <;> rfl

theorem Moves.tuples_written (h : Moves s i p reply t) {k : TupleKey} (hk : k ∈ t.tuples) :
    k ∈ s.tuples ∨ (reply = .called .done ∧ p.writes? = some k) := by
  cases h with
  | write hw =>
    rcases Finset.mem_insert.mp hk with rfl | hk
    · exact .inr ⟨rfl, hw.writes?⟩
    · exact .inl hk
  | take => exact .inl (Finset.mem_of_mem_erase hk)
  | replayDelete => exact .inl (Finset.mem_of_mem_erase hk)
  | commitMode =>
    rw [commitMode_tuples] at hk
    exact .inl hk
  | commitReplace u hu =>
    rw [hu] at hk
    refine .inl ?_
    split at hk <;> exact hk
  | _ => exact .inl hk

theorem State.setMode_workspace (s : State) (d e : Nat) (mode : DocumentAccessMode) :
    ((s.setMode d mode).documents e).map Document.workspace =
      (s.documents e).map Document.workspace := by
  by_cases h : e = d
  · subst h
    cases hd : s.documents e <;> simp [State.setMode, hd]
  · simp [State.setMode, Function.update_of_ne h]

theorem commitMode_workspace (s : State) (i d e : Nat) (mode : DocumentAccessMode) :
    ((commitMode s i d mode).documents e).map Document.workspace =
      (s.documents e).map Document.workspace := by
  cases mode <;> exact State.setMode_workspace s d e _

/-- A document stays in its workspace. -/
theorem Moves.workspace (h : Moves s i p reply t) (d : Nat) :
    (t.documents d).map Document.workspace = (s.documents d).map Document.workspace := by
  cases h with
  | commitMode => exact commitMode_workspace _ _ _ _ _
  | commitReplace u hu =>
    rw [hu]
    split
    · rfl
    · exact State.setMode_workspace s _ d _
  | _ => rfl

/-- The tuple that a step writes. -/
def written (s : State) : Act → Option TupleKey
  | .advance i (.called .done) => (s.procs[i]?).bind Proc.writes?
  | _ => none

theorem step_written {maxRetries : Int} {a : Act} (h : step maxRetries s a = some t)
    {k : TupleKey} (hk : k ∈ t.tuples) : k ∈ s.tuples ∨ written s a = some k := by
  rcases step_cases h with ⟨p, rfl, -⟩ | ⟨i, p, reply, hp, hm, ha⟩
  · exact .inl hk
  · rcases hm.tuples_written hk with hk | ⟨rfl, hw⟩
    · exact .inl hk
    · rcases ha with rfl | ⟨-, hreply⟩
      · simp [written, hp, hw]
      · cases hreply

theorem step_workspace {maxRetries : Int} {a : Act} (h : step maxRetries s a = some t) (d : Nat) :
    (t.documents d).map Document.workspace = (s.documents d).map Document.workspace := by
  rcases step_cases h with ⟨p, rfl, -⟩ | ⟨i, p, reply, -, hm, -⟩
  · rfl
  · exact hm.workspace d

end DocumentAcl

namespace Members

variable {env : Env} {s t : State} {i : Nat} {p : Proc} {reply : Reply}

theorem Moves.tuples_written (h : Moves env s i p reply t) {k : TupleKey} (hk : k ∈ t.tuples) :
    k ∈ s.tuples ∨ (reply = .called .done ∧ p.writes? = some k) := by
  cases h with
  | write hw =>
    rcases Finset.mem_insert.mp hk with rfl | hk
    · exact .inr ⟨rfl, hw⟩
    · exact .inl hk
  | drop => exact .inl (Finset.mem_of_mem_erase hk)
  | revoke => exact .inl (Finset.mem_of_mem_erase hk)
  | commit =>
    rw [commitStep_tuples] at hk
    exact .inl hk
  | _ => exact .inl hk

/-- The tuple that a step writes. -/
def written (s : State) : Act → Option TupleKey
  | .advance i (.called .done) => (s.procs[i]?).bind Proc.writes?
  | _ => none

theorem step_written {a : Act} (h : step env s a = some t) {k : TupleKey} (hk : k ∈ t.tuples) :
    k ∈ s.tuples ∨ written s a = some k := by
  rcases step_cases h with ⟨p, rfl, -⟩ | ⟨i, p, reply, hp, hm, ha⟩
  · exact .inl hk
  · rcases hm.tuples_written hk with hk | ⟨rfl, hw⟩
    · exact .inl hk
    · rcases ha with rfl | ⟨-, hreply⟩
      · simp [written, hp, hw]
      · cases hreply

end Members

namespace ResourceTuples

/-- The steps of the other models are theirs on their part of the state. -/
theorem step_acl {maxRetries : Int} {s t : State} {a : DocumentAcl.Act}
    (h : step maxRetries s (.acl a) = some t) :
    DocumentAcl.step maxRetries s.acl a = some t.acl := by
  obtain ⟨acl, ha, rfl⟩ := Option.map_eq_some_iff.mp h
  have hdocuments : (s.withAcl acl).acl.documents = acl.documents := by
    funext d
    have hw := DocumentAcl.step_workspace ha d
    by_cases hd : d ∈ s.documents
    · cases hacl : acl.documents d with
      | some document => simp [State.acl, State.withAcl, hd, hacl]
      | none => simp [State.acl, hd, hacl] at hw
    · have hnone : s.acl.documents d = none := if_neg hd
      rw [hnone] at hw
      have hacl : acl.documents d = none := Option.map_eq_none_iff.mp hw
      rw [hacl]
      exact if_neg hd
  have hacl : (s.withAcl acl).acl = acl :=
    calc (s.withAcl acl).acl = { acl with documents := (s.withAcl acl).acl.documents } := rfl
      _ = acl := by rw [hdocuments]
  rw [hacl]
  exact ha

theorem step_team {maxRetries : Int} {s t : State} {a : Members.Act}
    (h : step maxRetries s (.team a) = some t) :
    Members.step (s.env maxRetries) s.team a = some t.team := by
  obtain ⟨team, ha, rfl⟩ := Option.map_eq_some_iff.mp h
  exact ha

theorem withAcl_workspace {maxRetries : Int} {s : State} {a : DocumentAcl.Act}
    {acl : DocumentAcl.State} (h : DocumentAcl.step maxRetries s.acl a = some acl) {d : Nat}
    (hd : d ∈ s.documents) : ((s.withAcl acl).document d).workspace = (s.document d).workspace := by
  have hw := DocumentAcl.step_workspace h d
  simp only [State.acl, if_pos hd, Option.map_some] at hw
  obtain ⟨document, hdoc, heq⟩ := Option.map_eq_some_iff.mp hw
  simp [State.withAcl, hdoc, heq]

/-- The tuples of a deletion that it still has to revoke before it drops its rows. -/
def Proc.pending? : Proc → Option (Target × List TupleKey)
  | revoking target todo => some (target, todo)
  | _ => none

/-- The tuples that a cleanup has found to be orphans, or has deleted as such. -/
def Proc.condemned : Proc → List TupleKey
  | listingTuples _ inventory tuples => buildReport inventory tuples
  | reporting _ inventory tuples => buildReport inventory tuples
  | removing todo removed => todo ++ removed
  | cleaned removed => removed
  | _ => []

/-- The tuple that the next call of a process writes. -/
def Proc.writes? : Proc → Option TupleKey
  | linkingDocument workspace document => some (documentWorkspaceTuple workspace document)
  | granting (t :: _) => some t
  | _ => none

/-- The answer to a write that has been carried out. -/
def Answer.applied : Answer → Bool
  | called .done => true
  | lost => true
  | _ => false

/-- The process condemns no further tuple and starts no revoke. -/
structure Proc.LeadsTo (p q : Proc) : Prop where
  condemned : ∀ t ∈ q.condemned, t ∈ p.condemned
  pending : q.pending? = none

/-- Everything that process `i` can do from where it stands. -/
inductive Moves (s : State) (i : Nat) : Proc → Answer → State → Prop
  | quiet {p q answer} (outbox : List AuthzRow) (tenantOwners : Nat → List Nat) : p.LeadsTo q →
      Moves s i p answer ({ s with outbox := outbox, tenantOwners := tenantOwners }.goto i q)
  | lock {p q answer} (target : Target) : p.LeadsTo q →
      Moves s i p answer ((s.lock i target).goto i q)
  | leave {p answer} (target : Target) : Moves s i p answer (s.leave i target .done)
  | captureDocument {w d shares} :
      Moves s i (.listingShares w d) (.rows shares)
        (s.goto i (.revoking (.document w d) (documentWorkspaceTuple w d :: shares)))
  | captureWorkspace {w plan shares} :
      Moves s i (.listingWorkspaceShares w plan) (.rows shares)
        (s.goto i (.revoking (.workspace w) (plan ++ shares)))
  | take {target t rest} :
      Moves s i (.revoking target (t :: rest)) (.called .done)
        ({ s with tuples := s.tuples.erase t }.goto i (.revoking target rest))
  | skip {target t rest e} : isMissingTupleDeleteError e = true →
      Moves s i (.revoking target (t :: rest)) (.called (.failed e))
        (s.goto i (.revoking target rest))
  | drop {target} :
      Moves s i (.revoking target []) (.sql true) ((s.drop target).leave i target .done)
  | rollBack {w d} :
      Moves s i (.removingRow w d) (.sql true) ((s.drop (.document w d)).goto i .done)
  | write {p q t answer} : p.writes? = some t → answer.applied = true → p.LeadsTo q →
      Moves s i p answer ({ s with tuples := insert t s.tuples }.goto i q)
  | insertDocument {w d mode} : s.unused (.document d) = true →
      Moves s i (.uploading w d mode) (.sql true)
        ({ s with
          documents := insert d s.documents
          document := Function.update s.document d ⟨w, mode⟩ }.goto i (.linkingDocument w d))
  | insertTenant {tenant} : s.unused (.tenant tenant) = true →
      Moves s i (.creatingTenant tenant) (.sql true)
        ({ s with tenants := insert tenant s.tenants }.goto i
          (.granting [tenantPlatformTuple tenant]))
  | insertWorkspace {tenant w user} (grants : List TupleKey) : s.unused (.workspace w) = true →
      Moves s i (.creatingWorkspace tenant w user) (.sql true)
        ({ s with
          workspaces := insert w s.workspaces
          tenantOf := Function.update s.tenantOf w tenant
          members := s.members.insert (w, user) .admin }.goto i (.granting grants))
  | page {delete inventory tuples listed last q} :
      q.condemned = buildReport inventory (tuples ++ listed) → q.pending? = none →
      Moves s i (.listingTuples delete inventory tuples) (.page listed last) (s.goto i q)
  | remove {t rest removed} :
      Moves s i (.removing (t :: rest) removed) (.called .done)
        ({ s with tuples := s.tuples.erase t }.goto i (.removing rest (t :: removed)))

section Inversion

variable {s t : State} {i : Nat} {p q : Proc} {answer : Answer}

theorem moves_goto (h : p.LeadsTo q) : Moves s i p answer (s.goto i q) :=
  .quiet s.outbox s.tenantOwners h

/-- A process that condemns nothing and starts no revoke can follow any other. -/
theorem Proc.leadsTo_of (hc : q.condemned = []) (hp : q.pending? = none) : p.LeadsTo q := by
  refine ⟨?_, hp⟩
  rw [hc]
  exact fun _ h => absurd h List.not_mem_nil

theorem lockTarget_moves {target : Target} {found : Bool} (hc : q.condemned = [])
    (hp : q.pending? = none) (h : lockTarget s i target found q = some t) :
    Moves s i p answer t := by
  unfold lockTarget at h
  split at h
  · obtain ⟨-, h⟩ := Option.ite_none_left_eq_some.mp h
    cases Option.some.inj h
    exact .lock target (Proc.leadsTo_of hc hp)
  · cases Option.some.inj h
    exact moves_goto (Proc.leadsTo_of rfl rfl)

theorem listRows_moves {target : Target} {rows : Finset TupleKey} {next : List TupleKey → Proc}
    (hnext : ∀ tuples, answer = .rows tuples → Moves s i p answer (s.goto i (next tuples)))
    (h : listRows s i target rows next answer = some t) : Moves s i p answer t := by
  unfold listRows at h
  split at h
  · obtain ⟨-, h⟩ := Option.ite_none_right_eq_some.mp h
    cases Option.some.inj h
    exact hnext _ rfl
  · cases Option.some.inj h
    exact .leave target
  · cases h

theorem writeTuple_moves {k : TupleKey} {reply : Fga.WriteReply} {next failed : Proc}
    (hk : p.writes? = some k) (hnext : p.LeadsTo next) (hfailed : p.LeadsTo failed)
    (h : writeTuple s i k reply next failed = some t) : Moves s i p (.called reply) t := by
  obtain ⟨tuples, hw, rfl⟩ := Option.map_eq_some_iff.mp h
  rcases Fga.write_cases hw with ⟨rfl, rfl⟩ | ⟨e, rfl, rfl⟩
  · exact .write hk rfl hnext
  · exact moves_goto hfailed

/-- One tuple of `delete_tuples_fga_first`: taken, missing, or refused. -/
theorem deleteTupleFgaFirst_moves {k : TupleKey} {reply : Fga.WriteReply} {deleted missing : Proc}
    {failed : State}
    (take : Moves s i p (.called .done)
      ({ s with tuples := s.tuples.erase k }.goto i deleted))
    (skip : ∀ e, isMissingTupleDeleteError e = true →
      Moves s i p (.called (.failed e)) (s.goto i missing))
    (refused : ∀ e, Moves s i p (.called (.failed e)) failed)
    (h : deleteTupleFgaFirst s i k reply deleted missing failed = some t) :
    Moves s i p (.called reply) t := by
  obtain ⟨tuples, hd, h⟩ := Option.map_eq_some_iff.mp h
  rcases Fga.delete_cases hd with ⟨rfl, rfl⟩ | ⟨e, rfl, rfl⟩
  · rw [← h]
    exact take
  · simp only [Fga.WriteReply.error] at h
    split at h
    next hm =>
      rw [← h]
      exact skip e hm
    next =>
      rw [← h]
      exact refused e

theorem advance_deletion_moves (hp : p.target?.isSome ∨ (∃ w d, p = .lockingDocument w d) ∨
    ∃ w, p = .lockingWorkspace w) (h : advance s i p answer = some t) : Moves s i p answer t := by
  cases p with
  | lockingDocument w d =>
    cases answer with
    | sql ok =>
      cases ok with
      | true => exact lockTarget_moves rfl rfl h
      | false =>
        cases Option.some.inj h
        exact moves_goto (Proc.leadsTo_of rfl rfl)
    | _ => cases h
  | lockingWorkspace w =>
    cases answer with
    | sql ok =>
      cases ok with
      | true => exact lockTarget_moves rfl rfl h
      | false =>
        cases Option.some.inj h
        exact moves_goto (Proc.leadsTo_of rfl rfl)
    | _ => cases h
  | listingShares w d =>
    refine listRows_moves (fun shares ha => ?_) h
    subst ha
    exact .captureDocument
  | listingMembers w tenant =>
    exact listRows_moves (fun _ _ => moves_goto (Proc.leadsTo_of rfl rfl)) h
  | listingDocuments w plan =>
    exact listRows_moves (fun _ _ => moves_goto (Proc.leadsTo_of rfl rfl)) h
  | listingWorkspaceShares w plan =>
    refine listRows_moves (fun shares ha => ?_) h
    subst ha
    exact .captureWorkspace
  | revoking target todo =>
    cases todo with
    | nil =>
      cases answer with
      | sql ok =>
        cases ok with
        | true =>
          obtain ⟨-, h⟩ := Option.ite_none_right_eq_some.mp h
          cases Option.some.inj h
          exact .drop
        | false =>
          cases Option.some.inj h
          exact .leave target
      | _ => cases h
    | cons k rest =>
      cases answer with
      | called reply =>
        exact deleteTupleFgaFirst_moves .take (fun _ => .skip) (fun _ => .leave target) h
      | _ => cases h
  | _ => rcases hp with hp | ⟨w, d, hp⟩ | ⟨w, hp⟩ <;> cases hp

/-- The requests that create a row and then write its tuples. -/
def Proc.creates : Proc → Bool
  | uploading .. => true
  | linkingDocument .. => true
  | removingRow .. => true
  | creatingTenant .. => true
  | addingOwner .. => true
  | creatingWorkspace .. => true
  | granting .. => true
  | recovering .. => true
  | _ => false

theorem advance_creation_moves (hp : p.creates = true) (h : advance s i p answer = some t) :
    Moves s i p answer t := by
  cases p with
  | uploading w d mode =>
    cases answer with
    | sql ok =>
      cases ok with
      | true =>
        simp only [advance, insertDocument] at h
        split at h
        · obtain ⟨hfree, h⟩ := Option.ite_none_right_eq_some.mp h
          cases Option.some.inj h
          exact .insertDocument hfree.2
        · cases Option.some.inj h
          exact moves_goto (Proc.leadsTo_of rfl rfl)
      | false =>
        cases Option.some.inj h
        exact moves_goto (Proc.leadsTo_of rfl rfl)
    | _ => cases h
  | linkingDocument w d =>
    cases answer with
    | called reply =>
      exact writeTuple_moves rfl (Proc.leadsTo_of rfl rfl) (Proc.leadsTo_of rfl rfl) h
    | lost =>
      cases Option.some.inj h
      exact .write rfl rfl (Proc.leadsTo_of rfl rfl)
    | _ => cases h
  | removingRow w d =>
    cases answer with
    | sql ok =>
      cases ok with
      | true =>
        obtain ⟨-, h⟩ := Option.ite_none_right_eq_some.mp h
        cases Option.some.inj h
        exact .rollBack
      | false =>
        cases Option.some.inj h
        exact moves_goto (Proc.leadsTo_of rfl rfl)
    | _ => cases h
  | creatingTenant tenant =>
    cases answer with
    | sql ok =>
      cases ok with
      | true =>
        obtain ⟨hunused, h⟩ := Option.ite_none_right_eq_some.mp h
        cases Option.some.inj h
        exact .insertTenant hunused
      | false =>
        cases Option.some.inj h
        exact moves_goto (Proc.leadsTo_of rfl rfl)
    | _ => cases h
  | addingOwner tenant user =>
    cases answer with
    | sql ok =>
      cases ok with
      | true =>
        cases Option.some.inj h
        unfold insertOwner
        split
        · exact .quiet s.outbox _ (Proc.leadsTo_of rfl rfl)
        · exact moves_goto (Proc.leadsTo_of rfl rfl)
      | false =>
        cases Option.some.inj h
        exact moves_goto (Proc.leadsTo_of rfl rfl)
    | _ => cases h
  | creatingWorkspace tenant w user =>
    cases answer with
    | sql ok =>
      cases ok with
      | true =>
        simp only [advance, insertWorkspace] at h
        split at h
        · obtain ⟨hunused, h⟩ := Option.ite_none_right_eq_some.mp h
          cases Option.some.inj h
          exact .insertWorkspace _ hunused
        · cases Option.some.inj h
          exact moves_goto (Proc.leadsTo_of rfl rfl)
      | false =>
        cases Option.some.inj h
        exact moves_goto (Proc.leadsTo_of rfl rfl)
    | _ => cases h
  | granting todo =>
    cases todo with
    | nil =>
      cases answer with
      | sql ok =>
        cases Option.some.inj h
        exact moves_goto (Proc.leadsTo_of rfl rfl)
      | _ => cases h
    | cons k rest =>
      cases answer with
      | called reply =>
        exact writeTuple_moves rfl (Proc.leadsTo_of rfl rfl) (Proc.leadsTo_of rfl rfl) h
      | lost =>
        cases Option.some.inj h
        exact .write rfl rfl (Proc.leadsTo_of rfl rfl)
      | _ => cases h
  | recovering k rest =>
    cases answer with
    | sql ok =>
      cases ok with
      | true =>
        cases Option.some.inj h
        exact .quiet _ s.tenantOwners (Proc.leadsTo_of rfl rfl)
      | false =>
        cases Option.some.inj h
        exact moves_goto (Proc.leadsTo_of rfl rfl)
    | _ => cases h
  | _ => cases hp

theorem afterReport_leadsTo {delete : Bool} {inventory : ResourceInventory}
    {tuples todo : List TupleKey} (h : todo.Perm (buildReport inventory tuples)) :
    (Proc.reporting delete inventory tuples).LeadsTo (afterReport delete todo) := by
  cases delete with
  | true =>
    refine ⟨fun k hk => ?_, rfl⟩
    have hk : k ∈ todo ++ [] := hk
    rw [List.append_nil] at hk
    exact h.mem_iff.mp hk
  | false => exact Proc.leadsTo_of rfl rfl

/-- The removals of a cleanup. -/
theorem advance_removing_moves {todo removed : List TupleKey}
    (h : advance s i (.removing todo removed) answer = some t) :
    Moves s i (.removing todo removed) answer t := by
  cases todo with
  | nil =>
    cases answer with
    | sql ok =>
      cases Option.some.inj h
      exact moves_goto ⟨fun k hk => hk, rfl⟩
    | _ => cases h
  | cons k rest =>
    cases answer with
    | called reply =>
      refine deleteTupleFgaFirst_moves .remove (fun e _ => ?_) (fun e => ?_) h
      · exact moves_goto ⟨fun _ hl => List.mem_cons_of_mem _ hl, rfl⟩
      · exact moves_goto ⟨fun _ hl => List.mem_append_right _ hl, rfl⟩
    | _ => cases h

theorem advance_moves (h : advance s i p answer = some t) : Moves s i p answer t := by
  cases p with
  | lockingDocument w d => exact advance_deletion_moves (.inr (.inl ⟨w, d, rfl⟩)) h
  | lockingWorkspace w => exact advance_deletion_moves (.inr (.inr ⟨w, rfl⟩)) h
  | listingShares => exact advance_deletion_moves (.inl rfl) h
  | listingMembers => exact advance_deletion_moves (.inl rfl) h
  | listingDocuments => exact advance_deletion_moves (.inl rfl) h
  | listingWorkspaceShares => exact advance_deletion_moves (.inl rfl) h
  | revoking => exact advance_deletion_moves (.inl rfl) h
  | loadingTenants delete =>
    cases answer with
    | sql ok => cases ok <;> cases Option.some.inj h <;> exact moves_goto (Proc.leadsTo_of rfl rfl)
    | _ => cases h
  | loadingWorkspaces delete inventory =>
    cases answer with
    | sql ok => cases ok <;> cases Option.some.inj h <;> exact moves_goto (Proc.leadsTo_of rfl rfl)
    | _ => cases h
  | loadingDocuments delete inventory =>
    cases answer with
    | sql ok => cases ok <;> cases Option.some.inj h <;> exact moves_goto (Proc.leadsTo_of rfl rfl)
    | _ => cases h
  | listingTuples delete inventory tuples =>
    cases answer with
    | page listed last =>
      obtain ⟨-, h⟩ := Option.ite_none_right_eq_some.mp h
      cases Option.some.inj h
      cases last <;> exact .page rfl rfl
    | called reply =>
      cases reply with
      | done => cases h
      | failed e =>
        cases Option.some.inj h
        exact moves_goto (Proc.leadsTo_of rfl rfl)
    | _ => cases h
  | reporting delete inventory tuples =>
    cases answer with
    | rows todo =>
      obtain ⟨hperm, h⟩ := Option.ite_none_right_eq_some.mp h
      cases Option.some.inj h
      exact moves_goto (afterReport_leadsTo hperm)
    | _ => cases h
  | removing => exact advance_removing_moves h
  | cleaned => cases answer <;> cases h
  | done => cases answer <;> cases h
  | _ => exact advance_creation_moves rfl h

theorem Proc.leadsTo_aborted (p : Proc) : p.LeadsTo p.aborted := by
  cases p with
  | removing todo removed => exact ⟨fun _ hk => List.mem_append_right _ hk, rfl⟩
  | _ => exact Proc.leadsTo_of rfl rfl

theorem abortStep_moves : Moves s i p answer (abortStep s i p) := by
  unfold abortStep
  split
  · exact .leave _
  · exact moves_goto p.leadsTo_aborted

theorem step_cases {maxRetries : Int} {a : Act} (h : step maxRetries s a = some t) :
    (∃ b acl, a = .acl b ∧ DocumentAcl.step maxRetries s.acl b = some acl ∧ t = s.withAcl acl) ∨
    (∃ b team, a = .team b ∧ Members.step (s.env maxRetries) s.team b = some team ∧
      t = s.withTeam team) ∨
    (∃ p, t = s.start p ∧ p.condemned = [] ∧ p.pending? = none) ∨
    ∃ i p answer, s.procs[i]? = some p ∧ Moves s i p answer t ∧
      (a = .advance i answer ∨ (a = .abort i ∧ answer = .sql false)) := by
  cases a with
  | acl b =>
    obtain ⟨acl, ha, rfl⟩ := Option.map_eq_some_iff.mp h
    exact .inl ⟨b, acl, rfl, ha, rfl⟩
  | team b =>
    obtain ⟨team, ha, rfl⟩ := Option.map_eq_some_iff.mp h
    exact .inr (.inl ⟨b, team, rfl, ha, rfl⟩)
  | cleanup delete yes =>
    obtain ⟨-, h⟩ := Option.ite_none_left_eq_some.mp h
    cases Option.some.inj h
    exact .inr (.inr (.inl ⟨_, rfl, rfl, rfl⟩))
  | advance i answer =>
    simp only [step] at h
    split at h
    next p hp => exact .inr (.inr (.inr ⟨i, p, answer, hp, advance_moves h, .inl rfl⟩))
    next => cases h
  | abort i =>
    simp only [step] at h
    split at h
    next p hp =>
      obtain ⟨-, h⟩ := Option.ite_none_left_eq_some.mp h
      cases Option.some.inj h
      exact .inr (.inr (.inr ⟨i, p, .sql false, hp, abortStep_moves, .inr ⟨rfl, rfl⟩⟩))
    next => cases h
  | _ =>
    cases Option.some.inj h
    exact .inr (.inr (.inl ⟨_, rfl, rfl, rfl⟩))

end Inversion

end ResourceTuples

end GmragApi

import GmragApi.ResourceMoves

/-! Tuples do not outlive their objects while every grant reaches the store before the deletion of
its object has passed it by. -/

namespace GmragApi.ResourceTuples

open Transition
open DocumentAcl (explicitViewerTuple)
open Members (Role memberTuple)

/-- Every request has ended and the outbox is empty. -/
structure Drained (s : State) : Prop where
  documentProcs : ∀ p ∈ s.documentProcs, p.finished = true
  memberProcs : ∀ p ∈ s.memberProcs, p = .done
  procs : ∀ p ∈ s.procs, p.finished = true
  outbox : ∀ r ∈ s.outbox, r.status = .processed

/-- Once the system is drained, no tuple is stored on an object whose row is gone. -/
def NothingOutlives (s : State) : Prop :=
  Drained s → ∀ k ∈ s.tuples, k.object ∉ s.removed

/-- The tuple that a step writes. -/
def written (s : State) : Act → Option TupleKey
  | .acl a => DocumentAcl.written s.acl a
  | .team a => Members.written s.team a
  | .advance i answer => if answer.applied then (s.procs[i]?).bind Proc.writes? else none
  | _ => none

/-- Each deletion that has captured its tuples and covers this one has still to revoke it. -/
def State.awaits (s : State) (k : TupleKey) : Bool :=
  s.procs.all fun p => p.pending?.all fun pending =>
    decide (k.object ∈ s.objectsOf pending.1 → k ∈ pending.2)

/-- No stored tuple on the objects of the target is missing from the plan. -/
def State.planned (s : State) (target : Target) (plan : List TupleKey) : Bool :=
  decide (∀ k ∈ s.tuples, k.object ∈ s.objectsOf target → k ∈ plan)

def Proc.sweeps (s : State) : Proc → Answer → Bool
  | listingShares workspace document, .rows shares =>
    s.planned (.document workspace document) (documentWorkspaceTuple workspace document :: shares)
  | listingWorkspaceShares workspace plan, .rows shares =>
    s.planned (.workspace workspace) (plan ++ shares)
  | revoking _ (k :: _), .called (.failed e) =>
    !isMissingTupleDeleteError e || decide (k ∉ s.tuples)
  | removingRow workspace document, .sql true => s.planned (.document workspace document) []
  | _, _ => true

/-- A tuple is written only while its object is there and no deletion of it has gone past it; a
deletion captures all that is stored on its objects, and skips a tuple only where it is missing. -/
def writesBeforeDeletion (s : State) (a : Act) : Bool :=
  (written s a).all (fun k => decide (k.object ∉ s.removed) && s.awaits k) &&
    match a with
    | .advance i answer => (s.procs[i]?).all fun p => p.sweeps s answer
    | _ => true

/-- A deletion past its capture has every stored tuple of its objects on its list. -/
def Proc.RevokesAll (s : State) (p : Proc) : Prop :=
  ∀ target todo, p.pending? = some (target, todo) →
    ∀ k ∈ s.tuples, k.object ∈ s.objectsOf target → k ∈ todo

structure Inv (s : State) : Prop where
  gone : ∀ k ∈ s.tuples, k.object ∉ s.removed
  revokesAll : ∀ p ∈ s.procs, p.RevokesAll s

section Step

variable {s t u : State} {i : Nat} {p q : Proc} {answer : Answer}

theorem mem_documentsOf {w d : Nat} :
    d ∈ s.documentsOf w ↔ d ∈ s.documents ∧ (s.document d).workspace = w :=
  Finset.mem_filter

theorem mem_objectsOf_document {w d : Nat} {o : FgaObject} :
    o ∈ s.objectsOf (.document w d) ↔ d ∈ s.documentsOf w ∧ o = .document d := by
  simp only [State.objectsOf, Finset.mem_image, Finset.mem_filter]
  constructor
  · rintro ⟨e, ⟨he, rfl⟩, rfl⟩
    exact ⟨he, rfl⟩
  · rintro ⟨hd, rfl⟩
    exact ⟨d, ⟨hd, rfl⟩, rfl⟩

theorem mem_objectsOf_workspace {w : Nat} {o : FgaObject} :
    o ∈ s.objectsOf (.workspace w) ↔ o = .workspace w ∨ ∃ d ∈ s.documentsOf w, .document d = o := by
  simp only [State.objectsOf, Finset.mem_insert, Finset.mem_image]

/-- A deletion covers no more objects when no document has been added or has moved. -/
theorem objectsOf_subset (added : FgaObject → Prop)
    (h : ∀ d ∈ u.documents, (d ∈ s.documents ∧
      (u.document d).workspace = (s.document d).workspace) ∨ added (.document d))
    {target : Target} {o : FgaObject} (ho : o ∈ u.objectsOf target) :
    o ∈ s.objectsOf target ∨ added o := by
  have hof : ∀ w, ∀ d ∈ u.documentsOf w, d ∈ s.documentsOf w ∨ added (.document d) := by
    intro w d hd
    obtain ⟨hin, hw⟩ := mem_documentsOf.mp hd
    rcases h d hin with ⟨hs, hsame⟩ | hadded
    · exact .inl (mem_documentsOf.mpr ⟨hs, hsame ▸ hw⟩)
    · exact .inr hadded
  cases target with
  | document w d =>
    obtain ⟨hd, rfl⟩ := mem_objectsOf_document.mp ho
    exact (hof w d hd).imp (fun hs => mem_objectsOf_document.mpr ⟨hs, rfl⟩) id
  | workspace w =>
    rcases mem_objectsOf_workspace.mp ho with rfl | ⟨d, hd, rfl⟩
    · exact .inl (mem_objectsOf_workspace.mpr (.inl rfl))
    · exact (hof w d hd).imp (fun hs => mem_objectsOf_workspace.mpr (.inr ⟨d, hs, rfl⟩)) id

/-- What keeps the invariant while no process moves: new tuples are awaited, and no deletion comes
to cover a stored one. -/
theorem Inv.change (hi : Inv s) (procs : u.procs = s.procs) (removed : u.removed = s.removed)
    (tuples : ∀ k ∈ u.tuples, k ∈ s.tuples ∨ (k.object ∉ s.removed ∧ s.awaits k = true))
    (objects : ∀ target, ∀ k ∈ u.tuples, k.object ∈ u.objectsOf target →
      k.object ∈ s.objectsOf target) : Inv u := by
  constructor
  · intro k hk
    rw [removed]
    exact (tuples k hk).elim (hi.gone k) And.left
  · intro p hp target todo hpending k hk ho
    rw [procs] at hp
    have hs := objects target k hk ho
    rcases tuples k hk with hk | ⟨-, hawaits⟩
    · exact hi.revokesAll p hp target todo hpending k hk hs
    · have h := List.all_eq_true.mp hawaits p hp
      rw [hpending] at h
      exact of_decide_eq_true h hs

theorem Inv.goto (hi : Inv s) (hq : q.RevokesAll s) : Inv (s.goto i q) := by
  refine ⟨hi.gone, fun r hr => ?_⟩
  rcases List.mem_or_eq_of_mem_set hr with hr | rfl
  · exact hi.revokesAll r hr
  · exact hq

theorem Proc.revokesAll_of (h : p.pending? = none) : p.RevokesAll s := by
  intro target todo hp
  rw [h] at hp
  cases hp

theorem Inv.leave (hi : Inv s) (target : Target) : Inv (s.leave i target .done) := by
  cases target with
  | document w d =>
    have hu : Inv { s with documentLocks := Function.update s.documentLocks d none } :=
      ⟨hi.gone, hi.revokesAll⟩
    exact hu.goto (Proc.revokesAll_of rfl)
  | workspace w =>
    have hu : Inv { s with workspaceLocks := Function.update s.workspaceLocks w none } :=
      ⟨hi.gone, hi.revokesAll⟩
    exact hu.goto (Proc.revokesAll_of rfl)

/-- Rows without stored tuples can go. -/
theorem Inv.drop (hi : Inv s) {target : Target}
    (hnone : ∀ k ∈ s.tuples, k.object ∉ s.objectsOf target) : Inv (s.drop target) := by
  constructor
  · intro k hk hgone
    rcases Finset.mem_union.mp hgone with ho | ho
    · exact hnone k hk ho
    · exact hi.gone k hk ho
  · intro p hp other todo hpending k hk ho
    refine hi.revokesAll p hp other todo hpending k hk ?_
    have hsub := objectsOf_subset (s := s) (u := s.drop target) (fun _ => False)
      (fun d hd => .inl ⟨(Finset.mem_filter.mp hd).1, rfl⟩) ho
    exact hsub.elim id False.elim

theorem planned_iff {target : Target} {plan : List TupleKey} :
    s.planned target plan = true ↔ ∀ k ∈ s.tuples, k.object ∈ s.objectsOf target → k ∈ plan :=
  decide_eq_true_iff

theorem Proc.revokesAll_of_planned {target : Target} {plan : List TupleKey}
    (h : s.planned target plan = true) : (Proc.revoking target plan).RevokesAll s := by
  intro other todo hp
  cases hp
  exact planned_iff.mp h

/-- A tuple that is no longer stored need not stay on the list. -/
theorem Proc.RevokesAll.tail {target : Target} {k : TupleKey} {rest : List TupleKey}
    (h : (Proc.revoking target (k :: rest)).RevokesAll s) (hsub : ∀ l ∈ u.tuples, l ∈ s.tuples)
    (hobjects : u.objectsOf target = s.objectsOf target) (hk : k ∉ u.tuples) :
    (Proc.revoking target rest).RevokesAll u := by
  intro other todo hp l hl ho
  cases hp
  rw [hobjects] at ho
  rcases List.mem_cons.mp (h target _ rfl l (hsub l hl) ho) with rfl | hrest
  · exact absurd hl hk
  · exact hrest

theorem unused_tuples {o : FgaObject} (h : s.unused o = true) : ∀ k ∈ s.tuples, k.object ≠ o := by
  simp only [State.unused, Bool.and_eq_true, decide_eq_true_eq] at h
  exact h.1.2

theorem Moves.inv (h : Moves s i p answer t) (hi : Inv s) (hp : s.procs[i]? = some p)
    (hsweeps : p.sweeps s answer = true)
    (hwrites : answer.applied = true → ∀ k, p.writes? = some k →
      k.object ∉ s.removed ∧ s.awaits k = true) : Inv t := by
  have hrevokes : p.RevokesAll s := hi.revokesAll p (List.mem_of_getElem? hp)
  cases h with
  | quiet outbox tenantOwners hq =>
    have hu : Inv { s with outbox := outbox, tenantOwners := tenantOwners } :=
      ⟨hi.gone, hi.revokesAll⟩
    exact hu.goto (Proc.revokesAll_of hq.pending)
  | lock target hq =>
    have hu : Inv (s.lock i target) := by
      cases target <;> exact ⟨hi.gone, hi.revokesAll⟩
    exact hu.goto (Proc.revokesAll_of hq.pending)
  | leave target => exact hi.leave target
  | captureDocument => exact hi.goto (Proc.revokesAll_of_planned hsweeps)
  | captureWorkspace => exact hi.goto (Proc.revokesAll_of_planned hsweeps)
  | @take target k rest =>
    have hu : Inv { s with tuples := s.tuples.erase k } :=
      hi.change rfl rfl (fun l hl => .inl (Finset.mem_of_mem_erase hl)) (fun _ _ _ ho => ho)
    exact hu.goto (hrevokes.tail (fun l hl => Finset.mem_of_mem_erase hl) rfl
      (Finset.notMem_erase k s.tuples))
  | @skip target k rest e he =>
    have hk : k ∉ s.tuples := by simpa [Proc.sweeps, he] using hsweeps
    exact hi.goto (hrevokes.tail (fun l hl => hl) rfl hk)
  | @drop target =>
    have hnone : ∀ k ∈ s.tuples, k.object ∉ s.objectsOf target := fun k hk ho =>
      List.not_mem_nil (hrevokes target [] rfl k hk ho)
    exact (hi.drop hnone).leave target
  | @rollBack w d =>
    have hnone : ∀ k ∈ s.tuples, k.object ∉ s.objectsOf (.document w d) := fun k hk ho =>
      List.not_mem_nil (planned_iff.mp hsweeps k hk ho)
    exact (hi.drop hnone).goto (Proc.revokesAll_of rfl)
  | @write p q k answer hk happlied hq =>
    have hu : Inv { s with tuples := insert k s.tuples } := by
      refine hi.change rfl rfl (fun l hl => ?_) (fun _ _ _ ho => ho)
      rcases Finset.mem_insert.mp hl with rfl | hl
      · exact .inr (hwrites happlied l hk)
      · exact .inl hl
    exact hu.goto (Proc.revokesAll_of hq.pending)
  | @insertDocument w d mode hunused =>
    refine Inv.goto ?_ (Proc.revokesAll_of rfl)
    refine hi.change rfl rfl (fun l hl => .inl hl) (fun target k hk ho => ?_)
    have hsub := objectsOf_subset (s := s) (· = .document d) (fun e he => ?_) ho
    · exact hsub.elim id (fun heq => absurd heq (unused_tuples hunused k hk))
    · rcases Finset.mem_insert.mp he with rfl | he
      · exact .inr rfl
      · by_cases hed : e = d
        · exact .inr (hed ▸ rfl)
        · exact .inl ⟨he, by simp [Function.update_of_ne hed]⟩
  | insertTenant hunused =>
    refine Inv.goto ?_ (Proc.revokesAll_of rfl)
    exact ⟨hi.gone, hi.revokesAll⟩
  | insertWorkspace grants hunused =>
    refine Inv.goto ?_ (Proc.revokesAll_of rfl)
    exact ⟨hi.gone, hi.revokesAll⟩
  | page hcondemned hpending => exact hi.goto (Proc.revokesAll_of hpending)
  | @remove k rest removed =>
    have hu : Inv { s with tuples := s.tuples.erase k } :=
      hi.change rfl rfl (fun l hl => .inl (Finset.mem_of_mem_erase hl)) (fun _ _ _ ho => ho)
    exact hu.goto (Proc.revokesAll_of rfl)

theorem writesBeforeDeletion_written {a : Act} (hok : writesBeforeDeletion s a = true)
    {k : TupleKey} (hk : written s a = some k) : k.object ∉ s.removed ∧ s.awaits k = true := by
  have h := (Bool.and_eq_true _ _ ▸ hok).1
  rw [hk] at h
  simpa using h

theorem Proc.sweeps_rollback (s : State) (p : Proc) : p.sweeps s (.sql false) = true := by
  cases p with
  | revoking target todo => cases todo <;> rfl
  | _ => rfl

theorem step_inv {maxRetries : Int} {a : Act} (hi : Inv s) (hok : writesBeforeDeletion s a = true)
    (h : step maxRetries s a = some t) : Inv t := by
  rcases step_cases h with ⟨b, acl, rfl, ha, rfl⟩ | ⟨b, team, rfl, ha, rfl⟩ | ⟨p, rfl, -, hp⟩ |
    ⟨i, p, answer, hp, hm, rfl | ⟨rfl, rfl⟩⟩
  · refine hi.change rfl rfl (fun k hk => ?_) (fun target k hk ho => ?_)
    · exact (DocumentAcl.step_written ha hk).imp id (writesBeforeDeletion_written hok)
    · have hsub := objectsOf_subset (s := s) (u := s.withAcl acl) (fun _ => False)
        (fun d hd => .inl ⟨hd, withAcl_workspace ha hd⟩) ho
      exact hsub.elim id False.elim
  · refine hi.change rfl rfl (fun k hk => ?_) (fun _ _ _ ho => ho)
    exact (Members.step_written ha hk).imp id (writesBeforeDeletion_written hok)
  · refine ⟨hi.gone, fun q hq => ?_⟩
    rcases List.mem_append.mp hq with hq | hq
    · exact hi.revokesAll q hq
    · cases List.mem_singleton.mp hq
      exact Proc.revokesAll_of hp
  · refine hm.inv hi hp ?_ ?_
    · have hsweeps := (Bool.and_eq_true _ _ ▸ hok).2
      simpa [hp] using hsweeps
    · intro happlied k hk
      exact writesBeforeDeletion_written hok (by simp [written, happlied, hp, hk])
  · exact hm.inv hi hp (Proc.sweeps_rollback s p) nofun

end Step

theorem Initial.inv {s : State} (h : Initial s) : Inv s := by
  refine ⟨fun k _ => ?_, fun p hp => ?_⟩
  · rw [h.removed]
    exact Finset.notMem_empty _
  · rw [h.procs] at hp
    cases hp

theorem deleted_objects_have_no_tuples (maxRetries : Int) {s : State}
    (h : Reach Initial (step maxRetries) (fun s a => writesBeforeDeletion s a = true) s) :
    NothingOutlives s := by
  have hinv : Inv s := h.invariant (fun _ => Initial.inv) fun _ _ _ hi hok hs => step_inv hi hok hs
  exact fun _ => hinv.gone

/-- Tenant 0 with the workspace 0 that user 1 administers, and its document 0. -/
def oneWorkspace : State where
  tenants := {0}
  tenantOwners := fun _ => []
  workspaces := {0}
  tenantOf := fun _ => 0
  documents := {0}
  document := fun _ => ⟨0, .restricted⟩
  shares := ∅
  members := (∅ : AList fun _ : Nat × Nat => Role).insert (0, 1) .admin
  tuples := {tenantPlatformTuple 0, workspaceTenantTuple 0 0, memberTuple 0 1 .admin,
    documentWorkspaceTuple 0 0}
  outbox := []
  documentLocks := fun _ => none
  workspaceLocks := fun _ => none
  documentProcs := []
  memberProcs := []
  procs := []
  removed := ∅

theorem oneWorkspace_initial : Initial oneWorkspace :=
  ⟨rfl, rfl, rfl, fun _ => rfl, fun _ => rfl, rfl⟩

def missingTuple : Fga.WriteReply :=
  .failed (.openFga 400 "cannot delete a tuple which does not exist".toList)

/-- The deletion of document 0 while user 7 shares it but has no tuple yet. -/
def deletesSharedDocument : List Act :=
  [.deleteDocument 0 0, .advance 0 (.sql true), .advance 0 (.rows [explicitViewerTuple 0 7]),
    .advance 0 (.called .done), .advance 0 (.called missingTuple), .advance 0 (.sql true)]

/-- A grant commits its row before the capture and writes its tuple after the deletion. -/
def lateGrant : List Act :=
  [.acl (.grant 0 7), .acl (.advance 0 (.sql true))] ++ deletesSharedDocument ++
    [.acl (.advance 0 (.called .done))]

def addSeven : DocumentAcl.PermissionsRequest := ⟨0, 0, .restricted, [7], nofun⟩

/-- A replacement of the permissions does the same. -/
def lateReplacement : List Act :=
  [.acl (.replace addSeven), .acl (.advance 0 (.sql true)), .acl (.advance 0 (.listed [])),
    .acl (.advance 0 (.sql true)), .acl (.advance 0 (.listed [7])),
    .acl (.advance 0 (.checked (.ok true))), .acl (.advance 0 (.sql true)),
    .acl (.advance 0 (.sql true)), .acl (.advance 0 (.sql true))] ++ deletesSharedDocument ++
    [.acl (.advance 0 (.called .done)), .acl (.advance 0 (.sql true))]

/-- User 7 becomes a member while the workspace is deleted. -/
def lateMember : List Act :=
  [.team (.addMember 1 0 7 .member), .team (.advance 0 (.checked (.ok true))),
    .team (.advance 0 (.sql true)), .deleteWorkspace 0, .advance 0 (.sql true),
    .advance 0 (.rows [memberTuple 0 1 .admin, memberTuple 0 7 .member]),
    .advance 0 (.rows [documentWorkspaceTuple 0 0]), .advance 0 (.rows []),
    .advance 0 (.called .done), .advance 0 (.called .done), .advance 0 (.called missingTuple),
    .advance 0 (.called .done), .advance 0 (.sql true), .team (.advance 0 (.called .done))]

def drained (s : State) : Bool :=
  s.documentProcs.all DocumentAcl.Proc.finished && s.memberProcs.all (· = .done) &&
    s.procs.all Proc.finished && s.outbox.all (·.status = .processed)

theorem drained_iff {s : State} : drained s = true ↔ Drained s := by
  simp only [drained, Bool.and_eq_true, List.all_eq_true, decide_eq_true_eq]
  constructor
  · rintro ⟨⟨⟨hd, hm⟩, hp⟩, ho⟩
    exact ⟨hd, hm, hp, ho⟩
  · rintro ⟨hd, hm, hp, ho⟩
    exact ⟨⟨⟨hd, hm⟩, hp⟩, ho⟩

/-- The run ends with a tuple on an object whose row is gone. -/
def LeavesTuple (as : List Act) : Prop :=
  ∃ t, run (step 5) oneWorkspace as = some t ∧ Reach Initial (step 5) anyStep t ∧
    ¬ NothingOutlives t

theorem leavesTuple_of_run {as : List Act} (k : TupleKey)
    (hrun : (run (step 5) oneWorkspace as).any (fun t =>
      drained t && decide (k ∈ t.tuples) && decide (k.object ∈ t.removed)) = true) :
    LeavesTuple as := by
  obtain ⟨t, ht, h⟩ := (Option.any_eq_true _ _).mp hrun
  simp only [Bool.and_eq_true, decide_eq_true_eq] at h
  obtain ⟨⟨hd, hk⟩, hgone⟩ := h
  exact ⟨t, ht, .of_free_run oneWorkspace_initial ht, fun hn => hn (drained_iff.mp hd) k hk hgone⟩

theorem grants_outlive_their_objects :
    LeavesTuple lateGrant ∧ LeavesTuple lateReplacement ∧ LeavesTuple lateMember :=
  ⟨leavesTuple_of_run (explicitViewerTuple 0 7) (by decide +kernel),
    leavesTuple_of_run (explicitViewerTuple 0 7) (by decide +kernel),
    leavesTuple_of_run (memberTuple 0 7 .member) (by decide +kernel)⟩

/-- A grant that ends before the deletion, which finds its tuple. -/
def grantThenDeletion : List Act :=
  [.acl (.grant 0 7), .acl (.advance 0 (.sql true)), .acl (.advance 0 (.called .done)),
    .deleteDocument 0 0, .advance 0 (.sql true), .advance 0 (.rows [explicitViewerTuple 0 7]),
    .advance 0 (.called .done), .advance 0 (.called .done), .advance 0 (.sql true)]

theorem deleted_objects_have_no_tuples_grant :
    ∃ t, run (step 5) oneWorkspace grantThenDeletion = some t ∧ Drained t ∧
      .document 0 ∈ t.removed ∧ NothingOutlives t := by
  have hrun : (run (step 5) oneWorkspace grantThenDeletion).any (fun t =>
      drained t && decide (.document 0 ∈ t.removed)) = true := by decide +kernel
  obtain ⟨t, ht, h⟩ := (Option.any_eq_true _ _).mp hrun
  simp only [Bool.and_eq_true, decide_eq_true_eq] at h
  have hm : Meets (step 5) (fun s a => writesBeforeDeletion s a = true) oneWorkspace
      grantThenDeletion := by decide +kernel
  exact ⟨t, ht, drained_iff.mp h.1, h.2,
    deleted_objects_have_no_tuples 5 (.of_run (.start oneWorkspace_initial) hm ht)⟩

end GmragApi.ResourceTuples

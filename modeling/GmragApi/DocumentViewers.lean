import GmragApi.DocumentMoves

/-! Which runs leave no `explicit_viewer` tuple without the share row that later revokes it. -/

namespace GmragApi.DocumentAcl

open Transition ProcessPool

/-- Every viewer tuple of an existing document has its row in `document_shares`. -/
def ViewersShared (s : State) : Prop :=
  ∀ document user, (s.documents document).isSome → s.Views document user →
    (document, user) ∈ s.shares

/-- The call has dealt with the tuple of a user and is about to delete the row. -/
def Proc.Unlinks (p : Proc) (document user : Nat) : Prop :=
  match p with
  | grantUndo d u => d = document ∧ u = user
  | revokeRow d u => d = document ∧ u = user
  | replaceDelete r u _ _ => r.document = document ∧ u = user
  | modeRevoke d .workspaceDefault todo => d = document ∧ user ∉ todo
  | modeCommit d .workspaceDefault => d = document
  | _ => False

/-- A user whose missing tuple the call takes for revoked. -/
def Proc.Tolerates (p : Proc) (document user : Nat) : Prop :=
  match p with
  | modeRevoke d _ (u :: _) => d = document ∧ u = user
  | replaceApply r (u :: _) _ => r.document = document ∧ u = user
  | _ => False

/-- A tuple is written only while its row is there and no call is about to delete it, a grant is
refused only while the tuple is missing, and an answer that reads as missing is for such a tuple. -/
def tuplesFollowShares (s : State) : Act → Prop
  | .advance i (.called .done) => ∀ (p q : Proc) document user, s.procs[i]? = some p →
    Writes p (explicitViewerTuple document user) q → (s.documents document).isSome →
    (document, user) ∈ s.shares ∧
      ∀ (j : Nat) (r : Proc), s.procs[j]? = some r → ¬ r.Unlinks document user
  | .advance i (.called (.failed e)) => ∀ (p : Proc) document user, s.procs[i]? = some p →
    p = .grantWrite document user ∨
      (isMissingTupleDeleteError e = true ∧ p.Tolerates document user) →
    ¬ s.Views document user
  | _ => True

/-- Where a row is about to be deleted, the tuple is gone. -/
def Proc.Unlinked (s : State) (p : Proc) : Prop :=
  ∀ d u, (s.documents d).isSome → p.Unlinks d u → (d, u) ∈ s.shares → ¬ s.Views d u

structure ViewerInv (s : State) : Prop where
  shared : ViewersShared s
  unlinked : ∀ (i : Nat) (p : Proc), s.procs[i]? = some p → p.Unlinked s

section Stands

variable {s : State} {i : Nat} {p q : Proc} {reply : Reply} {d u : Nat}

theorem replayed_not_unlinks (event : AuthzOutboxEventType) (row : Nat) (n : Int)
    (r : Fga.WriteReply) : ¬ (replayed event row n r).Unlinks d u := by
  cases r with
  | done => exact id
  | failed e =>
    simp only [replayed]
    split <;> exact id

theorem Proc.not_unlinks_of_aborted (p : Proc) : ¬ p.aborted.Unlinks d u := by
  unfold aborted
  split <;> exact id

theorem Deletes.unlinks (h : Deletes p d u q) : p.Unlinks d u := by
  cases h <;> exact ⟨rfl, rfl⟩

theorem Inserts.not_unlinks (h : Inserts p d u q) {d' u' : Nat} : ¬ q.Unlinks d' u' := by
  cases h <;> exact id

theorem Writes.not_unlinks {t : TupleKey} (h : Writes p t q) : ¬ q.Unlinks d u := by
  cases h <;> exact id

theorem Deletes.not_unlinks (h : Deletes p d u q) {d' u' : Nat} : ¬ q.Unlinks d' u' := by
  cases h <;> exact id

/-- A call that takes a tuple is about to delete the row of that user, or was before. -/
theorem Takes.unlinks (h : Takes p d u q) {d' u' : Nat} (hq : q.Unlinks d' u') :
    (d' = d ∧ u' = u) ∨ p.Unlinks d' u' := by
  cases h with
  | revoke => exact .inl ⟨hq.1.symm, hq.2.symm⟩
  | @mode _ mode _ rest =>
    cases mode with
    | restricted => exact hq.elim
    | workspaceDefault =>
      obtain ⟨rfl, hu⟩ := hq
      by_cases heq : u' = u
      · exact .inl ⟨rfl, heq⟩
      · exact .inr ⟨rfl, by simp [heq, hu]⟩
  | replace => exact .inl ⟨hq.1.symm, hq.2.symm⟩

theorem Locks.not_unlinks {document : Document} (h : Locks document p d q) :
    ¬ q.Unlinks d' u' := by
  cases h <;> exact id

theorem ListsShares.mem {users : List Nat} (h : s.ListsShares d users) :
    u ∈ users ↔ (d, u) ∈ s.shares := by
  rw [← List.mem_toFinset, h.2]
  simp [State.sharesOf]

/-- A step inside the lock leads to a row that is about to be deleted only from such a row, from a
list of all rows, or past a missing tuple. -/
theorem Inside.unlinks (h : Inside s p reply q) (hq : q.Unlinks d u) :
    (d, u) ∉ s.shares ∨ p.Unlinks d u ∨
      ∃ e, reply = .called (.failed e) ∧ isMissingTupleDeleteError e = true ∧
        p.Tolerates d u := by
  cases h with
  | @shares _ mode users _ hlists =>
    cases mode with
    | restricted => exact hq.elim
    | workspaceDefault =>
      obtain ⟨rfl, hu⟩ := hq
      exact .inl fun hin => hu ((ListsShares.mem hlists).mpr hin)
  | @missing _ mode v rest e he =>
    cases mode with
    | restricted => exact hq.elim
    | workspaceDefault =>
      obtain ⟨rfl, hu⟩ := hq
      by_cases heq : u = v
      · exact .inr (.inr ⟨e, rfl, he, rfl, heq.symm⟩)
      · exact .inr (.inl ⟨rfl, by simp [heq, hu]⟩)
  | @wrote _ mode =>
    cases mode with
    | restricted => exact hq.elim
    | workspaceDefault =>
      cases hq
      exact .inr (.inl ⟨rfl, List.not_mem_nil⟩)
  | _ => exact hq.elim

theorem Outside.unlinks (h : Outside s p reply q) (hq : q.Unlinks d u) :
    ∃ e, reply = .called (.failed e) ∧ (p = .grantWrite d u ∨
      (isMissingTupleDeleteError e = true ∧ p.Tolerates d u)) := by
  cases h with
  | grantRefused =>
    obtain ⟨rfl, rfl⟩ := hq
    exact ⟨_, rfl, .inl rfl⟩
  | missing he =>
    obtain ⟨rfl, rfl⟩ := hq
    exact ⟨_, rfl, .inr ⟨he, rfl, rfl⟩⟩
  | replayed outcome next => exact absurd hq (replayed_not_unlinks _ _ _ _)
  | _ => exact hq.elim

end Stands

section Move

variable {s t : State} {i : Nat} {p q : Proc} {reply : Reply}

@[simp] theorem State.setMode_isSome (s : State) (d e : Nat) (mode : DocumentAccessMode) :
    ((s.setMode d mode).documents e).isSome = (s.documents e).isSome := by
  by_cases h : e = d
  · subst h
    simp [State.setMode]
  · simp [State.setMode, Function.update_of_ne h]

theorem commitMode_procs (s : State) (i d : Nat) (mode : DocumentAccessMode) :
    (commitMode s i d mode).procs = s.procs.set i .done := by
  cases mode <;> rfl

theorem commitMode_tuples (s : State) (i d : Nat) (mode : DocumentAccessMode) :
    (commitMode s i d mode).tuples = s.tuples := by
  cases mode <;> rfl

theorem commitMode_documents (s : State) (i d e : Nat) (mode : DocumentAccessMode) :
    ((commitMode s i d mode).documents e).isSome = (s.documents e).isSome := by
  cases mode <;> exact State.setMode_isSome s d e _

theorem mem_commitMode_shares {s : State} {i d : Nat} {mode : DocumentAccessMode}
    {share : Nat × Nat} : share ∈ (commitMode s i d mode).shares ↔
      share ∈ s.shares ∧ (mode = .workspaceDefault → share.1 ≠ d) := by
  cases mode with
  | workspaceDefault =>
    show share ∈ s.shares.filter (fun share => share.1 ≠ d) ↔ _
    simp
  | restricted =>
    show share ∈ s.shares ↔ _
    simp

/-- No step makes a document or takes one away. -/
theorem Moves.documents_isSome (h : Moves s i p reply t) (d : Nat) :
    (t.documents d).isSome = (s.documents d).isSome := by
  cases h with
  | commitMode => exact commitMode_documents _ _ _ _ _
  | commitReplace u hu =>
    rw [hu]
    split
    · rfl
    · exact State.setMode_isSome s _ d _
  | _ => rfl

/-- A row goes when a call deletes it, or when a mode commit deletes all of its document. -/
theorem Moves.share_kept (h : Moves s i p reply t) {d u : Nat} (hs : (d, u) ∈ s.shares) :
    (d, u) ∈ t.shares ∨ p.Unlinks d u := by
  cases h with
  | insert hq hdoc hfree => exact .inl (Finset.mem_insert_of_mem hs)
  | @delete p e v q hq =>
    by_cases heq : (d, u) = (e, v)
    · cases heq
      exact .inr hq.unlinks
    · exact .inl (Finset.mem_erase_of_ne_of_mem heq hs)
  | @commitMode e mode =>
    by_cases hkept : mode = .workspaceDefault → d ≠ e
    · exact .inl (mem_commitMode_shares.mpr ⟨hs, hkept⟩)
    · obtain ⟨rfl, heq⟩ := Classical.not_imp.mp hkept
      exact .inr (not_not.mp heq).symm
  | commitReplace v hv =>
    rw [hv]
    refine .inl ?_
    split <;> exact hs
  | _ => exact .inl hs

theorem Moves.views_new (h : Moves s i p reply t) {d u : Nat} (ht : t.Views d u)
    (hs : ¬ s.Views d u) :
    reply = .called .done ∧ ∃ q, Writes p (explicitViewerTuple d u) q := by
  cases h with
  | write hq =>
    rcases Finset.mem_insert.mp ht with heq | ht
    · exact ⟨rfl, _, heq ▸ hq⟩
    · exact absurd ht hs
  | take hq => exact absurd (Finset.mem_of_mem_erase ht) hs
  | replayDelete => exact absurd (Finset.mem_of_mem_erase ht) hs
  | commitMode =>
    rw [State.Views, commitMode_tuples] at ht
    exact absurd ht hs
  | commitReplace v hv =>
    rw [hv] at ht
    refine absurd ?_ hs
    split at ht <;> exact ht
  | _ => exact absurd ht hs

/-- The condition of a step, as the move of one process meets it. -/
structure Proc.Follows (s : State) (p : Proc) (reply : Reply) : Prop where
  written : reply = .called .done → ∀ q d u, Writes p (explicitViewerTuple d u) q →
    (s.documents d).isSome → (d, u) ∈ s.shares ∧
      ∀ (j : Nat) (r : Proc), s.procs[j]? = some r → ¬ r.Unlinks d u
  refused : ∀ e, reply = .called (.failed e) → ∀ d u,
    p = .grantWrite d u ∨ (isMissingTupleDeleteError e = true ∧ p.Tolerates d u) → ¬ s.Views d u

theorem tuplesFollowShares_follows {a : Act} (hok : tuplesFollowShares s a)
    (hp : s.procs[i]? = some p) (ha : a = .advance i reply ∨ (a = .abort i ∧ reply = .sql false)) :
    p.Follows s reply := by
  rcases ha with rfl | ⟨rfl, rfl⟩
  · refine ⟨?_, ?_⟩
    · rintro rfl q d u hq hdoc
      exact hok p q d u hp hq hdoc
    · rintro e rfl d u hstand
      exact hok p d u hp hstand
  · exact ⟨nofun, nofun⟩

theorem Moves.shared (h : Moves s i p reply t) (hf : p.Follows s reply) (hu : p.Unlinked s)
    (hs : ViewersShared s) : ViewersShared t := by
  intro d u hdoc hview
  rw [h.documents_isSome] at hdoc
  by_cases hold : s.Views d u
  · have hin := hs d u hdoc hold
    rcases h.share_kept hin with hkept | hunlinks
    · exact hkept
    · exact absurd hold (hu d u hdoc hunlinks hin)
  · obtain ⟨hreply, q, hq⟩ := h.views_new hview hold
    obtain ⟨hin, hsafe⟩ := hf.written hreply q d u hq hdoc
    rcases h.share_kept hin with hkept | hunlinks
    · exact hkept
    · cases hq <;> exact hunlinks.elim

theorem Moves.self_unlinked (h : Moves s i p reply t) (hf : p.Follows s reply)
    (hu : p.Unlinked s) : ∃ q, t.procs = s.procs.set i q ∧ q.Unlinked t := by
  cases h with
  | quiet outbox hq =>
    refine ⟨_, rfl, fun d u hdoc hunlinks hin => ?_⟩
    obtain ⟨e, hreply, hstand⟩ := hq.unlinks hunlinks
    exact hf.refused e hreply d u hstand
  | inside hq =>
    refine ⟨_, rfl, fun d u hdoc hunlinks hin => ?_⟩
    rcases hq.unlinks hunlinks with hout | hbefore | ⟨e, hreply, hmissing, hstand⟩
    · exact absurd hin hout
    · exact hu d u hdoc hbefore hin
    · exact hf.refused e hreply d u (.inr ⟨hmissing, hstand⟩)
  | insert hq hdoc hfree => exact ⟨_, rfl, fun d u _ hunlinks => absurd hunlinks hq.not_unlinks⟩
  | write hq => exact ⟨_, rfl, fun d u _ hunlinks => absurd hunlinks hq.not_unlinks⟩
  | take hq =>
    refine ⟨_, rfl, fun d u hdoc hunlinks hin hview => ?_⟩
    rcases hq.unlinks hunlinks with ⟨rfl, rfl⟩ | hbefore
    · exact Finset.notMem_erase _ _ hview
    · exact hu d u hdoc hbefore hin (Finset.mem_of_mem_erase hview)
  | replayDelete => exact ⟨_, rfl, fun d u _ hunlinks => hunlinks.elim⟩
  | delete hq => exact ⟨_, rfl, fun d u _ hunlinks => absurd hunlinks hq.not_unlinks⟩
  | lock hdoc hfree hq => exact ⟨_, rfl, fun d u _ hunlinks => absurd hunlinks hq.not_unlinks⟩
  | leave hd => exact ⟨_, rfl, fun d u _ hunlinks => absurd hunlinks p.not_unlinks_of_aborted⟩
  | commitMode => exact ⟨_, commitMode_procs _ _ _ _, fun d u _ hunlinks => hunlinks.elim⟩
  | unchanged hrevoke => exact ⟨_, rfl, fun d u _ hunlinks => hunlinks.elim⟩
  | @commitReplace r previous current grants v hv =>
    refine ⟨.replaceApply r (r.toRevoke current) grants, ?_, fun d u _ hunlinks => hunlinks.elim⟩
    rw [hv]
    split <;> rfl

theorem Moves.other_unlinked (h : Moves s i p reply t) (hf : p.Follows s reply)
    (hs : ViewersShared s) {j : Nat} (hj : s.procs[j]? = some q) (hu : q.Unlinked s) :
    q.Unlinked t := by
  intro d u hdoc hunlinks hin hview
  rw [h.documents_isSome] at hdoc
  by_cases hold : s.Views d u
  · exact hu d u hdoc hunlinks (hs d u hdoc hold) hold
  · obtain ⟨hreply, r, hr⟩ := h.views_new hview hold
    exact (hf.written hreply r d u hr hdoc).2 j q hj hunlinks

theorem step_viewerInv {maxRetries : Int} {a : Act} (hi : ViewerInv s)
    (hok : tuplesFollowShares s a) (h : step maxRetries s a = some t) : ViewerInv t := by
  rcases step_cases h with ⟨p, rfl, hp⟩ | ⟨i, p, reply, hp, hm, ha⟩
  · have hout : ∀ d u, ¬ p.Unlinks d u := by
      rcases hp with ⟨d, u, rfl⟩ | ⟨d, u, rfl⟩ | ⟨d, w, m, rfl⟩ | ⟨r, rfl⟩ | ⟨r, n, e, k, rfl⟩ |
        ⟨r, n, m, rfl⟩
      all_goals exact fun _ _ => id
    exact ⟨hi.shared, forall_push (fun d u _ hunlinks => absurd hunlinks (hout d u)) hi.unlinked⟩
  · have hf := tuplesFollowShares_follows hok hp ha
    obtain ⟨q, hprocs, hself⟩ := hm.self_unlinked hf (hi.unlinked i p hp)
    refine ⟨hm.shared hf (hi.unlinked i p hp) hi.shared, ?_⟩
    rw [hprocs]
    exact forall_set hp hself fun j r _ hr =>
      hm.other_unlinked hf hi.shared hr (hi.unlinked j r hr)

end Move

/-- No call or worker is in flight and no document is locked. -/
def Idle (s : State) : Prop := s.procs = [] ∧ ∀ d, s.locks d = none

/-- In a run whose writes and refusals follow the shares, no state has a viewer tuple of an existing
document without its row, with calls in flight or without. -/
theorem viewers_shared_of_followed (maxRetries : Int) {s : State}
    (h : Reach (fun s => Idle s ∧ ViewersShared s) (step maxRetries) tuplesFollowShares s) :
    ViewersShared s := by
  have hinv : ViewerInv s := by
    refine h.invariant ?_ fun s t a hi hok hs => step_viewerInv hi hok hs
    rintro s ⟨⟨hprocs, -⟩, hs⟩
    refine ⟨hs, ?_⟩
    intro i p hp
    rw [hprocs] at hp
    cases hp
  exact hinv.shared

/-- Document 0 of workspace 0, shared with nobody. -/
def fresh : State where
  documents := fun d => if d = 0 then some ⟨0, .restricted⟩ else none
  shares := ∅
  tuples := ∅
  outbox := []
  locks := fun _ => none
  procs := []

theorem fresh_shared : ViewersShared fresh := by
  intro d u _ hview
  exact absurd hview (Finset.notMem_empty _)

theorem grantWrite_viewer {d u d' u' : Nat} {q : Proc}
    (h : Writes (.grantWrite d' u') (explicitViewerTuple d u) q) : d = d' ∧ u = u' := by
  generalize hk : explicitViewerTuple d u = k at h
  cases h
  simp only [explicitViewerTuple, TupleKey.mk.injEq, Subject.user.injEq,
    FgaObject.document.injEq] at hk
  exact ⟨hk.2.2, hk.1⟩

def oneGrant : List Act := [.grant 0 7, .advance 0 (.sql true), .advance 0 (.called .done)]

def granted : State := (run (step 5) fresh oneGrant).getD fresh

theorem viewers_shared_of_followed_grant :
    granted.Views 0 7 ∧ (0, 7) ∈ granted.shares ∧ ViewersShared granted := by
  have hr : run (step 5) fresh oneGrant = some granted := rfl
  have hmeets : Meets (step 5) tuplesFollowShares fresh oneGrant := by
    refine ⟨trivial, fun s₁ h₁ => ?_⟩
    cases Option.some.inj h₁
    refine ⟨trivial, fun s₂ h₂ => ?_⟩
    cases Option.some.inj h₂
    refine ⟨?_, fun _ _ => trivial⟩
    intro p q d u hp hw _
    cases Option.some.inj hp
    obtain ⟨rfl, rfl⟩ := grantWrite_viewer hw
    refine ⟨by decide, fun j r hr => ?_⟩
    cases j with
    | zero =>
      cases Option.some.inj hr
      exact id
    | succ j => cases hr
  exact ⟨by decide, by decide,
    viewers_shared_of_followed 5 (Reach.of_run (.start ⟨⟨rfl, fun _ => rfl⟩, fresh_shared⟩) hmeets hr)⟩

def presentTuple : AuthzError :=
  .openFga 400 "cannot write a tuple which already exists".toList

/-- A second grant of the same share is refused and deletes the row of the first. -/
def secondGrant : List Act :=
  oneGrant ++ [.grant 0 7, .advance 1 (.sql true), .advance 1 (.called (.failed presentTuple)),
    .advance 1 (.sql true)]

def regranted : State := (run (step 5) fresh secondGrant).getD fresh

theorem second_grant_loses_row :
    Idle fresh ∧ ViewersShared fresh ∧ Reach (· = fresh) (step 5) anyStep regranted ∧
      (∀ p ∈ regranted.procs, p.finished = true) ∧ (regranted.documents 0).isSome ∧
      regranted.Views 0 7 ∧ (0, 7) ∉ regranted.shares := by
  have hr : run (step 5) fresh secondGrant = some regranted := rfl
  exact ⟨⟨rfl, fun _ => rfl⟩, fresh_shared, Reach.of_free_run rfl hr, by decide, rfl, by decide,
    by decide⟩

end GmragApi.DocumentAcl

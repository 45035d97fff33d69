import GmragApi.DocumentViewers

/-! Concurrent replacements of the permissions of one document: when the last one to take the lock
decides the outcome, and when the loops after the commit mix two requests. -/

namespace GmragApi.DocumentAcl

open Transition ProcessPool

def State.ModeIs (s : State) (document : Nat) (mode : DocumentAccessMode) : Prop :=
  ∃ d, s.documents document = some d ∧ d.accessMode = mode

/-- The access mode, the rows and the tuples are those of the request. -/
structure Target (s : State) (r : PermissionsRequest) : Prop where
  mode : s.ModeIs r.document r.requestedMode
  shares : ∀ u, (r.document, u) ∈ s.shares ↔ u ∈ r.authorizedUserIds
  views : ∀ u, s.Views r.document u ↔ u ∈ r.authorizedUserIds

/-- The user has row and tuple, or the plan still grants what is missing. -/
def Covered (s : State) (r : PermissionsRequest) (grants : List GrantPlan) (u : Nat) : Prop :=
  ((r.document, u) ∈ s.shares ∧ s.Views r.document u) ∨ ∃ b, ⟨u, b⟩ ∈ grants

/-- The users of the plan are on the list, and those that it gives no row have one. -/
structure Grantable (s : State) (r : PermissionsRequest) (grants : List GrantPlan) : Prop where
  listed : ∀ g ∈ grants, g.user ∈ r.authorizedUserIds
  shared : ∀ u, ⟨u, false⟩ ∈ grants → (r.document, u) ∈ s.shares

/-- What the plan of a replacement relies on while it is made under the lock. -/
structure Planning (s : State) (r : PermissionsRequest) (previous : DocumentAccessMode)
    (current todo : List Nat) (grants : List GrantPlan) : Prop where
  mode : s.ModeIs r.document previous
  rows : ∀ u, (r.document, u) ∈ s.shares → u ∈ current
  kept : ∀ u ∈ current, u ∈ r.authorizedUserIds → (r.document, u) ∈ s.shares
  covered : ∀ u ∈ r.authorizedUserIds, u ∈ todo ∨ Covered s r grants u
  asked : ∀ u ∈ todo, u ∈ r.authorizedUserIds
  grantable : Grantable s r grants

/-- What is left to do for a committed plan. -/
structure Applying (s : State) (r : PermissionsRequest) (revokes : List Nat)
    (grants : List GrantPlan) : Prop where
  mode : s.ModeIs r.document r.requestedMode
  rows : ∀ u, (r.document, u) ∈ s.shares → u ∈ r.authorizedUserIds ∨ u ∈ revokes
  covered : ∀ u ∈ r.authorizedUserIds, Covered s r grants u
  grantable : Grantable s r grants
  away : ∀ u ∈ revokes, u ∉ r.authorizedUserIds

/-- The replacement that took the lock last is on its way to its own target. -/
def Proc.Leads (s : State) (i : Nat) : Proc → Prop
  | replaceRead r previous => s.locks r.document = some i ∧ s.ModeIs r.document previous
  | replaceCheck r previous current todo grants =>
    s.locks r.document = some i ∧ Planning s r previous current todo grants
  | replaceValidate r previous current grants _ _ =>
    s.locks r.document = some i ∧ Planning s r previous current [] grants
  | replaceCommit r previous current grants =>
    s.locks r.document = some i ∧ Planning s r previous current [] grants
  | replaceApply r revokes grants => Applying s r revokes grants
  | replaceDelete r u revokes grants =>
    Applying s r (u :: revokes) grants ∧ ¬ s.Views r.document u
  | replaceWrite r u grants => Applying s r [] (⟨u, false⟩ :: grants)
  | replaced r .ok => Applying s r [] []
  | _ => False

/-- What an earlier replacement may still do beside the request `r`: revoke users not on its list. -/
def Proc.LeavesAlone (r : PermissionsRequest) : Proc → Prop
  | replaceApply _ revokes grants => grants = [] ∧ ∀ u ∈ revokes, u ∉ r.authorizedUserIds
  | replaceDelete _ v revokes grants =>
    grants = [] ∧ v ∉ r.authorizedUserIds ∧ ∀ u ∈ revokes, u ∉ r.authorizedUserIds
  | replaceWrite _ _ _ => False
  | _ => True

/-- A replacement takes the lock only when the earlier ones have no grant left and no revoke of a
user on its list, and an answer that reads as missing is for a missing tuple. -/
def replacesInTurn (document : Nat) (s : State) : Act → Prop
  | .replace r => r.document = document
  | .advance i (.sql true) => ∀ r, s.procs[i]? = some (.replaceLock r) →
    ∀ (j : Nat) (q : Proc), s.procs[j]? = some q → q.LeavesAlone r
  | .advance i (.called (.failed e)) => ∀ (p : Proc) u, s.procs[i]? = some p →
    isMissingTupleDeleteError e = true → p.Tolerates document u → ¬ s.Views document u
  | .advance _ _ => True
  | .abort _ => True
  | _ => False

/-- A replacement that does not return `Ok`. -/
def Proc.Failing : Proc → Prop
  | enqueueWrite _ _ => True
  | replaced _ .notFound => True
  | replaced _ .failed => True
  | _ => False

/-- The request of a replacement, under way or returned. -/
def Proc.replaces? : Proc → Option PermissionsRequest
  | replaced r _ => some r
  | p => p.request?

/-- A replacement that is not the last to take the lock. -/
def Proc.Trails (s : State) (r : PermissionsRequest) : Proc → Prop
  | replaceLock _ => True
  | replaced _ _ => True
  | replaceApply _ revokes grants => grants = [] ∧ ∀ u ∈ revokes, u ∉ r.authorizedUserIds
  | replaceDelete _ v revokes grants => grants = [] ∧ v ∉ r.authorizedUserIds ∧
    ¬ s.Views r.document v ∧ ∀ u ∈ revokes, u ∉ r.authorizedUserIds
  | _ => False

theorem State.setMode_modeIs {s : State} {d : Nat} {old mode : DocumentAccessMode}
    (h : s.ModeIs d old) : (s.setMode d mode).ModeIs d mode := by
  obtain ⟨doc, hdoc, -⟩ := h
  refine ⟨{ doc with accessMode := mode }, ?_, rfl⟩
  simp [State.setMode, hdoc]

/-- A step that takes nothing from the users that the request lists, and gives nobody anything. -/
structure Keeps (r : PermissionsRequest) (s t : State) : Prop where
  document : t.documents r.document = s.documents r.document
  shares : ∀ u, (r.document, u) ∈ t.shares → (r.document, u) ∈ s.shares
  shared : ∀ u ∈ r.authorizedUserIds, (r.document, u) ∈ s.shares → (r.document, u) ∈ t.shares
  views : ∀ u, t.Views r.document u → s.Views r.document u
  viewed : ∀ u ∈ r.authorizedUserIds, s.Views r.document u → t.Views r.document u

section Keeps

variable {s t : State} {r : PermissionsRequest}

theorem Keeps.same (hdocs : t.documents = s.documents) (hshares : t.shares = s.shares)
    (htuples : t.tuples = s.tuples) : Keeps r s t := by
  refine ⟨by rw [hdocs], ?_, ?_, ?_, ?_⟩
  · exact fun u h => hshares ▸ h
  · exact fun u _ h => hshares ▸ h
  · intro u h
    rwa [State.Views, htuples] at h
  · intro u _ h
    rwa [State.Views, htuples]

theorem Keeps.modeIs {mode : DocumentAccessMode} (h : Keeps r s t)
    (hm : s.ModeIs r.document mode) : t.ModeIs r.document mode := by
  obtain ⟨d, hd, hmode⟩ := hm
  exact ⟨d, h.document.trans hd, hmode⟩

theorem Covered.of_keeps (h : Keeps r s t) {grants : List GrantPlan} {u : Nat}
    (hu : u ∈ r.authorizedUserIds) (hc : Covered s r grants u) : Covered t r grants u := by
  rcases hc with ⟨hin, hview⟩ | hgrant
  · exact .inl ⟨h.shared u hu hin, h.viewed u hu hview⟩
  · exact .inr hgrant

theorem Grantable.of_keeps (h : Keeps r s t) {grants : List GrantPlan}
    (hg : Grantable s r grants) : Grantable t r grants :=
  ⟨hg.listed, fun u hu => h.shared u (hg.listed ⟨u, false⟩ hu) (hg.shared u hu)⟩

theorem Planning.of_keeps (h : Keeps r s t) {previous : DocumentAccessMode}
    {current todo : List Nat} {grants : List GrantPlan}
    (hp : Planning s r previous current todo grants) :
    Planning t r previous current todo grants := by
  refine ⟨h.modeIs hp.mode, ?_, ?_, ?_, hp.asked, hp.grantable.of_keeps h⟩
  · exact fun u hin => hp.rows u (h.shares u hin)
  · exact fun u hu hlisted => h.shared u hlisted (hp.kept u hu hlisted)
  · intro u hu
    rcases hp.covered u hu with hmem | hcov
    · exact .inl hmem
    · exact .inr (hcov.of_keeps h hu)

theorem Applying.of_keeps (h : Keeps r s t) {revokes : List Nat} {grants : List GrantPlan}
    (ha : Applying s r revokes grants) : Applying t r revokes grants :=
  ⟨h.modeIs ha.mode, fun u hin => ha.rows u (h.shares u hin),
    fun u hu => (ha.covered u hu).of_keeps h hu, ha.grantable.of_keeps h, ha.away⟩

theorem Planning.same {previous : DocumentAccessMode} {current todo : List Nat}
    {grants : List GrantPlan} (hp : Planning s r previous current todo grants)
    (hdocs : t.documents = s.documents) (hshares : t.shares = s.shares)
    (htuples : t.tuples = s.tuples) : Planning t r previous current todo grants :=
  hp.of_keeps (Keeps.same hdocs hshares htuples)

theorem Applying.same {revokes : List Nat} {grants : List GrantPlan}
    (ha : Applying s r revokes grants) (hdocs : t.documents = s.documents)
    (hshares : t.shares = s.shares) (htuples : t.tuples = s.tuples) :
    Applying t r revokes grants :=
  ha.of_keeps (Keeps.same hdocs hshares htuples)

end Keeps

theorem explicitViewerTuple_injective {d d' u u' : Nat}
    (h : explicitViewerTuple d u = explicitViewerTuple d' u') : d = d' ∧ u = u' := by
  simp only [explicitViewerTuple, TupleKey.mk.injEq, Subject.user.injEq,
    FgaObject.document.injEq] at h
  exact ⟨h.2.2, h.1⟩

/-- The replacement on `r` moves on, or is bound to fail. -/
def Advances (s : State) (i : Nat) (r : PermissionsRequest) (t : State) : Prop :=
  ∃ q, t.procs = s.procs.set i q ∧ q.replaces? = some r ∧ (q.Failing ∨ q.Leads t i)

section Leader

variable {s t : State} {i : Nat} {r : PermissionsRequest} {reply : Reply}

theorem Proc.failing_of_outcome {outcome : Outcome} (h : outcome ≠ .ok) :
    (Proc.replaced r outcome).Failing := by
  cases outcome with
  | ok => exact absurd rfl h
  | notFound => trivial
  | failed => trivial

theorem Proc.aborted_eq {p : Proc} (hp : p.request? = some r) :
    p.aborted = .replaced r .failed := by
  simp [Proc.aborted, hp]

theorem Advances.fails {p : Proc} {d : Nat} (hp : p.request? = some r) :
    Advances s i r (s.leave i d p.aborted) := by
  rw [Proc.aborted_eq hp]
  exact ⟨_, rfl, rfl, .inl trivial⟩

theorem read_advances {previous : DocumentAccessMode}
    (h : Moves s i (.replaceRead r previous) reply t)
    (hl : (Proc.replaceRead r previous).Leads s i) : Advances s i r t := by
  obtain ⟨hlock, hmode⟩ := hl
  cases h with
  | quiet outbox hq => cases hq <;> contradiction
  | inside hq =>
    cases hq with
    | read hlists =>
      refine ⟨_, rfl, rfl, .inr ⟨hlock, hmode, ?_, ?_, ?_, ?_, nofun, nofun⟩⟩
      · exact fun u hin => (ListsShares.mem hlists).mpr hin
      · exact fun u hu _ => (ListsShares.mem hlists).mp hu
      · exact fun u hu => .inl (mem_planned.mpr hu)
      · exact fun u hu => mem_planned.mp hu
  | leave hd => exact Advances.fails rfl
  | _ => contradiction

/-- One target of the plan is dealt with: it has row and tuple, or is in the grants. -/
theorem Planning.next {previous : DocumentAccessMode} {current rest : List Nat} {u : Nat}
    {grants more : List GrantPlan} (h : Planning s r previous current (u :: rest) grants)
    (sub : grants ⊆ more) (new : Covered s r more u) (hmore : Grantable s r more) :
    Planning s r previous current rest more := by
  refine ⟨h.mode, h.rows, h.kept, ?_, fun v hv => h.asked v (List.mem_cons_of_mem _ hv), hmore⟩
  intro v hv
  rcases h.covered v hv with hmem | hcov | ⟨b, hgrant⟩
  · rcases List.mem_cons.mp hmem with rfl | hmem
    · exact .inr new
    · exact .inl hmem
  · exact .inr (.inl hcov)
  · exact .inr (.inr ⟨b, sub hgrant⟩)

theorem Planning.push {previous : DocumentAccessMode} {current rest : List Nat} {u : Nat}
    {grants : List GrantPlan} (h : Planning s r previous current (u :: rest) grants) (b : Bool)
    (hrow : b = false → (r.document, u) ∈ s.shares) :
    Planning s r previous current rest (grants ++ [⟨u, b⟩]) := by
  refine h.next (List.subset_append_left _ _) (.inr ⟨b, by simp⟩) ⟨?_, ?_⟩
  · intro g hg
    rcases List.mem_append.mp hg with hg | hg
    · exact h.grantable.listed g hg
    · rw [List.mem_singleton.mp hg]
      exact h.asked u (List.mem_cons_self ..)
  · intro v hv
    rcases List.mem_append.mp hv with hv | hv
    · exact h.grantable.shared v hv
    · cases List.mem_singleton.mp hv
      exact hrow rfl

theorem check_advances {previous : DocumentAccessMode} {current todo : List Nat}
    {grants : List GrantPlan} (h : Moves s i (.replaceCheck r previous current todo grants) reply t)
    (hl : (Proc.replaceCheck r previous current todo grants).Leads s i) : Advances s i r t := by
  obtain ⟨hlock, hp⟩ := hl
  cases h with
  | quiet outbox hq => cases hq <;> contradiction
  | inside hq =>
    cases hq with
    | newUser hu =>
      have hnext := hp.push true Bool.noConfusion
      exact ⟨_, rfl, rfl, .inr ⟨hlock, hnext.same rfl rfl rfl⟩⟩
    | @viewer _ _ _ u rest _ _ hu hview =>
      have hin := hp.kept u hu (hp.asked u (List.mem_cons_self ..))
      have hnext := hp.next (List.Subset.refl _) (.inl ⟨hin, hview⟩) hp.grantable
      exact ⟨_, rfl, rfl, .inr ⟨hlock, hnext.same rfl rfl rfl⟩⟩
    | @noViewer _ _ _ u rest _ _ hu hview =>
      have hnext := hp.push false fun _ => hp.kept u hu (hp.asked u (List.mem_cons_self ..))
      exact ⟨_, rfl, rfl, .inr ⟨hlock, hnext.same rfl rfl rfl⟩⟩
    | validate => exact ⟨_, rfl, rfl, .inr ⟨hlock, hp.same rfl rfl rfl⟩⟩
    | nobody => exact ⟨_, rfl, rfl, .inr ⟨hlock, hp.same rfl rfl rfl⟩⟩
  | leave hd => exact Advances.fails rfl
  | _ => contradiction

theorem validate_advances {previous : DocumentAccessMode} {current members : List Nat}
    {grants todo : List GrantPlan}
    (h : Moves s i (.replaceValidate r previous current grants members todo) reply t)
    (hl : (Proc.replaceValidate r previous current grants members todo).Leads s i) :
    Advances s i r t := by
  obtain ⟨hlock, hp⟩ := hl
  cases h with
  | quiet outbox hq => cases hq <;> contradiction
  | inside hq =>
    cases hq with
    | valid => exact ⟨_, rfl, rfl, .inr ⟨hlock, hp.same rfl rfl rfl⟩⟩
    | allValid => exact ⟨_, rfl, rfl, .inr ⟨hlock, hp.same rfl rfl rfl⟩⟩
  | leave hd => exact Advances.fails rfl
  | _ => contradiction

/-- The commit turns the plan into what is left to apply. -/
theorem Planning.apply {previous : DocumentAccessMode} {current : List Nat}
    {grants : List GrantPlan} (h : Planning s r previous current [] grants)
    (hmode : s.ModeIs r.document r.requestedMode) :
    Applying s r (r.toRevoke current) grants := by
  refine ⟨hmode, ?_, ?_, h.grantable, fun u hu => (mem_toRevoke.mp hu).2⟩
  · intro u hin
    by_cases hu : u ∈ r.authorizedUserIds
    · exact .inl hu
    · exact .inr (mem_toRevoke.mpr ⟨h.rows u hin, hu⟩)
  · intro u hu
    rcases h.covered u hu with hmem | hcov
    · cases hmem
    · exact hcov

theorem commit_advances {previous : DocumentAccessMode} {current : List Nat}
    {grants : List GrantPlan} (h : Moves s i (.replaceCommit r previous current grants) reply t)
    (hl : (Proc.replaceCommit r previous current grants).Leads s i) : Advances s i r t := by
  obtain ⟨-, hp⟩ := hl
  cases h with
  | quiet outbox hq => cases hq <;> contradiction
  | inside hq => cases hq
  | leave hd => exact Advances.fails rfl
  | unchanged hrevoke =>
    have ha := hp.apply hp.mode
    rw [hrevoke] at ha
    exact ⟨_, rfl, rfl, .inr (ha.same rfl rfl rfl)⟩
  | commitReplace u hu =>
    have ha : Applying u r (r.toRevoke current) grants := by
      rw [hu]
      split
      next heq =>
        subst heq
        exact hp.apply hp.mode
      next =>
        have hp' : Planning (s.setMode r.document r.requestedMode) r r.requestedMode current []
            grants :=
          ⟨State.setMode_modeIs hp.mode, hp.rows, hp.kept, hp.covered, hp.asked,
            ⟨hp.grantable.listed, hp.grantable.shared⟩⟩
        exact hp'.apply hp'.mode
    refine ⟨.replaceApply r (r.toRevoke current) grants, ?_, rfl, .inr (ha.same rfl rfl rfl)⟩
    rw [hu]
    split <;> rfl
  | _ => contradiction

/-- The row of the first grant is there. -/
theorem Applying.inserted {u : Nat} {rest : List GrantPlan} {b : Bool}
    (h : Applying s r [] (⟨u, b⟩ :: rest)) (hin : (r.document, u) ∈ s.shares) :
    Applying s r [] (⟨u, false⟩ :: rest) := by
  refine ⟨h.mode, h.rows, ?_, ⟨?_, ?_⟩, h.away⟩
  · intro v hv
    rcases h.covered v hv with hcov | ⟨c, hgrant⟩
    · exact .inl hcov
    · rcases List.mem_cons.mp hgrant with hhead | htail
      · cases hhead
        exact .inr ⟨false, List.mem_cons_self ..⟩
      · exact .inr ⟨c, List.mem_cons_of_mem _ htail⟩
  · intro g hg
    rcases List.mem_cons.mp hg with rfl | hg
    · exact h.grantable.listed ⟨u, b⟩ (List.mem_cons_self ..)
    · exact h.grantable.listed g (List.mem_cons_of_mem _ hg)
  · intro v hv
    rcases List.mem_cons.mp hv with hhead | htail
    · cases hhead
      exact hin
    · exact h.grantable.shared v (List.mem_cons_of_mem _ htail)

/-- Taking the row or the tuple of a user that the request does not list. -/
theorem Keeps.take {i d u : Nat} {q : Proc} (hd : d = r.document)
    (hu : u ∉ r.authorizedUserIds) :
    Keeps r s ({ s with tuples := s.tuples.erase (explicitViewerTuple d u) }.goto i q) := by
  subst hd
  refine ⟨rfl, fun _ h => h, fun _ _ h => h, fun v h => Finset.mem_of_mem_erase h, ?_⟩
  intro v hv h
  refine Finset.mem_erase_of_ne_of_mem ?_ h
  intro heq
  exact hu ((explicitViewerTuple_injective heq).2 ▸ hv)

theorem Keeps.delete {i d u : Nat} {q : Proc} (hd : d = r.document)
    (hu : u ∉ r.authorizedUserIds) :
    Keeps r s ({ s with shares := s.shares.erase (d, u) }.goto i q) := by
  subst hd
  refine ⟨rfl, fun v h => Finset.mem_of_mem_erase h, ?_, fun _ h => h, fun _ _ h => h⟩
  intro v hv h
  refine Finset.mem_erase_of_ne_of_mem ?_ h
  intro heq
  exact hu ((Prod.mk.inj heq).2 ▸ hv)

/-- A step that inserts the row of a listed user. -/
theorem Applying.insert {i u : Nat} {rest : List GrantPlan} {q : Proc}
    (h : Applying s r [] (⟨u, true⟩ :: rest)) :
    Applying ({ s with shares := insert (r.document, u) s.shares }.goto i q) r []
      (⟨u, false⟩ :: rest) := by
  have hu := h.grantable.listed ⟨u, true⟩ (List.mem_cons_self ..)
  have grown : Applying ({ s with shares := Insert.insert (r.document, u) s.shares }.goto i q) r []
      (⟨u, true⟩ :: rest) := by
    refine ⟨h.mode, ?_, ?_, ⟨h.grantable.listed, ?_⟩, h.away⟩
    · intro v hin
      rcases Finset.mem_insert.mp hin with heq | hin
      · rw [(Prod.mk.inj heq).2]
        exact .inl hu
      · exact h.rows v hin
    · intro v hv
      rcases h.covered v hv with ⟨hin, hview⟩ | hgrant
      · exact .inl ⟨Finset.mem_insert_of_mem hin, hview⟩
      · exact .inr hgrant
    · exact fun v hv => Finset.mem_insert_of_mem (h.grantable.shared v hv)
  exact grown.inserted (Finset.mem_insert_self _ _)

theorem Advances.of_fail {p : Proc} {outcome : Outcome} {outbox : List AuthzRow}
    (hp : p.request? = some r) {r' : PermissionsRequest} (hr : p.request? = some r')
    (hne : outcome ≠ .ok) :
    Advances s i r ({ s with outbox := outbox }.goto i (.replaced r' outcome)) := by
  rw [hp] at hr
  cases hr
  exact ⟨_, rfl, rfl, .inl (Proc.failing_of_outcome hne)⟩

theorem apply_advances {revokes : List Nat} {grants : List GrantPlan}
    (missing : ∀ e, reply = .called (.failed e) → isMissingTupleDeleteError e = true →
      ∀ u, (Proc.replaceApply r revokes grants).Tolerates r.document u → ¬ s.Views r.document u)
    (h : Moves s i (.replaceApply r revokes grants) reply t)
    (hl : (Proc.replaceApply r revokes grants).Leads s i) : Advances s i r t := by
  have ha : Applying s r revokes grants := hl
  cases h with
  | quiet outbox hq =>
    cases hq with
    | stop _ hr _ => cases hr
    | fail _ hr hne => exact Advances.of_fail rfl hr hne
    | sharePresent hin => exact ⟨_, rfl, rfl, .inr ((ha.inserted hin).same rfl rfl rfl)⟩
    | regrant => exact ⟨_, rfl, rfl, .inr (ha.same rfl rfl rfl)⟩
    | applied => exact ⟨_, rfl, rfl, .inr (ha.same rfl rfl rfl)⟩
    | missing he =>
      exact ⟨_, rfl, rfl, .inr ⟨ha.same rfl rfl rfl, missing _ rfl he _ ⟨rfl, rfl⟩⟩⟩
  | insert hq hdoc hfree =>
    cases hq
    exact ⟨_, rfl, rfl, .inr ha.insert⟩
  | take hq =>
    cases hq
    have hu := ha.away _ (List.mem_cons_self ..)
    exact ⟨_, rfl, rfl, .inr ⟨ha.of_keeps (Keeps.take rfl hu), Finset.notMem_erase _ _⟩⟩
  | _ => contradiction

theorem delete_advances {u : Nat} {revokes : List Nat} {grants : List GrantPlan}
    (h : Moves s i (.replaceDelete r u revokes grants) reply t)
    (hl : (Proc.replaceDelete r u revokes grants).Leads s i) : Advances s i r t := by
  obtain ⟨ha, hview⟩ := hl
  have hu := ha.away u (List.mem_cons_self ..)
  cases h with
  | quiet outbox hq =>
    cases hq with
    | stop _ hr _ => cases hr
    | fail _ hr hne => exact Advances.of_fail rfl hr hne
  | delete hq =>
    cases hq
    have hdel := ha.of_keeps (Keeps.delete (i := i) (q := .replaceApply r revokes grants) rfl hu)
    refine ⟨_, rfl, rfl, .inr ⟨hdel.mode, ?_, hdel.covered, hdel.grantable, ?_⟩⟩
    · intro v hin
      rcases hdel.rows v hin with hlisted | hmem
      · exact .inl hlisted
      · rcases List.mem_cons.mp hmem with rfl | hmem
        · exact absurd hin (Finset.notMem_erase _ _)
        · exact .inr hmem
    · exact fun v hv => ha.away v (List.mem_cons_of_mem _ hv)
  | _ => contradiction

theorem write_advances {u : Nat} {grants : List GrantPlan}
    (h : Moves s i (.replaceWrite r u grants) reply t)
    (hl : (Proc.replaceWrite r u grants).Leads s i) : Advances s i r t := by
  have ha : Applying s r [] (⟨u, false⟩ :: grants) := hl
  cases h with
  | quiet outbox hq =>
    cases hq with
    | stop _ hr _ => cases hr
    | fail _ hr hne => exact Advances.of_fail rfl hr hne
    | writeRefused => exact ⟨_, rfl, rfl, .inl trivial⟩
  | write hq =>
    cases hq
    refine ⟨_, rfl, rfl, .inr ⟨ha.mode, ha.rows, ?_, ⟨?_, ?_⟩, ha.away⟩⟩
    · intro v hv
      by_cases heq : v = u
      · subst heq
        exact .inl ⟨ha.grantable.shared v (List.mem_cons_self ..), Finset.mem_insert_self _ _⟩
      · rcases ha.covered v hv with ⟨hin, hview⟩ | ⟨b, hgrant⟩
        · exact .inl ⟨hin, Finset.mem_insert_of_mem hview⟩
        · rcases List.mem_cons.mp hgrant with hhead | htail
          · cases hhead
            exact absurd rfl heq
          · exact .inr ⟨b, htail⟩
    · exact fun g hg => ha.grantable.listed g (List.mem_cons_of_mem _ hg)
    · exact fun v hv => ha.grantable.shared v (List.mem_cons_of_mem _ hv)
  | _ => contradiction

end Leader

/-- No viewer tuple of the document is without its row. -/
def Rows (s : State) (document : Nat) : Prop :=
  ∀ u, s.Views document u → (document, u) ∈ s.shares

section Others

variable {s t : State} {i k : Nat} {p q : Proc} {r r' : PermissionsRequest} {reply : Reply}

theorem Moves.not_of_replaced {outcome : Outcome} : ¬ Moves s i (.replaced r outcome) reply t := by
  intro h
  cases h with
  | quiet outbox hq =>
    cases hq with
    | stop _ _ hf => cases hf
    | fail _ hr _ => cases hr
  | _ => contradiction

theorem leads_advances
    (missing : ∀ e, reply = .called (.failed e) → isMissingTupleDeleteError e = true →
      ∀ u, p.Tolerates r.document u → ¬ s.Views r.document u)
    (h : Moves s i p reply t) (hr : p.replaces? = some r) (hl : p.Leads s i) :
    Advances s i r t := by
  cases p with
  | replaceRead => cases hr; exact read_advances h hl
  | replaceCheck => cases hr; exact check_advances h hl
  | replaceValidate => cases hr; exact validate_advances h hl
  | replaceCommit => cases hr; exact commit_advances h hl
  | replaceApply => cases hr; exact apply_advances missing h hl
  | replaceDelete => cases hr; exact delete_advances h hl
  | replaceWrite => cases hr; exact write_advances h hl
  | replaced r outcome => exact absurd h Moves.not_of_replaced
  | _ => exact hl.elim

theorem Proc.Leads.of_keeps (hr : p.replaces? = some r) (h : Keeps r s t)
    (hlock : t.locks = s.locks) (hl : p.Leads s i) : p.Leads t i := by
  cases p with
  | replaceRead => cases hr; exact ⟨hlock ▸ hl.1, h.modeIs hl.2⟩
  | replaceCheck => cases hr; exact ⟨hlock ▸ hl.1, hl.2.of_keeps h⟩
  | replaceValidate => cases hr; exact ⟨hlock ▸ hl.1, hl.2.of_keeps h⟩
  | replaceCommit => cases hr; exact ⟨hlock ▸ hl.1, hl.2.of_keeps h⟩
  | replaceApply => cases hr; exact Applying.of_keeps h hl
  | replaceDelete => cases hr; exact ⟨hl.1.of_keeps h, fun hview => hl.2 (h.views _ hview)⟩
  | replaceWrite => cases hr; exact Applying.of_keeps h hl
  | replaced r outcome =>
    cases hr
    cases outcome with
    | ok => exact Applying.of_keeps h hl
    | _ => exact hl.elim
  | _ => exact hl.elim

/-- The leader writes tuples of users on its list that have their row. -/
theorem Proc.Leads.writes {d u : Nat} (hl : p.Leads s i) (hr : p.replaces? = some r)
    (h : Writes p (explicitViewerTuple d u) q) :
    u ∈ r.authorizedUserIds ∧ (d, u) ∈ s.shares := by
  generalize hk : explicitViewerTuple d u = key at h
  cases h with
  | grant => cases hr
  | replay => cases hr
  | replace =>
    cases hr
    obtain ⟨rfl, rfl⟩ := explicitViewerTuple_injective hk
    have ha : Applying s r [] (⟨u, false⟩ :: _) := hl
    exact ⟨ha.grantable.listed _ (List.mem_cons_self ..),
      ha.grantable.shared u (List.mem_cons_self ..)⟩

theorem Proc.Leads.unlinks {d u : Nat} (hl : p.Leads s i) (hr : p.replaces? = some r)
    (h : p.Unlinks d u) : ¬ s.Views d u := by
  cases p with
  | replaceDelete =>
    obtain ⟨rfl, rfl⟩ := h
    exact hl.2
  | grantUndo => cases hr
  | revokeRow => cases hr
  | modeRevoke => cases hr
  | modeCommit => cases hr
  | _ => exact h.elim

theorem Proc.Trails.unlinks {u : Nat} (hq : p.Trails s r) (h : p.Unlinks r.document u) :
    ¬ s.Views r.document u := by
  cases p with
  | replaceDelete =>
    obtain ⟨-, rfl⟩ := h
    exact hq.2.2.1
  | replaceLock => exact h.elim
  | replaceApply => exact h.elim
  | replaced => exact h.elim
  | _ => exact hq.elim

theorem Proc.Trails.not_writes {key : TupleKey} (hp : p.Trails s r) : ¬ Writes p key q := by
  intro h
  cases h <;> exact hp.elim

theorem Moves.rows {d : Nat} (h : Moves s k p reply t)
    (unlinks : ∀ u, p.Unlinks d u → ¬ s.Views d u)
    (writes : ∀ u q, Writes p (explicitViewerTuple d u) q → (d, u) ∈ s.shares)
    (hrows : Rows s d) : Rows t d := by
  intro u hview
  by_cases hold : s.Views d u
  · rcases h.share_kept (hrows u hold) with hkept | hunlinks
    · exact hkept
    · exact absurd hold (unlinks u hunlinks)
  · obtain ⟨-, q, hq⟩ := h.views_new hview hold
    rcases h.share_kept (writes u q hq) with hkept | hunlinks
    · exact hkept
    · cases hq <;> exact hunlinks.elim

/-- The others keep out of the way of the leader whatever step the leader takes. -/
theorem Proc.Trails.of_leader (h : Moves s i p reply t) (hr : p.replaces? = some r)
    (hl : p.Leads s i) (hq : q.Trails s r) : q.Trails t r := by
  cases q with
  | replaceDelete r' v revokes grants =>
    obtain ⟨hgrants, hv, hview, hrest⟩ := hq
    refine ⟨hgrants, hv, fun hnew => ?_, hrest⟩
    obtain ⟨-, next, hw⟩ := h.views_new hnew hview
    exact hv (hl.writes hr hw).1
  | _ => exact hq

theorem Proc.Trails.of_keeps (h : Keeps r s t) (hq : q.Trails s r) : q.Trails t r := by
  cases q with
  | replaceDelete r' v revokes grants =>
    exact ⟨hq.1, hq.2.1, fun hview => hq.2.2.1 (h.views v hview), hq.2.2.2⟩
  | _ => exact hq

/-- What a step of a trailing replacement does: it takes the lock, or it keeps what the leader
relies on. -/
theorem Proc.Trails.moves (hq : p.Trails s r) (hp : p.replaces? = some r')
    (hd : r'.document = r.document)
    (missing : ∀ e, reply = .called (.failed e) → isMissingTupleDeleteError e = true →
      ∀ u, p.Tolerates r.document u → ¬ s.Views r.document u)
    (h : Moves s k p reply t) :
    (∃ document, s.documents r'.document = some document ∧ s.locks r'.document = none ∧
      p = .replaceLock r' ∧ reply = .sql true ∧
      t = (s.lock r'.document k).goto k (.replaceRead r' document.accessMode)) ∨
    (Keeps r s t ∧ t.locks = s.locks ∧
      ∃ q, t.procs = s.procs.set k q ∧ q.Trails t r) := by
  have same : ∀ q outbox, Keeps r s ({ s with outbox := outbox }.goto k q) :=
    fun q outbox => .same rfl rfl rfl
  have fails : ∀ outcome outbox r'', p.request? = some r'' → outcome ≠ .ok →
      t = { s with outbox := outbox }.goto k (.replaced r'' outcome) →
      Keeps r s t ∧ t.locks = s.locks ∧
        ∃ q, t.procs = s.procs.set k q ∧ q.Trails t r := by
    rintro outcome outbox r'' - hne rfl
    refine ⟨same _ _, rfl, _, rfl, trivial⟩
  cases p with
  | replaceLock r₀ =>
    cases hp
    cases h with
    | quiet outbox hmove =>
      cases hmove with
      | stop _ hr _ => cases hr
      | fail _ hr hne => exact .inr (fails _ _ _ hr hne rfl)
    | lock hdoc hfree hmove =>
      cases hmove
      exact .inl ⟨_, hdoc, hfree, rfl, rfl, rfl⟩
    | _ => contradiction
  | replaceApply r₀ revokes grants =>
    cases hp
    obtain ⟨rfl, hrevokes⟩ := hq
    refine .inr ?_
    cases h with
    | quiet outbox hmove =>
      cases hmove with
      | stop _ hr _ => cases hr
      | fail _ hr hne => exact fails _ _ _ hr hne rfl
      | applied => exact ⟨same _ _, rfl, _, rfl, trivial⟩
      | missing he =>
        have hview := missing _ rfl he _ ⟨hd, rfl⟩
        exact ⟨same _ _, rfl, _, rfl, rfl, hrevokes _ (List.mem_cons_self ..), hview,
          fun u hu => hrevokes u (List.mem_cons_of_mem _ hu)⟩
    | take hmove =>
      cases hmove
      have hu := hrevokes _ (List.mem_cons_self ..)
      refine ⟨Keeps.take hd hu, rfl, _, rfl, rfl, hu, ?_,
        fun u hu => hrevokes u (List.mem_cons_of_mem _ hu)⟩
      rw [State.Views, ← hd]
      exact Finset.notMem_erase _ _
    | _ => contradiction
  | replaceDelete r₀ v revokes grants =>
    cases hp
    obtain ⟨rfl, hv, hview, hrevokes⟩ := hq
    refine .inr ?_
    cases h with
    | quiet outbox hmove =>
      cases hmove with
      | stop _ hr _ => cases hr
      | fail _ hr hne => exact fails _ _ _ hr hne rfl
    | delete hmove =>
      cases hmove
      exact ⟨Keeps.delete hd hv, rfl, _, rfl, rfl, hrevokes⟩
    | _ => contradiction
  | replaced r₀ outcome => exact absurd h Moves.not_of_replaced
  | _ => exact hq.elim

theorem Proc.Trails.of_led (hl : p.Leads s i) (hr : p.replaces? = some r)
    (hd : r.document = r'.document) (hfree : s.locks r'.document = none)
    (halone : p.LeavesAlone r') : p.Trails s r' := by
  have unlocked : s.locks r.document ≠ some i := by
    rw [hd, hfree]
    exact Option.some_ne_none i ∘ Eq.symm
  cases p with
  | replaceRead => cases hr; exact absurd hl.1 unlocked
  | replaceCheck => cases hr; exact absurd hl.1 unlocked
  | replaceValidate => cases hr; exact absurd hl.1 unlocked
  | replaceCommit => cases hr; exact absurd hl.1 unlocked
  | replaceDelete r₀ v revokes grants =>
    cases hr
    exact ⟨halone.1, halone.2.1, hd ▸ hl.2, halone.2.2⟩
  | replaceApply => exact halone
  | replaceWrite => exact halone.elim
  | replaced => trivial
  | _ => exact hl.elim

theorem Proc.Trails.of_trails (hq : q.Trails s r) (hd : r.document = r'.document)
    (halone : q.LeavesAlone r') : q.Trails s r' := by
  cases q with
  | replaceDelete => exact ⟨halone.1, halone.2.1, hd ▸ hq.2.2.1, halone.2.2⟩
  | replaceApply => exact halone
  | replaceLock => trivial
  | replaced => trivial
  | _ => exact hq.elim

theorem Proc.replaces_of_request (h : p.request? = some r) : p.replaces? = some r := by
  cases p <;> first | exact h | cases h

theorem Proc.request_of_replaces (h : p.replaces? = some r) (hf : p.finished = false) :
    p.request? = some r := by
  cases p <;> first | exact h | cases hf

theorem Proc.unfinished_of_document {d : Nat} (h : p.document? = some d) :
    p.finished = false := by
  cases p <;> first | rfl | cases h

/-- Every process stays a replacement with its request. -/
theorem Moves.replaces (h : Moves s k p reply t) (hp : p.replaces? = some r) :
    ∃ q, t.procs = s.procs.set k q ∧ q.replaces? = some r ∧ (p.Failing → q.Failing) := by
  cases h with
  | quiet outbox hmove =>
    cases hmove with
    | stop _ hr hf =>
      rw [Proc.request_of_replaces hp hf] at hr
      cases hr
    | @fail _ r₀ _ outcome _ hr hne =>
      have heq := Proc.replaces_of_request hr
      rw [hp] at heq
      cases heq
      exact ⟨_, rfl, rfl, fun _ => Proc.failing_of_outcome hne⟩
    | rowPresent => cases hp
    | grantRefused => cases hp
    | replayed => cases hp
    | _ => exact ⟨_, rfl, hp, fun hf => hf.elim⟩
  | inside hmove => cases hmove <;> exact ⟨_, rfl, hp, fun hf => hf.elim⟩
  | insert hmove hdoc hfree =>
    cases hmove with
    | grant => cases hp
    | replace => exact ⟨_, rfl, hp, fun hf => hf.elim⟩
  | write hmove =>
    cases hmove with
    | replace => exact ⟨_, rfl, hp, fun hf => hf.elim⟩
    | _ => cases hp
  | take hmove =>
    cases hmove with
    | replace => exact ⟨_, rfl, hp, fun hf => hf.elim⟩
    | _ => cases hp
  | replayDelete => cases hp
  | delete hmove =>
    cases hmove with
    | replace => exact ⟨_, rfl, hp, fun hf => hf.elim⟩
    | _ => cases hp
  | lock hdoc hfree hmove =>
    cases hmove with
    | replace => exact ⟨_, rfl, hp, fun hf => hf.elim⟩
    | _ => cases hp
  | leave hd =>
    have hr := Proc.request_of_replaces hp (Proc.unfinished_of_document hd)
    exact ⟨_, rfl, by rw [Proc.aborted_eq hr]; rfl, fun _ => by rw [Proc.aborted_eq hr]; trivial⟩
  | commitMode => cases hp
  | unchanged hrevoke => exact ⟨_, rfl, hp, fun hf => hf.elim⟩
  | @commitReplace r₀ previous current grants u hu =>
    refine ⟨.replaceApply r₀ (r₀.toRevoke current) grants, ?_, hp, fun hf => hf.elim⟩
    rw [hu]
    split <;> rfl

end Others

/-- Process `i` took the lock last, and every other replacement keeps out of its way. -/
structure Led (s : State) (i : Nat) (p : Proc) (r : PermissionsRequest) : Prop where
  here : s.procs[i]? = some p
  replaces : p.replaces? = some r
  leads : p.Leads s i
  trail : ∀ (j : Nat) (q : Proc), j ≠ i → s.procs[j]? = some q → q.Trails s r

structure TurnInv (document : Nat) (s : State) : Prop where
  here : ∀ (i : Nat) (p : Proc), s.procs[i]? = some p →
    ∃ r, p.replaces? = some r ∧ r.document = document
  turn : (∃ (i : Nat) (p : Proc), s.procs[i]? = some p ∧ p.Failing) ∨
    (Rows s document ∧ ((∀ (i : Nat) (p : Proc), s.procs[i]? = some p → ∃ r, p = .replaceLock r) ∨
      ∃ i p r, Led s i p r))

section Turn

variable {s t : State} {k d : Nat} {p : Proc} {reply : Reply}

/-- The condition of a step, as the move of one process meets it. -/
structure Proc.InTurn (d : Nat) (s : State) (p : Proc) (reply : Reply) : Prop where
  alone : reply = .sql true → ∀ r, p = .replaceLock r →
    ∀ (j : Nat) (q : Proc), s.procs[j]? = some q → q.LeavesAlone r
  missing : ∀ e, reply = .called (.failed e) → isMissingTupleDeleteError e = true →
    ∀ u, p.Tolerates d u → ¬ s.Views d u

theorem Led.rows {i : Nat} {r : PermissionsRequest} {q : Proc} (hled : Led s i q r)
    (hd : r.document = d) (hp : s.procs[k]? = some p) (hm : Moves s k p reply t)
    (hrows : Rows s d) : Rows t d := by
  by_cases hk : k = i
  · subst hk
    rw [hled.here] at hp
    cases hp
    exact hm.rows (fun u hu => hled.leads.unlinks hled.replaces hu)
      (fun u next hw => (hled.leads.writes hled.replaces hw).2) hrows
  · have htrail := hled.trail k p hk hp
    subst hd
    refine hm.rows (fun u hu => htrail.unlinks hu) (fun u next hw => ?_) hrows
    exact absurd hw htrail.not_writes

/-- A new leader: the ones before it have left only what is not on its list. -/
theorem lock_led {r : PermissionsRequest} {document : Document}
    (hp : s.procs[k]? = some (.replaceLock r)) (hdoc : s.documents r.document = some document)
    (others : ∀ (j : Nat) (q : Proc), j ≠ k → s.procs[j]? = some q → q.Trails s r)
    (ht : t = (s.lock r.document k).goto k (.replaceRead r document.accessMode)) :
    Led t k (.replaceRead r document.accessMode) r := by
  subst ht
  refine ⟨?_, rfl, ⟨Function.update_self _ _ _, document, hdoc, rfl⟩, ?_⟩
  · exact (getElem?_set_iff hp).mpr (.inl ⟨rfl, rfl⟩)
  · intro j q hj hq
    rcases (getElem?_set_iff hp).mp hq with ⟨heq, -⟩ | ⟨-, hq⟩
    · exact absurd heq hj
    · have htrail := others j q hj hq
      cases q <;> exact htrail

theorem Led.step {i : Nat} {r : PermissionsRequest} {q : Proc} (hled : Led s i q r)
    (hd : r.document = d)
    (here : ∀ (i : Nat) (p : Proc), s.procs[i]? = some p →
      ∃ r, p.replaces? = some r ∧ r.document = d)
    (hok : p.InTurn d s reply) (hp : s.procs[k]? = some p) (hm : Moves s k p reply t) :
    (∃ (j : Nat) (q : Proc), t.procs[j]? = some q ∧ q.Failing) ∨ ∃ i p r, Led t i p r := by
  subst hd
  by_cases hk : k = i
  · subst hk
    rw [hled.here] at hp
    cases hp
    obtain ⟨next, hprocs, hr, hnext⟩ := leads_advances hok.missing hm hled.replaces hled.leads
    have hself : t.procs[k]? = some next := by
      rw [hprocs]
      exact (getElem?_set_iff hled.here).mpr (.inl ⟨rfl, rfl⟩)
    rcases hnext with hfail | hleads
    · exact .inl ⟨k, next, hself, hfail⟩
    · refine .inr ⟨k, next, r, hself, hr, hleads, fun j q hj hq => ?_⟩
      rw [hprocs] at hq
      rcases (getElem?_set_iff hled.here).mp hq with ⟨heq, -⟩ | ⟨-, hq⟩
      · exact absurd heq hj
      · exact (hled.trail j q hj hq).of_leader hm hled.replaces hled.leads
  · obtain ⟨r', hr', hd'⟩ := here k p hp
    have htrail := hled.trail k p hk hp
    rcases htrail.moves hr' hd' hok.missing hm with
      ⟨document, hdoc, hfree, rfl, hreply, ht⟩ | ⟨hkeeps, hlocks, next, hprocs, hnext⟩
    · refine .inr ⟨k, _, r', lock_led hp hdoc (fun j q' hj hq' => ?_) ht⟩
      have halone := hok.alone hreply r' rfl j q' hq'
      by_cases hji : j = i
      · subst hji
        rw [hled.here] at hq'
        cases hq'
        exact Proc.Trails.of_led hled.leads hled.replaces hd'.symm hfree halone
      · exact (hled.trail j q' hji hq').of_trails hd'.symm halone
    · have hstay : t.procs[i]? = some q := by
        rw [hprocs]
        exact (getElem?_set_iff hp).mpr (.inr ⟨fun h => hk h.symm, hled.here⟩)
      refine .inr ⟨i, q, r, hstay, hled.replaces,
        hled.leads.of_keeps hled.replaces hkeeps hlocks, fun j q' hj hq' => ?_⟩
      rw [hprocs] at hq'
      rcases (getElem?_set_iff hp).mp hq' with ⟨rfl, rfl⟩ | ⟨-, hq'⟩
      · exact hnext
      · exact (hled.trail j q' hj hq').of_keeps hkeeps

/-- While every replacement waits for the lock, one fails or takes it. -/
theorem waiting_step
    (waiting : ∀ (i : Nat) (p : Proc), s.procs[i]? = some p → ∃ r, p = .replaceLock r)
    (hp : s.procs[k]? = some p) (hm : Moves s k p reply t) :
    (∃ (j : Nat) (q : Proc), t.procs[j]? = some q ∧ q.Failing) ∨ ∃ i p r, Led t i p r := by
  obtain ⟨r, rfl⟩ := waiting k p hp
  cases hm with
  | quiet outbox hmove =>
    cases hmove with
    | stop _ hr _ => cases hr
    | @fail _ r' _ outcome _ hr hne =>
      exact .inl ⟨k, _, (getElem?_set_iff hp).mpr (.inl ⟨rfl, rfl⟩),
        Proc.failing_of_outcome hne⟩
  | lock hdoc hfree hmove =>
    cases hmove
    refine .inr ⟨k, _, r, lock_led hp hdoc (fun j q hj hq => ?_) rfl⟩
    obtain ⟨r', rfl⟩ := waiting j q hq
    trivial
  | _ => contradiction

theorem waiting_rows
    (waiting : ∀ (i : Nat) (p : Proc), s.procs[i]? = some p → ∃ r, p = .replaceLock r)
    (hp : s.procs[k]? = some p) (hm : Moves s k p reply t) (hrows : Rows s d) : Rows t d := by
  obtain ⟨r, rfl⟩ := waiting k p hp
  exact hm.rows (fun u hu => hu.elim) (fun u next hw => nomatch hw) hrows

theorem move_turnInv (hi : TurnInv d s) (hok : p.InTurn d s reply) (hp : s.procs[k]? = some p)
    (hm : Moves s k p reply t) : TurnInv d t := by
  obtain ⟨r, hr, hd⟩ := hi.here k p hp
  obtain ⟨q, hprocs, hq, hfail⟩ := hm.replaces hr
  refine ⟨?_, ?_⟩
  · rw [hprocs]
    exact forall_set hp ⟨r, hq, hd⟩ fun j c _ hc => hi.here j c hc
  · rcases hi.turn with ⟨j, c, hc, hcfail⟩ | ⟨hrows, waiting | ⟨i, leader, r', hled⟩⟩
    · refine .inl ?_
      by_cases hj : j = k
      · subst hj
        rw [hc] at hp
        cases hp
        exact ⟨j, q, by rw [hprocs]; exact (getElem?_set_iff hc).mpr (.inl ⟨rfl, rfl⟩),
          hfail hcfail⟩
      · exact ⟨j, c, by rw [hprocs]; exact (getElem?_set_iff hp).mpr (.inr ⟨hj, hc⟩), hcfail⟩
    · rcases waiting_step waiting hp hm with hfails | hled
      · exact .inl hfails
      · exact .inr ⟨waiting_rows waiting hp hm hrows, .inr hled⟩
    · obtain ⟨r'', hr'', hd''⟩ := hi.here i leader hled.here
      have heq : r'' = r' := Option.some.inj (hr''.symm.trans hled.replaces)
      subst heq
      rcases hled.step hd'' hi.here hok hp hm with hfails | hled'
      · exact .inl hfails
      · exact .inr ⟨hled.rows hd'' hp hm hrows, .inr hled'⟩

theorem step_turnInv {maxRetries : Int} {a : Act} (hi : TurnInv d s)
    (hok : replacesInTurn d s a) (h : step maxRetries s a = some t) : TurnInv d t := by
  cases a with
  | replace r =>
    cases Option.some.inj h
    refine ⟨forall_push ⟨r, rfl, hok⟩ hi.here, ?_⟩
    rcases hi.turn with ⟨j, c, hc, hfail⟩ | ⟨hrows, waiting | ⟨i, leader, r', hled⟩⟩
    · exact .inl ⟨j, c, getElem?_push_iff.mpr (.inl hc), hfail⟩
    · exact .inr ⟨hrows, .inl (forall_push ⟨r, rfl⟩ waiting)⟩
    · have hkeeps : Keeps r' s (s.start (.replaceLock r)) := .same rfl rfl rfl
      refine .inr ⟨hrows, .inr ⟨i, leader, r', getElem?_push_iff.mpr (.inl hled.here),
        hled.replaces, hled.leads.of_keeps hled.replaces hkeeps rfl, fun j q hj hq => ?_⟩⟩
      rcases getElem?_push_iff.mp hq with hq | ⟨-, rfl⟩
      · exact (hled.trail j q hj hq).of_keeps hkeeps
      · trivial
  | advance k reply =>
    obtain ⟨p, hp, hm⟩ := step_advance h
    refine move_turnInv hi ⟨?_, ?_⟩ hp hm
    · rintro rfl r rfl
      exact hok r hp
    · rintro e rfl he u hu
      exact hok p u hp he hu
  | abort k =>
    obtain ⟨p, hp, hm⟩ := step_abort h
    refine move_turnInv hi ⟨fun hreply => ?_, fun e hreply => ?_⟩ hp hm
    · cases hreply
    · cases hreply
  | grant => exact hok.elim
  | revoke => exact hok.elim
  | setMode => exact hok.elim
  | work => exact hok.elim

end Turn

/-- Replacements of the permissions of one document that take turns end, when all of them return
`Ok`, in exactly the target of one of them. -/
theorem replacements_serialize (maxRetries : Int) (document : Nat) {s : State}
    (h : Reach (fun s => Idle s ∧ Rows s document) (step maxRetries) (replacesInTurn document) s)
    (hsome : s.procs ≠ []) (hok : ∀ p ∈ s.procs, ∃ r, p = .replaced r .ok) :
    ∃ r, .replaced r .ok ∈ s.procs ∧ Target s r := by
  have hinv : TurnInv document s := by
    refine h.invariant ?_ fun s t a hi hok hs => step_turnInv hi hok hs
    rintro s ⟨⟨hprocs, -⟩, hrows⟩
    have none_here : ∀ (i : Nat) (p : Proc), s.procs[i]? ≠ some p := by
      intro i p hp
      rw [hprocs] at hp
      cases hp
    exact ⟨fun i p hp => absurd hp (none_here i p),
      .inr ⟨hrows, .inl fun i p hp => absurd hp (none_here i p)⟩⟩
  rcases hinv.turn with ⟨j, c, hc, hfail⟩ | ⟨hrows, waiting | ⟨i, leader, r, hled⟩⟩
  · obtain ⟨r, rfl⟩ := hok c (List.mem_of_getElem? hc)
    exact hfail.elim
  · obtain ⟨p, rest, hprocs⟩ := List.exists_cons_of_ne_nil hsome
    have hfirst : s.procs[0]? = some p := by rw [hprocs]; rfl
    obtain ⟨r, rfl⟩ := waiting 0 p hfirst
    obtain ⟨r', hr'⟩ := hok _ (List.mem_of_getElem? hfirst)
    cases hr'
  · obtain ⟨r', rfl⟩ := hok leader (List.mem_of_getElem? hled.here)
    have hr := hled.replaces
    cases hr
    have ha : Applying s r [] [] := hled.leads
    obtain ⟨r'', hr'', rfl⟩ := hinv.here i _ hled.here
    cases hr''
    have listed : ∀ u, (r.document, u) ∈ s.shares → u ∈ r.authorizedUserIds := by
      intro u hin
      rcases ha.rows u hin with hu | hu
      · exact hu
      · cases hu
    have there : ∀ u ∈ r.authorizedUserIds, (r.document, u) ∈ s.shares ∧ s.Views r.document u := by
      intro u hu
      rcases ha.covered u hu with hcov | ⟨b, hb⟩
      · exact hcov
      · cases hb
    exact ⟨r, List.mem_of_getElem? hled.here, ha.mode, fun u => ⟨listed u, fun hu => (there u hu).1⟩,
      fun u => ⟨fun hview => listed u (hrows u hview), fun hu => (there u hu).2⟩⟩

def shareWith (user : Nat) : PermissionsRequest :=
  ⟨0, 0, .restricted, [user], DocumentAccessMode.noConfusion⟩

/-- Process `i` replaces nobody by one user, up to its commit. -/
def plan (i user : Nat) : List Act :=
  [.advance i (.sql true), .advance i (.listed []), .advance i (.sql true),
    .advance i (.listed [user]), .advance i (.checked (.ok true)), .advance i (.sql true),
    .advance i (.sql true)]

/-- The grant loop of one user. -/
def apply (i : Nat) : List Act :=
  [.advance i (.sql true), .advance i (.called .done), .advance i (.sql true)]

def shareWithNobody : PermissionsRequest :=
  ⟨0, 0, .restricted, [], DocumentAccessMode.noConfusion⟩

/-- The second replacement takes the lock after the first has granted its user, and revokes it. -/
def inTurn : List Act :=
  [.replace (shareWith 1), .replace shareWithNobody] ++ plan 0 1 ++ apply 0 ++
    [.advance 1 (.sql true), .advance 1 (.listed [1]), .advance 1 (.sql true),
      .advance 1 (.sql true), .advance 1 (.called .done), .advance 1 (.sql true),
      .advance 1 (.sql true)]

def servedInTurn : State := (run (step 5) fresh inTurn).getD fresh

theorem inTurn_meets : Meets (step 5) (replacesInTurn 0) fresh inTurn := by
  have waits : ∀ s : State, ∀ i, (∀ r, s.procs[i]? ≠ some (.replaceLock r)) →
      replacesInTurn 0 s (.advance i (.sql true)) := fun s i h r hr => absurd hr (h r)
  repeat' first
    | exact trivial
    | refine Meets.cons ?_ rfl ?_
    | (refine waits _ _ fun r hr => ?_; cases hr; done)
    | rfl
  all_goals
    intro r hr j q hq
    rcases j with _ | _ | j <;> cases hq <;> trivial

theorem replacements_serialize_inTurn :
    ∃ r, .replaced r .ok ∈ servedInTurn.procs ∧ Target servedInTurn r := by
  have hr : run (step 5) fresh inTurn = some servedInTurn := rfl
  have hrows : Rows fresh 0 := fun u hview => absurd hview (Finset.notMem_empty _)
  have hprocs : servedInTurn.procs = [.replaced (shareWith 1) .ok, .replaced shareWithNobody .ok] :=
    rfl
  refine replacements_serialize 5 0
    (Reach.of_run (.start ⟨⟨rfl, fun _ => rfl⟩, hrows⟩) inTurn_meets hr) ?_ ?_
  · rw [hprocs]
    exact List.cons_ne_nil _ _
  · rw [hprocs]
    intro p hp
    rcases List.mem_cons.mp hp with rfl | hp
    · exact ⟨_, rfl⟩
    · exact ⟨_, List.mem_singleton.mp hp⟩

/-- Two replacements that plan before either has granted anything. -/
def overlap : List Act :=
  [.replace (shareWith 1), .replace (shareWith 2)] ++ plan 0 1 ++ plan 1 2 ++ apply 0 ++ apply 1

def overlapped : State := (run (step 5) fresh overlap).getD fresh

theorem overlapping_replacements_mix :
    Idle fresh ∧ Rows fresh 0 ∧ Reach (· = fresh) (step 5) anyStep overlapped ∧
      overlapped.procs = [.replaced (shareWith 1) .ok, .replaced (shareWith 2) .ok] ∧
      ¬ Target overlapped (shareWith 1) ∧ ¬ Target overlapped (shareWith 2) := by
  have hr : run (step 5) fresh overlap = some overlapped := rfl
  have hviews : overlapped.Views 0 1 ∧ overlapped.Views 0 2 := by decide
  refine ⟨⟨rfl, fun _ => rfl⟩, fun u hview => absurd hview (Finset.notMem_empty _),
    Reach.of_free_run rfl hr, rfl, fun h => ?_, fun h => ?_⟩
  · exact absurd ((h.views 2).mp hviews.2) (by decide)
  · exact absurd ((h.views 1).mp hviews.1) (by decide)

end GmragApi.DocumentAcl

import GmragApi.TupleLifetimes

/-! The cleanup of orphan tuples spares the tuples of objects that exist, while none of its pages
shows an object that came after its inventory. -/

namespace GmragApi.ResourceTuples

open Transition
open DocumentAcl (explicitViewerTuple)
open Members (Role memberTuple)

/-- No cleanup that has finished has deleted a tuple whose object exists. -/
def SparesLive (s : State) : Prop :=
  ∀ removed, .cleaned removed ∈ s.procs → ∀ k ∈ removed, s.has k.object = false

/-- A page shows no tuple of an object that exists and is not in the inventory of the cleanup. -/
def listsNoNewcomer (s : State) : Act → Bool
  | .advance i (.page listed _) => (s.procs[i]?).all fun p =>
    match p with
    | .listingTuples _ inventory _ =>
      (buildReport inventory listed).all fun k => !s.has k.object
    | _ => true
  | _ => true

def State.Live (s : State) (k : TupleKey) : Prop := s.has k.object = true

/-- A cleanup takes the tuple for an orphan. -/
def State.Condemned (s : State) (k : TupleKey) : Prop := ∃ p ∈ s.procs, k ∈ p.condemned

section Step

variable {s t : State} {i : Nat} {p q : Proc} {answer : Answer} {k : TupleKey}

theorem mem_buildReport {inventory : ResourceInventory} {tuples : List TupleKey} :
    k ∈ buildReport inventory tuples ↔
      k ∈ tuples ∧ isResource k.object = true ∧ resourceExists inventory k.object = false := by
  simp [buildReport, List.mem_filter]

theorem buildReport_append {inventory : ResourceInventory} {tuples listed : List TupleKey} :
    buildReport inventory (tuples ++ listed) =
      buildReport inventory tuples ++ buildReport inventory listed :=
  List.filter_append tuples listed

theorem Proc.condemned_held (h : k ∈ p.condemned) : k ∈ p.held := by
  cases p with
  | listingTuples => exact (mem_buildReport.mp h).1
  | reporting => exact (mem_buildReport.mp h).1
  | removing => exact h
  | cleaned => exact h
  | _ => cases h

/-- Nothing names an object before it is made. -/
theorem not_condemned_of_unused (h : s.unused k.object = true) : ¬ s.Condemned k := by
  rintro ⟨p, hp, hk⟩
  simp only [State.unused, Bool.and_eq_true, List.all_eq_true, bne_iff_ne] at h
  exact h.2 p hp k (Proc.condemned_held hk) rfl

theorem Condemned.goto (h : (s.goto i q).Condemned k) : s.Condemned k ∨ k ∈ q.condemned := by
  obtain ⟨r, hr, hk⟩ := h
  rcases List.mem_or_eq_of_mem_set hr with hr | rfl
  · exact .inl ⟨r, hr, hk⟩
  · exact .inr hk

theorem Condemned.leave {target : Target} (h : (s.leave i target .done).Condemned k) :
    s.Condemned k := by
  cases target <;> exact (Condemned.goto (s := s) h).resolve_right List.not_mem_nil

theorem resourceExists_mono {a b : ResourceInventory} (tenants : a.tenantIds ⊆ b.tenantIds)
    (workspaces : a.workspaceIds ⊆ b.workspaceIds) (documents : a.documentIds ⊆ b.documentIds)
    {o : FgaObject} (h : resourceExists a o = true) : resourceExists b o = true := by
  cases o with
  | platform => cases h
  | tenant id => exact decide_eq_true (tenants (of_decide_eq_true h))
  | workspace id => exact decide_eq_true (workspaces (of_decide_eq_true h))
  | document id => exact decide_eq_true (documents (of_decide_eq_true h))

theorem drop_has {target : Target} {o : FgaObject} (h : (s.drop target).has o = true) :
    s.has o = true :=
  resourceExists_mono (a := (s.drop target).inventory) (b := s.inventory) (Finset.Subset.refl _)
    (Finset.filter_subset _ _) (Finset.filter_subset _ _) h

theorem leave_has {target : Target} {o : FgaObject} :
    (s.leave i target q).has o = s.has o := by
  cases target <;> rfl

/-- An object that comes to exist was not named before. -/
theorem Moves.born (h : Moves s i p answer t) {o : FgaObject} (ho : t.has o = true) :
    s.has o = true ∨ s.unused o = true := by
  cases h with
  | lock target => cases target <;> exact .inl ho
  | leave target =>
    rw [leave_has] at ho
    exact .inl ho
  | drop =>
    rw [leave_has] at ho
    exact .inl (drop_has ho)
  | rollBack => exact .inl (drop_has ho)
  | @insertDocument w d mode hunused =>
    cases o with
    | document e =>
      rcases Finset.mem_insert.mp (of_decide_eq_true ho) with rfl | he
      · exact .inr hunused
      · exact .inl (decide_eq_true he)
    | _ => exact .inl ho
  | @insertTenant tenant hunused =>
    cases o with
    | tenant e =>
      rcases Finset.mem_insert.mp (of_decide_eq_true ho) with rfl | he
      · exact .inr hunused
      · exact .inl (decide_eq_true he)
    | _ => exact .inl ho
  | @insertWorkspace tenant w user grants hunused =>
    cases o with
    | workspace e =>
      rcases Finset.mem_insert.mp (of_decide_eq_true ho) with rfl | he
      · exact .inr hunused
      · exact .inl (decide_eq_true he)
    | _ => exact .inl ho
  | _ => exact .inl ho

/-- A tuple is condemned by the page that shows it. -/
theorem Moves.doomed (h : Moves s i p answer t) (hp : s.procs[i]? = some p)
    (hk : t.Condemned k) : s.Condemned k ∨ (t.inventory = s.inventory ∧
      ∃ delete inventory tuples listed last, p = .listingTuples delete inventory tuples ∧
        answer = .page listed last ∧ k ∈ buildReport inventory listed) := by
  have hin : p ∈ s.procs := List.mem_of_getElem? hp
  have held : ∀ {u : State} {q : Proc}, u.procs = s.procs → (u.goto i q).Condemned k →
      (∀ l ∈ q.condemned, l ∈ p.condemned) → s.Condemned k := by
    rintro u q hu hc hsub
    rcases Condemned.goto hc with ⟨r, hr, hl⟩ | hl
    · exact ⟨r, hu ▸ hr, hl⟩
    · exact ⟨p, hin, hsub k hl⟩
  cases h with
  | quiet outbox tenantOwners hq => exact .inl (held rfl hk hq.condemned)
  | lock target hq =>
    refine .inl (held ?_ hk hq.condemned)
    cases target <;> rfl
  | leave target => exact .inl (Condemned.leave hk)
  | drop =>
    obtain ⟨r, hr, hl⟩ := Condemned.leave hk
    exact .inl ⟨r, hr, hl⟩
  | write hw happlied hq => exact .inl (held rfl hk hq.condemned)
  | page hcondemned hpending =>
    rcases Condemned.goto hk with hk | hl
    · exact .inl hk
    · rw [hcondemned, buildReport_append] at hl
      rcases List.mem_append.mp hl with hl | hl
      · exact .inl ⟨_, hin, hl⟩
      · exact .inr ⟨rfl, _, _, _, _, _, rfl, rfl, hl⟩
  | @remove l rest removed =>
    refine .inl (held rfl hk (fun m hm => ?_))
    have hmem : m ∈ rest ++ l :: removed := hm
    show m ∈ l :: rest ++ removed
    simp only [List.mem_append, List.mem_cons, List.cons_append] at hmem ⊢
    grind
  | _ => exact .inl (held rfl hk fun _ hl => absurd hl List.not_mem_nil)

end Step

theorem step_born {maxRetries : Int} {s t : State} {a : Act} (h : step maxRetries s a = some t)
    {k : TupleKey} (hk : t.Live k) : s.Live k ∨ s.unused k.object = true := by
  rcases step_cases h with ⟨b, acl, -, -, rfl⟩ | ⟨b, team, -, -, rfl⟩ | ⟨p, rfl, -⟩ |
    ⟨i, p, answer, -, hm, -⟩
  · exact .inl hk
  · exact .inl hk
  · exact .inl hk
  · exact hm.born hk

theorem step_doomed {maxRetries : Int} {s t : State} {a : Act}
    (hok : listsNoNewcomer s a = true) (h : step maxRetries s a = some t) {k : TupleKey}
    (hk : t.Condemned k) : s.Condemned k ∨ ¬ t.Live k := by
  rcases step_cases h with ⟨b, acl, -, -, rfl⟩ | ⟨b, team, -, -, rfl⟩ | ⟨p, rfl, hp, -⟩ |
    ⟨i, p, answer, hp, hm, ha⟩
  · exact .inl hk
  · exact .inl hk
  · obtain ⟨q, hq, hl⟩ := hk
    rcases List.mem_append.mp hq with hq | hq
    · exact .inl ⟨q, hq, hl⟩
    · rw [List.mem_singleton.mp hq, hp] at hl
      cases hl
  · rcases hm.doomed hp hk with hs | ⟨hsame, delete, inventory, tuples, listed, last, rfl, rfl, hl⟩
    · exact .inl hs
    · rcases ha with rfl | ⟨-, hanswer⟩
      · simp only [listsNoNewcomer, hp, Option.all_some, List.all_eq_true] at hok
        have hgone := hok k hl
        refine .inr (fun hlive => ?_)
        rw [State.Live, State.has, hsame] at hlive
        simp [State.has, hlive] at hgone
      · cases hanswer

theorem cleanup_spares_live_grants (maxRetries : Int) {s : State}
    (h : Reach Initial (step maxRetries) (fun s a => listsNoNewcomer s a = true) s) :
    SparesLive s := by
  intro removed hr k hk
  have hcondemned : s.Condemned k := ⟨_, hr, hk⟩
  refine Bool.eq_false_iff.mpr (fun hlive => ?_)
  refine h.never_condemned State.Live State.Condemned (fun s hs k _ hc => ?_)
    (fun s t a _ hok ha k hk => ?_) (fun s t a _ hok ha k hk => step_doomed hok ha hk)
    (k := k) hlive hcondemned
  · obtain ⟨p, hp, -⟩ := hc
    rw [hs.procs] at hp
    cases hp
  · refine (step_born ha hk).imp id (fun hunused hc => ?_)
    exact (step_doomed hok ha hc).elim (not_condemned_of_unused hunused) (· hk)

/-- An orphan: its workspace has been gone since before the run. -/
def orphanTuple : TupleKey := memberTuple 9 1 .admin

def oneOrphan : State := { oneWorkspace with tuples := insert orphanTuple oneWorkspace.tuples }

theorem oneOrphan_initial : Initial oneOrphan :=
  ⟨rfl, rfl, rfl, fun _ => rfl, fun _ => rfl, rfl⟩

/-- The cleanup reads its inventory. -/
def loadsInventory : List Act :=
  [.cleanup true true, .advance 0 (.sql true), .advance 0 (.sql true), .advance 0 (.sql true)]

/-- It sees the tuples, takes all of them for orphans and deletes them. -/
def deletesTwo (k l : TupleKey) : List Act :=
  [.advance 0 (.page [k, l] true), .advance 0 (.rows [k, l]), .advance 0 (.called .done),
    .advance 0 (.called .done), .advance 0 (.sql true)]

/-- A workspace is created after the inventory and before the page. -/
def scanOverWorkspace : List Act :=
  loadsInventory ++
    [.createWorkspace 0 1 7, .advance 1 (.sql true), .advance 1 (.called .done),
      .advance 1 (.called .done)] ++
    deletesTwo (workspaceTenantTuple 0 1) (memberTuple 1 7 .admin)

/-- A document is uploaded and shared. -/
def scanOverUpload : List Act :=
  loadsInventory ++
    [.upload 0 1 .restricted, .advance 1 (.sql true), .advance 1 (.called .done),
      .acl (.grant 1 7), .acl (.advance 0 (.sql true)), .acl (.advance 0 (.called .done))] ++
    deletesTwo (documentWorkspaceTuple 0 1) (explicitViewerTuple 1 7)

/-- At the end the cleanup has deleted the tuple, and its object exists. -/
def RevokesLive (as : List Act) (k : TupleKey) : Prop :=
  ∃ t, run (step 5) oneOrphan as = some t ∧ Reach Initial (step 5) anyStep t ∧
    k ∉ t.tuples ∧ ¬ SparesLive t

theorem revokesLive_of_run {as : List Act} {k l : TupleKey}
    (hrun : (run (step 5) oneOrphan as).any (fun t =>
      decide (t.procs[0]? = some (.cleaned [l, k])) && decide (k ∉ t.tuples) && t.has k.object) =
        true) : RevokesLive as k := by
  obtain ⟨t, ht, h⟩ := (Option.any_eq_true _ _).mp hrun
  simp only [Bool.and_eq_true, decide_eq_true_eq] at h
  obtain ⟨⟨hp, hgone⟩, hhas⟩ := h
  refine ⟨t, ht, .of_free_run oneOrphan_initial ht, hgone, fun hs => ?_⟩
  have hlive := hs [l, k] (List.mem_of_getElem? hp) k (List.mem_cons_of_mem l List.mem_cons_self)
  rw [hhas] at hlive
  cases hlive

theorem cleanup_revokes_new_grants :
    RevokesLive scanOverWorkspace (workspaceTenantTuple 0 1) ∧
      RevokesLive scanOverUpload (documentWorkspaceTuple 0 1) :=
  ⟨revokesLive_of_run (l := memberTuple 1 7 .admin) (by decide +kernel),
    revokesLive_of_run (l := explicitViewerTuple 1 7) (by decide +kernel)⟩

/-- The upload comes before the query of the documents, the page shows its tuple and the orphan. -/
def uploadThenScan : List Act :=
  [.cleanup true true, .advance 0 (.sql true), .advance 0 (.sql true), .upload 0 1 .restricted,
    .advance 1 (.sql true), .advance 1 (.called .done), .advance 0 (.sql true),
    .advance 0 (.page [documentWorkspaceTuple 0 1, orphanTuple] true),
    .advance 0 (.rows [orphanTuple]), .advance 0 (.called .done), .advance 0 (.sql true)]

theorem cleanup_spares_live_grants_upload :
    ∃ t, run (step 5) oneOrphan uploadThenScan = some t ∧ .cleaned [orphanTuple] ∈ t.procs ∧
      documentWorkspaceTuple 0 1 ∈ t.tuples ∧ SparesLive t := by
  have hrun : (run (step 5) oneOrphan uploadThenScan).any (fun t =>
      decide (.cleaned [orphanTuple] ∈ t.procs) &&
        decide (documentWorkspaceTuple 0 1 ∈ t.tuples)) = true := by decide +kernel
  obtain ⟨t, ht, h⟩ := (Option.any_eq_true _ _).mp hrun
  simp only [Bool.and_eq_true, decide_eq_true_eq] at h
  have hm : Meets (step 5) (fun s a => listsNoNewcomer s a = true) oneOrphan uploadThenScan := by
    decide +kernel
  exact ⟨t, ht, h.1, h.2, cleanup_spares_live_grants 5 (.of_run (.start oneOrphan_initial) hm ht)⟩

end GmragApi.ResourceTuples

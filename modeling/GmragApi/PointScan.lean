import GmragApi.PointLifetimes

/-! Orphan scans of the vector index against uploads and ingestion: a scan takes the points that it
scrolls through for orphans by what it loaded before. -/

namespace GmragApi.VectorIndex

open Transition
open Ingestion (SameHomes WorkerConfig)

/-- The targets that a worker or a scan with deletion enabled is going to delete. -/
def Proc.targets : Proc → List DeleteTarget
  | attempting _ target => [target]
  | loadingWorkspaces true targets => targets
  | loadingDocuments true targets _ => targets
  | scrolling true targets _ _ => targets
  | applying targets => targets
  | deletingTarget target targets => target :: targets
  | requeueing target targets => target :: targets
  | _ => []

def targets (s : State) : List DeleteTarget := s.outbox.map Row.event ++ s.procs.flatMap Proc.targets

/-- The points of the document have been deleted, or are going to be. -/
def condemned (s : State) (k : Nat × Nat) : Bool :=
  s.swept.contains k || (targets s).any (·.covers k)

/-- A page with deletion enabled shows no point of a document that was uploaded after the scan had
loaded its documents, and nothing is uploaded to a workspace that a scan takes for an orphan. -/
def scrollsNoUpload (s : State) : Act → Bool
  | .upload workspaceId _ => !condemned s (workspaceId, s.index.queue.nextDocument)
  | .advance i (.page points _) =>
    match s.procs[i]? with
    | some (.scrolling true _ liveWorkspaces liveDocuments) =>
      (s.orphanTargets liveWorkspaces liveDocuments points).all fun target =>
        s.liveDocuments.all fun k => !target.covers k
    | _ => true
  | _ => true

def Live (s : State) (k : Nat × Nat) : Prop := s.index.queue.workspaceOf k.2 = some k.1

/-- The ids of documents have been generated. -/
def Generated (s : State) : Prop := ∀ k, Live s k → k.2 < s.index.queue.nextDocument

section Condemned

variable {config : WorkerConfig} {s t u : State} {i : Nat} {p p' : Proc} {k : Nat × Nat}

theorem condemned_iff : condemned s k = true ↔
    k ∈ s.swept ∨ ∃ target ∈ targets s, target.covers k = true := by
  simp [condemned]

theorem condemned_target {target : DeleteTarget} (hp : s.procs[i]? = some p)
    (h : target ∈ p.targets) (hcov : target.covers k = true) : condemned s k = true := by
  refine condemned_iff.mpr (.inr ⟨target, ?_, hcov⟩)
  exact List.mem_append.mpr (.inr (List.mem_flatMap.mpr ⟨p, List.mem_of_getElem? hp, h⟩))

/-- What the step of one process condemns: what it has swept, the event that it has enqueued, and
its own targets. -/
theorem condemned_goto (hprocs : u.procs = s.procs) (h : condemned (u.goto i p') k = true) :
    k ∈ u.swept ∨ (∃ r ∈ u.outbox, r.event.covers k = true) ∨
      (∃ target ∈ p'.targets, target.covers k = true) ∨ condemned s k = true := by
  rcases condemned_iff.mp h with h | ⟨target, htarget, hcov⟩
  · exact .inl h
  · rcases List.mem_append.mp htarget with h | h
    · obtain ⟨r, hr, rfl⟩ := List.mem_map.mp h
      exact .inr (.inl ⟨r, hr, hcov⟩)
    · obtain ⟨c, hc, hmem⟩ := List.mem_flatMap.mp h
      rcases mem_goto hprocs hc with hc | rfl
      · refine .inr (.inr (.inr (condemned_iff.mpr (.inr ⟨target, ?_, hcov⟩))))
        exact List.mem_append.mpr (.inr (List.mem_flatMap.mpr ⟨c, hc, hmem⟩))
      · exact .inr (.inr (.inl ⟨target, hmem, hcov⟩))

theorem condemned_event {r : Row} (hr : r ∈ s.outbox) (hcov : r.event.covers k = true) :
    condemned s k = true := by
  refine condemned_iff.mpr (.inr ⟨r.event, ?_, hcov⟩)
  exact List.mem_append.mpr (.inl (List.mem_map.mpr ⟨r, hr, rfl⟩))

/-- A step that sweeps and enqueues nothing that was not condemned before. -/
theorem condemned_step (hp : s.procs[i]? = some p) (hprocs : u.procs = s.procs)
    (hswept : ∀ k ∈ u.swept, k ∈ s.swept ∨ ∃ target ∈ p.targets, target.covers k = true)
    (houtbox : ∀ r ∈ u.outbox, (∃ r' ∈ s.outbox, r'.event = r.event) ∨ r.event ∈ p.targets)
    (htargets : ∀ target ∈ p'.targets, target ∈ p.targets ∨ ∃ r ∈ s.outbox, r.event = target)
    (h : condemned (u.goto i p') k = true) : condemned s k = true := by
  have mine : ∀ target ∈ p.targets, target.covers k = true → condemned s k = true :=
    fun target ht hcov => condemned_target hp ht hcov
  rcases condemned_goto hprocs h with h | ⟨r, hr, hcov⟩ | ⟨target, htarget, hcov⟩ | h
  · rcases hswept k h with h | ⟨target, ht, hcov⟩
    · exact condemned_iff.mpr (.inl h)
    · exact mine target ht hcov
  · rcases houtbox r hr with ⟨r', hr', he⟩ | ht
    · exact condemned_event hr' (he ▸ hcov)
    · exact mine r.event ht hcov
  · rcases htargets target htarget with ht | ⟨r, hr, rfl⟩
    · exact mine target ht hcov
    · exact condemned_event hr hcov
  · exact h

theorem condemned_move (hp : s.procs[i]? = some p)
    (htargets : ∀ target ∈ p'.targets, target ∈ p.targets ∨ ∃ r ∈ s.outbox, r.event = target)
    (h : condemned (s.goto i p') k = true) : condemned s k = true :=
  condemned_step hp rfl (fun _ h => .inl h) (fun r hr => .inl ⟨r, hr, rfl⟩) htargets h

theorem condemned_sweep {target : DeleteTarget} (hp : s.procs[i]? = some p)
    (ht : target ∈ p.targets) (htargets : ∀ target ∈ p'.targets, target ∈ p.targets)
    (h : condemned ((sweepPoints s target).goto i p') k = true) : condemned s k = true := by
  refine condemned_step (u := sweepPoints s target) hp rfl (fun k hk => ?_)
    (fun r hr => .inl ⟨r, hr, rfl⟩) (fun target h => .inl (htargets target h)) h
  rcases List.mem_append.mp hk with hk | hk
  · exact .inr ⟨target, ht, (List.mem_filter.mp hk).2⟩
  · exact .inl hk

theorem condemned_enqueue {target : DeleteTarget} (hp : s.procs[i]? = some p)
    (ht : target ∈ p.targets) (htargets : ∀ target ∈ p'.targets, target ∈ p.targets)
    (h : condemned ((s.enqueue target).goto i p') k = true) : condemned s k = true := by
  refine condemned_step (u := s.enqueue target) hp rfl (fun k hk => .inl hk) (fun r hr => ?_)
    (fun target h => .inl (htargets target h)) h
  rcases List.mem_append.mp hr with hr | hr
  · exact .inl ⟨r, hr, rfl⟩
  · rw [List.mem_singleton.mp hr]
    exact .inr ht

theorem condemned_start (h : condemned (s.start p) k = true) :
    condemned s k = true ∨ ∃ target ∈ p.targets, target.covers k = true := by
  rcases condemned_iff.mp h with h | ⟨target, htarget, hcov⟩
  · exact .inl (condemned_iff.mpr (.inl h))
  · simp only [targets, State.start, List.flatMap_append, List.flatMap_singleton,
      List.mem_append] at htarget
    rcases htarget with h | h | h
    · exact .inl (condemned_iff.mpr (.inr ⟨target, List.mem_append.mpr (.inl h), hcov⟩))
    · exact .inl (condemned_iff.mpr (.inr ⟨target, List.mem_append.mpr (.inr h), hcov⟩))
    · exact .inr ⟨target, h, hcov⟩

theorem mark_event {row : Nat} {status : DeleteOutbox.RowStatus} {r : Row}
    (h : r ∈ (s.mark row status).outbox) : ∃ r' ∈ s.outbox, r'.event = r.event := by
  obtain ⟨j, hj⟩ := List.mem_iff_getElem?.mp h
  rw [State.mark, List.getElem?_modify] at hj
  obtain ⟨r', hr', hr⟩ := Option.map_eq_some_iff.mp hj
  refine ⟨r', List.mem_of_getElem? hr', ?_⟩
  split at hr <;> rw [← hr]

theorem condemned_mark {row : Nat} {status : DeleteOutbox.RowStatus} (hp : s.procs[i]? = some p)
    (h : condemned ((s.mark row status).goto i .done) k = true) : condemned s k = true :=
  condemned_step (u := s.mark row status) hp rfl (fun _ h => .inl h) (fun _ hr => .inl (mark_event hr))
    (fun _ h => by cases h) h

theorem Generated.mem (hg : Generated s) (h : Live s k) : k ∈ s.liveDocuments := by
  refine List.mem_filterMap.mpr ⟨k.2, List.mem_range.mpr (hg k h), ?_⟩
  rw [show s.index.queue.workspaceOf k.2 = some k.1 from h]
  rfl

theorem collected_event {target : DeleteTarget} (h : target ∈ collectTargetsFromOutbox s) :
    ∃ r ∈ s.outbox, r.event = target := by
  obtain ⟨r, hr, rfl⟩ := List.mem_map.mp h
  exact ⟨r, (List.mem_filter.mp (List.mem_of_mem_take hr)).1, rfl⟩

theorem scroll_condemned {delete last : Bool} {liveWorkspaces points : List Nat}
    {ts : List DeleteTarget} {liveDocuments : List (Nat × Nat)} (hg : Generated s)
    (hp : s.procs[i]? = some (.scrolling delete ts liveWorkspaces liveDocuments))
    (hok : scrollsNoUpload s (.advance i (.page points last)))
    (h : advance config s i (.scrolling delete ts liveWorkspaces liveDocuments) (.page points last) =
      some t) (hc : condemned t k = true) : condemned s k = true ∨ ¬ Live t k := by
  cases Option.some.inj (Option.ite_none_right_eq_some.mp h).2
  cases delete with
  | false =>
    refine .inl (condemned_move hp (fun target htarget => ?_) hc)
    split at htarget <;> cases htarget
  | true =>
    have found : ∀ target ∈ s.orphanTargets liveWorkspaces liveDocuments points,
        target.covers k = true → ¬ Live s k := by
      intro target ht hcov hlive
      simp only [scrollsNoUpload, hp, List.all_eq_true, Bool.not_eq_true'] at hok
      rw [hok target ht k (hg.mem hlive)] at hcov
      cases hcov
    rcases condemned_goto rfl hc with h | ⟨r, hr, hcov⟩ | ⟨target, htarget, hcov⟩ | h
    · exact .inl (condemned_iff.mpr (.inl h))
    · exact .inl (condemned_event hr hcov)
    · have hmem : target ∈ ts ++ s.orphanTargets liveWorkspaces liveDocuments points := by
        split at htarget <;> exact htarget
      rcases List.mem_append.mp hmem with ht | ht
      · exact .inl (condemned_target hp ht hcov)
      · exact .inr (found target ht hcov)
    · exact .inl h

theorem remove_condemned {workspaceId documentId : Nat}
    (h : removeDocument config s workspaceId documentId = some u) :
    u.procs = s.procs ∧ u.outbox = s.outbox ∧ u.swept = s.swept ∧
      (s.index.queue.workspaceOf documentId = some workspaceId →
        ¬ Live u (workspaceId, documentId)) := by
  rcases removeDocument_cases h with ⟨hn, rfl⟩ | ⟨-, index, rfl, -, hhomes, -⟩
  · exact ⟨rfl, rfl, rfl, fun hhome => absurd hhome hn⟩
  · refine ⟨rfl, rfl, rfl, fun _ hlive => ?_⟩
    rw [Live, hhomes, if_pos rfl] at hlive
    cases hlive

theorem rollBack_condemned {workspaceId documentId : Nat}
    (hp : s.procs[i]? = some (.removingRow workspaceId documentId))
    (h : (removeDocument config s workspaceId documentId).map (·.goto i .done) = some t)
    (hc : condemned t k = true) : condemned s k = true := by
  obtain ⟨u, hu, rfl⟩ := Option.map_eq_some_iff.mp h
  obtain ⟨hprocs, houtbox, hswept, -⟩ := remove_condemned hu
  exact condemned_step hp hprocs (fun k hk => .inl (hswept ▸ hk))
    (fun r hr => .inl ⟨r, houtbox ▸ hr, rfl⟩) (fun _ h => by cases h) hc

theorem delete_condemned {workspaceId documentId : Nat} {acknowledged : Bool}
    (h : deleteDocument config s i workspaceId documentId acknowledged = some t)
    (hp : s.procs[i]? = some (.deletingDocument workspaceId documentId))
    (hc : condemned t k = true) : condemned s k = true ∨ ¬ Live t k := by
  unfold VectorIndex.deleteDocument at h
  split at h
  · rename_i hhome
    obtain ⟨u, hu, rfl⟩ := Option.map_eq_some_iff.mp h
    obtain ⟨hprocs, houtbox, hswept, hgone⟩ := remove_condemned hu
    rcases condemned_goto (u := u.enqueue _) hprocs hc with h | ⟨r, hr, hcov⟩ | ⟨target, ht, -⟩ | h
    · exact .inl (condemned_iff.mpr (.inl (hswept ▸ h)))
    · rcases List.mem_append.mp hr with hr | hr
      · exact .inl (condemned_event (houtbox ▸ hr) hcov)
      · rw [List.mem_singleton.mp hr] at hcov
        have hk : k = (workspaceId, documentId) := by
          simpa [DeleteTarget.covers, Prod.ext_iff] using hcov
        exact .inr (hk ▸ hgone hhome)
    · split at ht <;> cases ht
    · exact .inl h
  · cases Option.some.inj h
    exact .inl (condemned_move hp (fun _ h => by cases h) hc)

theorem advance_condemned {reply : Reply} (hg : Generated s) (hp : s.procs[i]? = some p)
    (hok : scrollsNoUpload s (.advance i reply)) (h : advance config s i p reply = some t)
    (hc : condemned t k = true) : condemned s k = true ∨ ¬ Live t k := by
  -- the step changes nothing but that the process drops targets
  have drop : ∀ p', t = s.goto i p' → (∀ target ∈ p'.targets, target ∈ p.targets) →
      condemned s k = true := by
    rintro p' rfl htargets
    exact condemned_move hp (fun target ht => .inl (htargets target ht)) hc
  have forget : ∀ p', t = s.goto i p' → p'.targets = [] → condemned s k = true := by
    intro p' ht hnone
    refine drop p' ht (fun target htarget => ?_)
    rw [hnone] at htarget
    cases htarget
  cases p with
  | syncing workspaceId documentId =>
    cases reply <;> cases h <;> exact .inl (forget _ rfl rfl)
  | removingRow workspaceId documentId =>
    cases reply with
    | ok => exact .inl (rollBack_condemned hp h hc)
    | failed => cases h; exact .inl (forget _ rfl rfl)
    | lost => exact .inl (rollBack_condemned hp h hc)
    | _ => cases h
  | deletingDocument workspaceId documentId =>
    cases reply with
    | ok => exact delete_condemned h hp hc
    | failed => cases h; exact .inl (forget _ rfl rfl)
    | lost => exact delete_condemned h hp hc
    | _ => cases h
  | deletingPoints workspaceId documentId =>
    have deleted : t = (deletePoints s (.document workspaceId documentId)).goto i .done →
        condemned s k = true := by
      rintro rfl
      exact condemned_step (u := deletePoints s _) hp rfl (fun _ h => .inl h)
        (fun r hr => .inl ⟨r, hr, rfl⟩) (fun _ h => by cases h) hc
    cases reply <;> cases h
    · exact .inl (deleted rfl)
    · exact .inl (forget _ rfl rfl)
    · exact .inl (deleted rfl)
  | backfilling workspaceId =>
    cases reply with
    | rows rows =>
      cases Option.some.inj (Option.ite_none_right_eq_some.mp h).2
      exact .inl (forget _ rfl rfl)
    | failed => cases h; exact .inl (forget _ rfl rfl)
    | _ => cases h
  | upserting workspaceId rows =>
    have written : ∀ batch p', t = (upsertBackfill s workspaceId batch).goto i p' →
        p'.targets = [] → condemned s k = true := by
      rintro batch p' rfl hp'
      refine condemned_step (u := upsertBackfill s workspaceId batch) hp rfl (fun _ h => .inl h)
        (fun r hr => .inl ⟨r, hr, rfl⟩) (fun target h => ?_) hc
      rw [hp'] at h
      cases h
    cases rows with
    | nil =>
      cases reply <;> cases h
      · exact .inl (forget _ rfl rfl)
      · exact .inl (forget _ rfl rfl)
      · exact .inl (written _ _ rfl rfl)
    | cons row rows =>
      cases reply <;> cases h
      · exact .inl (written _ _ rfl rfl)
      · exact .inl (forget _ rfl rfl)
      · exact .inl (written _ _ rfl rfl)
  | attempting row target =>
    cases reply <;> cases h
    · exact .inl (condemned_sweep hp (List.mem_singleton.mpr rfl) (fun _ h => by cases h) hc)
    · exact .inl (forget _ rfl rfl)
    · exact .inl (condemned_sweep hp (List.mem_singleton.mpr rfl) (fun _ h => by cases h) hc)
  | settling row =>
    cases reply <;> cases h
    · exact .inl (condemned_mark hp hc)
    · exact .inl (forget _ rfl rfl)
    · exact .inl (condemned_mark hp hc)
  | failing row =>
    cases reply <;> cases h
    · exact .inl (condemned_mark hp hc)
    · exact .inl (forget _ rfl rfl)
    · exact .inl (condemned_mark hp hc)
  | collecting delete =>
    cases reply <;> cases h
    · refine .inl (condemned_move hp (fun target ht => .inr ?_) hc)
      cases delete with
      | false => cases ht
      | true => exact collected_event ht
    · exact .inl (forget _ rfl rfl)
  | loadingWorkspaces delete ts =>
    cases reply <;> cases h
    · exact .inl (drop _ rfl fun target h => by cases delete <;> exact h)
    · exact .inl (forget _ rfl rfl)
  | loadingDocuments delete ts liveWorkspaces =>
    cases reply <;> cases h
    · exact .inl (drop _ rfl fun target h => by cases delete <;> exact h)
    · exact .inl (forget _ rfl rfl)
  | scrolling delete ts liveWorkspaces liveDocuments =>
    cases reply with
    | page points last => exact scroll_condemned hg hp hok h hc
    | failed => cases h; exact .inl (forget _ rfl rfl)
    | _ => cases h
  | applying ts =>
    cases reply with
    | ok =>
      cases ts <;> cases h
      exact .inl (forget _ rfl rfl)
    | picked target =>
      have h : (if target ∈ ts then
          some (s.goto i (.deletingTarget target (ts.filter (· != target)))) else none) = some t := by
        cases ts <;> exact h
      obtain ⟨hin, h⟩ := Option.ite_none_right_eq_some.mp h
      refine .inl (drop _ (Option.some.inj h).symm fun other ht => ?_)
      rcases List.mem_cons.mp ht with rfl | ht
      · exact hin
      · exact (List.mem_filter.mp ht).1
    | _ => cases ts <;> cases h
  | deletingTarget target ts =>
    have rest : ∀ other ∈ ts, other ∈ target :: ts := fun _ h => List.mem_cons_of_mem _ h
    cases reply <;> cases h
    · refine .inl (condemned_sweep hp List.mem_cons_self ?_ hc)
      exact rest
    · exact .inl (drop _ rfl fun _ h => h)
    · refine .inl (condemned_sweep hp List.mem_cons_self ?_ hc)
      exact fun _ h => h
  | requeueing target ts =>
    have rest : ∀ other ∈ ts, other ∈ target :: ts := fun _ h => List.mem_cons_of_mem _ h
    cases reply <;> cases h
    · refine .inl (condemned_enqueue hp List.mem_cons_self ?_ hc)
      exact rest
    · exact .inl (drop _ rfl rest)
    · refine .inl (condemned_enqueue hp List.mem_cons_self ?_ hc)
      exact rest
  | done => cases reply <;> cases h

/-- No document is new or has come back. -/
def Loses (s t : State) : Prop :=
  t.index.queue.nextDocument = s.index.queue.nextDocument ∧ ∀ k, Live t k → Live s k

theorem Loses.same (h : t.index.queue = s.index.queue) : Loses s t := by
  rw [Loses, h]
  refine ⟨rfl, fun k hl => ?_⟩
  rwa [Live, h] at hl

theorem removeDocument_loses {workspaceId documentId : Nat}
    (h : removeDocument config s workspaceId documentId = some t) : Loses s t := by
  rcases removeDocument_cases h with ⟨-, rfl⟩ | ⟨-, index, rfl, -, hhomes, hnext⟩
  · exact .same rfl
  · refine ⟨hnext, fun k hl => ?_⟩
    rw [Live, hhomes] at hl
    split at hl
    · cases hl
    · exact hl

theorem deleteDocument_loses {workspaceId documentId : Nat} {acknowledged : Bool}
    (h : deleteDocument config s i workspaceId documentId acknowledged = some t) : Loses s t := by
  unfold VectorIndex.deleteDocument at h
  split at h
  · obtain ⟨u, hu, rfl⟩ := Option.map_eq_some_iff.mp h
    have hlose : Loses s u := removeDocument_loses hu
    exact hlose
  · cases Option.some.inj h
    exact .same rfl

theorem rollBack_loses {workspaceId documentId : Nat}
    (h : (removeDocument config s workspaceId documentId).map (·.goto i .done) = some t) :
    Loses s t := by
  obtain ⟨u, hu, rfl⟩ := Option.map_eq_some_iff.mp h
  have hlose : Loses s u := removeDocument_loses hu
  exact hlose

theorem advance_loses {reply : Reply} (h : advance config s i p reply = some t) : Loses s t := by
  cases p with
  | removingRow workspaceId documentId =>
    cases reply with
    | ok => exact rollBack_loses h
    | failed => cases h; exact .same rfl
    | lost => exact rollBack_loses h
    | _ => cases h
  | deletingDocument workspaceId documentId =>
    cases reply with
    | ok => exact deleteDocument_loses h
    | failed => cases h; exact .same rfl
    | lost => exact deleteDocument_loses h
    | _ => cases h
  | backfilling workspaceId =>
    cases reply with
    | rows rows => cases Option.some.inj (Option.ite_none_right_eq_some.mp h).2; exact .same rfl
    | failed => cases h; exact .same rfl
    | _ => cases h
  | upserting workspaceId rows => cases rows <;> cases reply <;> cases h <;> exact .same rfl
  | scrolling delete ts liveWorkspaces liveDocuments =>
    cases reply with
    | page points last => cases Option.some.inj (Option.ite_none_right_eq_some.mp h).2; exact .same rfl
    | failed => cases h; exact .same rfl
    | _ => cases h
  | applying ts =>
    cases reply with
    | ok =>
      cases ts <;> cases h
      exact .same rfl
    | picked target =>
      have h : (if target ∈ ts then
          some (s.goto i (.deletingTarget target (ts.filter (· != target)))) else none) = some t := by
        cases ts <;> exact h
      cases Option.some.inj (Option.ite_none_right_eq_some.mp h).2
      exact .same rfl
    | _ => cases ts <;> cases h
  | _ => cases reply <;> cases h <;> exact .same rfl

/-- Documents come to life with uploads and in no other way. -/
theorem step_live_cases {a : Act} (h : step config s a = some t) :
    Loses s t ∨ ∃ workspaceId stamp, a = .upload workspaceId stamp ∧
      t.index.queue.nextDocument = s.index.queue.nextDocument + 1 ∧
      ∀ k, Live t k → Live s k ∨ k = (workspaceId, s.index.queue.nextDocument) := by
  cases a with
  | upload workspaceId stamp =>
    obtain ⟨-, h⟩ := Option.ite_none_right_eq_some.mp h
    obtain ⟨index, hindex, rfl⟩ := Option.map_eq_some_iff.mp h
    obtain ⟨hhomes, hnext⟩ := Ingestion.upload_homes (Indexing.queue_step hindex).1
    refine .inr ⟨workspaceId, stamp, rfl, hnext, fun k hl => ?_⟩
    have hhome := (hhomes k.2).symm.trans hl
    by_cases hk : k.2 = s.index.queue.nextDocument
    · rw [if_pos hk] at hhome
      exact .inr (Prod.ext (Option.some.inj hhome).symm hk)
    · rw [if_neg hk] at hhome
      exact .inl hhome
  | index a =>
    obtain ⟨ha, h⟩ := Option.ite_none_right_eq_some.mp h
    obtain ⟨index, hindex, rfl⟩ := Option.map_eq_some_iff.mp h
    have hhomes := index_homes ha hindex
    exact .inl ⟨hhomes.nextDocument, fun k hl => (hhomes.workspaceOf k.2).symm.trans hl⟩
  | work row =>
    have h : workOn s row = some t := h
    unfold workOn at h
    split at h
    · cases Option.some.inj (Option.ite_none_left_eq_some.mp h).2
      exact .inl (.same rfl)
    · cases h
  | advance i reply =>
    obtain ⟨p, -, h⟩ := Option.bind_eq_some_iff.mp h
    exact .inl (advance_loses h)
  | _ => cases h; exact .inl (.same rfl)

theorem step_generated {a : Act} (hg : Generated s) (h : step config s a = some t) :
    Generated t := by
  intro k hl
  rcases step_live_cases h with ⟨hnext, hlose⟩ | ⟨w, stamp, -, hnext, hgain⟩
  · rw [hnext]
    exact hg k (hlose k hl)
  · rw [hnext]
    rcases hgain k hl with hl | rfl
    · exact Nat.lt_succ_of_lt (hg k hl)
    · exact Nat.lt_succ_self _

theorem started_condemned (hp : p.targets = []) (h : condemned (s.start p) k = true) :
    condemned s k = true := by
  rcases condemned_start h with h | ⟨target, ht, -⟩
  · exact h
  · rw [hp] at ht
    cases ht

/-- A document comes to life when nothing condemns it. -/
theorem step_live {a : Act} (hok : scrollsNoUpload s a) (h : step config s a = some t)
    (hl : Live t k) : Live s k ∨ ¬ condemned t k = true := by
  rcases step_live_cases h with ⟨-, hlose⟩ | ⟨w, stamp, rfl, -, hgain⟩
  · exact .inl (hlose k hl)
  · refine (hgain k hl).imp_right fun hk hc => ?_
    obtain ⟨-, h⟩ := Option.ite_none_right_eq_some.mp h
    obtain ⟨index, -, rfl⟩ := Option.map_eq_some_iff.mp h
    have hc : condemned { s with index := index } k = true := started_condemned rfl hc
    have hn : condemned s k = false := by
      rw [hk]
      simpa [scrollsNoUpload] using hok
    exact absurd (hn.symm.trans hc) Bool.false_ne_true

theorem step_condemned {a : Act} (hg : Generated s) (hok : scrollsNoUpload s a)
    (h : step config s a = some t) (hc : condemned t k = true) :
    condemned s k = true ∨ ¬ Live t k := by
  cases a with
  | createWorkspace workspaceId => cases h; exact .inl hc
  | upload workspaceId stamp =>
    obtain ⟨-, h⟩ := Option.ite_none_right_eq_some.mp h
    obtain ⟨index, -, rfl⟩ := Option.map_eq_some_iff.mp h
    have hc : condemned { s with index := index } k = true := started_condemned rfl hc
    exact .inl hc
  | index a =>
    obtain ⟨-, h⟩ := Option.ite_none_right_eq_some.mp h
    obtain ⟨index, -, rfl⟩ := Option.map_eq_some_iff.mp h
    exact .inl hc
  | work row =>
    have h : workOn s row = some t := h
    unfold workOn at h
    split at h
    · rename_i r hr
      cases Option.some.inj (Option.ite_none_left_eq_some.mp h).2
      rcases condemned_start hc with h | ⟨target, ht, hcov⟩
      · exact .inl h
      · rw [List.mem_singleton.mp ht] at hcov
        exact .inl (condemned_event (List.mem_of_getElem? hr) hcov)
    · cases h
  | advance i reply =>
    obtain ⟨p, hp, h⟩ := Option.bind_eq_some_iff.mp h
    exact advance_condemned hg hp hok h hc
  | _ => cases h; exact .inl (started_condemned rfl hc)

end Condemned

/-- No scan, and no worker after it, has deleted a point of a document that is there. -/
def SweepsOrphans (s : State) : Prop := ∀ k, Live s k → k ∉ s.swept

theorem point_scan_spares_documents (config : WorkerConfig) (now : Int) {s : State}
    (h : Reach (· = initial now) (step config) (fun s a => scrollsNoUpload s a) s) :
    SweepsOrphans s := by
  intro k hl hswept
  refine h.never_condemned Live (fun s k => condemned s k = true) ?_ ?_ ?_ hl
    (condemned_iff.mpr (.inl hswept))
  · rintro s rfl k hl -
    cases hl
  · exact fun s t a _ hok hst k hl => step_live hok hst hl
  · intro s t a hr hok hst k hc
    have hg : Generated s := hr.invariant (fun _ hs => by subst hs; nofun)
      fun _ _ _ hg _ hst => step_generated hg hst
    exact step_condemned hg hok hst hc

/-- A document is uploaded and indexed between two pages of a scan. -/
def scanBesideUpload : List Act :=
  [.createWorkspace 7, .scan true, .advance 0 .ok, .advance 0 .ok, .advance 0 .ok, .upload 7 0,
    .index (.queue (.claim 0 [0] 0)), .index (.spawn Ingestion.firstClaim 0)] ++
    (Indexing.callsBeforeWrite 0 0 ++ Indexing.callsFromWrite 0 0).map .index ++
    [.advance 0 (.page [0] true), .advance 0 (.picked (.document 7 0)), .advance 0 .ok]

theorem scan_deletes_new_points :
    ∃ t, run (step Ingestion.sampleConfig) (initial 0) scanBesideUpload = some t ∧
      Reach (· = initial 0) (step Ingestion.sampleConfig) anyStep t ∧ ¬ SweepsOrphans t := by
  have hrun : (run (step Ingestion.sampleConfig) (initial 0) scanBesideUpload).any (fun t =>
      t.index.queue.workspaceOf 0 = some 7 && t.swept.contains (7, 0)) = true := by
    decide +kernel
  obtain ⟨t, ht, h⟩ := (Option.any_eq_true _ _).mp hrun
  simp only [Bool.and_eq_true, decide_eq_true_eq, List.contains_iff_mem] at h
  exact ⟨t, ht, .of_free_run rfl ht, fun hn => hn (7, 0) h.1 h.2⟩

/-- The scan begins once the document has been indexed. -/
def scanAfterUpload : List Act :=
  indexingRun ++ (Indexing.callsFromWrite 0 0).map .index ++ [.scan true, .advance 1 .ok,
    .advance 1 .ok, .advance 1 .ok, .advance 1 (.page [0] true), .advance 1 .ok]

theorem point_scan_spares_documents_indexed :
    ∃ t, run (step Ingestion.sampleConfig) (initial 0) scanAfterUpload = some t ∧
      Live t (7, 0) ∧ SweepsOrphans t := by
  have hrun : (run (step Ingestion.sampleConfig) (initial 0) scanAfterUpload).any (fun t =>
      t.index.queue.workspaceOf 0 = some 7) = true := by decide +kernel
  obtain ⟨t, ht, h⟩ := (Option.any_eq_true _ _).mp hrun
  have hm : Meets (step Ingestion.sampleConfig) (fun s a => scrollsNoUpload s a) (initial 0)
      scanAfterUpload := by decide +kernel
  have hl : t.index.queue.workspaceOf 0 = some 7 := of_decide_eq_true h
  exact ⟨t, ht, hl,
    point_scan_spares_documents Ingestion.sampleConfig 0 (.of_run (.start rfl) hm ht)⟩

end GmragApi.VectorIndex

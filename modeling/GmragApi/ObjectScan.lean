import GmragApi.ObjectLifetimes

/-! Orphan scans against uploads: a scan compares the keys that it lists with a snapshot of
`documents` that it has taken earlier. -/

namespace GmragApi.StoredObjects

open Transition

/-- The objects that a scan takes for orphans and is going to delete. -/
def Proc.marked : Proc → List ObjectRef
  | listing l (.orphanScan knownKeys deleteOrphans) =>
    (keysToDelete l.seen (.orphanScan knownKeys deleteOrphans)).map (⟨l.bucket, ·⟩)
  | deletingObjects bucket keys (.orphanScan _ _) => keys.map (⟨bucket, ·⟩)
  | _ => []

def condemned (s : State) : List ObjectRef := s.swept ++ s.procs.flatMap Proc.marked

def live (s : State) : List ObjectRef := s.documents.map Document.ref

/-- What a page adds to the marked objects. -/
def newlyMarked : Proc → Reply → List ObjectRef
  | .listing l (.orphanScan knownKeys deleteOrphans), .page keys _ =>
    (keysToDelete keys (.orphanScan knownKeys deleteOrphans)).map (⟨l.bucket, ·⟩)
  | _, _ => []

/-- No scan lists an object whose row was committed after its snapshot, and no row is committed
once a scan has listed the object without it. -/
def listsNoUpload (s : State) : Act → Bool
  | .advance i reply =>
    match s.procs[i]? with
    | some (.persisting d) => reply = .failed || !(condemned s).contains d.ref
    | some p => (newlyMarked p reply).all fun ref => !(live s).contains ref
    | none => true
  | _ => true

section Step

variable {s t u : State} {i : Nat} {p p' : Proc} {reply : Reply} {ref : ObjectRef}

theorem mem_live : ref ∈ live s ↔ ∃ d ∈ s.documents, d.ref = ref := List.mem_map

theorem mem_condemned :
    ref ∈ condemned s ↔ ref ∈ s.swept ∨ ∃ p ∈ s.procs, ref ∈ p.marked := by
  simp [condemned]

theorem condemned_start (hp : p.marked = []) (h : ref ∈ condemned (s.start p)) :
    ref ∈ condemned s := by
  rw [mem_condemned] at h ⊢
  refine h.imp_right fun ⟨q, hq, href⟩ => ?_
  rcases List.mem_append.mp hq with hq | hq
  · exact ⟨q, hq, href⟩
  · rw [List.mem_singleton.mp hq, hp] at href
    cases href

/-- What one process has swept or marked after its step. -/
theorem condemned_goto (hprocs : u.procs = s.procs) (h : ref ∈ condemned (u.goto i p')) :
    ref ∈ u.swept ∨ ref ∈ p'.marked ∨ ref ∈ condemned s := by
  rcases mem_condemned.mp h with h | ⟨q, hq, href⟩
  · exact .inl h
  · rw [State.goto, hprocs] at hq
    rcases List.mem_or_eq_of_mem_set hq with hq | rfl
    · exact .inr (.inr (mem_condemned.mpr (.inr ⟨q, hq, href⟩)))
    · exact .inr (.inl href)

theorem condemned_quiet (hprocs : u.procs = s.procs) (hswept : u.swept = s.swept)
    (hp' : p'.marked = []) (h : ref ∈ condemned (u.goto i p')) : ref ∈ condemned s := by
  rcases condemned_goto hprocs h with h | h | h
  · exact mem_condemned.mpr (.inl (hswept ▸ h))
  · rw [hp'] at h
    cases h
  · exact h

theorem keysToDelete_append (seen keys : List (List Char)) (purpose : Purpose) :
    keysToDelete (seen ++ keys) purpose = keysToDelete seen purpose ++ keysToDelete keys purpose := by
  cases purpose with
  | prefixEvent row => rfl
  | orphanScan knownKeys deleteOrphans =>
    cases deleteOrphans with
    | true => exact List.filter_append ..
    | false => rfl

theorem marked_failed (purpose : Purpose) : purpose.failed.marked = [] := by cases purpose <;> rfl

theorem marked_succeeded (purpose : Purpose) : purpose.succeeded.marked = [] := by
  cases purpose <;> rfl

theorem condemned_marked (hp : s.procs[i]? = some p) (h : ref ∈ p.marked) : ref ∈ condemned s :=
  mem_condemned.mpr (.inr ⟨p, List.mem_of_getElem? hp, h⟩)

theorem deleteBatch_procs (s : State) (bucket : List Char) (keys : List (List Char))
    (purpose : Purpose) : (deleteBatch s bucket keys purpose).procs = s.procs := by
  cases purpose <;> rfl

/-- A request deletes what has been marked. -/
theorem deleteBatch_swept {bucket : List Char} {gone keys : List (List Char)} {purpose : Purpose}
    (hp : s.procs[i]? = some (.deletingObjects bucket keys purpose)) (hgone : gone ⊆ keys)
    (h : ref ∈ (deleteBatch s bucket gone purpose).swept) : ref ∈ condemned s := by
  cases purpose with
  | prefixEvent row => exact mem_condemned.mpr (.inl h)
  | orphanScan knownKeys deleteOrphans =>
    rcases List.mem_append.mp h with h | h
    · obtain ⟨key, hkey, rfl⟩ := List.mem_map.mp h
      exact condemned_marked hp (List.mem_map.mpr ⟨key, hgone hkey, rfl⟩)
    · exact mem_condemned.mpr (.inl h)

/-- A step of a deletion sends a request for objects that are marked, or gives up. -/
theorem deletingObjects_cases {bucket : List Char} {keys : List (List Char)} {purpose : Purpose}
    (h : advance s i (.deletingObjects bucket keys purpose) reply = some t) :
    (∃ p', t = s.goto i p' ∧ p'.marked = []) ∨
      ∃ gone p', gone ⊆ keys ∧ p'.marked ⊆ Proc.marked (.deletingObjects bucket keys purpose) ∧
        t = (deleteBatch s bucket gone purpose).goto i p' := by
  cases reply with
  | ok =>
    cases keys with
    | nil =>
      cases h
      exact .inl ⟨_, rfl, marked_succeeded purpose⟩
    | cons key keys =>
      cases h
      refine .inr ⟨_, _, List.take_subset .., ?_, rfl⟩
      cases purpose with
      | prefixEvent row => exact fun _ h => h
      | orphanScan knownKeys deleteOrphans =>
        exact List.map_subset _ (List.drop_subset ..)
  | partly gone =>
    have h : (if gone ⊆ keys.take deleteBatchSize then
        some ((deleteBatch s bucket gone purpose).goto i purpose.failed) else none) = some t := by
      cases keys <;> exact h
    obtain ⟨hgone, h⟩ := Option.ite_none_right_eq_some.mp h
    have hkeys : gone ⊆ keys := List.Subset.trans hgone (List.take_subset ..)
    refine .inr ⟨gone, _, hkeys, ?_, (Option.some.inj h).symm⟩
    rw [marked_failed]
    exact List.nil_subset _
  | failed =>
    have h : some (s.goto i purpose.failed) = some t := by cases keys <;> exact h
    exact .inl ⟨_, (Option.some.inj h).symm, marked_failed purpose⟩
  | _ => cases keys <;> cases h

/-- Objects are marked by the pages of a scan and by nothing else. -/
theorem advance_condemned (hp : s.procs[i]? = some p) (h : advance s i p reply = some t)
    (href : ref ∈ condemned t) : ref ∈ condemned s ∨ ref ∈ newlyMarked p reply := by
  have quiet : ∀ {u : State} {p' : Proc}, t = u.goto i p' → u.procs = s.procs → u.swept = s.swept →
      p'.marked = [] → ref ∈ condemned s ∨ ref ∈ newlyMarked p reply := by
    rintro u p' rfl hprocs hswept hp'
    exact .inl (condemned_quiet hprocs hswept hp' href)
  cases p with
  | putting d => cases reply <;> cases h <;> exact quiet rfl rfl rfl rfl
  | persisting d =>
    cases reply with
    | ok =>
      obtain ⟨-, h⟩ := Option.ite_none_right_eq_some.mp h
      cases Option.some.inj h
      exact quiet rfl rfl rfl rfl
    | failed => cases h; exact quiet rfl rfl rfl rfl
    | lost =>
      obtain ⟨-, h⟩ := Option.ite_none_right_eq_some.mp h
      cases Option.some.inj h
      exact quiet rfl rfl rfl rfl
    | _ => cases h
  | deletingDocument bucket workspaceId documentId =>
    have deleted : ∀ acknowledged, t = deleteDocument s i bucket workspaceId documentId acknowledged →
        ref ∈ condemned s := by
      rintro acknowledged rfl
      unfold deleteDocument at href
      split at href
      · exact condemned_quiet rfl rfl (by split <;> rfl) href
      · exact condemned_quiet rfl rfl rfl href
    cases reply <;> cases h
    · exact .inl (deleted _ rfl)
    · exact quiet rfl rfl rfl rfl
    · exact .inl (deleted _ rfl)
  | deletingWorkspace bucket workspaceId =>
    have deleted : t = deleteWorkspace s i bucket workspaceId → ref ∈ condemned s := by
      rintro rfl
      unfold deleteWorkspace at href
      split at href <;> exact condemned_quiet rfl rfl rfl href
    cases reply <;> cases h
    · exact .inl (deleted rfl)
    · exact quiet rfl rfl rfl rfl
    · exact .inl (deleted rfl)
  | attempting row e =>
    cases e <;> cases reply <;> cases h <;> exact quiet rfl rfl rfl rfl
  | scanning bucket knownKeys deleteOrphans =>
    cases reply <;> cases h
    · refine quiet rfl rfl rfl ?_
      cases deleteOrphans <;> rfl
    · exact quiet rfl rfl rfl rfl
  | listing l purpose =>
    cases reply with
    | page keys last =>
      obtain ⟨-, h⟩ := Option.ite_none_right_eq_some.mp h
      cases Option.some.inj h
      cases purpose with
      | prefixEvent row => exact quiet rfl rfl rfl (by split <;> rfl)
      | orphanScan knownKeys deleteOrphans =>
        have hmarked : ref ∈ (keysToDelete (l.seen ++ keys)
            (.orphanScan knownKeys deleteOrphans)).map (⟨l.bucket, ·⟩) ∨ ref ∈ condemned s := by
          rcases condemned_goto rfl href with h | h | h
          · exact .inr (mem_condemned.mpr (.inl h))
          · refine .inl ?_
            split at h <;> exact h
          · exact .inr h
        rcases hmarked with h | h
        · rw [keysToDelete_append, List.map_append] at h
          rcases List.mem_append.mp h with h | h
          · exact .inl (condemned_marked hp h)
          · exact .inr h
        · exact .inl h
    | failed => cases h; exact quiet rfl rfl rfl (marked_failed purpose)
    | _ => cases h
  | deletingObjects bucket keys purpose =>
    rcases deletingObjects_cases h with ⟨p', ht, hp'⟩ | ⟨gone, p', hgone, hp', rfl⟩
    · exact quiet ht rfl rfl hp'
    · rcases condemned_goto (deleteBatch_procs ..) href with h | h | h
      · exact .inl (deleteBatch_swept hp hgone h)
      · exact .inl (condemned_marked hp (hp' h))
      · exact .inl h
  | _ => cases reply <;> cases h <;> exact quiet rfl rfl rfl rfl

/-- Rows come from the commits of uploads. -/
theorem advance_live (h : advance s i p reply = some t) (href : ref ∈ live t) :
    ref ∈ live s ∨ ∃ d, p = .persisting d ∧ reply ≠ .failed ∧ d.ref = ref := by
  obtain ⟨d, hd, rfl⟩ := mem_live.mp href
  have old : d ∈ s.documents → d.ref ∈ live s := fun h => mem_live.mpr ⟨d, h, rfl⟩
  cases p with
  | persisting e =>
    have committed : ∀ p', persistUpload s i e p' = some t → reply ≠ .failed →
        d.ref ∈ live s ∨ ∃ d', Proc.persisting e = .persisting d' ∧ reply ≠ .failed ∧
          d'.ref = d.ref := by
      intro p' h hreply
      obtain ⟨-, h⟩ := Option.ite_none_right_eq_some.mp h
      cases Option.some.inj h
      rcases List.mem_append.mp hd with hd | hd
      · exact .inl (old hd)
      · exact .inr ⟨e, rfl, hreply, by rw [List.mem_singleton.mp hd]⟩
    cases reply with
    | ok => exact committed _ h (by decide)
    | lost => exact committed _ h (by decide)
    | failed => cases h; exact .inl (old hd)
    | _ => cases h
  | removingRow e =>
    cases reply <;> cases h
    · exact .inl (old (List.mem_filter.mp hd).1)
    · exact .inl (old hd)
    · exact .inl (old (List.mem_filter.mp hd).1)
  | deletingDocument bucket workspaceId documentId =>
    have deleted : ∀ acknowledged, t = deleteDocument s i bucket workspaceId documentId acknowledged →
        d ∈ s.documents := by
      rintro acknowledged rfl
      unfold deleteDocument at hd
      split at hd
      · exact (List.mem_filter.mp hd).1
      · exact hd
    cases reply <;> cases h
    · exact .inl (old (deleted _ rfl))
    · exact .inl (old hd)
    · exact .inl (old (deleted _ rfl))
  | deletingWorkspace bucket workspaceId =>
    have deleted : t = deleteWorkspace s i bucket workspaceId → d ∈ s.documents := by
      rintro rfl
      unfold deleteWorkspace at hd
      split at hd
      · exact (List.mem_filter.mp hd).1
      · exact hd
    cases reply <;> cases h
    · exact .inl (old (deleted rfl))
    · exact .inl (old hd)
    · exact .inl (old (deleted rfl))
  | attempting row e => cases e <;> cases reply <;> cases h <;> exact .inl (old hd)
  | listing l purpose =>
    cases reply with
    | page keys last =>
      obtain ⟨-, h⟩ := Option.ite_none_right_eq_some.mp h
      cases Option.some.inj h
      exact .inl (old hd)
    | failed => cases h; exact .inl (old hd)
    | _ => cases h
  | deletingObjects bucket keys purpose =>
    rcases deletingObjects_cases h with ⟨p', rfl, -⟩ | ⟨gone, p', -, -, rfl⟩
    · exact .inl (old hd)
    · refine .inl (old ?_)
      cases purpose <;> exact hd
  | _ => cases reply <;> cases h <;> exact .inl (old hd)

theorem step_outside {a : Act} (ha : ∀ i reply, a ≠ .advance i reply) (h : step s a = some t) :
    live t = live s ∧ ∀ ref ∈ condemned t, ref ∈ condemned s := by
  cases a with
  | upload bucket workspaceId documentId =>
    obtain ⟨-, h⟩ := Option.ite_none_left_eq_some.mp h
    split at h <;> cases Option.some.inj h
    · exact ⟨rfl, fun ref href => condemned_start rfl href⟩
    · exact ⟨rfl, fun ref href => condemned_start rfl href⟩
  | work row =>
    have h : workOn s row = some t := h
    unfold workOn at h
    split at h
    · obtain ⟨-, h⟩ := Option.ite_none_left_eq_some.mp h
      cases Option.some.inj h
      exact ⟨rfl, fun ref href => condemned_start (by split <;> rfl) href⟩
    · cases h
  | advance i reply => exact absurd rfl (ha i reply)
  | _ => cases h; exact ⟨rfl, fun ref href => condemned_start rfl href⟩

theorem step_live {a : Act} (hok : listsNoUpload s a) (h : step s a = some t)
    (href : ref ∈ live t) : ref ∈ live s ∨ ref ∉ condemned t := by
  cases a with
  | advance i reply =>
    obtain ⟨p, hp, h⟩ := Option.bind_eq_some_iff.mp h
    rcases advance_live h href with hl | ⟨d, rfl, hreply, rfl⟩
    · exact .inl hl
    · have hn : d.ref ∉ condemned s := by simpa [listsNoUpload, hp, hreply] using hok
      refine .inr fun hc => ?_
      rcases advance_condemned hp h hc with hc | hc
      · exact hn hc
      · cases reply <;> cases hc
  | _ => exact .inl ((step_outside (fun _ _ h => by cases h) h).1 ▸ href)

theorem step_condemned {a : Act} (hok : listsNoUpload s a) (h : step s a = some t)
    (href : ref ∈ condemned t) : ref ∈ condemned s ∨ ref ∉ live t := by
  cases a with
  | advance i reply =>
    obtain ⟨p, hp, h⟩ := Option.bind_eq_some_iff.mp h
    rcases advance_condemned hp h href with hc | hnew
    · exact .inl hc
    · refine .inr fun hl => ?_
      have notPersisting : ∀ d, p ≠ .persisting d := by
        rintro d rfl
        cases reply <;> cases hnew
      rcases advance_live h hl with hl | ⟨d, hd, -⟩
      · have hall : ∀ ref ∈ newlyMarked p reply, ref ∉ live s := by
          simpa [listsNoUpload, hp, notPersisting] using hok
        exact hall ref hnew hl
      · exact notPersisting d hd
  | _ => exact .inl ((step_outside (fun _ _ h => by cases h) h).2 ref href)

end Step

/-- Before any scan. -/
def Unscanned (s : State) : Prop := s.procs = [] ∧ s.swept = []

def SweepsOrphans (s : State) : Prop := ∀ d ∈ s.documents, d.ref ∉ s.swept

theorem object_scan_spares_documents {s : State}
    (h : Reach Unscanned step (fun s a => listsNoUpload s a) s) : SweepsOrphans s := by
  intro d hd hswept
  refine h.never_condemned (fun s ref => ref ∈ live s) (fun s ref => ref ∈ condemned s) ?_ ?_ ?_
    (mem_live.mpr ⟨d, hd, rfl⟩) (mem_condemned.mpr (.inl hswept))
  · intro s hs ref _ hc
    rcases mem_condemned.mp hc with hc | ⟨p, hp, -⟩
    · rw [hs.2] at hc
      cases hc
    · rw [hs.1] at hp
      cases hp
  · exact fun s t a _ hok hst ref href => step_live hok hst href
  · exact fun s t a _ hok hst ref href => step_condemned hok hst href

def emptyWorkspace : State := { oneDocument with documents := [], objects := ∅, usedIds := [] }

def sampleUpload : Act := .upload oldBucket sampleWorkspace (.ofNat 3)

def sampleScan : Act := .scan oldBucket true true

/-- The object is listed after the snapshot, and deleted after the commit of its row. -/
def scanBesideUpload : List Act :=
  [sampleScan, sampleUpload, .advance 1 .ok, .advance 0 .ok,
    .advance 0 (.page [sampleDocument.objectKey] true), .advance 1 .ok, .advance 0 .ok]

theorem scan_deletes_new_document :
    ∃ t, run step emptyWorkspace scanBesideUpload = some t ∧ Reach Unscanned step anyStep t ∧
      ¬ SweepsOrphans t := by
  have hrun : (run step emptyWorkspace scanBesideUpload).any (fun t =>
      sampleDocument ∈ t.documents && sampleDocument.ref ∈ t.swept &&
        sampleDocument.ref ∉ t.objects) = true := by decide +kernel
  obtain ⟨t, ht, h⟩ := (Option.any_eq_true _ _).mp hrun
  simp only [Bool.and_eq_true, decide_eq_true_eq] at h
  exact ⟨t, ht, .of_free_run ⟨rfl, rfl⟩ ht, fun hs => hs _ h.1.1 h.1.2⟩

/-- The row is committed before the snapshot is taken. -/
def scanAfterUpload : List Act :=
  [sampleUpload, .advance 0 .ok, .advance 0 .ok, sampleScan, .advance 1 .ok,
    .advance 1 (.page [sampleDocument.objectKey] true), .advance 1 .ok]

theorem object_scan_spares_documents_sample :
    ∃ t, run step emptyWorkspace scanAfterUpload = some t ∧ sampleDocument ∈ t.documents ∧
      SweepsOrphans t := by
  have hrun : (run step emptyWorkspace scanAfterUpload).any
      (fun t => sampleDocument ∈ t.documents) = true := by decide +kernel
  obtain ⟨t, ht, h⟩ := (Option.any_eq_true _ _).mp hrun
  have hm : Meets step (fun s a => listsNoUpload s a) emptyWorkspace scanAfterUpload := by
    decide +kernel
  exact ⟨t, ht, of_decide_eq_true h, object_scan_spares_documents (.of_run (.start ⟨rfl, rfl⟩) hm ht)⟩

end GmragApi.StoredObjects

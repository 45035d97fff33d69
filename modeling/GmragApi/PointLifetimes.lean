import GmragApi.CompletedIndexed
import GmragApi.VectorIndex

/-! No point outlives its document: every point belongs to a document that is there, or an event
that is still to be carried out covers it. -/

namespace GmragApi.VectorIndex

open Transition
open DeleteOutbox (RowStatus)
open Ingestion (SameHomes WorkerConfig)

/-- An event that no worker has carried out yet covers the point. -/
def Awaited (s : State) (p : Nat × Nat) : Prop :=
  ∃ (row : Nat) (r : Row), s.outbox[row]? = some r ∧ r.event.covers p = true ∧
    r.status ≠ .processed ∧ .settling row ∉ s.procs

/-- The document of a point is there, or the point is awaited. -/
def Accounted (s : State) (p : Nat × Nat) : Prop :=
  s.index.queue.workspaceOf p.2 = some p.1 ∨ Awaited s p

/-- Points are written for documents that are there or whose event is still to come, and an upload
is rolled back only while its document has no other points. -/
def Proc.Accounts (s : State) : Proc → Prop
  | upserting workspaceId rows =>
    ∀ row ∈ rows.take Indexing.upsertBatchSize, Accounted s (workspaceId, row.documentId)
  | removingRow workspaceId documentId =>
    s.index.queue.workspaceOf documentId = some workspaceId →
      ∀ chunk p, s.point chunk = some p → p.2 = documentId → Awaited s p
  | _ => True

def AccountsForPoints (s : State) : Act → Prop
  | .index a => ∀ job batch, Indexing.upserted s.index a = some (job, batch) → batch ≠ [] →
      Accounted s (job.workspaceId, job.documentId)
  | .advance i reply => ∀ p, s.procs[i]? = some p → reply ≠ .failed → p.Accounts s
  | _ => True

structure Inv (s : State) : Prop where
  fresh : ∀ d, s.index.queue.nextDocument ≤ d → s.index.queue.workspaceOf d = none
  tracked : ∀ chunk p, s.point chunk = some p → Accounted s p
  attempts : ∀ (row : Nat) (target : DeleteTarget), .attempting row target ∈ s.procs →
    ∃ r, s.outbox[row]? = some r ∧ r.event = target
  settles : ∀ row : Nat, .settling row ∈ s.procs → row < s.outbox.length

/-- A process that neither works at a row nor settles one. -/
def Proc.plain : Proc → Bool
  | attempting _ _ => false
  | settling _ => false
  | _ => true

section Goto

variable {s t u : State} {i : Nat} {p p' : Proc} {q : Nat × Nat}

theorem Awaited.keep (h : Awaited s q) (houtbox : ∀ (row : Nat) (r : Row), s.outbox[row]? = some r →
    t.outbox[row]? = some r) (hprocs : ∀ row : Nat, .settling row ∈ t.procs → .settling row ∈ s.procs) :
    Awaited t q := by
  obtain ⟨row, r, hr, hcov, hst, hset⟩ := h
  exact ⟨row, r, houtbox row r hr, hcov, hst, fun hn => hset (hprocs row hn)⟩

theorem rows_kept {o o' : List Row} {row : Nat}
    (h : ∀ (row : Nat) (r : Row), o[row]? = some r → o'[row]? = some r) (hrow : row < o.length) :
    row < o'.length :=
  (List.getElem?_eq_some_iff.mp (h row _ (List.getElem?_eq_getElem hrow))).1

theorem mem_goto {c : Proc} (hprocs : u.procs = s.procs) (h : c ∈ (u.goto i p').procs) :
    c ∈ s.procs ∨ c = p' := by
  rw [State.goto, hprocs] at h
  exact List.mem_or_eq_of_mem_set h

theorem settling_goto (hprocs : u.procs = s.procs) (hp' : p'.plain = true) (row : Nat)
    (h : .settling row ∈ (u.goto i p').procs) : .settling row ∈ s.procs := by
  rcases mem_goto hprocs h with h | h
  · exact h
  · rw [← h] at hp'
    cases hp'

theorem Inv.attempts_goto (hi : Inv s) (hprocs : u.procs = s.procs)
    (houtbox : ∀ (row : Nat) (r : Row), s.outbox[row]? = some r →
      ∃ r', u.outbox[row]? = some r' ∧ r'.event = r.event)
    (hp' : ∀ row target, p' ≠ .attempting row target) (row : Nat) (target : DeleteTarget)
    (h : .attempting row target ∈ (u.goto i p').procs) :
    ∃ r, (u.goto i p').outbox[row]? = some r ∧ r.event = target := by
  rcases mem_goto hprocs h with h | h
  · obtain ⟨r, hr, he⟩ := hi.attempts row target h
    obtain ⟨r', hr', he'⟩ := houtbox row r hr
    exact ⟨r', hr', he'.trans he⟩
  · exact absurd h.symm (hp' row target)

/-- A step that creates and deletes no document, and loses no event. -/
theorem Inv.goto (hi : Inv s) (hprocs : u.procs = s.procs)
    (hhomes : SameHomes s.index.queue u.index.queue)
    (hpoints : ∀ chunk q, u.point chunk = some q → s.point chunk = some q ∨ Accounted s q)
    (houtbox : ∀ (row : Nat) (r : Row), s.outbox[row]? = some r → u.outbox[row]? = some r)
    (hp' : p'.plain = true) : Inv (u.goto i p') := by
  refine ⟨?_, ?_, ?_, ?_⟩
  · intro d hd
    exact (hhomes.workspaceOf d).trans (hi.fresh d (hhomes.nextDocument ▸ hd))
  · intro chunk q hq
    have hacc : Accounted s q := by
      rcases hpoints chunk q hq with hq | hq
      · exact hi.tracked chunk q hq
      · exact hq
    rcases hacc with hhome | hwait
    · exact .inl ((hhomes.workspaceOf q.2).trans hhome)
    · exact .inr (hwait.keep houtbox (settling_goto hprocs hp'))
  · refine hi.attempts_goto hprocs (fun row r hr => ⟨r, houtbox row r hr, rfl⟩) ?_
    rintro row target rfl
    cases hp'
  · exact fun row hn => rows_kept houtbox (hi.settles row (settling_goto hprocs hp' row hn))

theorem SameHomes.refl (q : Ingestion.State) : SameHomes q q := .of_documents rfl rfl

theorem Inv.move (hi : Inv s) (hp' : p'.plain = true) : Inv (s.goto i p') :=
  hi.goto rfl (SameHomes.refl _) (fun _ _ h => .inl h) (fun _ _ h => h) hp'

theorem Inv.start (hi : Inv s) (hp : p.plain = true) : Inv (s.start p) := by
  have mem : ∀ c, c ∈ (s.start p).procs → c ∈ s.procs ∨ c = p := fun c hc =>
    (List.mem_append.mp hc).imp_right List.mem_singleton.mp
  have settling : ∀ row : Nat, .settling row ∈ (s.start p).procs → .settling row ∈ s.procs := by
    intro row h
    rcases mem _ h with h | h
    · exact h
    · rw [← h] at hp
      cases hp
  refine ⟨hi.fresh, fun chunk q hq => (hi.tracked chunk q hq).imp_right fun h => ?_, ?_, ?_⟩
  · exact h.keep (fun _ _ h => h) settling
  · intro row target h
    rcases mem _ h with h | h
    · exact hi.attempts row target h
    · rw [← h] at hp
      cases hp
  · exact fun row h => hi.settles row (settling row h)

theorem deletePoints_point {target : DeleteTarget} {chunk : Nat}
    (h : (deletePoints s target).point chunk = some q) :
    s.point chunk = some q ∧ target.covers q = false := by
  obtain ⟨d, hd, rfl⟩ := Option.map_eq_some_iff.mp h
  obtain ⟨hd, hcov⟩ := Option.filter_eq_some_iff.mp hd
  have hn : target.covers (s.payloads chunk, d) = false := by simpa using hcov
  exact ⟨Option.map_eq_some_iff.mpr ⟨d, hd, rfl⟩, hn⟩

theorem Inv.delete (hi : Inv s) (target : DeleteTarget) (hp' : p'.plain = true) :
    Inv ((deletePoints s target).goto i p') :=
  hi.goto rfl (SameHomes.refl _) (fun _ _ h => .inl (deletePoints_point h).1) (fun _ _ h => h) hp'

theorem Inv.sweep (hi : Inv s) (target : DeleteTarget) (hp' : p'.plain = true) :
    Inv ((sweepPoints s target).goto i p') :=
  hi.goto rfl (SameHomes.refl _) (fun _ _ h => .inl (deletePoints_point (s := s) h).1)
    (fun _ _ h => h) hp'

theorem Inv.enqueue (hi : Inv s) (target : DeleteTarget) (hp' : p'.plain = true) :
    Inv ((s.enqueue target).goto i p') := by
  refine hi.goto rfl (SameHomes.refl _) (fun _ _ h => .inl h) (fun row r hr => ?_) hp'
  rw [State.enqueue, List.getElem?_append_left (List.getElem?_eq_some_iff.mp hr).1]
  exact hr

/-- Whoever settles a row has deleted what it covers. -/
theorem Inv.carryOut {row : Nat} {target : DeleteTarget} (hi : Inv s)
    (hp : s.procs[i]? = some (.attempting row target)) :
    Inv ((sweepPoints s target).goto i (.settling row)) := by
  obtain ⟨r, hr, rfl⟩ := hi.attempts row target (List.mem_of_getElem? hp)
  refine ⟨hi.fresh, ?_, ?_, ?_⟩
  · intro chunk q hq
    obtain ⟨hq, hcov⟩ := deletePoints_point (s := s) hq
    refine (hi.tracked chunk q hq).imp_right fun ⟨row', r', hr', hcov', hst, hset⟩ => ?_
    refine ⟨row', r', hr', hcov', hst, fun hn => ?_⟩
    rcases mem_goto rfl hn with hn | hn
    · exact hset hn
    · cases hn
      rw [hr] at hr'
      cases Option.some.inj hr'
      rw [hcov] at hcov'
      cases hcov'
  · exact hi.attempts_goto rfl (fun row r hr => ⟨r, hr, rfl⟩) fun _ _ h => by cases h
  · intro row' hn
    rcases mem_goto rfl hn with hn | hn
    · exact hi.settles row' hn
    · cases hn
      exact (List.getElem?_eq_some_iff.mp hr).1

theorem mark_getElem? {row j : Nat} {status : RowStatus} {r : Row} (h : s.outbox[j]? = some r) :
    (s.mark row status).outbox[j]? =
      some (if row = j then { r with status := status } else r) := by
  simp only [State.mark, List.getElem?_modify, h]
  split <;> rfl

/-- A row is settled by a worker that has carried it out, or it stays to be done. -/
theorem Inv.mark {row : Nat} {status : RowStatus} (hi : Inv s)
    (h : status = .processed → .settling row ∈ s.procs) : Inv ((s.mark row status).goto i .done) := by
  refine ⟨hi.fresh, ?_, ?_, ?_⟩
  · intro chunk q hq
    refine (hi.tracked chunk q hq).imp_right fun ⟨j, r, hr, hcov, hst, hset⟩ => ?_
    refine ⟨j, _, mark_getElem? hr, ?_, ?_, fun hn => hset (settling_goto rfl rfl j hn)⟩
    · split <;> exact hcov
    · split
      · rename_i hrow
        rintro rfl
        exact hset (hrow ▸ h rfl)
      · exact hst
  · refine hi.attempts_goto rfl (fun j r hr => ⟨_, mark_getElem? hr, ?_⟩) fun _ _ h => by cases h
    split <;> rfl
  · intro j hn
    have hlt := hi.settles j (settling_goto rfl rfl j hn)
    simpa [State.goto, State.mark] using hlt

end Goto

section Steps

variable {config : WorkerConfig} {s t : State} {i : Nat} {p : Proc} {q : Nat × Nat}

theorem upsertBackfill_point {workspaceId chunk : Nat} {batch : List BackfillChunkRow}
    (h : (upsertBackfill s workspaceId batch).point chunk = some q) :
    s.point chunk = some q ∨ ∃ row ∈ batch, q = (workspaceId, row.documentId) := by
  simp only [State.point, upsertBackfill, State.setPoints] at h
  obtain ⟨d, hd, rfl⟩ := Option.map_eq_some_iff.mp h
  split at hd
  · rename_i row hfind
    have hmem := List.mem_of_find?_eq_some hfind
    have hany : batch.any (·.id = chunk) = true :=
      List.any_eq_true.mpr ⟨row, hmem, by simpa using List.find?_some hfind⟩
    exact .inr ⟨row, hmem, by rw [if_pos hany, Option.some.inj hd]⟩
  · rename_i hfind
    have hany : ¬ batch.any (·.id = chunk) = true := by
      rw [List.any_eq_true]
      rintro ⟨row, hmem, hid⟩
      exact absurd hid (List.find?_eq_none.mp hfind row hmem)
    refine .inl ?_
    rw [if_neg hany]
    exact Option.map_eq_some_iff.mpr ⟨d, hd, rfl⟩

theorem Inv.upsert {workspaceId : Nat} {batch : List BackfillChunkRow} {p' : Proc} (hi : Inv s)
    (hb : ∀ row ∈ batch, Accounted s (workspaceId, row.documentId)) (hp' : p'.plain = true) :
    Inv ((upsertBackfill s workspaceId batch).goto i p') := by
  refine hi.goto rfl (SameHomes.refl _) (fun chunk q hq => ?_) (fun _ _ h => h) hp'
  rcases upsertBackfill_point hq with hq | ⟨row, hrow, rfl⟩
  · exact .inl hq
  · exact .inr (hb row hrow)

theorem removeDocument_cases {workspaceId documentId : Nat}
    (h : removeDocument config s workspaceId documentId = some t) :
    (s.index.queue.workspaceOf documentId ≠ some workspaceId ∧ t = s) ∨
      (s.index.queue.workspaceOf documentId = some workspaceId ∧
        ∃ index, t = { s with index := index } ∧ index.output.points = s.index.output.points ∧
          (∀ d, index.queue.workspaceOf d =
            if d = documentId then none else s.index.queue.workspaceOf d) ∧
          index.queue.nextDocument = s.index.queue.nextDocument) := by
  unfold removeDocument at h
  split at h
  · rename_i hhome
    obtain ⟨index, hindex, rfl⟩ := Option.map_eq_some_iff.mp h
    obtain ⟨hq, hpoints⟩ := Indexing.queue_step hindex
    obtain ⟨hhomes, hnext⟩ := Ingestion.delete_homes hq
    exact .inr ⟨hhome, index, rfl, hpoints, hhomes, hnext⟩
  · rename_i hhome
    exact .inl ⟨hhome, (Option.some.inj h).symm⟩

/-- A row may go once every point of its document is awaited. -/
theorem Inv.remove {index : Indexing.State} {workspaceId documentId : Nat} {outbox : List Row}
    {p' : Proc} (hi : Inv s) (hhome : s.index.queue.workspaceOf documentId = some workspaceId)
    (hpoints : index.output.points = s.index.output.points)
    (hhomes : ∀ d, index.queue.workspaceOf d =
      if d = documentId then none else s.index.queue.workspaceOf d)
    (hnext : index.queue.nextDocument = s.index.queue.nextDocument) (hp' : p'.plain = true)
    (hrows : ∀ (row : Nat) (r : Row), s.outbox[row]? = some r → (s.outbox ++ outbox)[row]? = some r)
    (hwait : ∀ chunk, s.point chunk = some (workspaceId, documentId) → Awaited
      ({ s with index := index, outbox := s.outbox ++ outbox }.goto i p') (workspaceId, documentId)) :
    Inv ({ s with index := index, outbox := s.outbox ++ outbox }.goto i p') := by
  have hsettling := settling_goto (i := i) (u := { s with index := index }) rfl hp'
  refine ⟨?_, ?_, ?_, ?_⟩
  · intro d hd
    have hold := hi.fresh d (hnext ▸ hd)
    rw [State.goto, hhomes]
    split
    · rfl
    · exact hold
  · intro chunk q hq
    have hq' : s.point chunk = some q := by
      rw [State.point, State.goto, hpoints] at hq
      exact hq
    rcases hi.tracked chunk q hq' with hacc | hacc
    · by_cases hd : q.2 = documentId
      · have hq2 : q = (workspaceId, documentId) := by
          rw [hd, hhome] at hacc
          exact Prod.ext (Option.some.inj hacc).symm hd
        exact .inr (hq2 ▸ hwait chunk (hq2 ▸ hq'))
      · refine .inl ?_
        rw [State.goto, hhomes, if_neg hd]
        exact hacc
    · exact .inr (hacc.keep hrows hsettling)
  · refine hi.attempts_goto (u := { s with index := index, outbox := s.outbox ++ outbox }) rfl
      (fun row r hr => ⟨r, hrows row r hr, rfl⟩) ?_
    rintro row target rfl
    cases hp'
  · exact fun row hn => rows_kept hrows (hi.settles row (hsettling row hn))

theorem append_rows {outbox : List Row} (row : Nat) (r : Row) (h : s.outbox[row]? = some r) :
    (s.outbox ++ outbox)[row]? = some r := by
  rw [List.getElem?_append_left (List.getElem?_eq_some_iff.mp h).1]
  exact h

theorem Inv.rollBack {workspaceId documentId : Nat} (hi : Inv s)
    (hok : (Proc.removingRow workspaceId documentId).Accounts s)
    (h : (removeDocument config s workspaceId documentId).map (·.goto i .done) = some t) : Inv t := by
  obtain ⟨u, hu, rfl⟩ := Option.map_eq_some_iff.mp h
  rcases removeDocument_cases hu with ⟨-, rfl⟩ | ⟨hhome, index, rfl, hpoints, hhomes, hnext⟩
  · exact hi.move rfl
  · have hwait : ∀ chunk, s.point chunk = some (workspaceId, documentId) → Awaited
        ({ s with index := index, outbox := s.outbox ++ [] }.goto i .done)
        (workspaceId, documentId) := by
      intro chunk hc
      refine (hok hhome chunk _ hc rfl).keep append_rows ?_
      exact settling_goto (u := { s with index := index, outbox := s.outbox ++ [] }) rfl rfl
    have hkeep := hi.remove hhome hpoints hhomes hnext rfl append_rows hwait
    simpa using hkeep

theorem Inv.deleteDocument {workspaceId documentId : Nat} {acknowledged : Bool} (hi : Inv s)
    (h : deleteDocument config s i workspaceId documentId acknowledged = some t) : Inv t := by
  unfold VectorIndex.deleteDocument at h
  split at h
  · obtain ⟨u, hu, rfl⟩ := Option.map_eq_some_iff.mp h
    rcases removeDocument_cases hu with ⟨hn, -⟩ | ⟨hhome, index, rfl, hpoints, hhomes, hnext⟩
    · contradiction
    · refine hi.remove hhome hpoints hhomes hnext (by split <;> rfl) append_rows fun chunk _ => ?_
      refine ⟨s.outbox.length, ⟨.document workspaceId documentId, .pending⟩, ?_, ?_, ?_, ?_⟩
      · simp [State.goto]
      · simp [DeleteTarget.covers]
      · exact fun h => by cases h
      · intro hn
        have hset := settling_goto (u := { s with index := index }) rfl (by split <;> rfl) _ hn
        exact absurd (hi.settles _ hset) (Nat.lt_irrefl _)
  · cases Option.some.inj h
    exact hi.move rfl

theorem Inv.upload {workspaceId : Nat} {stamp : Int} (hi : Inv s)
    (h : step config s (.upload workspaceId stamp) = some t) : Inv t := by
  obtain ⟨-, h⟩ := Option.ite_none_right_eq_some.mp h
  obtain ⟨index, hindex, rfl⟩ := Option.map_eq_some_iff.mp h
  obtain ⟨hq, hpoints⟩ := Indexing.queue_step hindex
  obtain ⟨hhomes, hnext⟩ := Ingestion.upload_homes hq
  refine Inv.start ⟨?_, ?_, hi.attempts, hi.settles⟩ rfl
  · intro d hd
    rw [hnext] at hd
    rw [hhomes, if_neg (by omega)]
    exact hi.fresh d (by omega)
  · intro chunk q hq
    have hq' : s.point chunk = some q := by
      rw [State.point, hpoints] at hq
      exact hq
    refine (hi.tracked chunk q hq').imp_left fun hacc => ?_
    -- the id of the new document was not taken
    have hne : q.2 ≠ s.index.queue.nextDocument := by
      intro hd
      rw [hi.fresh q.2 (hd ▸ Nat.le_refl _)] at hacc
      cases hacc
    rw [hhomes, if_neg hne]
    exact hacc

theorem payloadsAfter_upserted {a : Indexing.Act} {job : Ingestion.ClaimedJob} {batch : List Nat}
    {chunk : Nat} (h : Indexing.upserted s.index a = some (job, batch)) (hin : chunk ∈ batch) :
    payloadsAfter s a chunk = job.workspaceId := by
  simp only [payloadsAfter, h, if_pos hin]

theorem payloadsAfter_other {a : Indexing.Act} {chunk : Nat}
    (h : ∀ job batch, Indexing.upserted s.index a = some (job, batch) → chunk ∉ batch) :
    payloadsAfter s a chunk = s.payloads chunk := by
  cases hup : Indexing.upserted s.index a with
  | none => simp only [payloadsAfter, hup]
  | some write => simp only [payloadsAfter, hup, if_neg (h write.1 write.2 hup)]

theorem index_point {a : Indexing.Act} {index : Indexing.State} {chunk : Nat}
    (h : Indexing.step config s.index a = some index)
    (hq : State.point { s with index := index, payloads := payloadsAfter s a } chunk = some q) :
    (∃ job batch, Indexing.upserted s.index a = some (job, batch) ∧ chunk ∈ batch ∧
      q = (job.workspaceId, job.documentId)) ∨ s.point chunk = some q := by
  obtain ⟨d, hd, hq⟩ := Option.map_eq_some_iff.mp hq
  have hq : (payloadsAfter s a chunk, d) = q := hq
  rcases Indexing.step_writes h chunk d hd with ⟨job, batch, hup, hin, rfl⟩ | ⟨hd, hout⟩
  · rw [payloadsAfter_upserted hup hin] at hq
    exact .inl ⟨job, batch, hup, hin, hq.symm⟩
  · rw [payloadsAfter_other hout] at hq
    exact .inr (Option.map_eq_some_iff.mpr ⟨d, hd, hq⟩)

theorem index_homes {a : Indexing.Act} {index : Indexing.State} (ha : indexAct a = true)
    (h : Indexing.step config s.index a = some index) : SameHomes s.index.queue index.queue := by
  refine Indexing.step_homes ?_ h
  rintro b rfl
  cases b <;> first | rfl | cases ha

theorem Inv.index {a : Indexing.Act} (hi : Inv s) (hok : AccountsForPoints s (.index a))
    (h : step config s (.index a) = some t) : Inv t := by
  obtain ⟨ha, h⟩ := Option.ite_none_right_eq_some.mp h
  obtain ⟨index, hindex, rfl⟩ := Option.map_eq_some_iff.mp h
  have hhomes := index_homes ha hindex
  refine ⟨?_, ?_, hi.attempts, hi.settles⟩
  · intro d hd
    exact (hhomes.workspaceOf d).trans (hi.fresh d (hhomes.nextDocument ▸ hd))
  · intro chunk q hq
    have hacc : Accounted s q := by
      rcases index_point hindex hq with ⟨job, batch, hup, hin, rfl⟩ | hq
      · exact hok job batch hup (List.ne_nil_of_mem hin)
      · exact hi.tracked chunk q hq
    exact hacc.imp_left fun hacc => (hhomes.workspaceOf q.2).trans hacc

theorem Inv.workOn {row : Nat} (hi : Inv s) (h : workOn s row = some t) : Inv t := by
  unfold VectorIndex.workOn at h
  split at h
  · rename_i r hr
    obtain ⟨-, h⟩ := Option.ite_none_left_eq_some.mp h
    cases Option.some.inj h
    have mem : ∀ c, c ∈ (s.start (.attempting row r.event)).procs →
        c ∈ s.procs ∨ c = .attempting row r.event := fun c hc =>
      (List.mem_append.mp hc).imp_right List.mem_singleton.mp
    have settling : ∀ j : Nat, .settling j ∈ (s.start (.attempting row r.event)).procs →
        .settling j ∈ s.procs := by
      intro j hj
      rcases mem _ hj with hj | hj
      · exact hj
      · cases hj
    refine ⟨hi.fresh, fun chunk q hq => (hi.tracked chunk q hq).imp_right fun h => ?_, ?_, ?_⟩
    · exact h.keep (fun _ _ h => h) settling
    · intro j target hj
      rcases mem _ hj with hj | hj
      · exact hi.attempts j target hj
      · cases hj
        exact ⟨r, hr, rfl⟩
    · exact fun j hj => hi.settles j (settling j hj)
  · cases h

theorem advance_inv {reply : Reply} (hi : Inv s) (hp : s.procs[i]? = some p)
    (hok : reply ≠ .failed → p.Accounts s) (h : advance config s i p reply = some t) : Inv t := by
  cases p with
  | syncing workspaceId documentId => cases reply <;> cases h <;> exact hi.move rfl
  | removingRow workspaceId documentId =>
    cases reply with
    | ok => exact hi.rollBack (hok (by decide)) h
    | failed => cases h; exact hi.move rfl
    | lost => exact hi.rollBack (hok (by decide)) h
    | _ => cases h
  | deletingDocument workspaceId documentId =>
    cases reply with
    | ok => exact hi.deleteDocument h
    | failed => cases h; exact hi.move rfl
    | lost => exact hi.deleteDocument h
    | _ => cases h
  | deletingPoints workspaceId documentId =>
    cases reply <;> cases h
    · exact hi.delete _ rfl
    · exact hi.move rfl
    · exact hi.delete _ rfl
  | backfilling workspaceId =>
    cases reply with
    | rows rows =>
      cases Option.some.inj (Option.ite_none_right_eq_some.mp h).2
      exact hi.move rfl
    | failed => cases h; exact hi.move rfl
    | _ => cases h
  | upserting workspaceId rows =>
    cases rows with
    | nil => cases reply <;> cases h <;> exact hi.move rfl
    | cons row rows =>
      cases reply <;> cases h
      · exact hi.upsert (hok (by decide)) rfl
      · exact hi.move rfl
      · exact hi.upsert (hok (by decide)) rfl
  | attempting row target =>
    cases reply <;> cases h
    · exact hi.carryOut hp
    · exact hi.move rfl
    · exact hi.sweep target rfl
  | settling row =>
    have hmem := List.mem_of_getElem? hp
    cases reply <;> cases h
    · exact hi.mark fun _ => hmem
    · exact hi.move rfl
    · exact hi.mark fun _ => hmem
  | failing row =>
    cases reply <;> cases h
    · exact hi.mark fun hn => by cases hn
    · exact hi.move rfl
    · exact hi.mark fun hn => by cases hn
  | scrolling delete targets liveWorkspaces liveDocuments =>
    cases reply with
    | page points last =>
      cases Option.some.inj (Option.ite_none_right_eq_some.mp h).2
      refine hi.move ?_
      split
      · rfl
      · split <;> rfl
    | failed => cases h; exact hi.move rfl
    | _ => cases h
  | applying targets =>
    cases reply with
    | ok =>
      cases targets <;> cases h
      exact hi.move rfl
    | picked target =>
      have h : (if target ∈ targets then
          some (s.goto i (.deletingTarget target (targets.filter (· != target)))) else none) =
          some t := by
        cases targets <;> exact h
      cases Option.some.inj (Option.ite_none_right_eq_some.mp h).2
      exact hi.move rfl
    | _ => cases targets <;> cases h
  | deletingTarget target targets =>
    cases reply <;> cases h
    · exact hi.sweep target rfl
    · exact hi.move rfl
    · exact hi.sweep target rfl
  | requeueing target targets =>
    cases reply <;> cases h
    · exact hi.enqueue target rfl
    · exact hi.move rfl
    · exact hi.enqueue target rfl
  | _ => cases reply <;> cases h <;> exact hi.move rfl

theorem step_inv {a : Act} (hi : Inv s) (hok : AccountsForPoints s a)
    (h : step config s a = some t) : Inv t := by
  cases a with
  | createWorkspace workspaceId =>
    cases h
    exact ⟨hi.fresh, hi.tracked, hi.attempts, hi.settles⟩
  | upload workspaceId stamp => exact hi.upload h
  | index a => exact hi.index hok h
  | work row => exact hi.workOn h
  | advance i reply =>
    obtain ⟨p, hp, h⟩ := Option.bind_eq_some_iff.mp h
    exact advance_inv hi hp (hok p hp) h
  | _ => cases h; exact hi.start rfl

theorem initial_inv (now : Int) : Inv (initial now) :=
  ⟨fun _ _ => rfl, nofun, nofun, nofun⟩

end Steps

/-- All requests and tasks have finished, and every event has been processed. -/
def Drained (s : State) : Prop :=
  (∀ p ∈ s.procs, p = .done) ∧ (∀ t ∈ s.index.tasks, t.phase = .ended) ∧
    ∀ r ∈ s.outbox, r.status = .processed

def NoOrphanPoints (s : State) : Prop :=
  Drained s → ∀ chunk document, s.index.output.points chunk = some document →
    (s.index.queue.documents document).isSome

theorem drained_points_have_documents (config : WorkerConfig) (now : Int) {s : State}
    (h : Reach (· = initial now) (step config) AccountsForPoints s) : NoOrphanPoints s := by
  have hi : Inv s := h.invariant (fun _ hs => hs ▸ initial_inv now) fun _ _ _ hi hok hst =>
    step_inv hi hok hst
  intro hd chunk document hpoint
  rcases hi.tracked chunk _ (Option.map_eq_some_iff.mpr ⟨document, hpoint, rfl⟩) with hhome | hwait
  · obtain ⟨d, hdoc, -⟩ := Option.map_eq_some_iff.mp hhome
    exact Option.isSome_of_eq_some hdoc
  · obtain ⟨row, r, hr, -, hst, -⟩ := hwait
    exact absurd (hd.2.2 r (List.mem_of_getElem? hr)) hst

/-- One document, and a task for it up to its last check of the lease. -/
def indexingRun : List Act :=
  [.createWorkspace 7, .upload 7 0, .index (.queue (.claim 0 [0] 0)),
    .index (.spawn Ingestion.firstClaim 0)] ++ (Indexing.callsBeforeWrite 0 0).map .index

/-- The document is deleted and its event processed before the task writes. -/
def lateUpsertRun : List Act :=
  indexingRun ++ [.advance 0 .ok, .deleteDocument 7 0, .advance 1 .ok, .advance 1 .ok, .work 0,
    .advance 2 .ok, .advance 2 .ok] ++
    [.advance 0 .done, .advance 0 .done, .advance 0 .done, .advance 0 (.stamped 0)].map .index

/-- The task completes the document; then the call to OpenFGA fails, and the upload takes the row
back. -/
def rolledBackRun : List Act :=
  indexingRun ++ (Indexing.callsFromWrite 0 0).map .index ++ [.advance 0 .failed, .advance 0 .ok]

def isEnded : Indexing.Phase → Bool
  | .ended => true
  | _ => false

theorem isEnded_iff {phase : Indexing.Phase} : isEnded phase = true ↔ phase = .ended := by
  cases phase <;> simp [isEnded]

def drained (s : State) : Bool :=
  s.procs.all (· = .done) && s.index.tasks.all (fun t => isEnded t.phase) &&
    s.outbox.all (·.status = .processed)

theorem drained_iff {s : State} : drained s = true ↔ Drained s := by
  simp [drained, Drained, isEnded_iff, and_assoc]

/-- The run leaves a point of a document that has no row. -/
def LeavesPoint (as : List Act) : Prop :=
  ∃ t, run (step Ingestion.sampleConfig) (initial 0) as = some t ∧
    Reach (· = initial 0) (step Ingestion.sampleConfig) anyStep t ∧ ¬ NoOrphanPoints t

theorem leavesPoint_of_run {as : List Act}
    (hrun : (run (step Ingestion.sampleConfig) (initial 0) as).any (fun t => drained t &&
      t.index.output.points 0 = some 0 && (t.index.queue.documents 0).isNone) = true) :
    LeavesPoint as := by
  obtain ⟨t, ht, h⟩ := (Option.any_eq_true _ _).mp hrun
  simp only [Bool.and_eq_true, decide_eq_true_eq] at h
  obtain ⟨⟨hd, hpoint⟩, hgone⟩ := h
  refine ⟨t, ht, .of_free_run rfl ht, fun hn => ?_⟩
  have hsome := hn (drained_iff.mp hd) 0 0 hpoint
  rw [Option.isNone_iff_eq_none.mp hgone] at hsome
  cases hsome

theorem deleted_documents_leave_points : LeavesPoint lateUpsertRun ∧ LeavesPoint rolledBackRun :=
  ⟨leavesPoint_of_run (by decide +kernel), leavesPoint_of_run (by decide +kernel)⟩

/-- Points are written beside the row of their document, and no upload is rolled back. -/
def writesBesideRow (s : State) : Act → Bool
  | .index a => (Indexing.upserted s.index a).all fun write =>
    s.index.queue.workspaceOf write.1.documentId == some write.1.workspaceId
  | .advance i _ => (s.procs[i]?).all fun p =>
    match p with
    | .upserting _ _ => false
    | .removingRow _ _ => false
    | _ => true
  | _ => true

theorem writesBesideRow_accounts (s : State) (a : Act) (h : writesBesideRow s a = true) :
    AccountsForPoints s a := by
  cases a with
  | index a =>
    intro job batch hup _
    simp only [writesBesideRow, hup, Option.all_some, beq_iff_eq] at h
    exact .inl h
  | advance i reply =>
    intro p hp _
    simp only [writesBesideRow, hp, Option.all_some] at h
    cases p <;> trivial
  | _ => trivial

/-- The document is deleted once its task has completed it. -/
def lateDeleteRun : List Act :=
  indexingRun ++ (Indexing.callsFromWrite 0 0).map .index ++ [.advance 0 .ok, .deleteDocument 7 0,
    .advance 1 .ok, .advance 1 .failed, .work 0, .advance 2 .ok, .advance 2 .ok]

theorem drained_points_have_documents_deleted :
    ∃ t, run (step Ingestion.sampleConfig) (initial 0) lateDeleteRun = some t ∧ Drained t ∧
      NoOrphanPoints t := by
  have hrun : (run (step Ingestion.sampleConfig) (initial 0) lateDeleteRun).any drained = true := by
    decide +kernel
  obtain ⟨t, ht, hd⟩ := (Option.any_eq_true _ _).mp hrun
  have hm : Meets (step Ingestion.sampleConfig) (fun s a => writesBesideRow s a) (initial 0)
      lateDeleteRun := by decide +kernel
  exact ⟨t, ht, drained_iff.mp hd, drained_points_have_documents Ingestion.sampleConfig 0
    (.of_run (.start rfl) (hm.mono writesBesideRow_accounts) ht)⟩

end GmragApi.VectorIndex

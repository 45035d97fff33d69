import GmragApi.Indexing
import Mathlib.Data.List.Perm.Basic

/-! Chunk rows and Qdrant points: what each write of a task makes of them. -/

namespace GmragApi.Indexing

open Function

def HasRow (o : Output) (document chunk : Nat) : Prop :=
  ∃ index, o.chunks document index = some chunk

/-- Qdrant holds a point for each chunk row of the document, and no other point of it. -/
def Indexed (o : Output) (document : Nat) : Prop :=
  ∀ chunk, o.points chunk = some document ↔ HasRow o document chunk

/-- Chunk ids belong to one document, in the table and in Qdrant. -/
structure Output.WellFormed (o : Output) : Prop where
  row_lt : ∀ d chunk, HasRow o d chunk → chunk < o.nextChunk
  row_one : ∀ d d' chunk, HasRow o d chunk → HasRow o d' chunk → d = d'
  point_lt : ∀ d chunk, o.points chunk = some d → chunk < o.nextChunk
  point_row : ∀ d d' chunk, o.points chunk = some d → HasRow o d' chunk → d = d'

/-- The rows and the points of the document are the same before and after. -/
structure SameOutput (o o' : Output) (document : Nat) : Prop where
  chunks : o'.chunks document = o.chunks document
  points : ∀ chunk, o'.points chunk = some document ↔ o.points chunk = some document

/-- What the rows and the points of its document have to do with where a task stands. -/
def PhaseOk (o : Output) (document : Nat) : Phase → Prop
  | .building count => ∀ index, count ≤ index → o.chunks document index = none
  | .checking points => points ≠ [] → ∀ chunk, chunk ∈ points ↔ HasRow o document chunk
  | .indexing points => points ≠ [] → ∀ chunk, chunk ∈ points ↔ HasRow o document chunk
  | .rechecking points => points ≠ [] → ∀ chunk, chunk ∈ points ↔ HasRow o document chunk
  | .reindexing points => points ≠ [] → ∀ chunk, chunk ∈ points ↔ HasRow o document chunk
  | .deleting points => points ≠ [] → ∀ chunk, chunk ∈ points ↔ HasRow o document chunk
  | .upserting points =>
    ∀ chunk, (chunk ∈ points ∨ o.points chunk = some document) ↔ HasRow o document chunk
  | .completing => Indexed o document
  | .committing => Indexed o document
  | _ => True

section Writes

variable {o o' : Output} {d k : Nat}

theorem SameOutput.rows (h : SameOutput o o' d) (chunk : Nat) :
    HasRow o' d chunk ↔ HasRow o d chunk := by
  simp only [HasRow, h.chunks]

theorem SameOutput.indexed (h : SameOutput o o' d) : Indexed o' d ↔ Indexed o d := by
  simp only [Indexed, h.points, h.rows]

theorem SameOutput.phaseOk (h : SameOutput o o' d) {phase : Phase} (hp : PhaseOk o d phase) :
    PhaseOk o' d phase := by
  cases phase <;> simp only [PhaseOk, h.chunks, h.points, h.rows, h.indexed] at hp ⊢ <;> exact hp

theorem save_chunks_self (o : Output) (d count index : Nat) :
    (saveDocumentChunks o d count).chunks d index =
      if index < count then some ((o.chunks d index).getD (o.nextChunk + index)) else none := by
  by_cases h : index < count <;>
    simp [saveDocumentChunks, deleteStaleDocumentChunks, bulkUpsertDocumentChunks, h]

theorem save_chunks_other (hk : k ≠ d) (count : Nat) :
    (saveDocumentChunks o d count).chunks k = o.chunks k := by
  simp [saveDocumentChunks, deleteStaleDocumentChunks, bulkUpsertDocumentChunks, hk]

theorem save_same (hk : k ≠ d) (count : Nat) : SameOutput o (saveDocumentChunks o d count) k :=
  ⟨save_chunks_other hk count, fun _ => Iff.rfl⟩

/-- A row that is saved is an old row of the document, or its id is new. -/
theorem save_row {count chunk : Nat} (h : HasRow (saveDocumentChunks o d count) k chunk) :
    HasRow o k chunk ∨
      (k = d ∧ o.nextChunk ≤ chunk ∧ chunk < (saveDocumentChunks o d count).nextChunk) := by
  obtain ⟨index, h⟩ := h
  by_cases hk : k = d
  · subst hk
    rw [save_chunks_self] at h
    obtain ⟨hlt, h⟩ := Option.ite_none_right_eq_some.mp h
    cases hrow : o.chunks k index with
    | some id =>
      rw [hrow] at h
      exact .inl ⟨index, by rw [hrow]; exact h⟩
    | none =>
      rw [hrow, Option.getD_none] at h
      cases Option.some.inj h
      refine .inr ⟨rfl, Nat.le_add_right _ _, ?_⟩
      change o.nextChunk + index < o.nextChunk + count
      omega
  · rw [save_chunks_other hk] at h
    exact .inl ⟨index, h⟩

theorem save_wellFormed (hw : o.WellFormed) (d count : Nat) :
    (saveDocumentChunks o d count).WellFormed := by
  have hle : o.nextChunk ≤ (saveDocumentChunks o d count).nextChunk := Nat.le_add_right _ _
  constructor
  · intro k chunk hrow
    rcases save_row hrow with hrow | ⟨-, -, hlt⟩
    · exact Nat.lt_of_lt_of_le (hw.row_lt k chunk hrow) hle
    · exact hlt
  · intro k k' chunk hrow hrow'
    rcases save_row hrow with hold | ⟨hk, hnew, -⟩ <;>
      rcases save_row hrow' with hold' | ⟨hk', hnew', -⟩
    · exact hw.row_one k k' chunk hold hold'
    · have := hw.row_lt k chunk hold
      omega
    · have := hw.row_lt k' chunk hold'
      omega
    · rw [hk, hk']
  · intro k chunk hp
    exact Nat.lt_of_lt_of_le (hw.point_lt k chunk hp) hle
  · intro k k' chunk hp hrow
    rcases save_row hrow with hrow | ⟨-, hnew, -⟩
    · exact hw.point_row k k' chunk hp hrow
    · have := hw.point_lt k chunk hp
      omega

theorem deletePoints_points (o : Output) (d k chunk : Nat) :
    (deletePointsByDocument o d).points chunk = some k ↔ o.points chunk = some k ∧ k ≠ d := by
  simp [deletePointsByDocument, Option.filter_eq_some_iff]

theorem deletePoints_same (hk : k ≠ d) : SameOutput o (deletePointsByDocument o d) k :=
  ⟨rfl, fun chunk => by rw [deletePoints_points]; exact and_iff_left hk⟩

theorem deletePoints_wellFormed (hw : o.WellFormed) (d : Nat) :
    (deletePointsByDocument o d).WellFormed := by
  refine ⟨hw.row_lt, hw.row_one, ?_, ?_⟩
  · intro k chunk hp
    exact hw.point_lt k chunk ((deletePoints_points o d k chunk).mp hp).1
  · intro k k' chunk hp hrow
    exact hw.point_row k k' chunk ((deletePoints_points o d k chunk).mp hp).1 hrow

theorem upsert_points (o : Output) (d k chunk : Nat) (batch : List Nat) :
    (upsertChunkPointBatch o d batch).points chunk = some k ↔
      (chunk ∈ batch ∧ k = d) ∨ (chunk ∉ batch ∧ o.points chunk = some k) := by
  by_cases h : chunk ∈ batch <;> simp [upsertChunkPointBatch, h, eq_comm]

theorem upsert_same (hw : o.WellFormed) {batch : List Nat} (hrows : ∀ c ∈ batch, HasRow o d c)
    (hk : k ≠ d) : SameOutput o (upsertChunkPointBatch o d batch) k := by
  refine ⟨rfl, fun chunk => ?_⟩
  rw [upsert_points]
  constructor
  · rintro (⟨-, h⟩ | ⟨-, h⟩)
    · exact absurd h hk
    · exact h
  · intro h
    refine .inr ⟨fun hmem => ?_, h⟩
    exact hk (hw.point_row k d chunk h (hrows chunk hmem))

theorem upsert_wellFormed (hw : o.WellFormed) {batch : List Nat}
    (hrows : ∀ c ∈ batch, HasRow o d c) : (upsertChunkPointBatch o d batch).WellFormed := by
  refine ⟨hw.row_lt, hw.row_one, ?_, ?_⟩
  · intro k chunk hp
    rcases (upsert_points o d k chunk batch).mp hp with ⟨hmem, -⟩ | ⟨-, hp⟩
    · exact hw.row_lt d chunk (hrows chunk hmem)
    · exact hw.point_lt k chunk hp
  · intro k k' chunk hp hrow
    rcases (upsert_points o d k chunk batch).mp hp with ⟨hmem, rfl⟩ | ⟨-, hp⟩
    · exact hw.row_one k k' chunk (hrows chunk hmem) hrow
    · exact hw.point_row k k' chunk hp hrow

theorem deleteChunks_row {chunk : Nat} (h : HasRow (deleteDocumentChunks o d) k chunk) :
    k ≠ d ∧ HasRow o k chunk := by
  obtain ⟨index, h⟩ := h
  have hk : k ≠ d := by
    rintro rfl
    simp [deleteDocumentChunks] at h
  exact ⟨hk, index, by simpa [deleteDocumentChunks, hk] using h⟩

theorem deleteChunks_same (hk : k ≠ d) : SameOutput o (deleteDocumentChunks o d) k :=
  ⟨by simp [deleteDocumentChunks, hk], fun _ => Iff.rfl⟩

theorem deleteChunks_wellFormed (hw : o.WellFormed) (d : Nat) :
    (deleteDocumentChunks o d).WellFormed := by
  refine ⟨?_, ?_, hw.point_lt, ?_⟩
  · intro k chunk h
    exact hw.row_lt k chunk (deleteChunks_row h).2
  · intro k k' chunk h h'
    exact hw.row_one k k' chunk (deleteChunks_row h).2 (deleteChunks_row h').2
  · intro k k' chunk hp h
    exact hw.point_row k k' chunk hp (deleteChunks_row h).2

/-- After the transaction of the `SAVING` stage there is no row past the last chunk. -/
theorem save_phaseOk (o : Output) (d count : Nat) :
    PhaseOk (saveDocumentChunks o d count) d (.building count) := by
  intro index hle
  rw [save_chunks_self, if_neg (by omega)]

/-- The points that are built are those of all rows of the document. -/
theorem built_rows {count : Nat} (h : PhaseOk o d (.building count)) {points : List Nat}
    (hp : points.Perm ((List.range count).filterMap (o.chunks d))) (chunk : Nat) :
    chunk ∈ points ↔ HasRow o d chunk := by
  rw [hp.mem_iff]
  simp only [List.mem_filterMap, List.mem_range, HasRow]
  constructor
  · rintro ⟨index, -, hrow⟩
    exact ⟨index, hrow⟩
  · rintro ⟨index, hrow⟩
    refine ⟨index, ?_, hrow⟩
    by_contra hge
    rw [h index (by omega)] at hrow
    cases hrow

/-- With its points gone, a document needs the points of its rows. -/
theorem deletePoints_phaseOk {points : List Nat} (h : ∀ chunk, chunk ∈ points ↔ HasRow o d chunk) :
    PhaseOk (deletePointsByDocument o d) d (.upserting points) := by
  intro chunk
  have hnone : ¬ (deletePointsByDocument o d).points chunk = some d := by
    rw [deletePoints_points]
    exact fun hp => hp.2 rfl
  exact (or_iff_left hnone).trans (h chunk)

theorem upsert_phaseOk {points : List Nat} (h : PhaseOk o d (.upserting points)) :
    PhaseOk (upsertChunkPointBatch o d (points.take upsertBatchSize)) d
      (.upserting (points.drop upsertBatchSize)) := by
  intro chunk
  rw [upsert_points]
  have hmem : chunk ∈ points ↔
      chunk ∈ points.take upsertBatchSize ∨ chunk ∈ points.drop upsertBatchSize := by
    rw [← List.mem_append, List.take_append_drop]
  have hrow := h chunk
  rw [hmem] at hrow
  change _ ↔ HasRow o d chunk
  rw [← hrow]
  by_cases hb : chunk ∈ points.take upsertBatchSize <;> simp [hb]

end Writes

end GmragApi.Indexing

import GmragApi.GraphConstruction
import GmragApi.GraphDisclosure
import GmragApi.GraphWrites
import GmragApi.Uuid
import Mathlib.Algebra.BigOperators.Group.List.Lemmas

/-! The backfill of `graph_nodes.embedding`, and what the vector branch of the chat sees of it: that
branch reads the vectors of the source rows. -/

namespace GmragApi.Graph.Backfill

open Database

structure BackfillGraphNodeEmbeddingsOptions where
  allowApply : Bool
  workspaceId : Option Nat
  batchSize : UInt64
  deriving DecidableEq

def defaultBatchSize : UInt64 := 50

def maxErrorSamples : Nat := 10

namespace BackfillGraphNodeEmbeddingsOptions

def default : BackfillGraphNodeEmbeddingsOptions := ⟨false, none, defaultBatchSize⟩

/-- `$1::uuid IS NULL OR workspace_id = $1` -/
def inScope (o : BackfillGraphNodeEmbeddingsOptions) (workspaceId : Nat) : Bool :=
  o.workspaceId.all (workspaceId == ·)

/-- The `LIMIT` of a batch: `batch_size.max(1) as i64`. -/
def limit (o : BackfillGraphNodeEmbeddingsOptions) : Int := (max o.batchSize 1).toInt64.toInt

end BackfillGraphNodeEmbeddingsOptions

structure WorkspaceNullEmbeddingCount where
  workspaceId : Nat
  nullCount : Nat
  deriving DecidableEq

structure BackfillGraphNodeEmbeddingsReport where
  applied : Bool
  workspaceFilter : Option Nat
  batchSize : UInt64
  nodesFound : Nat
  countsByWorkspace : List WorkspaceNullEmbeddingCount
  nodesUpdated : Nat
  nodesSkippedAlreadyEmbedded : Nat
  errorCount : Nat
  errorSamples : List (List Char)
  deriving DecidableEq

structure NullEmbeddingNode where
  id : Nat
  workspaceId : Nat
  entityName : List Char
  description : Option (List Char)
  deriving DecidableEq

/-- What the database and the embedder answer, by the round of the loop. -/
structure Calls (ν : Type) where
  count : Option (List Char)
  fetch : Nat → Option (List Char)
  embedBatch : Nat → List (List Char) → Except (List Char) (List (Except (List Char) ν))
  update : Nat → Nat → Option (List Char)

structure RunState (ν : Type) where
  db : Database ν
  report : BackfillGraphNodeEmbeddingsReport
  excludeIds : List Nat
  rounds : Nat

variable {ν : Type}

def missing (options : BackfillGraphNodeEmbeddingsOptions) (n : GraphNode ν) : Bool :=
  n.embedding.isNone && options.inScope n.workspaceId

def countNullEmbeddingsByWorkspace (options : BackfillGraphNodeEmbeddingsOptions)
    (db : Database ν) : List WorkspaceNullEmbeddingCount :=
  let workspaces := (db.nodes.filter (missing options)).map GraphNode.workspaceId
  (workspaces.dedup.insertionSort (· ≤ ·)).map fun w => ⟨w, workspaces.count w⟩

def NullEmbeddingNode.ofRow (n : GraphNode ν) : NullEmbeddingNode :=
  ⟨n.id, n.workspaceId, n.entityName, n.description⟩

/-- A row that the next batch may take. -/
def pending (options : BackfillGraphNodeEmbeddingsOptions) (excludeIds : List Nat)
    (n : GraphNode ν) : Bool :=
  missing options n && !excludeIds.contains n.id

/-- `ORDER BY workspace_id, id` -/
def batchOrder (a b : NullEmbeddingNode) : Prop :=
  a.workspaceId < b.workspaceId ∨ a.workspaceId = b.workspaceId ∧ a.id ≤ b.id

instance : DecidableRel batchOrder := fun a b =>
  inferInstanceAs (Decidable (a.workspaceId < b.workspaceId ∨ _))

/-- A negative `LIMIT` is an error of the database. -/
def fetchNullEmbeddingBatch (options : BackfillGraphNodeEmbeddingsOptions) (calls : Calls ν)
    (s : RunState ν) : Except (List Char) (List NullEmbeddingNode) :=
  match calls.fetch s.rounds with
  | some err => .error err
  | none =>
    if options.limit < 0 then .error "LIMIT must not be negative".toList
    else
      .ok ((((s.db.nodes.filter (pending options s.excludeIds)).map
        NullEmbeddingNode.ofRow).insertionSort batchOrder).take options.limit.toNat)

/-- The rows that `UPDATE … WHERE id = $1 AND embedding IS NULL` meets take the vector. -/
def embedIfNull (nodeId : Nat) (embedding : ν) (n : GraphNode ν) : GraphNode ν :=
  if n.id = nodeId ∧ n.embedding.isNone then { n with embedding := some embedding } else n

def updateNodeEmbedding (db : Database ν) (nodeId : Nat) (embedding : ν) : Database ν × Bool :=
  ({ db with nodes := db.nodes.map (embedIfNull nodeId embedding) },
    db.nodes.any fun n => n.id == nodeId && n.embedding.isNone)

def recordNodeError (s : RunState ν) (nodeId : Nat) (message : List Char) : RunState ν :=
  { s with
    excludeIds := s.excludeIds ++ [nodeId]
    report :=
      { s.report with
        errorCount := s.report.errorCount + 1
        errorSamples :=
          if s.report.errorSamples.length < maxErrorSamples then
            s.report.errorSamples ++
              ["node_id=".toList ++ (Uuid.ofNat nodeId).display ++ ": ".toList ++ message]
          else s.report.errorSamples } }

def applyEmbedding (calls : Calls ν) (s : RunState ν)
    (item : NullEmbeddingNode × Except (List Char) ν) : RunState ν :=
  match item.2 with
  | .error err => recordNodeError s item.1.id err
  | .ok embedding =>
    match calls.update s.rounds item.1.id with
    | some err => recordNodeError s item.1.id ("database update failed: ".toList ++ err)
    | none =>
      let (db, updated) := updateNodeEmbedding s.db item.1.id embedding
      if updated then
        { s with db := db, report := { s.report with nodesUpdated := s.report.nodesUpdated + 1 } }
      else
        { s with
          db := db
          report :=
            { s.report with
              nodesSkippedAlreadyEmbedded := s.report.nodesSkippedAlreadyEmbedded + 1 } }

def recordBatchError (s : RunState ν) (batch : List NullEmbeddingNode) (message : List Char) :
    RunState ν :=
  batch.foldl (fun s node => recordNodeError s node.id message) s

def mismatchMessage (results texts : Nat) : List Char :=
  "embedder returned ".toList ++ (toString results).toList ++ " results for ".toList ++
    (toString texts).toList ++ " texts".toList

def processBatch (calls : Calls ν) (s : RunState ν) (batch : List NullEmbeddingNode) :
    RunState ν :=
  let texts := batch.map fun node => nodeTextForEmbedding node.entityName node.description
  match calls.embedBatch s.rounds texts with
  | .error err => recordBatchError s batch err
  | .ok perNode =>
    if perNode.length ≠ batch.length then
      recordBatchError s batch (mismatchMessage perNode.length batch.length)
    else (batch.zip perNode).foldl (applyEmbedding calls) s

/-- The calls of `embed_text`, one text after the other. -/
def embedEach (embedText : Nat → List Char → Except (List Char) ν) (texts : List (List Char)) :
    List (Except (List Char) ν) :=
  texts.mapIdx embedText

/-- The embedder of the production run. -/
def embedBatchWithFallback (embedTexts : List (List Char) → Except (List Char) (List ν))
    (embedText : Nat → List Char → Except (List Char) ν) (texts : List (List Char)) :
    Except (List Char) (List (Except (List Char) ν)) :=
  if texts.isEmpty then .ok []
  else
    match embedTexts texts with
    | .ok embeddings =>
      if embeddings.length ≠ texts.length then .ok (embedEach embedText texts)
      else .ok (embeddings.map .ok)
    | .error _ => .ok (embedEach embedText texts)

section Fallback

variable {embedTexts : Nat → List (List Char) → Except (List Char) (List ν)}
  {embedText : Nat → Nat → List Char → Except (List Char) ν} {calls : Calls ν} {s : RunState ν}

/-- There is one result for each text, and an error among them is that of the call for the text
alone. -/
theorem embedBatchWithFallback_spec (embedTexts : List (List Char) → Except (List Char) (List ν))
    (embedText : Nat → List Char → Except (List Char) ν) (texts : List (List Char)) :
    ∃ results, embedBatchWithFallback embedTexts embedText texts = .ok results ∧
      results.length = texts.length ∧
      ∀ i err, results[i]? = some (.error err) →
        ∃ text, texts[i]? = some text ∧ embedText i text = .error err := by
  have heach : (embedEach embedText texts).length = texts.length ∧
      ∀ i err, (embedEach embedText texts)[i]? = some (.error err) →
        ∃ text, texts[i]? = some text ∧ embedText i text = .error err := by
    refine ⟨List.length_mapIdx, fun i err h => ?_⟩
    rw [embedEach, List.getElem?_mapIdx] at h
    exact Option.map_eq_some_iff.mp h
  unfold embedBatchWithFallback
  split
  next hempty =>
    rw [List.isEmpty_iff.mp hempty]
    exact ⟨[], rfl, rfl, fun i err h => by cases h⟩
  next =>
    split
    next embeddings _ =>
      split
      next => exact ⟨_, rfl, heach⟩
      next hlen =>
        refine ⟨_, rfl, (List.length_map _).trans (by omega), fun i err h => ?_⟩
        rw [List.getElem?_map] at h
        obtain ⟨_, -, h⟩ := Option.map_eq_some_iff.mp h
        cases h
    next => exact ⟨_, rfl, heach⟩

theorem applyEmbedding_rounds (item : NullEmbeddingNode × Except (List Char) ν) :
    (applyEmbedding calls s item).rounds = s.rounds := by
  unfold applyEmbedding
  split
  next => rfl
  next =>
    split
    next => rfl
    next =>
      dsimp only
      split
      · rfl
      · rfl

theorem mem_recordNodeError {nodeId id : Nat} {message : List Char}
    (h : id ∈ (recordNodeError s nodeId message).excludeIds) : id ∈ s.excludeIds ∨ nodeId = id :=
  (List.mem_append.mp h).imp_right fun hid => (List.mem_singleton.mp hid).symm

theorem applyEmbedding_excluded {item : NullEmbeddingNode × Except (List Char) ν} {id : Nat}
    (h : id ∈ (applyEmbedding calls s item).excludeIds) : id ∈ s.excludeIds ∨
      item.1.id = id ∧ ((∃ err, item.2 = .error err) ∨ ∃ err, calls.update s.rounds id = some err) := by
  unfold applyEmbedding at h
  split at h
  next err herr => exact (mem_recordNodeError h).imp_right fun hid => ⟨hid, .inl ⟨err, herr⟩⟩
  next =>
    split at h
    next err herr =>
      exact (mem_recordNodeError h).imp_right fun hid => ⟨hid, .inr ⟨err, hid ▸ herr⟩⟩
    next =>
      dsimp only at h
      split at h
      · exact .inl h
      · exact .inl h

theorem foldl_applyEmbedding_excluded {items : List (NullEmbeddingNode × Except (List Char) ν)}
    {id : Nat} (h : id ∈ (items.foldl (applyEmbedding calls) s).excludeIds) :
    id ∈ s.excludeIds ∨ ∃ item ∈ items, item.1.id = id ∧
      ((∃ err, item.2 = .error err) ∨ ∃ err, calls.update s.rounds id = some err) := by
  induction items generalizing s with
  | nil => exact .inl h
  | cons item items ih =>
    rcases ih h with hold | ⟨later, hlater, hid, hfailed⟩
    · exact (applyEmbedding_excluded hold).imp_right fun hown => ⟨item, List.mem_cons_self, hown⟩
    · rw [applyEmbedding_rounds] at hfailed
      exact .inr ⟨later, List.mem_cons_of_mem _ hlater, hid, hfailed⟩

/-- In the production run a node drops out for its own text or its own row only: a text that cannot
be embedded does not spoil its batch. -/
theorem processBatch_excluded (hfallback : ∀ round texts, calls.embedBatch round texts =
      embedBatchWithFallback (embedTexts round) (embedText round) texts)
    {batch : List NullEmbeddingNode} {id : Nat}
    (h : id ∈ (processBatch calls s batch).excludeIds) :
    id ∈ s.excludeIds ∨ ∃ i node, batch[i]? = some node ∧ node.id = id ∧
      ((∃ err, embedText s.rounds i
          (nodeTextForEmbedding node.entityName node.description) = .error err) ∨
        ∃ err, calls.update s.rounds id = some err) := by
  obtain ⟨results, hresults, hlength, herrors⟩ := embedBatchWithFallback_spec (embedTexts s.rounds)
    (embedText s.rounds) (batch.map fun node => nodeTextForEmbedding node.entityName node.description)
  rw [List.length_map] at hlength
  have hbatch : processBatch calls s batch =
      (batch.zip results).foldl (applyEmbedding calls) s := by
    unfold processBatch
    dsimp only
    rw [hfallback, hresults]
    exact if_neg fun hne => hne hlength
  rw [hbatch] at h
  refine (foldl_applyEmbedding_excluded h).imp_right ?_
  rintro ⟨⟨node, result⟩, hitem, rfl, hfailed⟩
  obtain ⟨i, hi⟩ := List.mem_iff_getElem?.mp hitem
  obtain ⟨hnode, hresult⟩ := List.getElem?_zip_eq_some.mp hi
  refine ⟨i, node, hnode, rfl, hfailed.imp_left ?_⟩
  rintro ⟨err, rfl⟩
  obtain ⟨text, htext, herr⟩ := herrors i err hresult
  rw [List.getElem?_map, hnode] at htext
  cases htext
  exact ⟨err, herr⟩

end Fallback

/-- The loop; `none` when the fuel is used up. -/
def processBatches (options : BackfillGraphNodeEmbeddingsOptions) (calls : Calls ν) :
    Nat → RunState ν →
      Option (Except (List Char) BackfillGraphNodeEmbeddingsReport × Database ν)
  | 0, _ => none
  | fuel + 1, s =>
    match fetchNullEmbeddingBatch options calls s with
    | .error err => some (.error err, s.db)
    | .ok batch =>
      if batch.isEmpty then some (.ok s.report, s.db)
      else processBatches options calls fuel
        { processBatch calls s batch with rounds := s.rounds + 1 }

/-- The state in which the loop starts. -/
def initialState (options : BackfillGraphNodeEmbeddingsOptions) (db : Database ν) : RunState ν :=
  let counts := countNullEmbeddingsByWorkspace options db
  { db := db
    report :=
      { applied := options.allowApply
        workspaceFilter := options.workspaceId
        batchSize := max options.batchSize 1
        nodesFound := (counts.map WorkspaceNullEmbeddingCount.nullCount).sum
        countsByWorkspace := counts
        nodesUpdated := 0
        nodesSkippedAlreadyEmbedded := 0
        errorCount := 0
        errorSamples := [] }
    excludeIds := []
    rounds := 0 }

/-- The outcome of a run and the tables it leaves. -/
def backfillGraphNodeEmbeddingsWithEmbedder (options : BackfillGraphNodeEmbeddingsOptions)
    (calls : Calls ν) (fuel : Nat) (db : Database ν) :
    Option (Except (List Char) BackfillGraphNodeEmbeddingsReport × Database ν) :=
  match calls.count with
  | some err => some (.error err, db)
  | none =>
    let s := initialState options db
    if !options.allowApply || s.report.nodesFound == 0 then some (.ok s.report, db)
    else processBatches options calls fuel s

section Limit

theorem max_one_ne_zero (n : UInt64) : max n 1 ≠ 0 := by
  have hmax : max n 1 = if n ≤ 1 then 1 else n := rfl
  intro h
  rw [hmax] at h
  split at h
  next => cases h
  next hle =>
    subst h
    exact hle (by decide)

theorem limit_ne_zero (options : BackfillGraphNodeEmbeddingsOptions) : options.limit ≠ 0 := by
  intro h
  have hzero : (max options.batchSize 1).toInt64 = 0 := Int64.toInt_inj.mp h
  refine max_one_ne_zero options.batchSize ?_
  rw [← UInt64.toUInt64_toInt64 (max options.batchSize 1), hzero]
  rfl

end Limit

/-- A row before the run and after it: a vector that was there stays, one that was not may come. -/
structure Filled (n m : GraphNode ν) : Prop where
  rest : m = { n with embedding := m.embedding }
  kept : n.embedding.isSome → m.embedding = n.embedding

theorem Filled.refl (n : GraphNode ν) : Filled n n := ⟨rfl, fun _ => rfl⟩

theorem Filled.trans {n m k : GraphNode ν} (h : Filled n m) (h' : Filled m k) : Filled n k := by
  refine ⟨?_, fun hn => ?_⟩
  · have hm := h.rest
    have hk := h'.rest
    rw [hm] at hk
    exact hk
  · have hm := h.kept hn
    exact (h'.kept (by rwa [hm])).trans hm

theorem embedIfNull_filled (nodeId : Nat) (embedding : ν) (n : GraphNode ν) :
    Filled n (embedIfNull nodeId embedding n) := by
  unfold embedIfNull
  split
  next h =>
    refine ⟨rfl, fun hsome => ?_⟩
    rw [Option.isNone_iff_eq_none.mp h.2] at hsome
    cases hsome
  next => exact .refl n

/-- The run writes nothing but vectors of node rows. -/
def Fills (db db' : Database ν) : Prop :=
  ∃ f : GraphNode ν → GraphNode ν, (∀ n, Filled n (f n)) ∧
    db' = { db with nodes := db.nodes.map f }

theorem Fills.refl (db : Database ν) : Fills db db :=
  ⟨id, Filled.refl, by rw [List.map_id]⟩

theorem Fills.trans {db₁ db₂ db₃ : Database ν} (h : Fills db₁ db₂) (h' : Fills db₂ db₃) :
    Fills db₁ db₃ := by
  obtain ⟨f, hf, rfl⟩ := h
  obtain ⟨g, hg, rfl⟩ := h'
  refine ⟨g ∘ f, fun n => (hf n).trans (hg (f n)), ?_⟩
  rw [List.map_map]

theorem updateNodeEmbedding_fills (db : Database ν) (nodeId : Nat) (embedding : ν) :
    Fills db (updateNodeEmbedding db nodeId embedding).1 :=
  ⟨embedIfNull nodeId embedding, embedIfNull_filled nodeId embedding, rfl⟩

section Run

variable {options : BackfillGraphNodeEmbeddingsOptions} {calls : Calls ν} {s t : RunState ν}

theorem Filled.pending_of_pending {n m : GraphNode ν} (h : Filled n m)
    {excluded excluded' : List Nat} (hsub : excluded ⊆ excluded') (hm : pending options excluded' m) :
    pending options excluded n := by
  have hrest := h.rest
  simp only [pending, missing, Bool.and_eq_true, Bool.not_eq_true', Option.isNone_iff_eq_none,
    List.contains_eq_mem, decide_eq_false_iff_not] at hm ⊢
  obtain ⟨⟨hnull, hscope⟩, hout⟩ := hm
  rw [hrest] at hscope hout
  refine ⟨⟨?_, hscope⟩, fun hin => hout (hsub hin)⟩
  by_contra hsome
  have hkept := h.kept (Option.isSome_iff_ne_none.mpr hsome)
  exact hsome (hkept.symm.trans hnull)

/-- What a round does to the state. -/
structure Advances (s t : RunState ν) : Prop where
  fills : Fills s.db t.db
  excluded : s.excludeIds ⊆ t.excludeIds
  errors : s.report.errorCount + t.excludeIds.length = t.report.errorCount + s.excludeIds.length

theorem Advances.refl (s : RunState ν) : Advances s s := ⟨.refl _, fun _ h => h, rfl⟩

theorem Advances.trans {u : RunState ν} (h : Advances s t) (h' : Advances t u) : Advances s u :=
  ⟨h.fills.trans h'.fills, fun _ hid => h'.excluded (h.excluded hid), by
    have hs := h.errors
    have ht := h'.errors
    omega⟩

/-- No batch to come holds a node of the id. -/
def Settled (options : BackfillGraphNodeEmbeddingsOptions) (s : RunState ν) (id : Nat) : Prop :=
  ∀ n ∈ s.db.nodes, n.id = id → pending options s.excludeIds n = false

theorem Settled.advances {id : Nat} (h : Settled options s id) (hadv : Advances s t) :
    Settled options t id := by
  obtain ⟨f, hf, hdb⟩ := hadv.fills
  intro m hm hid
  rw [hdb] at hm
  obtain ⟨n, hn, rfl⟩ := List.mem_map.mp hm
  have hrest := (hf n).rest
  rw [hrest] at hid
  have hold := h n hn hid
  by_contra hpend
  rw [Bool.not_eq_false] at hpend
  rw [(hf n).pending_of_pending hadv.excluded hpend] at hold
  cases hold

theorem recordNodeError_advances (s : RunState ν) (id : Nat) (message : List Char) :
    Advances s (recordNodeError s id message) := by
  refine ⟨.refl _, List.subset_append_left .., ?_⟩
  simp only [recordNodeError, List.length_append, List.length_singleton]
  omega

theorem recordNodeError_settled (s : RunState ν) (id : Nat) (message : List Char) :
    Settled options (recordNodeError s id message) id := by
  intro n _ hid
  simp [pending, recordNodeError, hid]

theorem updateNodeEmbedding_settled (options : BackfillGraphNodeEmbeddingsOptions)
    (db : Database ν) (id : Nat) (embedding : ν) (excluded : List Nat) :
    ∀ n ∈ (updateNodeEmbedding db id embedding).1.nodes, n.id = id →
      pending options excluded n = false := by
  intro m hm hid
  obtain ⟨n, -, rfl⟩ := List.mem_map.mp hm
  unfold embedIfNull at hid ⊢
  split
  next => rfl
  next h =>
    rw [if_neg h] at hid
    have hnone : n.embedding.isNone = false := by
      rw [← Bool.not_eq_true]
      exact fun hnull => h ⟨hid, hnull⟩
    rw [pending, missing, hnone]
    rfl

theorem recordNodeError_spec (s : RunState ν) (id : Nat) (message : List Char) :
    Advances s (recordNodeError s id message) ∧
      Settled options (recordNodeError s id message) id :=
  ⟨recordNodeError_advances s id message, recordNodeError_settled s id message⟩

theorem applyEmbedding_spec (options : BackfillGraphNodeEmbeddingsOptions) (s : RunState ν)
    (item : NullEmbeddingNode × Except (List Char) ν) :
    Advances s (applyEmbedding calls s item) ∧
      Settled options (applyEmbedding calls s item) item.1.id := by
  unfold applyEmbedding
  split
  next err _ => exact recordNodeError_spec s item.1.id err
  next embedding _ =>
    split
    next err _ => exact recordNodeError_spec s item.1.id _
    next =>
      have hfills := updateNodeEmbedding_fills s.db item.1.id embedding
      have hset := updateNodeEmbedding_settled options s.db item.1.id embedding s.excludeIds
      dsimp only
      split
      · exact ⟨⟨hfills, fun _ h => h, rfl⟩, hset⟩
      · exact ⟨⟨hfills, fun _ h => h, rfl⟩, hset⟩

/-- A pass over items, each of which advances the state and settles its id. -/
theorem foldl_spec {α : Type} (id : α → Nat) (f : RunState ν → α → RunState ν)
    (hf : ∀ s a, Advances s (f s a) ∧ Settled options (f s a) (id a)) (s : RunState ν)
    (items : List α) :
    Advances s (items.foldl f s) ∧ ∀ a ∈ items, Settled options (items.foldl f s) (id a) := by
  induction items generalizing s with
  | nil => exact ⟨.refl s, fun a ha => by cases ha⟩
  | cons a items ih =>
    obtain ⟨hadv, hset⟩ := hf s a
    obtain ⟨hrest, hall⟩ := ih (f s a)
    refine ⟨hadv.trans hrest, fun b hb => ?_⟩
    rcases List.mem_cons.mp hb with rfl | hb
    · exact hset.advances hrest
    · exact hall b hb

theorem recordBatchError_spec (s : RunState ν) (batch : List NullEmbeddingNode)
    (message : List Char) :
    Advances s (recordBatchError s batch message) ∧
      ∀ node ∈ batch, Settled options (recordBatchError s batch message) node.id := by
  unfold recordBatchError
  exact foldl_spec NullEmbeddingNode.id (fun s node => recordNodeError s node.id message)
    (fun s node => recordNodeError_spec s node.id message) s batch

/-- A round settles every node of its batch. -/
theorem processBatch_spec (options : BackfillGraphNodeEmbeddingsOptions) (calls : Calls ν)
    (s : RunState ν) (batch : List NullEmbeddingNode) :
    Advances s (processBatch calls s batch) ∧
      ∀ node ∈ batch, Settled options (processBatch calls s batch) node.id := by
  unfold processBatch
  dsimp only
  split
  next err _ => exact recordBatchError_spec s batch err
  next perNode _ =>
    split
    next => exact recordBatchError_spec s batch _
    next hlen =>
      obtain ⟨hadv, hset⟩ := foldl_spec (fun item => item.1.id) (applyEmbedding calls)
        (applyEmbedding_spec options) s (batch.zip perNode)
      refine ⟨hadv, fun node hnode => ?_⟩
      have hzip : (batch.zip perNode).map Prod.fst = batch := List.map_fst_zip (by omega)
      rw [← hzip] at hnode
      obtain ⟨item, hitem, rfl⟩ := List.mem_map.mp hnode
      exact hset item hitem

/-- The rows that batches to come may take. -/
def pendingCount (options : BackfillGraphNodeEmbeddingsOptions) (s : RunState ν) : Nat :=
  s.db.nodes.countP (pending options s.excludeIds)

theorem pendingCount_lt {n : GraphNode ν} (hadv : Advances s t) (hn : n ∈ s.db.nodes)
    (hpend : pending options s.excludeIds n) (hset : Settled options t n.id) :
    pendingCount options t < pendingCount options s := by
  obtain ⟨f, hf, hdb⟩ := hadv.fills
  have hmono : ∀ m, (pending options t.excludeIds ∘ f) m → pending options s.excludeIds m :=
    fun m hm => (hf m).pending_of_pending hadv.excluded hm
  have hdone : ¬ (pending options t.excludeIds ∘ f) n := by
    rw [Bool.not_eq_true]
    refine hset (f n) ?_ ?_
    · rw [hdb]
      exact List.mem_map_of_mem hn
    · rw [(hf n).rest]
  rw [pendingCount, pendingCount, hdb, List.countP_map]
  obtain ⟨before, after, hnodes⟩ := List.append_of_mem hn
  rw [hnodes, List.countP_append, List.countP_append, List.countP_cons_of_neg hdone,
    List.countP_cons_of_pos hpend]
  have hbefore := List.countP_mono_left (fun m (_ : m ∈ before) => hmono m)
  have hafter := List.countP_mono_left (fun m (_ : m ∈ after) => hmono m)
  omega

theorem fetchNullEmbeddingBatch_spec {batch : List NullEmbeddingNode}
    (h : fetchNullEmbeddingBatch options calls s = .ok batch) :
    (∀ node ∈ batch, ∃ n ∈ s.db.nodes, pending options s.excludeIds n ∧ n.id = node.id) ∧
      (batch = [] → ∀ n ∈ s.db.nodes, pending options s.excludeIds n = false) := by
  unfold fetchNullEmbeddingBatch at h
  split at h
  next => cases h
  next =>
    split at h
    next => cases h
    next hlimit =>
      cases h
      refine ⟨fun node hnode => ?_, fun hempty => ?_⟩
      · have hrow := (List.mem_insertionSort _).mp (List.mem_of_mem_take hnode)
        obtain ⟨n, hn, rfl⟩ := List.mem_map.mp hrow
        exact ⟨n, (List.mem_filter.mp hn).1, (List.mem_filter.mp hn).2, rfl⟩
      · have hpos : options.limit.toNat ≠ 0 := by
          have := limit_ne_zero options
          omega
        rw [List.take_eq_nil_iff, or_iff_right hpos, ← List.length_eq_zero_iff,
          List.length_insertionSort, List.length_map, List.length_eq_zero_iff,
          List.filter_eq_nil_iff] at hempty
        simpa using hempty

/-- Every round lowers the number of rows that batches to come may take. -/
theorem processBatches_returns (options : BackfillGraphNodeEmbeddingsOptions) (calls : Calls ν)
    (fuel : Nat) (hfuel : pendingCount options s < fuel) :
    ∃ outcome, processBatches options calls fuel s = some outcome := by
  induction fuel generalizing s with
  | zero => omega
  | succ fuel ih =>
    rw [processBatches]
    split
    next err _ => exact ⟨_, rfl⟩
    next batch hbatch =>
      split
      next => exact ⟨_, rfl⟩
      next hempty =>
        obtain ⟨node, rest, rfl⟩ := List.exists_cons_of_ne_nil (by simpa using hempty)
        obtain ⟨n, hn, hpend, hid⟩ :=
          (fetchNullEmbeddingBatch_spec hbatch).1 node List.mem_cons_self
        obtain ⟨hadv, hset⟩ := processBatch_spec options calls s (node :: rest)
        have hlt := pendingCount_lt hadv hn hpend (hid ▸ hset node List.mem_cons_self)
        refine ih (lt_of_lt_of_le ?_ (Nat.lt_succ_iff.mp hfuel))
        exact hlt

theorem processBatches_fills {fuel : Nat} {outcome}
    (h : processBatches options calls fuel s = some outcome) : Fills s.db outcome.2 := by
  induction fuel generalizing s with
  | zero => cases h
  | succ fuel ih =>
    rw [processBatches] at h
    split at h
    next =>
      cases h
      exact .refl s.db
    next batch _ =>
      split at h
      next =>
        cases h
        exact .refl s.db
      next =>
        have hround := (processBatch_spec options calls s batch).1.fills
        have hrest := ih h
        exact hround.trans hrest

/-- A run without errors leaves no row in its scope without a vector. -/
theorem processBatches_complete {fuel : Nat} {report : BackfillGraphNodeEmbeddingsReport}
    {db' : Database ν} (hexcluded : s.excludeIds.length = s.report.errorCount)
    (h : processBatches options calls fuel s = some (.ok report, db'))
    (herrors : report.errorCount = 0) : ∀ n ∈ db'.nodes, missing options n = false := by
  induction fuel generalizing s with
  | zero => cases h
  | succ fuel ih =>
    rw [processBatches] at h
    split at h
    next => cases h
    next batch hbatch =>
      split at h
      next hempty =>
        cases h
        intro n hn
        have hnone := (fetchNullEmbeddingBatch_spec hbatch).2 (by simpa using hempty) n hn
        have hids : s.excludeIds = [] := List.length_eq_zero_iff.mp (hexcluded.trans herrors)
        simpa [pending, hids] using hnone
      next =>
        have hround := (processBatch_spec options calls s batch).1.errors
        refine ih ?_ h
        dsimp only
        omega

end Run

section Backfill

variable {options : BackfillGraphNodeEmbeddingsOptions} {calls : Calls ν} {fuel : Nat}
  {db db' : Database ν} {report : BackfillGraphNodeEmbeddingsReport}

/-- The counts of the workspaces add up to the rows without a vector. -/
theorem initialState_nodesFound (options : BackfillGraphNodeEmbeddingsOptions)
    (db : Database ν) :
    (initialState options db).report.nodesFound = db.nodes.countP (missing options) := by
  have hsum : (initialState options db).report.nodesFound =
      ((countNullEmbeddingsByWorkspace options db).map
        WorkspaceNullEmbeddingCount.nullCount).sum := rfl
  have hperm := List.perm_insertionSort (· ≤ ·)
    ((db.nodes.filter (missing options)).map GraphNode.workspaceId).dedup
  rw [hsum, countNullEmbeddingsByWorkspace, List.map_map, (hperm.map _).sum_eq,
    List.countP_eq_length_filter]
  exact (List.sum_map_count_dedup_eq_length _).trans (List.length_map _)

theorem backfill_cases {outcome}
    (h : backfillGraphNodeEmbeddingsWithEmbedder options calls fuel db = some outcome) :
    (outcome.2 = db ∧ ∀ report, outcome.1 = .ok report → options.allowApply = true →
        ∀ n ∈ db.nodes, missing options n = false) ∨
      processBatches options calls fuel (initialState options db) = some outcome := by
  unfold backfillGraphNodeEmbeddingsWithEmbedder at h
  split at h
  next =>
    cases h
    exact .inl ⟨rfl, fun _ hout => by cases hout⟩
  next =>
    dsimp only at h
    split at h
    next hstop =>
      cases h
      refine .inl ⟨rfl, fun _ _ hallow => ?_⟩
      have hzero : (initialState options db).report.nodesFound = 0 := by
        simpa [hallow] using hstop
      rw [initialState_nodesFound, List.countP_eq_zero] at hzero
      simpa using hzero
    next => exact .inr h

/-- A run returns, whatever the calls answer. -/
theorem backfill_returns (options : BackfillGraphNodeEmbeddingsOptions) (calls : Calls ν)
    (fuel : Nat) (db : Database ν) (hfuel : db.nodes.length < fuel) :
    ∃ outcome, backfillGraphNodeEmbeddingsWithEmbedder options calls fuel db = some outcome := by
  unfold backfillGraphNodeEmbeddingsWithEmbedder
  split
  next => exact ⟨_, rfl⟩
  next =>
    dsimp only
    split
    next => exact ⟨_, rfl⟩
    next =>
      have hcount : pendingCount options (initialState options db) ≤ db.nodes.length :=
        List.countP_le_length
      exact processBatches_returns options calls fuel (lt_of_le_of_lt hcount hfuel)

theorem backfill_fills {outcome}
    (h : backfillGraphNodeEmbeddingsWithEmbedder options calls fuel db = some outcome) :
    Fills db outcome.2 := by
  rcases backfill_cases h with ⟨hdb, -⟩ | hrun
  · rw [hdb]
    exact .refl db
  · exact processBatches_fills hrun

/-- In apply mode a run without errors leaves every node row in its scope with a vector. -/
theorem backfill_complete (hallow : options.allowApply = true)
    (h : backfillGraphNodeEmbeddingsWithEmbedder options calls fuel db = some (.ok report, db'))
    (herrors : report.errorCount = 0) : ∀ n ∈ db'.nodes, missing options n = false := by
  rcases backfill_cases h with ⟨hdb, hnone⟩ | hrun
  · have hdb' : db' = db := hdb
    rw [hdb']
    exact hnone report rfl hallow
  · exact processBatches_complete rfl hrun herrors

end Backfill

section Candidates

variable {rules : TextRules} {db db' : Database ν} {workspaceId : Nat}

theorem Fills.visibleNodes (h : Fills db db') (workspaceId : Nat) (visible : List Nat) :
    visibleNodes db' workspaceId visible = visibleNodes db workspaceId visible := by
  obtain ⟨f, hf, rfl⟩ := h
  unfold Graph.visibleNodes
  rw [List.filterMap_map]
  congr 1
  funext n
  simp only [Function.comp_apply]
  rw [(hf n).rest]
  rfl

/-- The vector branch has a node of the workspace for a candidate, whichever documents that name it
are visible. -/
def Searchable (db : Database ν) (workspaceId : Nat) : Prop :=
  ∀ visible : List Nat, ∀ n ∈ db.nodes, n.workspaceId = workspaceId →
    (∃ s ∈ db.nodeSources, s.graphNodeId = n.id ∧ s.documentId ∈ visible) →
    ∃ row ∈ embeddedNodes db workspaceId visible fun embedding => embedding, row.1.id = n.id

theorem exists_embeddedNode_iff {visible : List Nat} {id : Nat} :
    (∃ row ∈ embeddedNodes db workspaceId visible fun embedding => embedding, row.1.id = id) ↔
      ∃ n ∈ db.nodes, n.workspaceId = workspaceId ∧ n.id = id ∧
        ∃ s, nodeProvenance db workspaceId visible id = some s ∧ s.embedding.isSome := by
  simp only [embeddedNodes, Graph.visibleNodes, List.mem_filterMap, Option.map_eq_some_iff,
    Option.ite_none_right_eq_some]
  constructor
  · rintro ⟨_, ⟨_, ⟨n, hn, hws, s, hs, rfl⟩, v, hv, rfl⟩, rfl⟩
    exact ⟨n, hn, hws, rfl, s, hs, Option.isSome_iff_exists.mpr ⟨v, hv⟩⟩
  · rintro ⟨n, hn, hws, rfl, s, hs, hsome⟩
    obtain ⟨v, hv⟩ := Option.isSome_iff_exists.mp hsome
    exact ⟨_, ⟨_, ⟨n, hn, hws, s, hs, rfl⟩, v, hv, rfl⟩, rfl⟩

theorem mem_of_nodeProvenance {visible : List Nat} {id : Nat} {s : NodeSource ν}
    (h : nodeProvenance db workspaceId visible id = some s) :
    s ∈ db.nodeSources ∧ s.graphNodeId = id ∧ s.workspaceId = workspaceId ∧
      s.documentId ∈ visible := by
  have hmem := List.mem_filter.mp (List.argmin_mem h)
  simpa [and_assoc] using hmem

theorem nodeProvenance_isSome {visible : List Nat} {s : NodeSource ν} (hs : s ∈ db.nodeSources)
    (hws : s.workspaceId = workspaceId) (hvisible : s.documentId ∈ visible) :
    ∃ s', nodeProvenance db workspaceId visible s.graphNodeId = some s' := by
  refine Option.ne_none_iff_exists'.mp fun hnone => ?_
  have hempty := List.argmin_eq_none.mp hnone
  rw [List.filter_eq_nil_iff] at hempty
  exact hempty s hs (by simp [hws, hvisible])

/-- The search can find the nodes of a workspace exactly if their sources have vectors. -/
theorem searchable_iff (hwf : db.WellFormed rules) :
    Searchable db workspaceId ↔
      ∀ s ∈ db.nodeSources, s.workspaceId = workspaceId → s.embedding.isSome := by
  constructor
  · intro h s hs hws
    obtain ⟨l, hl, hid, hlws⟩ := hwf.nodeOfSource s hs
    obtain ⟨n, hn, rfl⟩ := List.mem_map.mp hl
    have hrow := h [s.documentId] n hn (hlws.trans hws)
      ⟨s, hs, hid.symm, List.mem_singleton_self _⟩
    obtain ⟨_, _, _, _, s', hs', hsome⟩ := exists_embeddedNode_iff.mp hrow
    obtain ⟨hmem, hnode, _, hdocument⟩ := mem_of_nodeProvenance hs'
    have hkey : s'.key = s.key :=
      Prod.ext (hnode.trans hid) (List.mem_singleton.mp hdocument)
    rwa [List.inj_on_of_nodup_map hwf.nodeSourceKeys hmem hs hkey] at hsome
  · intro h visible n hn hws hsource
    obtain ⟨s, hs, hid, hvisible⟩ := hsource
    have hsws : s.workspaceId = workspaceId :=
      (hwf.node_of_source (List.mem_map_of_mem hn) hs hid).trans hws
    obtain ⟨s', hs'⟩ := nodeProvenance_isSome hs hsws hvisible
    obtain ⟨hmem, _, hws', _⟩ := mem_of_nodeProvenance hs'
    rw [hid] at hs'
    exact exists_embeddedNode_iff.mpr ⟨n, hn, hws, rfl, s', hs', h s' hmem hws'⟩

theorem Fills.searchable_iff (h : Fills db db') :
    Searchable db' workspaceId ↔ Searchable db workspaceId := by
  have hnodes : ∀ visible,
      (embeddedNodes db' workspaceId visible fun embedding => embedding) =
        embeddedNodes db workspaceId visible fun embedding => embedding := fun visible => by
    rw [embeddedNodes, h.visibleNodes, embeddedNodes]
  obtain ⟨f, hf, rfl⟩ := h
  unfold Searchable
  simp only [hnodes]
  have hrow : ∀ n, (f n).workspaceId = n.workspaceId ∧ (f n).id = n.id := fun n => by
    rw [(hf n).rest]
    exact ⟨rfl, rfl⟩
  simp only [List.forall_mem_map, (hrow _).1, (hrow _).2]

/-- After a run, whatever it reports, the search can find the nodes of a workspace exactly if every
source row of it had a vector before. -/
theorem backfill_searchable_iff {options : BackfillGraphNodeEmbeddingsOptions} {calls : Calls ν}
    {fuel : Nat} {outcome} (hwf : db.WellFormed rules)
    (h : backfillGraphNodeEmbeddingsWithEmbedder options calls fuel db = some outcome)
    (workspaceId : Nat) :
    Searchable outcome.2 workspaceId ↔
      ∀ s ∈ db.nodeSources, s.workspaceId = workspaceId → s.embedding.isSome :=
  (backfill_fills h).searchable_iff.trans (searchable_iff hwf)

end Candidates

section Legacy

/-- A node without a vector, and the one document that names it. -/
def legacy : Database Nat where
  nodes := [⟨0, 7, ['a', 'c', 'm', 'e'], none, none, none⟩]
  edges := []
  nodeSources := [⟨0, 2, 7, none, none, none⟩]
  edgeSources := []
  nextId := 1

theorem legacy_wellFormed : legacy.WellFormed asciiRules where
  nodeIds := by decide
  nodeKeys := List.nodup_singleton _
  edgeIds := List.nodup_nil
  edgeKeys := List.nodup_nil
  nodeSourceKeys := by decide
  edgeSourceKeys := List.nodup_nil
  nodeBound := by decide
  edgeBound := by decide
  sourceEnd := by simp [legacy, edgeLabels]
  targetEnd := by simp [legacy, edgeLabels]
  nodeOfSource := by simp [legacy, nodeLabels, GraphNode.label]
  edgeOfSource := by simp [legacy]

def applyAll : BackfillGraphNodeEmbeddingsOptions :=
  { BackfillGraphNodeEmbeddingsOptions.default with allowApply := true }

/-- Every call succeeds, and every text has the same vector. -/
def steadyCalls : Calls Nat where
  count := none
  fetch := fun _ => none
  embedBatch := fun _ texts => .ok (texts.map fun _ => .ok 5)
  update := fun _ _ => none

/-- The same node, its source written with a vector. -/
def sourced : Database Nat := { legacy with nodeSources := [⟨0, 2, 7, none, none, some 3⟩] }

theorem legacy_unsearchable : legacy.WellFormed asciiRules ∧ ∃ report db',
    backfillGraphNodeEmbeddingsWithEmbedder applyAll steadyCalls 2 legacy =
        some (.ok report, db') ∧
      report.applied = true ∧ report.nodesUpdated = 1 ∧ report.errorCount = 0 ∧
      report.nodesSkippedAlreadyEmbedded = 0 ∧
      ¬ Searchable db' 7 := by
  refine ⟨legacy_wellFormed, _, _, rfl, rfl, rfl, rfl, rfl, fun h => ?_⟩
  have hrow := h [2] _ List.mem_cons_self rfl ⟨_, List.mem_cons_self, rfl, List.mem_cons_self⟩
  obtain ⟨row, hrow, -⟩ := hrow
  cases hrow

theorem sourced_wellFormed : sourced.WellFormed asciiRules :=
  { legacy_wellFormed with
    nodeSourceKeys := by decide
    nodeOfSource := by simp [sourced, legacy, nodeLabels, GraphNode.label] }

theorem backfill_searchable_sourced : ∃ outcome,
    backfillGraphNodeEmbeddingsWithEmbedder applyAll steadyCalls 2 sourced = some outcome ∧
      Searchable outcome.2 7 := by
  obtain ⟨outcome, hrun⟩ := backfill_returns applyAll steadyCalls 2 sourced (by decide)
  refine ⟨outcome, hrun, (backfill_searchable_iff sourced_wellFormed hrun 7).mpr fun s hs _ => ?_⟩
  rw [List.mem_singleton.mp hs]
  rfl

end Legacy

end GmragApi.Graph.Backfill

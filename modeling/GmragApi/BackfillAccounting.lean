import GmragApi.EmbeddingBackfill

/-! What a run of the embedding backfill attempts, beside other sessions that write vectors. -/

namespace GmragApi.Graph.Backfill

open Database

variable {ν : Type}

/-- What other sessions do to the database before a batch is fetched and before a vector is written:
they may write vectors that are missing. -/
structure OtherSessions (ν : Type) where
  beforeFetch : Nat → Database ν → Database ν
  beforeUpdate : Nat → Nat → Database ν → Database ν
  fetchFills : ∀ round db, Fills db (beforeFetch round db)
  updateFills : ∀ round id db, Fills db (beforeUpdate round id db)

/-- The run has the database to itself. -/
def OtherSessions.none : OtherSessions ν where
  beforeFetch := fun _ db => db
  beforeUpdate := fun _ _ db => db
  fetchFills := fun _ db => .refl db
  updateFills := fun _ _ db => .refl db

def applyEmbeddingAmong (others : OtherSessions ν) (calls : Calls ν) (s : RunState ν)
    (item : NullEmbeddingNode × Except (List Char) ν) : RunState ν :=
  applyEmbedding calls { s with db := others.beforeUpdate s.rounds item.1.id s.db } item

def processBatchAmong (others : OtherSessions ν) (calls : Calls ν) (s : RunState ν)
    (batch : List NullEmbeddingNode) : RunState ν :=
  let texts := batch.map fun node => nodeTextForEmbedding node.entityName node.description
  match calls.embedBatch s.rounds texts with
  | .error err => recordBatchError s batch err
  | .ok perNode =>
    if perNode.length ≠ batch.length then
      recordBatchError s batch (mismatchMessage perNode.length batch.length)
    else (batch.zip perNode).foldl (applyEmbeddingAmong others calls) s

/-- The loop, and the nodes of all its batches. -/
def processBatchesAmong (others : OtherSessions ν) (options : BackfillGraphNodeEmbeddingsOptions)
    (calls : Calls ν) : Nat → RunState ν →
      Option (List NullEmbeddingNode × Except (List Char) BackfillGraphNodeEmbeddingsReport ×
        Database ν)
  | 0, _ => none
  | fuel + 1, s =>
    let s := { s with db := others.beforeFetch s.rounds s.db }
    match fetchNullEmbeddingBatch options calls s with
    | .error err => some ([], .error err, s.db)
    | .ok batch =>
      if batch.isEmpty then some ([], .ok s.report, s.db)
      else
        (processBatchesAmong others options calls fuel
          { processBatchAmong others calls s batch with rounds := s.rounds + 1 }).map
            fun run => (batch ++ run.1, run.2)

/-- The nodes that a run attempts, its outcome and the tables it leaves. -/
def backfillAmong (others : OtherSessions ν) (options : BackfillGraphNodeEmbeddingsOptions)
    (calls : Calls ν) (fuel : Nat) (db : Database ν) :
    Option (List NullEmbeddingNode × Except (List Char) BackfillGraphNodeEmbeddingsReport ×
      Database ν) :=
  match calls.count with
  | some err => some ([], .error err, db)
  | none =>
    let s := initialState options db
    if !options.allowApply || s.report.nodesFound == 0 then some ([], .ok s.report, db)
    else processBatchesAmong others options calls fuel s

section Alone

theorem processBatchesAmong_none (options : BackfillGraphNodeEmbeddingsOptions) (calls : Calls ν)
    (fuel : Nat) (s : RunState ν) :
    (processBatchesAmong .none options calls fuel s).map Prod.snd =
      processBatches options calls fuel s := by
  induction fuel generalizing s with
  | zero => rfl
  | succ fuel ih =>
    rw [processBatchesAmong, processBatches]
    dsimp only [OtherSessions.none]
    cases hfetch : fetchNullEmbeddingBatch options calls s with
    | error err => rfl
    | ok batch =>
      dsimp only
      split
      next => rfl
      next =>
        rw [Option.map_map, ← ih]
        rfl

/-- Alone, the loop is the one of the backfill. -/
theorem backfillAmong_none (options : BackfillGraphNodeEmbeddingsOptions) (calls : Calls ν)
    (fuel : Nat) (db : Database ν) :
    (backfillAmong .none options calls fuel db).map Prod.snd =
      backfillGraphNodeEmbeddingsWithEmbedder options calls fuel db := by
  unfold backfillAmong backfillGraphNodeEmbeddingsWithEmbedder
  cases calls.count with
  | some err => rfl
  | none =>
    dsimp only
    split
    next => rfl
    next => exact processBatchesAmong_none options calls fuel _

end Alone

section Round

variable {options : BackfillGraphNodeEmbeddingsOptions} {calls : Calls ν} {s t : RunState ν}
  {others : OtherSessions ν}

/-- The nodes that the summary accounts for. -/
def BackfillGraphNodeEmbeddingsReport.accounted (r : BackfillGraphNodeEmbeddingsReport) : Nat :=
  r.nodesUpdated + r.nodesSkippedAlreadyEmbedded + r.errorCount

theorem advances_of_fills {db : Database ν} (h : Fills s.db db) : Advances s { s with db := db } :=
  ⟨h, fun _ hid => hid, rfl⟩

theorem applyEmbeddingAmong_spec (options : BackfillGraphNodeEmbeddingsOptions)
    (others : OtherSessions ν) (s : RunState ν) (item : NullEmbeddingNode × Except (List Char) ν) :
    Advances s (applyEmbeddingAmong others calls s item) ∧
      Settled options (applyEmbeddingAmong others calls s item) item.1.id := by
  have hothers : Advances s { s with db := others.beforeUpdate s.rounds item.1.id s.db } :=
    advances_of_fills (others.updateFills s.rounds item.1.id s.db)
  obtain ⟨hadv, hset⟩ := @applyEmbedding_spec ν calls options
    { s with db := others.beforeUpdate s.rounds item.1.id s.db } item
  exact ⟨hothers.trans hadv, hset⟩

theorem recordNodeError_accounted (s : RunState ν) (id : Nat) (message : List Char) :
    (recordNodeError s id message).report.accounted = s.report.accounted + 1 := by
  simp only [recordNodeError, BackfillGraphNodeEmbeddingsReport.accounted]
  omega

theorem applyEmbedding_accounted (calls : Calls ν) (s : RunState ν)
    (item : NullEmbeddingNode × Except (List Char) ν) :
    (applyEmbedding calls s item).report.accounted = s.report.accounted + 1 := by
  unfold applyEmbedding
  split
  next => exact recordNodeError_accounted s _ _
  next =>
    split
    next => exact recordNodeError_accounted s _ _
    next =>
      dsimp only
      split
      · simp only [BackfillGraphNodeEmbeddingsReport.accounted]
        omega
      · simp only [BackfillGraphNodeEmbeddingsReport.accounted]
        omega

theorem applyEmbeddingAmong_accounted (others : OtherSessions ν) (calls : Calls ν)
    (s : RunState ν) (item : NullEmbeddingNode × Except (List Char) ν) :
    (applyEmbeddingAmong others calls s item).report.accounted = s.report.accounted + 1 := by
  unfold applyEmbeddingAmong
  exact applyEmbedding_accounted calls _ item

theorem foldl_accounted {α : Type} (f : RunState ν → α → RunState ν)
    (hf : ∀ s a, (f s a).report.accounted = s.report.accounted + 1) (s : RunState ν)
    (items : List α) :
    (items.foldl f s).report.accounted = s.report.accounted + items.length := by
  induction items generalizing s with
  | nil => rfl
  | cons a items ih =>
    have hrest := ih (f s a)
    have hone := hf s a
    rw [List.foldl_cons, List.length_cons]
    omega

theorem recordBatchError_accounted (s : RunState ν) (batch : List NullEmbeddingNode)
    (message : List Char) :
    (recordBatchError s batch message).report.accounted = s.report.accounted + batch.length := by
  have hone : ∀ (s : RunState ν) (node : NullEmbeddingNode),
      (recordNodeError s node.id message).report.accounted = s.report.accounted + 1 :=
    fun s node => recordNodeError_accounted s node.id message
  unfold recordBatchError
  exact foldl_accounted _ hone s batch

/-- A round accounts for every node of its batch, whatever fails. -/
theorem processBatchAmong_accounted (others : OtherSessions ν) (calls : Calls ν) (s : RunState ν)
    (batch : List NullEmbeddingNode) :
    (processBatchAmong others calls s batch).report.accounted =
      s.report.accounted + batch.length := by
  unfold processBatchAmong
  dsimp only
  split
  next => exact recordBatchError_accounted s batch _
  next perNode _ =>
    split
    next => exact recordBatchError_accounted s batch _
    next hlen =>
      have hzip : (batch.zip perNode).length = batch.length := by
        rw [List.length_zip]
        omega
      rw [← hzip]
      exact foldl_accounted (applyEmbeddingAmong others calls)
        (applyEmbeddingAmong_accounted others calls) s _

/-- A round settles every node of its batch. -/
theorem processBatchAmong_spec (options : BackfillGraphNodeEmbeddingsOptions)
    (others : OtherSessions ν) (calls : Calls ν) (s : RunState ν)
    (batch : List NullEmbeddingNode) :
    Advances s (processBatchAmong others calls s batch) ∧
      ∀ node ∈ batch, Settled options (processBatchAmong others calls s batch) node.id := by
  unfold processBatchAmong
  dsimp only
  split
  next err _ => exact recordBatchError_spec s batch err
  next perNode _ =>
    split
    next => exact recordBatchError_spec s batch _
    next hlen =>
      obtain ⟨hadv, hset⟩ := foldl_spec (fun item => item.1.id) (applyEmbeddingAmong others calls)
        (applyEmbeddingAmong_spec options others) s (batch.zip perNode)
      refine ⟨hadv, fun node hnode => ?_⟩
      have hzip : (batch.zip perNode).map Prod.fst = batch := List.map_fst_zip (by omega)
      rw [← hzip] at hnode
      obtain ⟨item, hitem, rfl⟩ := List.mem_map.mp hnode
      exact hset item hitem

end Round

section Run

variable {options : BackfillGraphNodeEmbeddingsOptions} {calls : Calls ν} {s t : RunState ν}
  {others : OtherSessions ν}

theorem fetchNullEmbeddingBatch_take {batch : List NullEmbeddingNode}
    (h : fetchNullEmbeddingBatch options calls s = .ok batch) :
    ∃ rows : List NullEmbeddingNode, rows.Perm ((s.db.nodes.filter (pending options s.excludeIds)).map
      NullEmbeddingNode.ofRow) ∧ batch = rows.take options.limit.toNat := by
  unfold fetchNullEmbeddingBatch at h
  split at h
  next => cases h
  next =>
    split at h
    next => cases h
    next =>
      cases h
      exact ⟨_, List.perm_insertionSort _ _, rfl⟩

theorem fetchNullEmbeddingBatch_row {batch : List NullEmbeddingNode} {node : NullEmbeddingNode}
    (h : fetchNullEmbeddingBatch options calls s = .ok batch) (hnode : node ∈ batch) :
    ∃ n ∈ s.db.nodes, pending options s.excludeIds n ∧ .ofRow n = node := by
  obtain ⟨rows, hperm, rfl⟩ := fetchNullEmbeddingBatch_take h
  have hrow := hperm.mem_iff.mp (List.mem_of_mem_take hnode)
  obtain ⟨n, hn, rfl⟩ := List.mem_map.mp hrow
  exact ⟨n, (List.mem_filter.mp hn).1, (List.mem_filter.mp hn).2, rfl⟩

theorem fetchNullEmbeddingBatch_nodup {batch : List NullEmbeddingNode}
    (hids : (s.db.nodes.map GraphNode.id).Nodup)
    (h : fetchNullEmbeddingBatch options calls s = .ok batch) :
    (batch.map NullEmbeddingNode.id).Nodup := by
  obtain ⟨rows, hperm, rfl⟩ := fetchNullEmbeddingBatch_take h
  have hrows : (rows.map NullEmbeddingNode.id).Perm
      ((s.db.nodes.filter (pending options s.excludeIds)).map GraphNode.id) := by
    have hmap := hperm.map NullEmbeddingNode.id
    rwa [List.map_map] at hmap
  have hsub := (List.filter_sublist (p := pending options s.excludeIds)
    (l := s.db.nodes)).map GraphNode.id
  have hnodup := hrows.nodup_iff.mpr (hids.sublist hsub)
  exact hnodup.sublist ((List.take_sublist _ _).map _)

theorem Fills.ids {db db' : Database ν} (h : Fills db db') :
    db'.nodes.map GraphNode.id = db.nodes.map GraphNode.id := by
  obtain ⟨f, hf, rfl⟩ := h
  rw [List.map_map]
  refine List.map_congr_left fun n _ => ?_
  rw [Function.comp_apply, (hf n).rest]

/-- A row that batches to come may take was there before, to be taken as it is. -/
theorem Advances.pending_row (h : Advances s t) {m : GraphNode ν} (hm : m ∈ t.db.nodes)
    (hpend : pending options t.excludeIds m) :
    ∃ n ∈ s.db.nodes, pending options s.excludeIds n ∧
      NullEmbeddingNode.ofRow n = NullEmbeddingNode.ofRow m := by
  obtain ⟨f, hf, hdb⟩ := h.fills
  rw [hdb] at hm
  obtain ⟨n, hn, rfl⟩ := List.mem_map.mp hm
  refine ⟨n, hn, (hf n).pending_of_pending h.excluded hpend, ?_⟩
  rw [(hf n).rest]
  rfl

theorem Advances.pendingCount_le (h : Advances s t) :
    pendingCount options t ≤ pendingCount options s := by
  obtain ⟨f, hf, hdb⟩ := h.fills
  rw [pendingCount, pendingCount, hdb, List.countP_map]
  exact List.countP_mono_left fun n _ hn => (hf n).pending_of_pending h.excluded hn

theorem Advances.rounds (h : Advances s t) (rounds : Nat) :
    Advances s { t with rounds := rounds } :=
  ⟨h.fills, h.excluded, h.errors⟩

/-- Every round lowers the number of rows that batches to come may take. -/
theorem processBatchesAmong_returns (others : OtherSessions ν)
    (options : BackfillGraphNodeEmbeddingsOptions) (calls : Calls ν) (fuel : Nat)
    (hfuel : pendingCount options s < fuel) :
    ∃ run, processBatchesAmong others options calls fuel s = some run := by
  induction fuel generalizing s with
  | zero => omega
  | succ fuel ih =>
    have hothers : pendingCount options { s with db := others.beforeFetch s.rounds s.db } ≤
        pendingCount options s :=
      (advances_of_fills (others.fetchFills s.rounds s.db)).pendingCount_le
    rw [processBatchesAmong]
    dsimp only
    split
    next err _ => exact ⟨_, rfl⟩
    next batch hbatch =>
      split
      next => exact ⟨_, rfl⟩
      next hempty =>
        obtain ⟨node, rest, rfl⟩ := List.exists_cons_of_ne_nil (by simpa using hempty)
        obtain ⟨n, hn, hpend, rfl⟩ := fetchNullEmbeddingBatch_row hbatch List.mem_cons_self
        obtain ⟨hadv, hset⟩ := processBatchAmong_spec options others calls
          { s with db := others.beforeFetch s.rounds s.db } (NullEmbeddingNode.ofRow n :: rest)
        have hlt := pendingCount_lt hadv hn hpend (hset _ List.mem_cons_self)
        obtain ⟨run, hrun⟩ := ih (s := { processBatchAmong others calls
          { s with db := others.beforeFetch s.rounds s.db }
            (NullEmbeddingNode.ofRow n :: rest) with rounds := s.rounds + 1 })
          (lt_of_lt_of_le (lt_of_lt_of_le hlt hothers) (Nat.lt_succ_iff.mp hfuel))
        exact ⟨_, by rw [hrun]; rfl⟩

/-- What a run from a state attempts. -/
structure Attempts (options : BackfillGraphNodeEmbeddingsOptions) (s : RunState ν)
    (attempted : List NullEmbeddingNode)
    (outcome : Except (List Char) BackfillGraphNodeEmbeddingsReport) : Prop where
  once : (attempted.map NullEmbeddingNode.id).Nodup
  rows : ∀ node ∈ attempted, ∃ n ∈ s.db.nodes, pending options s.excludeIds n ∧ .ofRow n = node
  accounted : ∀ report, outcome = .ok report →
    report.accounted = s.report.accounted + attempted.length

theorem Attempts.stop {outcome : Except (List Char) BackfillGraphNodeEmbeddingsReport}
    (h : ∀ report, outcome = .ok report → report = s.report) : Attempts options s [] outcome :=
  ⟨List.nodup_nil, fun _ hnode => (by cases hnode), fun report hreport => (by
    rw [h report hreport]
    rfl)⟩

/-- A round before the rest of the run: its batch is settled, so the rest attempts other nodes. -/
theorem Attempts.round {batch attempted : List NullEmbeddingNode}
    {outcome : Except (List Char) BackfillGraphNodeEmbeddingsReport} (hadv : Advances s t)
    (hbatch : (batch.map NullEmbeddingNode.id).Nodup)
    (hrows : ∀ node ∈ batch, ∃ n ∈ s.db.nodes, pending options s.excludeIds n ∧ .ofRow n = node)
    (hset : ∀ node ∈ batch, Settled options t node.id)
    (hcount : t.report.accounted = s.report.accounted + batch.length)
    (h : Attempts options t attempted outcome) : Attempts options s (batch ++ attempted) outcome := by
  refine ⟨?_, fun node hnode => ?_, fun report hreport => ?_⟩
  · rw [List.map_append]
    refine List.Nodup.append hbatch h.once ?_
    intro id hid hid'
    obtain ⟨node, hnode, rfl⟩ := List.mem_map.mp hid
    obtain ⟨node', hnode', hsame⟩ := List.mem_map.mp hid'
    obtain ⟨m, hm, hpend, rfl⟩ := h.rows node' hnode'
    have hnot := hset node hnode m hm hsame
    rw [hpend] at hnot
    cases hnot
  · rcases List.mem_append.mp hnode with hnode | hnode
    · exact hrows node hnode
    · obtain ⟨m, hm, hpend, rfl⟩ := h.rows node hnode
      obtain ⟨n, hn, hpend', hsame⟩ := hadv.pending_row hm hpend
      exact ⟨n, hn, hpend', hsame⟩
  · have hrest := h.accounted report hreport
    rw [List.length_append]
    omega

theorem processBatchesAmong_attempts {fuel : Nat} {attempted : List NullEmbeddingNode} {outcome}
    (hids : (s.db.nodes.map GraphNode.id).Nodup)
    (h : processBatchesAmong others options calls fuel s = some (attempted, outcome)) :
    Attempts options s attempted outcome.1 := by
  induction fuel generalizing s attempted with
  | zero => cases h
  | succ fuel ih =>
    have hothers := advances_of_fills (others.fetchFills s.rounds s.db)
    rw [processBatchesAmong] at h
    dsimp only at h
    split at h
    next =>
      cases h
      exact .stop fun report hreport => by cases hreport
    next batch hbatch =>
      split at h
      next =>
        cases h
        exact .stop fun report hreport => by cases hreport; rfl
      next =>
        obtain ⟨run, hrun, hsplit⟩ := Option.map_eq_some_iff.mp h
        obtain ⟨rfl, rfl⟩ := Prod.mk.inj hsplit
        obtain ⟨hround, hset⟩ := processBatchAmong_spec options others calls
          { s with db := others.beforeFetch s.rounds s.db } batch
        have hadv := hothers.trans hround
        have hids' := hothers.fills.ids ▸ hids
        have hrest := ih (hadv.fills.ids ▸ hids) hrun
        refine Attempts.round (hadv.rounds (s.rounds + 1)) (fetchNullEmbeddingBatch_nodup hids' hbatch) ?_ hset
          (processBatchAmong_accounted others calls _ batch) hrest
        intro node hnode
        obtain ⟨m, hm, hpend, rfl⟩ := fetchNullEmbeddingBatch_row hbatch hnode
        exact hothers.pending_row hm hpend

/-- Rows of other ids stay as they are, and none of them is excluded. -/
structure Leaves (ids : List Nat) (s t : RunState ν) : Prop where
  nodes : ∀ n ∈ s.db.nodes, n.id ∉ ids → n ∈ t.db.nodes
  excluded : ∀ id ∈ t.excludeIds, id ∈ s.excludeIds ∨ id ∈ ids

theorem Leaves.refl (ids : List Nat) (s : RunState ν) : Leaves ids s s :=
  ⟨fun _ hn _ => hn, fun _ hid => .inl hid⟩

theorem Leaves.trans {ids : List Nat} {u : RunState ν} (h : Leaves ids s t)
    (h' : Leaves ids t u) : Leaves ids s u := by
  refine ⟨fun n hn hout => h'.nodes n (h.nodes n hn hout) hout, fun id hid => ?_⟩
  rcases h'.excluded id hid with hold | hnew
  · exact h.excluded id hold
  · exact .inr hnew

theorem Leaves.pending {ids : List Nat} (h : Leaves ids s t) {n : GraphNode ν}
    (hn : n ∈ s.db.nodes) (hout : n.id ∉ ids) (hpend : pending options s.excludeIds n) :
    n ∈ t.db.nodes ∧ pending options t.excludeIds n := by
  refine ⟨h.nodes n hn hout, ?_⟩
  simp only [Backfill.pending, Bool.and_eq_true, Bool.not_eq_true', List.contains_eq_mem,
    decide_eq_false_iff_not] at hpend ⊢
  refine ⟨hpend.1, fun hid => ?_⟩
  rcases h.excluded n.id hid with hold | hnew
  · exact hpend.2 hold
  · exact hout hnew

theorem recordNodeError_leaves {ids : List Nat} {id : Nat} (hid : id ∈ ids) (s : RunState ν)
    (message : List Char) : Leaves ids s (recordNodeError s id message) := by
  refine ⟨fun _ hn _ => hn, fun id' hid' => ?_⟩
  rcases List.mem_append.mp hid' with hold | hnew
  · exact .inl hold
  · rw [List.mem_singleton.mp hnew]
    exact .inr hid

theorem updateNodeEmbedding_leaves {db : Database ν} {id : Nat} {n : GraphNode ν}
    (embedding : ν) (hn : n ∈ db.nodes) (hid : n.id ≠ id) :
    n ∈ (updateNodeEmbedding db id embedding).1.nodes := by
  have hsame : embedIfNull id embedding n = n := if_neg fun h => hid h.1
  exact List.mem_map.mpr ⟨n, hn, hsame⟩

theorem applyEmbedding_leaves {ids : List Nat} (calls : Calls ν) (s : RunState ν)
    (item : NullEmbeddingNode × Except (List Char) ν) (hid : item.1.id ∈ ids) :
    Leaves ids s (applyEmbedding calls s item) := by
  unfold applyEmbedding
  split
  next => exact recordNodeError_leaves hid s _
  next embedding _ =>
    split
    next => exact recordNodeError_leaves hid s _
    next =>
      have hnodes : ∀ n ∈ s.db.nodes, n.id ∉ ids →
          n ∈ (updateNodeEmbedding s.db item.1.id embedding).1.nodes := fun n hn hout =>
        updateNodeEmbedding_leaves embedding hn fun h => hout (h ▸ hid)
      dsimp only
      split
      · exact ⟨hnodes, fun _ h => .inl h⟩
      · exact ⟨hnodes, fun _ h => .inl h⟩

theorem foldl_leaves {α : Type} {ids : List Nat} (id : α → Nat)
    (f : RunState ν → α → RunState ν) (hf : ∀ s a, id a ∈ ids → Leaves ids s (f s a))
    (s : RunState ν) (items : List α) (hitems : ∀ a ∈ items, id a ∈ ids) :
    Leaves ids s (items.foldl f s) := by
  induction items generalizing s with
  | nil => exact .refl ids s
  | cons a items ih =>
    have hfirst := hf s a (hitems a List.mem_cons_self)
    have hrest := ih (f s a) fun b hb => hitems b (List.mem_cons_of_mem a hb)
    exact hfirst.trans hrest

theorem recordBatchError_leaves (s : RunState ν) (batch : List NullEmbeddingNode)
    (message : List Char) :
    Leaves (batch.map NullEmbeddingNode.id) s (recordBatchError s batch message) := by
  have hone : ∀ (s : RunState ν) (node : NullEmbeddingNode),
      node.id ∈ batch.map NullEmbeddingNode.id →
        Leaves (batch.map NullEmbeddingNode.id) s (recordNodeError s node.id message) :=
    fun s node hnode => recordNodeError_leaves hnode s message
  unfold recordBatchError
  exact foldl_leaves NullEmbeddingNode.id _ hone s batch fun node hnode =>
    List.mem_map_of_mem hnode

/-- A round leaves the rows alone that are not in its batch. -/
theorem processBatch_leaves (calls : Calls ν) (s : RunState ν) (batch : List NullEmbeddingNode) :
    Leaves (batch.map NullEmbeddingNode.id) s (processBatch calls s batch) := by
  unfold processBatch
  dsimp only
  split
  next => exact recordBatchError_leaves s batch _
  next perNode _ =>
    split
    next => exact recordBatchError_leaves s batch _
    next =>
      refine foldl_leaves (fun item => item.1.id) (applyEmbedding calls)
        (fun s item hid => applyEmbedding_leaves calls s item hid) s _ fun item hitem => ?_
      have hnode : item.1 ∈ batch := (List.of_mem_zip hitem).1
      exact List.mem_map_of_mem hnode

/-- Alone, a run that no query breaks off attempts every row it could take. -/
theorem processBatchesAmong_none_covers {fuel : Nat} {attempted : List NullEmbeddingNode}
    {report : BackfillGraphNodeEmbeddingsReport} {db' : Database ν}
    (hids : (s.db.nodes.map GraphNode.id).Nodup)
    (h : processBatchesAmong .none options calls fuel s = some (attempted, .ok report, db')) :
    ∀ n ∈ s.db.nodes, pending options s.excludeIds n → NullEmbeddingNode.ofRow n ∈ attempted := by
  induction fuel generalizing s attempted with
  | zero => cases h
  | succ fuel ih =>
    intro n hn hpend
    rw [processBatchesAmong] at h
    dsimp only [OtherSessions.none] at h
    split at h
    next => cases h
    next batch hbatch =>
      split at h
      next hempty =>
        have hnone := (fetchNullEmbeddingBatch_spec hbatch).2 (by simpa using hempty) n hn
        rw [hpend] at hnone
        cases hnone
      next =>
        obtain ⟨run, hrun, hsplit⟩ := Option.map_eq_some_iff.mp h
        obtain ⟨rfl, hout⟩ := Prod.mk.inj hsplit
        have hfills := (processBatch_spec options calls s batch).1.fills
        by_cases hin : n.id ∈ batch.map NullEmbeddingNode.id
        · obtain ⟨node, hnode, hid⟩ := List.mem_map.mp hin
          obtain ⟨m, hm, -, rfl⟩ := fetchNullEmbeddingBatch_row hbatch hnode
          have hsame : m = n := List.inj_on_of_nodup_map hids hm hn hid
          exact List.mem_append_left _ (hsame ▸ hnode)
        · obtain ⟨hn', hpend'⟩ := (processBatch_leaves calls s batch).pending hn hin hpend
          have hrest : processBatchesAmong .none options calls fuel
              { processBatch calls s batch with rounds := s.rounds + 1 } =
                some (run.1, .ok report, db') := by
            rw [← hout]
            exact hrun
          exact List.mem_append_right _ (ih (hfills.ids ▸ hids) hrest n hn' hpend')

end Run

section Accounting

variable {options : BackfillGraphNodeEmbeddingsOptions} {calls : Calls ν} {s : RunState ν}
  {others : OtherSessions ν} {db : Database ν}

/-- No query for a count or for a batch fails; the database refuses a negative `LIMIT`. -/
def QueriesSucceed (options : BackfillGraphNodeEmbeddingsOptions) (calls : Calls ν) : Prop :=
  calls.count = none ∧ (∀ round, calls.fetch round = none) ∧ 0 ≤ options.limit

theorem processBatchesAmong_ok {fuel : Nat} {run} (hqueries : QueriesSucceed options calls)
    (h : processBatchesAmong others options calls fuel s = some run) :
    ∃ report, run.2.1 = .ok report := by
  induction fuel generalizing s run with
  | zero => cases h
  | succ fuel ih =>
    rw [processBatchesAmong] at h
    dsimp only at h
    split at h
    next err hbatch =>
      rw [fetchNullEmbeddingBatch, hqueries.2.1] at hbatch
      dsimp only at hbatch
      rw [if_neg (Int.not_lt.mpr hqueries.2.2)] at hbatch
      cases hbatch
    next =>
      split at h
      next =>
        cases h
        exact ⟨_, rfl⟩
      next =>
        obtain ⟨rest, hrest, rfl⟩ := Option.map_eq_some_iff.mp h
        have hok := ih hrest
        exact hok

theorem backfillAmong_returns (others : OtherSessions ν)
    (options : BackfillGraphNodeEmbeddingsOptions) (calls : Calls ν) (fuel : Nat)
    (db : Database ν) (hfuel : db.nodes.length < fuel) :
    ∃ run, backfillAmong others options calls fuel db = some run := by
  unfold backfillAmong
  split
  next => exact ⟨_, rfl⟩
  next =>
    dsimp only
    split
    next => exact ⟨_, rfl⟩
    next =>
      have hcount : pendingCount options (initialState options db) ≤ db.nodes.length :=
        List.countP_le_length
      exact processBatchesAmong_returns others options calls fuel (lt_of_le_of_lt hcount hfuel)

theorem backfillAmong_cases {fuel : Nat} {run}
    (h : backfillAmong others options calls fuel db = some run) :
    (run.1 = [] ∧ ((∃ err, calls.count = some err) ∧ (∃ err, run.2.1 = .error err) ∨
        run.2.1 = .ok (initialState options db).report ∧ (options.allowApply = true →
          ∀ n ∈ db.nodes, missing options n = false))) ∨
      processBatchesAmong others options calls fuel (initialState options db) = some run := by
  unfold backfillAmong at h
  split at h
  next err hcount =>
    cases h
    exact .inl ⟨rfl, .inl ⟨⟨err, hcount⟩, err, rfl⟩⟩
  next =>
    dsimp only at h
    split at h
    next hstop =>
      cases h
      refine .inl ⟨rfl, .inr ⟨rfl, fun hallow => ?_⟩⟩
      have hzero : (initialState options db).report.nodesFound = 0 := by
        simpa [hallow] using hstop
      rw [initialState_nodesFound, List.countP_eq_zero] at hzero
      simpa using hzero
    next => exact .inr h

theorem initialState_pending (n : GraphNode ν) :
    pending options (initialState options db).excludeIds n = missing options n := by
  simp [pending, initialState]

theorem backfillAmong_attempts {fuel : Nat} {run}
    (hids : (db.nodes.map GraphNode.id).Nodup)
    (h : backfillAmong others options calls fuel db = some run) :
    Attempts options (initialState options db) run.1 run.2.1 := by
  rcases backfillAmong_cases h with ⟨hnone, hstop⟩ | hrun
  · rw [hnone]
    refine .stop fun report hreport => ?_
    rcases hstop with ⟨-, err, herr⟩ | ⟨hok, -⟩
    · rw [herr] at hreport
      cases hreport
    · exact Except.ok.inj (hreport.symm.trans hok)
  · exact processBatchesAmong_attempts hids hrun

theorem backfillAmong_ok {fuel : Nat} {run} (hqueries : QueriesSucceed options calls)
    (h : backfillAmong others options calls fuel db = some run) :
    ∃ report, run.2.1 = .ok report := by
  rcases backfillAmong_cases h with ⟨-, hstop⟩ | hrun
  · rcases hstop with ⟨⟨err, hcount⟩, -⟩ | ⟨hok, -⟩
    · rw [hqueries.1] at hcount
      cases hcount
    · exact ⟨_, hok⟩
  · exact processBatchesAmong_ok hqueries hrun

theorem backfillAmong_none_covers {fuel : Nat} {attempted : List NullEmbeddingNode}
    {report : BackfillGraphNodeEmbeddingsReport} {db' : Database ν}
    (hallow : options.allowApply = true) (hids : (db.nodes.map GraphNode.id).Nodup)
    (h : backfillAmong .none options calls fuel db = some (attempted, .ok report, db')) :
    ∀ n ∈ db.nodes, missing options n → NullEmbeddingNode.ofRow n ∈ attempted := by
  intro n hn hmissing
  rcases backfillAmong_cases h with ⟨-, hstop⟩ | hrun
  · rcases hstop with ⟨-, err, herr⟩ | ⟨-, hnone⟩
    · cases herr
    · rw [hnone hallow n hn] at hmissing
      cases hmissing
  · refine processBatchesAmong_none_covers hids hrun n hn ?_
    rw [initialState_pending]
    exact hmissing

theorem Attempts.perm {attempted : List NullEmbeddingNode}
    {outcome : Except (List Char) BackfillGraphNodeEmbeddingsReport}
    (hids : (db.nodes.map GraphNode.id).Nodup)
    (h : Attempts options (initialState options db) attempted outcome)
    (hcovers : ∀ n ∈ db.nodes, missing options n → NullEmbeddingNode.ofRow n ∈ attempted) :
    attempted.Perm ((db.nodes.filter (missing options)).map NullEmbeddingNode.ofRow) := by
  have hrows : (((db.nodes.filter (missing options)).map NullEmbeddingNode.ofRow).map
      NullEmbeddingNode.id).Nodup := by
    rw [List.map_map]
    exact hids.sublist (List.filter_sublist.map _)
  refine (List.perm_ext_iff_of_nodup h.once.of_map hrows.of_map).mpr fun node => ?_
  constructor
  · intro hnode
    obtain ⟨n, hn, hpend, rfl⟩ := h.rows node hnode
    rw [initialState_pending] at hpend
    exact List.mem_map_of_mem (List.mem_filter.mpr ⟨hn, hpend⟩)
  · intro hnode
    obtain ⟨n, hn, rfl⟩ := List.mem_map.mp hnode
    exact hcovers n (List.mem_filter.mp hn).1 (List.mem_filter.mp hn).2

/-- A run in apply mode returns, attempts a node at most once and accounts for each attempt, whatever
fails and whichever vectors other sessions write. Alone it attempts exactly the rows without a
vector, unless a query breaks it off. -/
theorem backfill_accounts {fuel : Nat} (hallow : options.allowApply = true)
    (hids : (db.nodes.map GraphNode.id).Nodup) (hfuel : db.nodes.length < fuel) :
    (∀ others : OtherSessions ν, ∃ attempted outcome,
      backfillAmong others options calls fuel db = some (attempted, outcome) ∧
        (attempted.map NullEmbeddingNode.id).Nodup ∧
        (QueriesSucceed options calls → ∃ report, outcome.1 = .ok report) ∧
        ∀ report, outcome.1 = .ok report →
          report.nodesUpdated + report.nodesSkippedAlreadyEmbedded + report.errorCount =
            attempted.length) ∧
    ∃ attempted outcome,
      backfillAmong .none options calls fuel db = some (attempted, outcome) ∧
        backfillGraphNodeEmbeddingsWithEmbedder options calls fuel db = some outcome ∧
        ∀ report, outcome.1 = .ok report → attempted.Perm
          ((db.nodes.filter (missing options)).map NullEmbeddingNode.ofRow) := by
  refine ⟨fun others => ?_, ?_⟩
  · obtain ⟨run, hrun⟩ := backfillAmong_returns others options calls fuel db hfuel
    have hattempts := backfillAmong_attempts hids hrun
    refine ⟨run.1, run.2, hrun, hattempts.once, fun hqueries => backfillAmong_ok hqueries hrun,
      fun report hreport => ?_⟩
    have haccounted := hattempts.accounted report hreport
    have hstart : (initialState options db).report.accounted = 0 := rfl
    rw [hstart, Nat.zero_add] at haccounted
    exact haccounted
  · obtain ⟨run, hrun⟩ := backfillAmong_returns .none options calls fuel db hfuel
    have halone := backfillAmong_none options calls fuel db
    rw [hrun] at halone
    refine ⟨run.1, run.2, hrun, halone.symm, fun report hreport => ?_⟩
    obtain ⟨attempted, outcome, db'⟩ := run
    obtain rfl : outcome = .ok report := hreport
    exact (backfillAmong_attempts hids hrun).perm hids
      (backfillAmong_none_covers hallow hids hrun)

/-- Every text fails, in every batch. -/
def failingCalls : Calls Nat where
  count := none
  fetch := fun _ => none
  embedBatch := fun _ texts => .ok (texts.map fun _ => .error ['d', 'o', 'w', 'n'])
  update := fun _ _ => none

theorem backfill_accounts_failing : ∃ attempted outcome,
    backfillAmong .none applyAll failingCalls 2 legacy = some (attempted, outcome) ∧
      (attempted.map NullEmbeddingNode.id).Nodup ∧
      ∃ report, outcome.1 = .ok report ∧ report.nodesUpdated +
        report.nodesSkippedAlreadyEmbedded + report.errorCount = attempted.length ∧
        attempted.Perm ((legacy.nodes.filter (missing applyAll)).map NullEmbeddingNode.ofRow) := by
  obtain ⟨hall, attempted, outcome, hrun, -, hperm⟩ :=
    @backfill_accounts Nat applyAll failingCalls legacy 2 rfl legacy_wellFormed.nodeIds (by decide)
  obtain ⟨attempted', outcome', hrun', honce, hok, haccounted⟩ := hall .none
  obtain ⟨rfl, rfl⟩ := Prod.mk.inj (Option.some.inj (hrun.symm.trans hrun'))
  obtain ⟨report, hreport⟩ := hok ⟨rfl, fun _ => rfl, by decide⟩
  exact ⟨attempted, outcome, hrun, honce, report, hreport, haccounted report hreport,
    hperm report hreport⟩

end Accounting

end GmragApi.Graph.Backfill

import GmragApi.GraphProvenance
import GmragApi.IngestionQueue

/-! What a document has in the tables once an ingestion run has completed it, whatever was there
before: its chunks, its graph sources, and the rows of everything else. -/

namespace GmragApi.Reingestion

open GmragApi.Graph
open Ingestion (Stage)

variable {ν : Type} {rules : TextRules}

structure DocumentChunk (ν : Type) where
  workspaceId : Nat
  documentId : Nat
  chunkIndex : Int
  originalText : List Char
  embedding : ν
  deriving DecidableEq

/-- The unique index on `(workspace_id, document_id, chunk_index)`. -/
def DocumentChunk.key (c : DocumentChunk ν) : Nat × Nat × Int :=
  (c.workspaceId, c.documentId, c.chunkIndex)

def DocumentChunk.update (old new : DocumentChunk ν) : DocumentChunk ν :=
  { old with originalText := new.originalText, embedding := new.embedding }

def DocumentChunk.isOf (workspaceId documentId : Nat) (c : DocumentChunk ν) : Bool :=
  c.workspaceId == workspaceId && c.documentId == documentId

structure Tables (ν : Type) where
  chunks : List (DocumentChunk ν)
  graph : Graph.Database ν

/-- The unique indexes and foreign keys of the tables. -/
structure Tables.WellFormed (rules : TextRules) (t : Tables ν) : Prop where
  chunkKeys : (t.chunks.map DocumentChunk.key).Nodup
  graph : t.graph.WellFormed rules

structure ChunkRow (ν : Type) where
  index : Int
  text : List Char
  embedding : ν

/-- `index as i32`. -/
def asI32 (index : Nat) : Int := (BitVec.ofNat 32 index).toInt

/-- The batches of embeddings put their vectors from their start on; what is beyond the end is
dropped. -/
def placeEmbeddings (count : Nat) (results : List (Nat × List ν)) : List (Option ν) :=
  results.foldl
    (fun ordered result =>
      result.2.zipIdx.foldl
        (fun ordered entry => ordered.set (result.1 + entry.2) (some entry.1)) ordered)
    (List.replicate count none)

/-- `results` come in the order in which the batches end; one that fails fails the stage, and so
does a chunk that is left without a vector. -/
def embedChunksBatched (count : Nat) (results : List (Option (Nat × List ν))) :
    Option (List ν) :=
  (results.mapM id).bind fun results => (placeEmbeddings count results).mapM id

def chunkRowsOf (chunks : List (List Char)) (embeddings : List ν) : List (ChunkRow ν) :=
  (chunks.zip embeddings).mapIdx fun index row => ⟨asI32 index, row.1, row.2⟩

def bulkUpsertDocumentChunks (table : List (DocumentChunk ν)) (workspaceId documentId : Nat)
    (rows : List (ChunkRow ν)) : Option (List (DocumentChunk ν)) :=
  if rows.isEmpty then some table
  else
    Upsert.statement DocumentChunk.key DocumentChunk.update table
      (rows.map fun row => ⟨workspaceId, documentId, row.index, row.text, row.embedding⟩)

def deleteStaleDocumentChunks (table : List (DocumentChunk ν)) (workspaceId documentId : Nat)
    (rows : List (ChunkRow ν)) : List (DocumentChunk ν) :=
  table.filter fun c =>
    !(c.isOf workspaceId documentId && !(rows.map ChunkRow.index).contains c.chunkIndex)

/-- A transaction that fails before its commit is rolled back; a commit that fails may have taken
effect. -/
inductive TxFate
  | done
  | failed (applied : Bool)
  deriving DecidableEq

/-- What the calls of a run come to. -/
structure Calls (ν : Type) where
  chunks : List (List Char)
  embeddings : List (Option (Nat × List ν))
  extractions : List (Int × List GraphElement)
  nodeEmbeddings : List (Option (Nat × List ν))
  setStage : Stage → Bool
  tx : TxFate
  buildPoints : Bool
  stillExists : Bool
  stillExistsAtIndexing : Bool
  deletePoints : Bool
  upsertPoints : Bool
  /-- None where the statement fails, false where the lease is lost. -/
  completes : Option Bool

inductive Outcome
  | completed
  | gone
  | failed
  deriving DecidableEq

/-- The batch with a vector for each node, where it has nodes. -/
def graphBatch (rules : TextRules) (calls : Calls ν) : Option (GraphWriteBatch rules ν) :=
  let batch := fromExtractions rules ν calls.extractions
  if batch.nodes.length > 0 then
    (embedChunksBatched batch.nodes.length calls.nodeEmbeddings).bind (attachNodeEmbeddings batch)
  else some batch

/-- The transaction of a run without chunks. -/
def saveNothing (workspaceId documentId : Nat) (t : Tables ν) : Option (Tables ν) :=
  some { t with graph := clearDocumentOutput t.graph workspaceId documentId }

/-- The transaction of a run with chunks. -/
def saveOutput (workspaceId documentId : Nat) (rows : List (ChunkRow ν))
    (batch : GraphWriteBatch rules ν) (t : Tables ν) : Option (Tables ν) :=
  let graph := clearDocumentOutput t.graph workspaceId documentId
  (bulkUpsertDocumentChunks t.chunks workspaceId documentId rows).bind fun chunks =>
    (bulkUpsertGraph graph workspaceId documentId batch).map fun graph =>
      ⟨deleteStaleDocumentChunks chunks workspaceId documentId rows, graph⟩

/-- The tables after the transaction, and whether the run goes on. -/
def transact (tx : TxFate) (statements : Tables ν → Option (Tables ν)) (t : Tables ν) :
    Tables ν × Bool :=
  match statements t, tx with
  | some t', .done => (t', true)
  | some t', .failed true => (t', false)
  | some _, .failed false => (t, false)
  | none, _ => (t, false)

def completeJobAndDocument (calls : Calls ν) : Outcome :=
  if calls.completes = some true then .completed else .failed

/-- `index_document_outputs`. -/
def indexDocumentOutputs (calls : Calls ν) : Outcome :=
  if !calls.stillExistsAtIndexing then .gone
  else if calls.setStage .indexing && calls.deletePoints && calls.upsertPoints then
    completeJobAndDocument calls
  else .failed

/-- The run, from the chunks on. -/
def processDocument (rules : TextRules) (workspaceId documentId : Nat) (calls : Calls ν)
    (t : Tables ν) : Tables ν × Outcome :=
  if calls.chunks.isEmpty then
    let (t, committed) := transact calls.tx (saveNothing workspaceId documentId) t
    if committed && calls.setStage .indexing && calls.deletePoints && calls.upsertPoints then
      (t, completeJobAndDocument calls)
    else (t, .failed)
  else if !calls.setStage .embedding then (t, .failed)
  else
    match embedChunksBatched calls.chunks.length calls.embeddings with
    | none => (t, .failed)
    | some embeddings =>
      let rows := chunkRowsOf calls.chunks embeddings
      if !calls.setStage .graphExtraction then (t, .failed)
      else
        match graphBatch rules calls with
        | none => (t, .failed)
        | some batch =>
          if !calls.setStage .saving then (t, .failed)
          else
            let (t, committed) := transact calls.tx (saveOutput workspaceId documentId rows batch) t
            if !(committed && calls.buildPoints) then (t, .failed)
            else if !calls.stillExists then (t, .gone)
            else if !calls.setStage .indexing then (t, .failed)
            else (t, indexDocumentOutputs calls)

/-- The database keys an entity by `lower` of the name of its row. -/
def Named (batch : GraphWriteBatch rules ν) (key : List Char) (f : EntityFact ν) : Prop :=
  ∃ n ∈ batch.nodes, rules.lower n.name = key ∧ n.fact = f

def Linked (batch : GraphWriteBatch rules ν) (source target relationship : List Char)
    (f : RelationFact) : Prop :=
  ∃ e ∈ batch.edges, ∃ n ∈ batch.nodes, ∃ m ∈ batch.nodes,
    normalizeKey rules n.name = normalizeKey rules e.source ∧
    normalizeKey rules m.name = normalizeKey rules e.target ∧
    rules.lower n.name = source ∧ rules.lower m.name = target ∧
    rules.lower e.relationship = relationship ∧ e.fact = f

/-- The sources that the batch gets are those of its entities and relationships: the keys of
`to_lowercase`, which find the rows, are the keys of the database. -/
def KeysAgree (batch : GraphWriteBatch rules ν) : Prop :=
  (∀ key f, batch.Tells key f ↔ Named batch key f) ∧
    ∀ source target relationship f, batch.Relates source target relationship f ↔
      Linked batch source target relationship f

/-- The batch of the run; a run without chunks has none. -/
def newBatch (rules : TextRules) (calls : Calls ν) : Option (GraphWriteBatch rules ν) :=
  if calls.chunks.isEmpty then none else graphBatch rules calls

def HasChunk (t : Tables ν) (workspaceId documentId : Nat) (index : Int) (text : List Char) : Prop :=
  ∃ c ∈ t.chunks, c.isOf workspaceId documentId = true ∧ c.chunkIndex = index ∧
    c.originalText = text

/-- The node has no source but those of the document. -/
def NodeLost (workspaceId documentId : Nat) (before : Tables ν) (n : GraphNode ν) : Prop :=
  n.workspaceId = workspaceId ∧ ∀ s ∈ before.graph.nodeSources, s.graphNodeId = n.id →
    s.documentId = documentId

def EdgeLost (workspaceId documentId : Nat) (before : Tables ν) (e : GraphEdge) : Prop :=
  e.workspaceId = workspaceId ∧ ∀ s ∈ before.graph.edgeSources, s.graphEdgeId = e.id →
    s.documentId = documentId

/-- The batch names the entity too, and fills in its row. -/
def NodeShared (workspaceId : Nat) (batch : GraphWriteBatch rules ν) (n : GraphNode ν) : Prop :=
  n.workspaceId = workspaceId ∧ ∃ m ∈ batch.nodes, rules.lower m.name = rules.lower n.entityName

/-- The batch has a relationship of the same name between the same entities. -/
def EdgeShared (workspaceId : Nat) (batch : GraphWriteBatch rules ν) (db : Graph.Database ν)
    (e : GraphEdge) : Prop :=
  e.workspaceId = workspaceId ∧ ∃ x ∈ batch.edges,
    db.HasKey rules e.sourceNodeId (workspaceId, normalizeKey rules x.source) ∧
    db.HasKey rules e.targetNodeId (workspaceId, normalizeKey rules x.target) ∧
    rules.lower x.relationship = rules.lower e.relationship

/-- The tables of a document are the output of the run and nothing else, and what belongs to other
documents is as it was before. -/
structure Exact (rules : TextRules) (workspaceId documentId : Nat) (calls : Calls ν)
    (before after : Tables ν) : Prop where
  chunks : ∀ index text, HasChunk after workspaceId documentId index text ↔
    (index, text) ∈ calls.chunks.mapIdx fun index text => (asI32 index, text)
  nodeSources : ∀ key f, after.graph.Tells rules workspaceId documentId key f ↔
    ∃ batch ∈ newBatch rules calls, Named batch key f
  edgeSources : ∀ source target relationship f,
    after.graph.Relates rules workspaceId documentId source target relationship f ↔
      ∃ batch ∈ newBatch rules calls, Linked batch source target relationship f
  otherChunks : ∀ c, c.isOf workspaceId documentId = false →
    (c ∈ after.chunks ↔ c ∈ before.chunks)
  otherNodeSources : ∀ s : NodeSource ν, ¬ (s.workspaceId = workspaceId ∧ s.documentId = documentId) →
    (s ∈ after.graph.nodeSources ↔ s ∈ before.graph.nodeSources)
  otherEdgeSources : ∀ s : EdgeSource, ¬ (s.workspaceId = workspaceId ∧ s.documentId = documentId) →
    (s ∈ after.graph.edgeSources ↔ s ∈ before.graph.edgeSources)
  nodes : ∀ n ∈ before.graph.nodes, n ∈ after.graph.nodes ∨ NodeLost workspaceId documentId before n ∨
    ∃ batch ∈ newBatch rules calls, n.label ∈ after.graph.nodeLabels ∧
      NodeShared workspaceId batch n
  edges : ∀ e ∈ before.graph.edges, e ∈ after.graph.edges ∨ EdgeLost workspaceId documentId before e ∨
    ∃ batch ∈ newBatch rules calls, e.label ∈ after.graph.edgeLabels ∧
      EdgeShared workspaceId batch after.graph e
  wellFormed : after.WellFormed rules

section Embeddings

variable {α : Type}

theorem length_of_mapM_id {entries : List (Option α)} {values : List α}
    (h : entries.mapM id = some values) : values.length = entries.length := by
  induction entries generalizing values with
  | nil =>
    cases h
    rfl
  | cons entry entries ih =>
    rw [List.mapM_cons] at h
    obtain ⟨value, -, h⟩ := Option.bind_eq_some_iff.mp h
    obtain ⟨rest, hrest, h⟩ := Option.bind_eq_some_iff.mp h
    cases h
    rw [List.length_cons, List.length_cons, ih hrest]

theorem placeEmbeddings_length (count : Nat) (results : List (Nat × List α)) :
    (placeEmbeddings count results).length = count := by
  have hplace (result : Nat × List α) (ordered : List (Option α)) :
      (result.2.zipIdx.foldl
        (fun ordered entry => ordered.set (result.1 + entry.2) (some entry.1)) ordered).length =
          ordered.length := by
    generalize result.2.zipIdx = entries
    induction entries generalizing ordered with
    | nil => rfl
    | cons entry entries ih => rw [List.foldl_cons, ih, List.length_set]
  have hall (ordered : List (Option α)) : (results.foldl
      (fun ordered result => result.2.zipIdx.foldl
        (fun ordered entry => ordered.set (result.1 + entry.2) (some entry.1)) ordered)
      ordered).length = ordered.length := by
    induction results generalizing ordered with
    | nil => rfl
    | cons result results ih => rw [List.foldl_cons, ih, hplace]
  rw [placeEmbeddings, hall, List.length_replicate]

/-- Every chunk has its vector when the stage succeeds. -/
theorem embedChunksBatched_length {count : Nat} {results : List (Option (Nat × List α))}
    {embeddings : List α} (h : embedChunksBatched count results = some embeddings) :
    embeddings.length = count := by
  obtain ⟨placed, -, h⟩ := Option.bind_eq_some_iff.mp h
  rw [length_of_mapM_id h, placeEmbeddings_length]

theorem chunkRowsOf_pairs {chunks : List (List Char)} {embeddings : List α}
    (h : embeddings.length = chunks.length) :
    (chunkRowsOf chunks embeddings).map (fun row => (row.index, row.text)) =
      chunks.mapIdx fun index text => (asI32 index, text) := by
  refine List.ext_getElem (by simp [chunkRowsOf, h]) fun i hi hi' => ?_
  simp [chunkRowsOf]

end Embeddings

section Chunks

variable {table table' : List (DocumentChunk ν)} {workspaceId documentId : Nat}
  {rows : List (ChunkRow ν)} {c : DocumentChunk ν}

theorem isOf_iff : c.isOf workspaceId documentId = true ↔
    c.workspaceId = workspaceId ∧ c.documentId = documentId := by
  simp [DocumentChunk.isOf]

theorem update_key (old new : DocumentChunk ν) : (old.update new).key = old.key := rfl

theorem update_text (old new : DocumentChunk ν) :
    (old.update new).originalText = new.originalText := rfl

/-- The rows of the statement. -/
def proposedChunks (workspaceId documentId : Nat) (rows : List (ChunkRow ν)) :
    List (DocumentChunk ν) :=
  rows.map fun row => ⟨workspaceId, documentId, row.index, row.text, row.embedding⟩

theorem bulkUpsertDocumentChunks_statement (hrows : rows ≠ [])
    (h : bulkUpsertDocumentChunks table workspaceId documentId rows = some table') :
    Upsert.statement DocumentChunk.key DocumentChunk.update table
      (proposedChunks workspaceId documentId rows) = some table' := by
  rwa [bulkUpsertDocumentChunks, if_neg (by simpa using hrows)] at h

theorem mem_deleteStale : c ∈ deleteStaleDocumentChunks table workspaceId documentId rows ↔
    c ∈ table ∧ (c.isOf workspaceId documentId = true → ∃ row ∈ rows, row.index = c.chunkIndex) := by
  rw [deleteStaleDocumentChunks, List.mem_filter]
  cases c.isOf workspaceId documentId <;> simp

/-- Shrinking, growing or as long as before: what is left are the new rows. -/
theorem save_chunks (hrows : rows ≠ [])
    (h : bulkUpsertDocumentChunks table workspaceId documentId rows = some table') (index : Int)
    (text : List Char) :
    (∃ c ∈ deleteStaleDocumentChunks table' workspaceId documentId rows,
      c.isOf workspaceId documentId = true ∧ c.chunkIndex = index ∧ c.originalText = text) ↔
    (index, text) ∈ rows.map fun row => (row.index, row.text) := by
  have hstatement := bulkUpsertDocumentChunks_statement hrows h
  have hmem (row : ChunkRow ν) (hrow : row ∈ rows) :
      (⟨workspaceId, documentId, row.index, row.text, row.embedding⟩ : DocumentChunk ν) ∈
        proposedChunks workspaceId documentId rows := List.mem_map_of_mem hrow
  have htext {c : DocumentChunk ν} {row : ChunkRow ν} (hrow : row ∈ rows) (hc : c ∈ table')
      (hof : c.isOf workspaceId documentId = true) (hindex : c.chunkIndex = row.index) :
      c.originalText = row.text := by
    obtain ⟨hw, hd⟩ := isOf_iff.mp hof
    have hkey : c.key = (workspaceId, documentId, row.index) := by
      rw [DocumentChunk.key, hw, hd, hindex]
    exact Upsert.field_of_proposed update_key update_text hstatement (hmem row hrow) hc hkey
  constructor
  · rintro ⟨c, hc, hof, rfl, rfl⟩
    obtain ⟨htable, hstays⟩ := mem_deleteStale.mp hc
    obtain ⟨row, hrow, hindex⟩ := hstays hof
    refine List.mem_map.mpr ⟨row, hrow, ?_⟩
    rw [htext hrow htable hof hindex.symm, hindex]
  · intro hin
    obtain ⟨row, hrow, hpair⟩ := List.mem_map.mp hin
    cases hpair
    obtain ⟨c, hc, hkey⟩ := Upsert.exists_of_proposed update_key hstatement (hmem row hrow)
    have hof : c.isOf workspaceId documentId = true := by
      refine isOf_iff.mpr ⟨congrArg Prod.fst hkey, congrArg (fun k => k.2.1) hkey⟩
    have hindex : c.chunkIndex = row.index := congrArg (fun k => k.2.2) hkey
    refine ⟨c, mem_deleteStale.mpr ⟨hc, fun _ => ⟨row, hrow, hindex.symm⟩⟩, hof, hindex, ?_⟩
    exact htext hrow hc hof hindex

theorem save_otherChunks (hrows : rows ≠ [])
    (h : bulkUpsertDocumentChunks table workspaceId documentId rows = some table')
    (hother : c.isOf workspaceId documentId = false) :
    c ∈ deleteStaleDocumentChunks table' workspaceId documentId rows ↔ c ∈ table := by
  have hkey : c.key ∉ (proposedChunks workspaceId documentId rows).map DocumentChunk.key := by
    intro hmem
    obtain ⟨new, hnew, heq⟩ := List.mem_map.mp hmem
    obtain ⟨row, -, rfl⟩ := List.mem_map.mp hnew
    have hof : c.isOf workspaceId documentId = true :=
      isOf_iff.mpr ⟨(congrArg Prod.fst heq).symm, (congrArg (fun k => k.2.1) heq).symm⟩
    rw [hother] at hof
    cases hof
  rw [mem_deleteStale, hother,
    Upsert.mem_statement_of_notMem update_key (bulkUpsertDocumentChunks_statement hrows h) hkey]
  simp

theorem save_chunkKeys (hrows : rows ≠ []) (hkeys : (table.map DocumentChunk.key).Nodup)
    (h : bulkUpsertDocumentChunks table workspaceId documentId rows = some table') :
    ((deleteStaleDocumentChunks table' workspaceId documentId rows).map
      DocumentChunk.key).Nodup := by
  have htable := Upsert.statement_keys_nodup update_key hkeys
    (bulkUpsertDocumentChunks_statement hrows h)
  exact htable.sublist (List.filter_sublist.map _)

end Chunks

section Graph

open Graph.Database

variable {db db' : Graph.Database ν} {workspaceId documentId : Nat}
  {batch : GraphWriteBatch rules ν}

theorem clear_wellFormed (hwf : db.WellFormed rules) :
    (clearDocumentOutput db workspaceId documentId).WellFormed rules :=
  (hwf.dropSources workspaceId documentId).deleteUntracked workspaceId

theorem clear_tells (hwf : db.WellFormed rules) (key : List Char) (f : EntityFact ν) :
    ¬ (clearDocumentOutput db workspaceId documentId).Tells rules workspaceId documentId key f := by
  intro h
  have hdropped := hwf.dropSources workspaceId documentId
  have hcleared : (clearDocumentOutput db workspaceId documentId).WellFormed rules :=
    clear_wellFormed hwf
  have hin := within_deleteUntracked (db.dropSources workspaceId documentId) workspaceId
  have hold := (hin.tells_iff hcleared hdropped rfl key f).mpr h
  exact ((hwf.tells_dropSources _ _ _ _).mp hold).2 ⟨rfl, rfl⟩

theorem clear_relates (hwf : db.WellFormed rules) (source target relationship : List Char)
    (f : RelationFact) :
    ¬ (clearDocumentOutput db workspaceId documentId).Relates rules workspaceId documentId source
      target relationship f := by
  intro h
  have hdropped := hwf.dropSources workspaceId documentId
  have hcleared : (clearDocumentOutput db workspaceId documentId).WellFormed rules :=
    clear_wellFormed hwf
  have hin := within_deleteUntracked (db.dropSources workspaceId documentId) workspaceId
  have hold := (hin.relates_iff hcleared hdropped rfl source target relationship f).mpr h
  exact ((hwf.relates_dropSources _ _ _ _ _ _).mp hold).2 ⟨rfl, rfl⟩

/-- A node that the sweep takes has lost its last source with the document. -/
theorem node_kept (hwf : db.WellFormed rules) {sources : List (NodeSource ν)}
    (hsources : ∀ s ∈ sources,
      s ∈ db.nodeSources ∨ s.workspaceId = workspaceId ∧ s.documentId = documentId)
    {n : GraphNode ν} (hn : n ∈ db.nodes) :
    n ∈ (deleteUntrackedGraphItems db workspaceId).nodes ∨
      n.workspaceId = workspaceId ∧ ∀ s ∈ sources, s.graphNodeId = n.id →
        s.documentId = documentId := by
  have hlabel : n.label ∈ db.nodeLabels := List.mem_map_of_mem hn
  by_cases hkept : n.label ∈ (deleteUntrackedGraphItems db workspaceId).nodeLabels
  · obtain ⟨m, hm, hsame⟩ := List.mem_map.mp hkept
    have hid : m.id = n.id := congrArg NodeLabel.id hsame
    have hmem : m ∈ db.nodes := (List.mem_filter.mp hm).1
    rw [List.inj_on_of_nodup_map hwf.nodeRowIds hmem hn hid] at hm
    exact .inl hm
  rw [mem_nodeLabels_deleteUntracked] at hkept
  push Not at hkept
  obtain ⟨hws, hnone, -⟩ := hkept hlabel
  refine .inr ⟨hws, fun s hs hid => ?_⟩
  rcases hsources s hs with hstill | ⟨-, hdoc⟩
  · exact absurd hid (hnone s hstill)
  · exact hdoc

theorem edge_kept (hwf : db.WellFormed rules) {sources : List EdgeSource}
    (hsources : ∀ s ∈ sources,
      s ∈ db.edgeSources ∨ s.workspaceId = workspaceId ∧ s.documentId = documentId)
    {e : GraphEdge} (he : e ∈ db.edges) :
    e ∈ (deleteUntrackedGraphItems db workspaceId).edges ∨
      e.workspaceId = workspaceId ∧ ∀ s ∈ sources, s.graphEdgeId = e.id →
        s.documentId = documentId := by
  have hlabel : e.label ∈ db.edgeLabels := List.mem_map_of_mem he
  by_cases hkept : e.label ∈ (deleteUntrackedGraphItems db workspaceId).edgeLabels
  · obtain ⟨m, hm, hsame⟩ := List.mem_map.mp hkept
    have hid : m.id = e.id := congrArg EdgeLabel.id hsame
    have hmem : m ∈ db.edges := (List.mem_filter.mp hm).1
    rw [List.inj_on_of_nodup_map hwf.edgeRowIds hmem he hid] at hm
    exact .inl hm
  rw [mem_edgeLabels_deleteUntracked] at hkept
  push Not at hkept
  obtain ⟨hws, hnone⟩ := hkept hlabel
  refine .inr ⟨hws, fun s hs hid => ?_⟩
  rcases hsources s hs with hstill | ⟨-, hdoc⟩
  · exact absurd hid (hnone s hstill)
  · exact hdoc

theorem nodeSource_dropped {s : NodeSource ν} (hs : s ∈ db.nodeSources) :
    s ∈ (db.dropSources workspaceId documentId).nodeSources ∨
      s.workspaceId = workspaceId ∧ s.documentId = documentId := by
  rw [mem_dropSources_nodeSources]
  by_cases hof : s.workspaceId = workspaceId ∧ s.documentId = documentId
  · exact .inr hof
  · exact .inl ⟨hs, hof⟩

theorem edgeSource_dropped {s : EdgeSource} (hs : s ∈ db.edgeSources) :
    s ∈ (db.dropSources workspaceId documentId).edgeSources ∨
      s.workspaceId = workspaceId ∧ s.documentId = documentId := by
  rw [mem_dropSources_edgeSources]
  by_cases hof : s.workspaceId = workspaceId ∧ s.documentId = documentId
  · exact .inr hof
  · exact .inl ⟨hs, hof⟩

/-- What the four statements of an ingestion leave, for a document without sources. -/
structure Recorded (workspaceId documentId : Nat) (batch : GraphWriteBatch rules ν)
    (db db' : Graph.Database ν) : Prop where
  wellFormed : db'.WellFormed rules
  tells : ∀ key f, db'.Tells rules workspaceId documentId key f ↔ batch.Tells key f
  relates : ∀ source target relationship f,
    db'.Relates rules workspaceId documentId source target relationship f ↔
      batch.Relates source target relationship f
  otherNodeSources : ∀ s : NodeSource ν, ¬ (s.workspaceId = workspaceId ∧ s.documentId = documentId) →
    (s ∈ db'.nodeSources ↔ s ∈ db.nodeSources)
  otherEdgeSources : ∀ s : EdgeSource, ¬ (s.workspaceId = workspaceId ∧ s.documentId = documentId) →
    (s ∈ db'.edgeSources ↔ s ∈ db.edgeSources)
  nodes : ∀ n ∈ (deleteUntrackedGraphItems db workspaceId).nodes, n ∈ db'.nodes ∨
    n.label ∈ db'.nodeLabels ∧ NodeShared workspaceId batch n
  edges : ∀ e ∈ (deleteUntrackedGraphItems db workspaceId).edges, e ∈ db'.edges ∨
    e.label ∈ db'.edgeLabels ∧ EdgeShared workspaceId batch db' e

section Stages

variable {db₀ db₁ db₂ db₃ : Graph.Database ν} {ids : NodeIds}
  (h : Stages rules workspaceId documentId batch db₀ db₁ db₂ db₃ db' ids)

include h

/-- A node stays as it is unless the batch names its entity. -/
theorem node_stays {n : GraphNode ν} (hn : n ∈ db₀.nodes) :
    n ∈ db'.nodes ∨ n.label ∈ db'.nodeLabels ∧ NodeShared workspaceId batch n := by
  by_cases hnamed : n.key rules ∈ (proposedNodes db₀ workspaceId batch.nodes).map
      (GraphNode.key rules)
  · refine .inr ⟨h.within.nodes (List.mem_map_of_mem hn), ?_⟩
    rw [proposedNodes_keys] at hnamed
    obtain ⟨m, hm, hkey⟩ := List.mem_map.mp hnamed
    obtain ⟨hws, hname⟩ := Prod.ext_iff.mp hkey
    exact ⟨hws.symm, m, hm, hname⟩
  · have htable := (bulkUpsertGraphNodes_table h.nodes).1
    rw [h.nodes_eq]
    exact .inl ((Upsert.mem_statement_of_notMem GraphNode.update_key htable hnamed).mpr hn)

/-- An edge stays as it is unless the batch names its relation. -/
theorem edge_stays {e : GraphEdge} (he : e ∈ db₀.edges) :
    e ∈ db'.edges ∨ e.label ∈ db'.edgeLabels ∧ EdgeShared workspaceId batch db' e := by
  have hedges₂ : db₂.edges = db₀.edges := by
    rw [h.append₂, (bulkUpsertGraphNodes_table h.nodes).2.1]
  by_cases hnamed : e.key rules ∈ (proposedEdges db₂ workspaceId
      (resolveEdges rules ids batch.edges)).map (GraphEdge.key rules)
  · refine .inr ⟨h.within.edges (List.mem_map_of_mem he), ?_⟩
    obtain ⟨new, hnew, hkey⟩ := List.mem_map.mp hnamed
    obtain ⟨i, hi, rfl⟩ := List.mem_mapIdx.mp hnew
    simp only [GraphEdge.key, Prod.mk.injEq] at hkey
    obtain ⟨hws, hsource, htarget, hrelationship⟩ := hkey
    have hin := List.getElem_mem hi
    generalize (resolveEdges rules ids batch.edges)[i] = resolved at *
    obtain ⟨a, b, x⟩ := resolved
    obtain ⟨hx, hla, hlb⟩ := mem_resolveEdges.mp hin
    have ha := ((h.resolves₃.lookup _ _).mp hla).2
    have hb := ((h.resolves₃.lookup _ _).mp hlb).2
    rw [show a = e.sourceNodeId from hsource] at ha
    rw [show b = e.targetNodeId from htarget] at hb
    exact ⟨hws.symm, x, hx, h.within'.hasKey ha, h.within'.hasKey hb, hrelationship⟩
  · have htable := (bulkUpsertGraphEdges_table h.edges).1
    rw [h.edges_eq]
    exact .inl ((Upsert.mem_statement_of_notMem GraphEdge.update_key htable hnamed).mpr
      (hedges₂ ▸ he))

end Stages

theorem bulkUpsertGraph_recorded (hwf : db.WellFormed rules)
    (htells : ∀ key f, ¬ db.Tells rules workspaceId documentId key f)
    (hrelates : ∀ source target relationship f,
      ¬ db.Relates rules workspaceId documentId source target relationship f)
    (h : bulkUpsertGraph db workspaceId documentId batch = some db') :
    Recorded workspaceId documentId batch db db' := by
  obtain ⟨db₁, db₂, db₃, ids, hstages⟩ := hwf.stages htells hrelates h
  refine
    { wellFormed := hstages.wellFormed'
      tells := fun key f => ?_
      relates := fun source target relationship f => ?_
      otherNodeSources := fun s => hstages.otherNodeSource
      otherEdgeSources := fun s => hstages.otherEdgeSource
      nodes := fun n => node_stays hstages
      edges := fun e => edge_stays hstages }
  · rw [hstages.tells, or_iff_right (hstages.untold₁ key f)]
    exact and_iff_right ⟨rfl, rfl⟩
  · rw [hstages.relates, or_iff_right (hstages.unrelated source target relationship f)]
    exact and_iff_right ⟨rfl, rfl⟩

/-- What becomes of a node when the output of a document is cleared and written anew. -/
theorem Recorded.node_kept (hwf : db.WellFormed rules)
    (h : Recorded workspaceId documentId batch (clearDocumentOutput db workspaceId documentId) db')
    {n : GraphNode ν} (hn : n ∈ db.nodes) :
    n ∈ db'.nodes ∨
      (n.workspaceId = workspaceId ∧ ∀ s ∈ db.nodeSources, s.graphNodeId = n.id →
        s.documentId = documentId) ∨
      n.label ∈ db'.nodeLabels ∧ NodeShared workspaceId batch n := by
  have hdropped := hwf.dropSources workspaceId documentId
  have hsources : ∀ s ∈ db.nodeSources,
      s ∈ (clearDocumentOutput db workspaceId documentId).nodeSources ∨
        s.workspaceId = workspaceId ∧ s.documentId = documentId :=
    fun s hs => nodeSource_dropped hs
  rcases Reingestion.node_kept hdropped (fun s hs => nodeSource_dropped hs) hn with hkept | hlost
  · rcases Reingestion.node_kept (clear_wellFormed hwf) hsources hkept with hkept | hlost
    · exact (h.nodes n hkept).imp_right .inr
    · exact .inr (.inl hlost)
  · exact .inr (.inl hlost)

theorem Recorded.edge_kept (hwf : db.WellFormed rules)
    (h : Recorded workspaceId documentId batch (clearDocumentOutput db workspaceId documentId) db')
    {e : GraphEdge} (he : e ∈ db.edges) :
    e ∈ db'.edges ∨
      (e.workspaceId = workspaceId ∧ ∀ s ∈ db.edgeSources, s.graphEdgeId = e.id →
        s.documentId = documentId) ∨
      e.label ∈ db'.edgeLabels ∧ EdgeShared workspaceId batch db' e := by
  have hdropped := hwf.dropSources workspaceId documentId
  have hsources : ∀ s ∈ db.edgeSources,
      s ∈ (clearDocumentOutput db workspaceId documentId).edgeSources ∨
        s.workspaceId = workspaceId ∧ s.documentId = documentId :=
    fun s hs => edgeSource_dropped hs
  rcases Reingestion.edge_kept hdropped (fun s hs => edgeSource_dropped hs) he with hkept | hlost
  · rcases Reingestion.edge_kept (clear_wellFormed hwf) hsources hkept with hkept | hlost
    · exact (h.edges e hkept).imp_right .inr
    · exact .inr (.inl hlost)
  · exact .inr (.inl hlost)

end Graph

section Agree

/-- Where `lower` reads the names as `to_lowercase` does, the rows of the batch are found. -/
theorem newBatch_keysAgree {calls : Calls ν} {batch : GraphWriteBatch rules ν}
    (hnew : newBatch rules calls = some batch) (hlower : batch.LowerAgrees) : KeysAgree batch := by
  have hextracted : batch.Extracted := by
    unfold newBatch graphBatch at hnew
    by_cases hchunks : calls.chunks.isEmpty = true
    · rw [if_pos hchunks] at hnew
      cases hnew
    rw [if_neg hchunks] at hnew
    by_cases hnodes : (fromExtractions rules ν calls.extractions).nodes.length > 0
    · simp only [if_pos hnodes] at hnew
      obtain ⟨embeddings, -, hattach⟩ := Option.bind_eq_some_iff.mp hnew
      exact ⟨calls.extractions, embeddings, hattach⟩
    · simp only [if_neg hnodes, Option.some.injEq] at hnew
      have hnil : (fromExtractions rules ν calls.extractions).nodes = [] :=
        List.length_eq_zero_iff.mp (by omega)
      refine ⟨calls.extractions, [], ?_⟩
      rw [← hnew, attachNodeEmbeddings, dif_pos (by rw [hnil]; rfl)]
      congr 1
      generalize fromExtractions rules ν calls.extractions = drafted at hnil ⊢
      obtain ⟨nodes, edges, linked⟩ := drafted
      cases hnil
      rfl
  have hname {n : NodeInput ν} (hn : n ∈ batch.nodes) := hextracted.lower_name hlower hn
  refine ⟨fun key f => ?_, fun source target relationship f => ?_⟩
  · rw [hextracted.tells_iff hlower]
    constructor
    · rintro ⟨n, hn, hkey, hfact⟩
      exact ⟨n, hn, (hname hn).trans hkey, hfact⟩
    · rintro ⟨n, hn, hkey, hfact⟩
      exact ⟨n, hn, (hname hn).symm.trans hkey, hfact⟩
  · rw [hextracted.relates_iff hlower]
    constructor
    · rintro ⟨e, he, hsource, htarget, hrest⟩
      obtain ⟨⟨n, hn, hnkey⟩, m, hm, hmkey⟩ := batch.linked e he
      exact ⟨e, he, n, hn, m, hm, hnkey, hmkey, (hname hn).trans (hnkey.trans hsource),
        (hname hm).trans (hmkey.trans htarget), hrest⟩
    · rintro ⟨e, he, n, hn, m, hm, hnkey, hmkey, hsource, htarget, hrest⟩
      exact ⟨e, he, hnkey.symm.trans ((hname hn).symm.trans hsource),
        hmkey.symm.trans ((hname hm).symm.trans htarget), hrest⟩

end Agree

section Run

open Graph.Database

variable {workspaceId documentId : Nat} {calls : Calls ν} {t t' : Tables ν}

theorem transact_committed {tx : TxFate} {statements : Tables ν → Option (Tables ν)}
    (h : transact tx statements t = (t', true)) : statements t = some t' := by
  unfold transact at h
  cases hst : statements t with
  | none =>
    rw [hst] at h
    cases h
  | some result =>
    rw [hst] at h
    cases tx with
    | done =>
      cases h
      rfl
    | failed applied => cases applied <;> cases h

theorem completed_of_empty (hempty : calls.chunks = [])
    (h : processDocument rules workspaceId documentId calls t = (t', .completed)) :
    saveNothing workspaceId documentId t = some t' := by
  unfold processDocument at h
  rw [if_pos (by simp [hempty])] at h
  generalize htx : transact calls.tx (saveNothing workspaceId documentId) t = out at h
  obtain ⟨t₁, committed⟩ := out
  simp only at h
  split at h
  next hon =>
    obtain ⟨rfl, -⟩ := Prod.ext_iff.mp h
    have hcommitted : committed = true := by
      simp only [Bool.and_eq_true] at hon
      exact hon.1.1.1
    rw [hcommitted] at htx
    exact transact_committed htx
  next => cases h

theorem completed_of_chunks (hchunks : calls.chunks ≠ [])
    (h : processDocument rules workspaceId documentId calls t = (t', .completed)) :
    ∃ embeddings batch,
      embedChunksBatched calls.chunks.length calls.embeddings = some embeddings ∧
      graphBatch rules calls = some batch ∧
      saveOutput workspaceId documentId (chunkRowsOf calls.chunks embeddings) batch t =
        some t' := by
  unfold processDocument at h
  rw [if_neg (by simp [hchunks])] at h
  split at h
  · cases h
  cases hembeddings : embedChunksBatched calls.chunks.length calls.embeddings with
  | none =>
    rw [hembeddings] at h
    cases h
  | some embeddings =>
    rw [hembeddings] at h
    simp only at h
    split at h
    · cases h
    cases hbatch : graphBatch rules calls with
    | none =>
      rw [hbatch] at h
      cases h
    | some batch =>
      rw [hbatch] at h
      simp only at h
      split at h
      · cases h
      generalize htx : transact calls.tx (saveOutput workspaceId documentId
        (chunkRowsOf calls.chunks embeddings) batch) t = out at h
      obtain ⟨t₁, committed⟩ := out
      simp only at h
      split at h
      · cases h
      next hon =>
        split at h
        · cases h
        split at h
        · cases h
        obtain ⟨rfl, -⟩ := Prod.ext_iff.mp h
        have hcommitted : committed = true := by
          cases committed <;> simp at hon ⊢
        rw [hcommitted] at htx
        exact ⟨embeddings, batch, rfl, rfl, transact_committed htx⟩

/-- A run that completes the document has committed one of the two transactions. -/
theorem completed_cases
    (h : processDocument rules workspaceId documentId calls t = (t', .completed)) :
    (calls.chunks = [] ∧ saveNothing workspaceId documentId t = some t') ∨
    (calls.chunks ≠ [] ∧ ∃ embeddings batch,
      embedChunksBatched calls.chunks.length calls.embeddings = some embeddings ∧
      graphBatch rules calls = some batch ∧
      saveOutput workspaceId documentId (chunkRowsOf calls.chunks embeddings) batch t =
        some t') := by
  by_cases hempty : calls.chunks = []
  · exact .inl ⟨hempty, completed_of_empty hempty h⟩
  · exact .inr ⟨hempty, completed_of_chunks hempty h⟩

/-- The graph tables of the run without chunks. -/
theorem exact_of_saveNothing (hwf : t.WellFormed rules) (hempty : calls.chunks = [])
    (hsave : saveNothing workspaceId documentId t = some t')
    (hnone : ∀ c ∈ t.chunks, c.isOf workspaceId documentId = false) :
    Exact rules workspaceId documentId calls t t' := by
  cases hsave
  have hbatch : newBatch rules calls = none := by simp [newBatch, hempty]
  refine
    { chunks := fun index text => ?_
      nodeSources := fun key f => ?_
      edgeSources := fun source target relationship f => ?_
      otherChunks := fun c _ => Iff.rfl
      otherNodeSources := fun s hother => ?_
      otherEdgeSources := fun s hother => ?_
      nodes := fun n hn => ?_
      edges := fun e he => ?_
      wellFormed := ⟨hwf.chunkKeys, clear_wellFormed hwf.graph⟩ }
  · rw [hempty]
    refine iff_of_false ?_ List.not_mem_nil
    rintro ⟨c, hc, hof, -⟩
    rw [hnone c hc] at hof
    cases hof
  · rw [hbatch]
    refine iff_of_false (clear_tells hwf.graph key f) ?_
    rintro ⟨batch, hin, -⟩
    cases hin
  · rw [hbatch]
    refine iff_of_false (clear_relates hwf.graph source target relationship f) ?_
    rintro ⟨batch, hin, -⟩
    cases hin
  · exact mem_dropSources_nodeSources.trans (and_iff_left hother)
  · exact mem_dropSources_edgeSources.trans (and_iff_left hother)
  · have hdropped := hwf.graph.dropSources workspaceId documentId
    exact (node_kept hdropped (fun s hs => nodeSource_dropped hs) hn).imp_right .inl
  · have hdropped := hwf.graph.dropSources workspaceId documentId
    exact (edge_kept hdropped (fun s hs => edgeSource_dropped hs) he).imp_right .inl

theorem exact_of_saveOutput (hwf : t.WellFormed rules) (hchunks : calls.chunks ≠ [])
    {embeddings : List ν} {batch : GraphWriteBatch rules ν}
    (hembeddings : embedChunksBatched calls.chunks.length calls.embeddings = some embeddings)
    (hbatch : graphBatch rules calls = some batch)
    (hsave : saveOutput workspaceId documentId (chunkRowsOf calls.chunks embeddings) batch t =
      some t') :
    Exact rules workspaceId documentId calls t t' ↔ KeysAgree batch := by
  have hpairs := chunkRowsOf_pairs (embedChunksBatched_length hembeddings)
  have hrows : chunkRowsOf calls.chunks embeddings ≠ [] := by
    intro hnil
    have hlength := congrArg List.length hpairs
    rw [hnil, List.map_nil, List.length_mapIdx] at hlength
    exact hchunks (List.length_eq_zero_iff.mp hlength.symm)
  have hnew : newBatch rules calls = some batch := by
    rw [newBatch, if_neg (by simpa using hchunks), hbatch]
  obtain ⟨table, htable, hsave⟩ := Option.bind_eq_some_iff.mp hsave
  obtain ⟨graph, hgraph, hsave⟩ := Option.map_eq_some_iff.mp hsave
  subst hsave
  have hcleared : (clearDocumentOutput t.graph workspaceId documentId).WellFormed rules :=
    clear_wellFormed hwf.graph
  have hrecorded := bulkUpsertGraph_recorded hcleared (clear_tells hwf.graph)
    (clear_relates hwf.graph) hgraph
  have hmem (P : GraphWriteBatch rules ν → Prop) :
      (∃ b ∈ newBatch rules calls, P b) ↔ P batch := by
    rw [hnew]
    simp
  constructor
  · intro hexact
    refine ⟨fun key f => ?_, fun source target relationship f => ?_⟩
    · exact (hrecorded.tells key f).symm.trans ((hexact.nodeSources key f).trans (hmem _))
    · exact (hrecorded.relates source target relationship f).symm.trans
        ((hexact.edgeSources source target relationship f).trans (hmem _))
  · intro hagree
    refine
      { chunks := fun index text => ?_
        nodeSources := fun key f =>
          (hrecorded.tells key f).trans ((hagree.1 key f).trans (hmem fun b => Named b key f).symm)
        edgeSources := fun source target relationship f =>
          (hrecorded.relates source target relationship f).trans
            ((hagree.2 source target relationship f).trans
              (hmem fun b => Linked b source target relationship f).symm)
        otherChunks := fun c hother => save_otherChunks hrows htable hother
        otherNodeSources := fun s hother => ?_
        otherEdgeSources := fun s hother => ?_
        nodes := fun n hn => ?_
        edges := fun e he => ?_
        wellFormed := ⟨save_chunkKeys hrows hwf.chunkKeys htable, hrecorded.wellFormed⟩ }
    · rw [← hpairs]
      exact save_chunks hrows htable index text
    · rw [hrecorded.otherNodeSources s hother]
      exact mem_dropSources_nodeSources.trans (and_iff_left hother)
    · rw [hrecorded.otherEdgeSources s hother]
      exact mem_dropSources_edgeSources.trans (and_iff_left hother)
    · refine (hrecorded.node_kept hwf.graph hn).imp_right (Or.imp_right fun hshared => ?_)
      exact (hmem _).mpr hshared
    · refine (hrecorded.edge_kept hwf.graph he).imp_right (Or.imp_right fun hshared => ?_)
      exact (hmem _).mpr hshared

/-- A run that completes the document leaves exactly its output, when a run without chunks finds no
chunks, and the batch of a run with chunks is keyed as the database keys it. -/
theorem processDocument_exact_iff (hwf : t.WellFormed rules)
    (h : processDocument rules workspaceId documentId calls t = (t', .completed)) :
    Exact rules workspaceId documentId calls t t' ↔
      (calls.chunks = [] → ∀ c ∈ t.chunks, c.isOf workspaceId documentId = false) ∧
        ∀ batch ∈ newBatch rules calls, KeysAgree batch := by
  rcases completed_cases h with ⟨hempty, hsave⟩ | ⟨hchunks, embeddings, batch, hembeddings,
    hbatch, hsave⟩
  · have hnew : newBatch rules calls = none := by simp [newBatch, hempty]
    constructor
    · intro hexact
      refine ⟨fun _ c hc => ?_, fun batch hin => ?_⟩
      · by_contra hof
        have hold : HasChunk t' workspaceId documentId c.chunkIndex c.originalText := by
          cases hsave
          exact ⟨c, hc, by simpa using hof, rfl, rfl⟩
        have hin := (hexact.chunks _ _).mp hold
        rw [hempty] at hin
        cases hin
      · rw [hnew] at hin
        cases hin
    · rintro ⟨hnone, -⟩
      exact exact_of_saveNothing hwf hempty hsave (hnone hempty)
  · have hnew : newBatch rules calls = some batch := by
      rw [newBatch, if_neg (by simpa using hchunks), hbatch]
    rw [exact_of_saveOutput hwf hchunks hembeddings hbatch hsave, hnew]
    constructor
    · intro hagree
      refine ⟨fun hempty => absurd hempty hchunks, fun b hb => ?_⟩
      cases hb
      exact hagree
    · exact fun hcond => hcond.2 batch rfl

/-- The document had two chunks when it was ingested before. -/
def ingestedBefore : Tables Nat where
  chunks := [⟨0, 1, 0, ['o', 'n', 'e'], 7⟩, ⟨0, 1, 1, ['t', 'w', 'o'], 7⟩]
  graph := Database.empty

/-- A run in which every call succeeds. -/
def runOver (chunks : List (List Char)) : Calls Nat where
  chunks := chunks
  embeddings := [some (0, chunks.map fun _ => 8)]
  extractions := [(0, [.node ['A', 'c', 'm', 'e'] none none])]
  nodeEmbeddings := [some (0, [9])]
  setStage _ := true
  tx := .done
  buildPoints := true
  stillExists := true
  stillExistsAtIndexing := true
  deletePoints := true
  upsertPoints := true
  completes := some true

theorem ingestedBefore_wellFormed : ingestedBefore.WellFormed asciiRules := by
  have hempty : Database.empty.Refines (Ledger.empty : Ledger asciiRules Nat) := refines_empty
  exact ⟨by decide, hempty.wellFormed⟩

theorem processDocument_exact_shrinking :
    Exact asciiRules 0 1 (runOver [['n', 'e', 'w']]) ingestedBefore
      (processDocument asciiRules 0 1 (runOver [['n', 'e', 'w']]) ingestedBefore).1 := by
  refine (processDocument_exact_iff ingestedBefore_wellFormed
    (Prod.ext rfl (by decide +kernel))).mpr ⟨fun hempty => absurd hempty (by decide), ?_⟩
  exact fun batch hnew => newBatch_keysAgree hnew fun n _ => rfl

/-- The document is emptied, and its run completes with both chunks left in the table. -/
theorem emptied_document_keeps_chunks :
    ingestedBefore.WellFormed asciiRules ∧
    (processDocument asciiRules 0 1 (runOver []) ingestedBefore).2 = .completed ∧
    ¬ Exact asciiRules 0 1 (runOver []) ingestedBefore
      (processDocument asciiRules 0 1 (runOver []) ingestedBefore).1 := by
  refine ⟨ingestedBefore_wellFormed, by decide +kernel, fun hexact => ?_⟩
  have hkept : HasChunk (processDocument asciiRules 0 1 (runOver []) ingestedBefore).1 0 1 0
      ['o', 'n', 'e'] :=
    ⟨⟨0, 1, 0, ['o', 'n', 'e'], 7⟩, by decide +kernel, rfl, rfl, rfl⟩
  exact absurd ((hexact.chunks _ _).mp hkept) List.not_mem_nil

end Run

end GmragApi.Reingestion

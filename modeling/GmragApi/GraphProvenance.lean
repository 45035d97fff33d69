import GmragApi.GraphDisclosure

/-! Every row of the graph is backed by a document whose last batch names it, and a view of the
graph holds the ends of its links. -/

namespace GmragApi.Graph

variable {ν : Type} {rules : TextRules}

/-- What the saving stage writes: the batch of the extractions, each node with its vector. -/
def GraphWriteBatch.Extracted (batch : GraphWriteBatch rules ν) : Prop :=
  ∃ extractions embeddings,
    attachNodeEmbeddings (fromExtractions rules ν extractions) embeddings = some batch

/-- `lower` in the database reads the names of the batch as `to_lowercase` does. -/
def GraphWriteBatch.LowerAgrees (batch : GraphWriteBatch rules ν) : Prop :=
  ∀ n ∈ batch.nodes, rules.lower n.name = rules.toLowercase n.name

/-- The write is one that a run of the ingestion makes. -/
def Write.Extracted : Write rules ν → Prop
  | ingest _ _ batch => batch.Extracted
  | delete _ _ => True

def Write.LowerAgrees : Write rules ν → Prop
  | ingest _ _ batch => batch.LowerAgrees
  | delete _ _ => True

/-- The batch that a document has after the write, when it had `last` before. -/
def Write.batchAfter (workspaceId documentId : Nat) (last : Option (GraphWriteBatch rules ν)) :
    Write rules ν → Option (GraphWriteBatch rules ν)
  | ingest w d batch => if workspaceId = w ∧ documentId = d then some batch else last
  | delete w d => if workspaceId = w ∧ documentId = d then none else last

/-- The batch that was committed last for the document, if it was not deleted since. -/
def lastBatch (workspaceId documentId : Nat) (writes : List (Write rules ν)) :
    Option (GraphWriteBatch rules ν) :=
  writes.foldl (Write.batchAfter workspaceId documentId) none

theorem Ledger.write_extracted (ledger : Ledger rules ν) (workspaceId documentId : Nat)
    (write : Write rules ν) :
    (ledger.write write).extracted workspaceId documentId =
      write.batchAfter workspaceId documentId (ledger.extracted workspaceId documentId) := by
  cases write with
  | ingest w d batch =>
    by_cases hdoc : workspaceId = w ∧ documentId = d
    · simp [Ledger.write, setExtracted, Write.batchAfter, hdoc]
    · simp [Ledger.write, setExtracted, spell, sweep, Write.batchAfter, hdoc]
  | delete w d => rfl

theorem Ledger.extracted_ofWrites (workspaceId documentId : Nat) (writes : List (Write rules ν)) :
    (Ledger.ofWrites writes).extracted workspaceId documentId =
      lastBatch workspaceId documentId writes := by
  have hfold : ∀ ledger : Ledger rules ν,
      (writes.foldl Ledger.write ledger).extracted workspaceId documentId =
        writes.foldl (Write.batchAfter workspaceId documentId)
          (ledger.extracted workspaceId documentId) := by
    induction writes with
    | nil => exact fun _ => rfl
    | cons write writes ih =>
      intro ledger
      rw [List.foldl_cons, ih, Ledger.write_extracted, List.foldl_cons]
  exact hfold Ledger.empty

section Trimmed

/-- The names of a draft have no blanks around them. -/
def Draft.Trimmed (draft : Draft ν) : Prop :=
  ∀ entry ∈ draft.nodes, trim entry.2.name = entry.2.name

theorem Draft.Trimmed.merge {draft : Draft ν} (h : draft.Trimmed) (name : List Char)
    (entityType description : Option (List Char)) :
    ({ draft with nodes := mergeNode rules draft.nodes name entityType description } :
      Draft ν).Trimmed := by
  intro entry hentry
  simp only [mergeNode] at hentry
  split at hentry
  · exact h entry hentry
  · split at hentry
    · obtain ⟨old, hold, rfl⟩ := List.mem_map.mp hentry
      split <;> exact h old hold
    · rcases List.mem_append.mp hentry with hentry | hentry
      · exact h entry hentry
      · rw [List.mem_singleton.mp hentry]
        exact trim_trim name

theorem Draft.Trimmed.add {draft : Draft ν} (h : draft.Trimmed) (element : GraphElement) :
    (draft.add rules element).Trimmed := by
  cases element with
  | node name entityType description => exact h.merge name entityType description
  | edge relationship source target description =>
    simp only [Draft.add]
    split
    · exact h
    · exact (h.merge source none none).merge target none none

theorem draftOf_trimmed (extractions : List (Int × List GraphElement)) :
    (draftOf rules ν extractions).Trimmed := by
  have hfold : ∀ (elements : List GraphElement) (draft : Draft ν), draft.Trimmed →
      (elements.foldl (Draft.add rules) draft).Trimmed := by
    intro elements
    induction elements with
    | nil => exact fun _ h => h
    | cons element elements ih => exact fun draft h => ih _ (h.add element)
  exact hfold _ _ fun _ h => absurd h List.not_mem_nil

/-- Attaching the vectors leaves the names and the edges. -/
theorem attachNodeEmbeddings_names {batch batch' : GraphWriteBatch rules ν} {embeddings : List ν}
    (h : attachNodeEmbeddings batch embeddings = some batch') :
    batch'.nodes.map NodeInput.name = batch.nodes.map NodeInput.name ∧
      batch'.edges = batch.edges := by
  obtain ⟨hlength, hbatch⟩ := Option.dite_none_right_eq_some.mp h
  rw [← Option.some.inj hbatch]
  exact ⟨List.ext_getElem (by simp [hlength]) fun i hi hj => by simp, rfl⟩

theorem GraphWriteBatch.Extracted.trimmed {batch : GraphWriteBatch rules ν} (h : batch.Extracted)
    {n : NodeInput ν} (hn : n ∈ batch.nodes) : trim n.name = n.name := by
  obtain ⟨extractions, embeddings, h⟩ := h
  have hname : n.name ∈ (fromExtractions rules ν extractions).nodes.map NodeInput.name :=
    (attachNodeEmbeddings_names h).1 ▸ List.mem_map_of_mem hn
  obtain ⟨m, hm, hmname⟩ := List.mem_map.mp hname
  obtain ⟨entry, hentry, rfl⟩ := List.mem_map.mp hm
  rw [← hmname]
  exact draftOf_trimmed extractions entry hentry

/-- Both sides read a name of the batch as one key. -/
theorem GraphWriteBatch.Extracted.lower_name {batch : GraphWriteBatch rules ν}
    (h : batch.Extracted) (hlower : batch.LowerAgrees) {n : NodeInput ν} (hn : n ∈ batch.nodes) :
    rules.lower n.name = normalizeKey rules n.name := by
  rw [hlower n hn, normalizeKey, h.trimmed hn]

end Trimmed

section Keyed

/-- The two maps of a draft have each key once, and the edges stand under the keys of their
texts. -/
structure Draft.Keyed (rules : TextRules) (draft : Draft ν) : Prop where
  nodes : (draft.nodes.map Prod.fst).Nodup
  edges : (draft.edges.map Prod.fst).Nodup
  keys : ∀ entry ∈ draft.edges, entry.1 = (normalizeKey rules entry.2.source,
    normalizeKey rules entry.2.target, normalizeKey rules entry.2.relationship)

/-- A key that no entry has is added to the end. -/
theorem nodup_append_of_not_any {κ β : Type} [BEq κ] [LawfulBEq κ] {entries : List (κ × β)}
    (h : (entries.map Prod.fst).Nodup) {entry : κ × β}
    (hnew : ¬ entries.any (·.1 == entry.1) = true) :
    ((entries ++ [entry]).map Prod.fst).Nodup := by
  rw [List.map_append, List.map_singleton]
  refine List.nodup_append.mpr ⟨h, List.nodup_singleton _, fun k hk k' hk' heq => hnew ?_⟩
  obtain ⟨old, hold, rfl⟩ := List.mem_map.mp hk
  rw [List.mem_singleton] at hk'
  exact List.any_eq_true.mpr ⟨old, hold, beq_iff_eq.mpr (heq.trans hk')⟩

theorem mergeNode_nodup (rules : TextRules) {nodes : List (List Char × NodeInput ν)}
    (h : (nodes.map Prod.fst).Nodup) (name : List Char)
    (entityType description : Option (List Char)) :
    ((mergeNode rules nodes name entityType description).map Prod.fst).Nodup := by
  simp only [mergeNode]
  split
  · exact h
  · split
    · have hkeys : ∀ f : List Char × NodeInput ν → NodeInput ν, ∀ key,
          (nodes.map fun entry => if entry.1 == key then (entry.1, f entry) else entry).map
            Prod.fst = nodes.map Prod.fst := by
        intro f key
        rw [List.map_map]
        refine List.map_congr_left fun entry _ => ?_
        rw [Function.comp_apply]
        split <;> rfl
      rw [hkeys]
      exact h
    · next hany => exact nodup_append_of_not_any h hany

theorem Draft.Keyed.add {draft : Draft ν} (h : draft.Keyed rules) (element : GraphElement) :
    (draft.add rules element).Keyed rules := by
  cases element with
  | node name entityType description =>
    exact ⟨mergeNode_nodup rules h.nodes name entityType description, h.edges, h.keys⟩
  | edge relationship source target description =>
    simp only [Draft.add]
    split
    · exact h
    · have hnodes := mergeNode_nodup rules
        (mergeNode_nodup rules h.nodes source none none) target none none
      split
      next => exact ⟨hnodes, h.edges, h.keys⟩
      next hany =>
        refine ⟨hnodes, nodup_append_of_not_any h.edges hany, fun entry hentry => ?_⟩
        rcases List.mem_append.mp hentry with hentry | hentry
        · exact h.keys entry hentry
        · rw [List.mem_singleton.mp hentry, normalizeKey_trim, normalizeKey_trim,
            normalizeKey_trim]

theorem draftOf_keyed (extractions : List (Int × List GraphElement)) :
    (draftOf rules ν extractions).Keyed rules := by
  have hfold : ∀ (elements : List GraphElement) (draft : Draft ν), draft.Keyed rules →
      (elements.foldl (Draft.add rules) draft).Keyed rules := by
    intro elements
    induction elements with
    | nil => exact fun _ h => h
    | cons element elements ih => exact fun draft h => ih _ (h.add element)
  exact hfold _ _ ⟨List.nodup_nil, List.nodup_nil, fun _ h => absurd h List.not_mem_nil⟩

variable {batch : GraphWriteBatch rules ν}

/-- No two nodes of an extracted batch have one key. -/
theorem GraphWriteBatch.Extracted.nodes_nodup (h : batch.Extracted) :
    (batch.nodes.map fun n => normalizeKey rules n.name).Nodup := by
  obtain ⟨extractions, embeddings, h⟩ := h
  have hkeys : batch.nodes.map (fun n => normalizeKey rules n.name) =
      (draftOf rules ν extractions).nodes.map Prod.fst := by
    calc batch.nodes.map (fun n => normalizeKey rules n.name)
        = (batch.nodes.map NodeInput.name).map (normalizeKey rules) := by
          rw [List.map_map, Function.comp_def]
      _ = ((draftOf rules ν extractions).nodes.map fun entry => entry.2.name).map
            (normalizeKey rules) := by
          rw [(attachNodeEmbeddings_names h).1]
          simp only [fromExtractions, List.map_map, Function.comp_def]
      _ = (draftOf rules ν extractions).nodes.map Prod.fst := by
          rw [List.map_map]
          exact List.map_congr_left fun entry hentry =>
            ((draftOf_linked rules extractions).keys entry hentry).symm
  rw [hkeys]
  exact (draftOf_keyed extractions).nodes

theorem GraphWriteBatch.Extracted.edges_nodup (h : batch.Extracted) :
    (batch.edges.map fun e => (normalizeKey rules e.source, normalizeKey rules e.target,
      normalizeKey rules e.relationship)).Nodup := by
  obtain ⟨extractions, embeddings, h⟩ := h
  have hkeyed : (draftOf rules ν extractions).Keyed rules := draftOf_keyed extractions
  have hkeys : batch.edges.map (fun e => (normalizeKey rules e.source,
      normalizeKey rules e.target, normalizeKey rules e.relationship)) =
        (draftOf rules ν extractions).edges.map Prod.fst := by
    rw [(attachNodeEmbeddings_names h).2, fromExtractions, List.map_map]
    exact List.map_congr_left fun entry hentry => (hkeyed.keys entry hentry).symm
  rw [hkeys]
  exact hkeyed.edges

end Keyed

section Batch

variable {batch : GraphWriteBatch rules ν}

theorem GraphWriteBatch.Extracted.returns (h : batch.Extracted) (hlower : batch.LowerAgrees)
    {n : NodeInput ν} (hn : n ∈ batch.nodes) : batch.Returns (normalizeKey rules n.name) :=
  ⟨n, hn, h.lower_name hlower hn⟩

theorem GraphWriteBatch.Extracted.tells_iff (h : batch.Extracted) (hlower : batch.LowerAgrees)
    {key : List Char} {f : EntityFact ν} :
    batch.Tells key f ↔ ∃ n ∈ batch.nodes, normalizeKey rules n.name = key ∧ n.fact = f := by
  refine and_iff_right_of_imp ?_
  rintro ⟨n, hn, rfl, -⟩
  exact h.returns hlower hn

theorem GraphWriteBatch.Extracted.relates_iff (h : batch.Extracted) (hlower : batch.LowerAgrees)
    {source target relationship : List Char} {f : RelationFact} :
    batch.Relates source target relationship f ↔
      ∃ e ∈ batch.edges, normalizeKey rules e.source = source ∧
        normalizeKey rules e.target = target ∧ rules.lower e.relationship = relationship ∧
        e.fact = f := by
  constructor
  · exact fun hrelates => hrelates.2.2
  · rintro ⟨e, he, rfl, rfl, hrest⟩
    obtain ⟨⟨n, hn, hsource⟩, m, hm, htarget⟩ := batch.linked e he
    exact ⟨hsource ▸ h.returns hlower hn, htarget ▸ h.returns hlower hm, e, he, rfl, rfl, hrest⟩

end Batch

namespace Ledger

variable {ledger : Ledger rules ν} {workspaceId documentId : Nat}

/-- Only entities that a document names have a spelling. -/
def Backed (ledger : Ledger rules ν) : Prop :=
  ∀ workspaceId key name, ledger.spelling workspaceId key = some name →
    ledger.Named workspaceId key

/-- Dropping what one document tells, and then the entities that nothing names. -/
theorem Backed.forget (h : ledger.Backed) (workspaceId documentId : Nat) :
    ((ledger.setExtracted workspaceId documentId none).sweep workspaceId).Backed := by
  intro w key name hname
  obtain ⟨hnamed, hname⟩ := sweep_spelling_eq_some.mp hname
  by_cases hw : w = workspaceId
  · exact hnamed hw
  · obtain ⟨d, f, hf⟩ := h w key name hname
    exact ⟨d, f, (tells_setExtracted_none key f).mpr ⟨hf, fun hdoc => hw hdoc.1⟩⟩

theorem Backed.record (h : ledger.Backed) (hnone : ledger.extracted workspaceId documentId = none)
    {batch : GraphWriteBatch rules ν} (hbatch : batch.Extracted) (hlower : batch.LowerAgrees) :
    ((ledger.spell workspaceId batch).setExtracted workspaceId documentId (some batch)).Backed := by
  intro w key name hname
  rcases spell_spelling_eq_some.mp hname with hold | ⟨-, rfl, hnew⟩
  · obtain ⟨d, f, hf⟩ := h w key name hold
    exact ⟨d, f, (tells_setExtracted_some hnone key f).mpr (.inl hf)⟩
  · obtain ⟨n, hn, -⟩ := Option.map_eq_some_iff.mp hnew
    have hkey : rules.lower n.name = key := by simpa using List.find?_some hn
    refine ⟨documentId, n.fact, (tells_setExtracted_some hnone key n.fact).mpr
      (.inr ⟨⟨rfl, rfl⟩, ?_⟩)⟩
    rw [hbatch.tells_iff hlower, ← hkey]
    have hmem := List.mem_of_find?_eq_some hn
    exact ⟨n, hmem, (hbatch.lower_name hlower hmem).symm, rfl⟩

theorem Backed.write (h : ledger.Backed) {write : Write rules ν} (hwrite : write.Extracted)
    (hlower : write.LowerAgrees) : (ledger.write write).Backed := by
  cases write with
  | ingest w d batch => exact (h.forget w d).record (if_pos ⟨rfl, rfl⟩) hwrite hlower
  | delete w d => exact h.forget w d

theorem backed_ofWrites {writes : List (Write rules ν)}
    (hwrites : ∀ write ∈ writes, write.Extracted) (hlower : ∀ write ∈ writes, write.LowerAgrees) :
    (ofWrites writes).Backed := by
  have hfold : ∀ ledger : Ledger rules ν, ledger.Backed →
      (writes.foldl Ledger.write ledger).Backed := by
    induction writes with
    | nil => exact fun _ h => h
    | cons write writes ih =>
      intro ledger h
      have hfirst := h.write (hwrites write List.mem_cons_self) (hlower write List.mem_cons_self)
      exact ih (fun w hw => hwrites w (List.mem_cons_of_mem _ hw))
        (fun w hw => hlower w (List.mem_cons_of_mem _ hw)) _ hfirst
  exact hfold empty fun _ _ _ h => nomatch h

end Ledger

namespace Database

variable {db db' : Database ν} {workspaceId documentId : Nat}

/-- Every edge has a source. -/
def EdgesBacked (db : Database ν) : Prop :=
  ∀ e ∈ db.edgeLabels, ∃ s ∈ db.edgeSources, s.graphEdgeId = e.id

section EdgesBacked

/-- The sources of the document go, and the edges of the workspace that have no other. -/
theorem EdgesBacked.forget (h : db.EdgesBacked) (hwf : db.WellFormed rules)
    (workspaceId documentId : Nat) :
    (clearDocumentOutput db workspaceId documentId).EdgesBacked := by
  intro e he
  obtain ⟨he, hkept⟩ : e ∈ db.edgeLabels ∧ (e.workspaceId = workspaceId →
      ∃ s ∈ (db.dropSources workspaceId documentId).edgeSources, s.graphEdgeId = e.id) :=
    mem_edgeLabels_deleteUntracked.mp he
  by_cases hws : e.workspaceId = workspaceId
  · exact hkept hws
  · obtain ⟨s, hs, hid⟩ := h e he
    refine ⟨s, mem_dropSources_edgeSources.mpr ⟨hs, fun hown => hws ?_⟩, hid⟩
    exact (hwf.edge_of_source he hs hid).symm.trans hown.1

/-- A source that is in the table or proposed is in the result under its key. -/
theorem exists_edgeSource_of_insert {edges : List (Nat × Nat × EdgeInput)}
    (h : insertGraphEdgeSources rules db workspaceId documentId edges = some db') {s : EdgeSource}
    (hs : s ∈ db.edgeSources ∨ s ∈ newEdgeSources rules db workspaceId documentId edges) :
    ∃ s' ∈ db'.edgeSources, s'.graphEdgeId = s.graphEdgeId := by
  obtain ⟨table, htable, rfl⟩ := Option.map_eq_some_iff.mp h
  rcases hs with hs | hs
  · have hmem : s.key ∈ table.map EdgeSource.key := by
      rw [Upsert.map_statement EdgeSource.update_key htable]
      exact List.mem_append_left _ (List.mem_map_of_mem hs)
    obtain ⟨s', hs', hkey⟩ := List.mem_map.mp hmem
    exact ⟨s', hs', congrArg Prod.fst hkey⟩
  · obtain ⟨s', hs', hkey⟩ := Upsert.exists_of_proposed EdgeSource.update_key htable hs
    exact ⟨s', hs', congrArg Prod.fst hkey⟩

theorem EdgesBacked.bulkEdges (h : db.EdgesBacked) {edges : List (Nat × Nat × EdgeInput)}
    {mid : Database ν} (hmid : bulkUpsertGraphEdges rules db workspaceId edges = some mid)
    (hwf : mid.WellFormed rules)
    (h' : insertGraphEdgeSources rules mid workspaceId documentId edges = some db') :
    db'.EdgesBacked := by
  have hlabels : db'.edgeLabels = mid.edgeLabels := by
    obtain ⟨table, -, rfl⟩ := Option.map_eq_some_iff.mp h'
    rfl
  have hsources : mid.edgeSources = db.edgeSources := by
    rw [(bulkUpsertGraphEdges_table hmid).2]
  intro e he
  rw [hlabels] at he
  rcases mem_edgeLabels_bulkEdges hmid he with hold | ⟨new, hnew, rfl⟩
  · obtain ⟨s, hs, hid⟩ := h e hold
    obtain ⟨s', hs', hid'⟩ := exists_edgeSource_of_insert h' (.inl (hsources ▸ hs))
    exact ⟨s', hs', hid'.trans hid⟩
  · obtain ⟨i, hi, hnew⟩ := List.mem_mapIdx.mp hnew
    have hsource : (⟨new.id, documentId, workspaceId, edges[i].2.2.relationship,
        edges[i].2.2.description⟩ : EdgeSource) ∈
          newEdgeSources rules mid workspaceId documentId edges := by
      refine (mem_newEdgeSources hwf).mpr
        ⟨edges[i], List.getElem_mem hi, ⟨new.label, he, rfl, ?_⟩, rfl, rfl, rfl⟩
      rw [← hnew]
      rfl
    exact exists_edgeSource_of_insert h' (.inr hsource)

theorem EdgesBacked.ingest (h : db.EdgesBacked) {ledger : Ledger rules ν} (hr : db.Refines ledger)
    (hnone : ledger.extracted workspaceId documentId = none) {batch : GraphWriteBatch rules ν}
    (h' : bulkUpsertGraph db workspaceId documentId batch = some db') : db'.EdgesBacked := by
  obtain ⟨db₁, db₂, db₃, ids, hstages⟩ := hr.stages hnone h'
  have h₀ : (deleteUntrackedGraphItems db workspaceId).EdgesBacked := fun e he =>
    h e (mem_edgeLabels_deleteUntracked.mp he).1
  have h₁ : db₁.EdgesBacked := by
    rw [(bulkUpsertGraphNodes_table hstages.nodes).2.1]
    exact h₀
  have h₂ : db₂.EdgesBacked := by
    rw [hstages.append₂]
    exact h₁
  exact h₂.bulkEdges hstages.edges hstages.wellFormed₃ hstages.edgeSources

theorem EdgesBacked.step (h : db.EdgesBacked) {ledger : Ledger rules ν} (hr : db.Refines ledger)
    {write : Write rules ν} (h' : Graph.step db write = some db') : db'.EdgesBacked := by
  cases write with
  | ingest w d batch =>
    have hcleared := (hr.dropSources w d).deleteUntracked w
    exact (h.forget hr.wellFormed w d).ingest hcleared (if_pos ⟨rfl, rfl⟩) h'
  | delete w d =>
    cases Option.some.inj h'
    exact h.forget hr.wellFormed w d

theorem EdgesBacked.run (h : db.EdgesBacked) {ledger : Ledger rules ν} (hr : db.Refines ledger)
    {writes : List (Write rules ν)} (h' : Transition.run Graph.step db writes = some db') :
    db'.EdgesBacked := by
  induction writes generalizing db ledger with
  | nil =>
    cases Option.some.inj h'
    exact h
  | cons write writes ih =>
    obtain ⟨mid, hmid, h'⟩ := Option.bind_eq_some_iff.mp h'
    exact ih (h.step hr hmid) (hr.step hmid) h'

end EdgesBacked

/-- The node sources of a document: the key of the entity, and what is said of it. -/
def nodeSourcesOf (rules : TextRules) (db : Database ν) (workspaceId documentId : Nat) :
    List (List Char × EntityFact ν) :=
  (db.nodeSources.filter fun s =>
    s.workspaceId == workspaceId && s.documentId == documentId).filterMap fun s =>
      (db.nodes.find? fun n => n.id == s.graphNodeId).map fun n =>
        (rules.lower n.entityName, s.fact)

/-- The edge sources of a document: the keys of both ends and of the relationship, and what is
said of it. -/
def edgeSourcesOf (rules : TextRules) (db : Database ν) (workspaceId documentId : Nat) :
    List (List Char × List Char × List Char × RelationFact) :=
  (db.edgeSources.filter fun s =>
    s.workspaceId == workspaceId && s.documentId == documentId).filterMap fun s =>
      (db.edges.find? fun e => e.id == s.graphEdgeId).bind fun e =>
        (db.nodes.find? fun n => n.id == e.sourceNodeId).bind fun a =>
          (db.nodes.find? fun n => n.id == e.targetNodeId).map fun b =>
            (rules.lower a.entityName, rules.lower b.entityName, rules.lower e.relationship, s.fact)

section SourcesOf

variable {rules : TextRules}

theorem WellFormed.find?_node_iff (h : db.WellFormed rules) {id : Nat} {n : GraphNode ν} :
    (db.nodes.find? fun n => n.id == id) = some n ↔ n ∈ db.nodes ∧ n.id = id :=
  Upsert.find?_beq_iff h.nodeRowIds

theorem WellFormed.find?_edge_iff (h : db.WellFormed rules) {id : Nat} {e : GraphEdge} :
    (db.edges.find? fun e => e.id == id) = some e ↔ e ∈ db.edges ∧ e.id = id :=
  Upsert.find?_beq_iff h.edgeRowIds

theorem WellFormed.mem_nodeSourcesOf (h : db.WellFormed rules) {key : List Char}
    {f : EntityFact ν} :
    (key, f) ∈ db.nodeSourcesOf rules workspaceId documentId ↔
      db.Tells rules workspaceId documentId key f := by
  simp only [nodeSourcesOf, List.mem_filterMap, List.mem_filter, Option.map_eq_some_iff,
    h.find?_node_iff, Bool.and_eq_true, beq_iff_eq]
  constructor
  · rintro ⟨s, ⟨hs, rfl, hdoc⟩, n, ⟨hn, hid⟩, heq⟩
    obtain ⟨hkey, hfact⟩ := Prod.ext_iff.mp heq
    have hl : n.label ∈ db.nodeLabels := List.mem_map_of_mem hn
    have hws := h.node_of_source hl hs hid.symm
    exact ⟨s, hs, hdoc, ⟨n.label, hl, hid, Prod.ext hws.symm hkey⟩, hfact⟩
  · rintro ⟨s, hs, hdoc, hk, rfl⟩
    have hws := h.nodeSource_workspace hs hk
    obtain ⟨l, hl, hid, hkey⟩ := hk
    obtain ⟨n, hn, rfl⟩ := List.mem_map.mp hl
    exact ⟨s, ⟨hs, hws, hdoc⟩, n, ⟨hn, hid⟩, Prod.ext (congrArg Prod.snd hkey) rfl⟩

theorem WellFormed.mem_edgeSourcesOf (h : db.WellFormed rules)
    {source target relationship : List Char} {f : RelationFact} :
    (source, target, relationship, f) ∈ db.edgeSourcesOf rules workspaceId documentId ↔
      db.Relates rules workspaceId documentId source target relationship f := by
  simp only [edgeSourcesOf, List.mem_filterMap, List.mem_filter, Option.bind_eq_some_iff,
    Option.map_eq_some_iff, h.find?_node_iff, h.find?_edge_iff, Bool.and_eq_true, beq_iff_eq,
    Prod.mk.injEq]
  constructor
  · rintro ⟨s, ⟨hs, rfl, hdoc⟩, e, ⟨he, hid⟩, a, ⟨ha, haid⟩, b, ⟨hb, hbid⟩, rfl, rfl, rfl, hfact⟩
    have hedge : e.label ∈ db.edgeLabels := List.mem_map_of_mem he
    have hsource : a.label ∈ db.nodeLabels := List.mem_map_of_mem ha
    have htarget : b.label ∈ db.nodeLabels := List.mem_map_of_mem hb
    have hws := h.edge_of_source hedge hs hid.symm
    have haws := hws.trans (h.end_workspace hedge hsource (.inl haid.symm))
    have hbws := hws.trans (h.end_workspace hedge htarget (.inr hbid.symm))
    exact ⟨s, hs, hdoc, ⟨e.label, hedge, hid, rfl, ⟨a.label, hsource, haid, Prod.ext haws.symm rfl⟩,
      b.label, htarget, hbid, Prod.ext hbws.symm rfl⟩, hfact⟩
  · rintro ⟨s, hs, hdoc, ⟨e, he, hid, rfl, hsource, htarget⟩, rfl⟩
    have hws := h.edgeSource_workspace hs he hid hsource
    obtain ⟨row, hrow, rfl⟩ := List.mem_map.mp he
    obtain ⟨l, hl, hlid, hlkey⟩ := hsource
    obtain ⟨a, ha, rfl⟩ := List.mem_map.mp hl
    obtain ⟨m, hm, hmid, hmkey⟩ := htarget
    obtain ⟨b, hb, rfl⟩ := List.mem_map.mp hm
    exact ⟨s, ⟨hs, hws, hdoc⟩, row, ⟨hrow, hid⟩, a, ⟨ha, hlid⟩, b, ⟨hb, hmid⟩,
      congrArg Prod.snd hlkey, congrArg Prod.snd hmkey, rfl, rfl⟩

/-- Rows with keys of their own yield different values. -/
theorem filterMap_nodup {α β κ : Type} {rows : List α} {key : α → κ} (h : (rows.map key).Nodup)
    {f : α → Option β}
    (hf : ∀ s ∈ rows, ∀ t ∈ rows, ∀ b, f s = some b → f t = some b → key s = key t) :
    (rows.filterMap f).Nodup := by
  refine List.pairwise_filterMap.mpr ((List.pairwise_map.mp h).imp_of_mem ?_)
  rintro s t hs ht hne b hb c hc rfl
  exact hne (hf s hs t ht b hb hc)

theorem WellFormed.nodeSourcesOf_nodup (h : db.WellFormed rules) :
    (db.nodeSourcesOf rules workspaceId documentId).Nodup := by
  refine filterMap_nodup (h.nodeSourceKeys.sublist (List.filter_sublist.map _)) ?_
  intro s hs t ht b hb hc
  simp only [List.mem_filter, Bool.and_eq_true, beq_iff_eq] at hs ht
  simp only [Option.map_eq_some_iff, h.find?_node_iff] at hb hc
  obtain ⟨n, ⟨hn, hnid⟩, rfl⟩ := hb
  obtain ⟨m, ⟨hm, hmid⟩, heq⟩ := hc
  have hl : n.label ∈ db.nodeLabels := List.mem_map_of_mem hn
  have hl' : m.label ∈ db.nodeLabels := List.mem_map_of_mem hm
  have hws := (h.node_of_source hl hs.1 hnid.symm).symm.trans hs.2.1
  have hws' := (h.node_of_source hl' ht.1 hmid.symm).symm.trans ht.2.1
  have hkey : m.label.key rules = n.label.key rules :=
    Prod.ext (hws'.trans hws.symm) (congrArg Prod.fst heq)
  have hid : m.id = n.id := congrArg NodeLabel.id (h.node_eq_of_key hl' hl hkey)
  exact Prod.ext (hnid.symm.trans (hid.symm.trans hmid)) (hs.2.2.trans ht.2.2.symm)

theorem WellFormed.edgeSourcesOf_nodup (h : db.WellFormed rules) :
    (db.edgeSourcesOf rules workspaceId documentId).Nodup := by
  refine filterMap_nodup (h.edgeSourceKeys.sublist (List.filter_sublist.map _)) ?_
  have hrow : ∀ s ∈ db.edgeSources, s.workspaceId = workspaceId → ∀ e ∈ db.edges,
      e.id = s.graphEdgeId → ∀ a ∈ db.nodes, a.id = e.sourceNodeId → ∀ b ∈ db.nodes,
      b.id = e.targetNodeId → e.workspaceId = workspaceId ∧ a.workspaceId = workspaceId ∧
        b.workspaceId = workspaceId := by
    intro s hs hsws e he heid a ha haid b hb hbid
    have hel : e.label ∈ db.edgeLabels := List.mem_map_of_mem he
    have hedge := (h.edge_of_source hel hs heid.symm).symm.trans hsws
    have hsource := h.end_workspace hel (List.mem_map_of_mem ha) (.inl haid.symm)
    have htarget := h.end_workspace hel (List.mem_map_of_mem hb) (.inr hbid.symm)
    exact ⟨hedge, hsource.symm.trans hedge, htarget.symm.trans hedge⟩
  have hsame : ∀ a ∈ db.nodes, ∀ a' ∈ db.nodes, a.workspaceId = a'.workspaceId →
      rules.lower a.entityName = rules.lower a'.entityName → a.id = a'.id := by
    intro a ha a' ha' hws hlower
    exact congrArg NodeLabel.id (h.node_eq_of_key (List.mem_map_of_mem ha)
      (List.mem_map_of_mem ha') (Prod.ext hws hlower))
  intro s hs t ht x hx hx'
  simp only [List.mem_filter, Bool.and_eq_true, beq_iff_eq] at hs ht
  simp only [Option.bind_eq_some_iff, Option.map_eq_some_iff, h.find?_node_iff,
    h.find?_edge_iff] at hx hx'
  obtain ⟨e, ⟨he, heid⟩, a, ⟨ha, haid⟩, b, ⟨hb, hbid⟩, rfl⟩ := hx
  obtain ⟨e', ⟨he', heid'⟩, a', ⟨ha', haid'⟩, b', ⟨hb', hbid'⟩, heq⟩ := hx'
  simp only [Prod.mk.injEq] at heq
  obtain ⟨hews, haws, hbws⟩ := hrow s hs.1 hs.2.1 e he heid a ha haid b hb hbid
  obtain ⟨hews', haws', hbws'⟩ := hrow t ht.1 ht.2.1 e' he' heid' a' ha' haid' b' hb' hbid'
  have hsource := hsame a' ha' a ha (haws'.trans haws.symm) heq.1
  have htarget := hsame b' hb' b hb (hbws'.trans hbws.symm) heq.2.1
  have hkey : e'.label.key rules = e.label.key rules := Prod.ext (hews'.trans hews.symm)
    (Prod.ext (haid'.symm.trans (hsource.trans haid))
      (Prod.ext (hbid'.symm.trans (htarget.trans hbid)) heq.2.2.1))
  have hid : e'.id = e.id := congrArg EdgeLabel.id
    (h.edge_eq_of_key (List.mem_map_of_mem he') (List.mem_map_of_mem he) hkey)
  exact Prod.ext (heid.symm.trans (hid.symm.trans heid')) (hs.2.2.trans ht.2.2.symm)

end SourcesOf

/-- The graph tables are what the last batches of the documents account for. -/
structure Provenance (rules : TextRules) (db : Database ν) (writes : List (Write rules ν)) :
    Prop where
  edges : ∀ e ∈ db.edges, ∃ s ∈ db.edgeSources, s.graphEdgeId = e.id
  nodes : ∀ n ∈ db.nodes, (∃ s ∈ db.nodeSources, s.graphNodeId = n.id) ∨
    ∃ e ∈ db.edges, e.sourceNodeId = n.id ∨ e.targetNodeId = n.id
  ends : ∀ e ∈ db.edges, (∃ n ∈ db.nodes, n.id = e.sourceNodeId) ∧
    ∃ n ∈ db.nodes, n.id = e.targetNodeId
  nodeSources : ∀ workspaceId documentId, (db.nodeSourcesOf rules workspaceId documentId).Perm
    ((lastBatch workspaceId documentId writes).elim [] fun batch =>
      batch.nodes.map fun n => (normalizeKey rules n.name, n.fact))
  edgeSources : ∀ workspaceId documentId, (db.edgeSourcesOf rules workspaceId documentId).Perm
    ((lastBatch workspaceId documentId writes).elim [] fun batch =>
      batch.edges.map fun e => (normalizeKey rules e.source, normalizeKey rules e.target,
        rules.lower e.relationship, e.fact))

section Provenance

variable {writes : List (Write rules ν)}

/-- The batch of a document is one that a write of the run brought. -/
theorem mem_of_lastBatch {batch : GraphWriteBatch rules ν}
    (h : lastBatch workspaceId documentId writes = some batch) :
    Write.ingest workspaceId documentId batch ∈ writes := by
  have hfold : ∀ last, writes.foldl (Write.batchAfter workspaceId documentId) last = some batch →
      last = some batch ∨ Write.ingest workspaceId documentId batch ∈ writes := by
    clear h
    induction writes with
    | nil => exact fun _ h => .inl h
    | cons write writes ih =>
      intro last h
      rcases ih _ h with hafter | hlater
      · cases write with
        | ingest w d new =>
          by_cases hdoc : workspaceId = w ∧ documentId = d
          · rw [Write.batchAfter, if_pos hdoc, Option.some.injEq] at hafter
            rw [hdoc.1, hdoc.2, hafter]
            exact .inr List.mem_cons_self
          · rw [Write.batchAfter, if_neg hdoc] at hafter
            exact .inl hafter
        | delete w d => exact .inl (Option.ite_none_left_eq_some.mp hafter).2
      · exact .inr (List.mem_cons_of_mem _ hlater)
  exact (hfold none h).resolve_left (nomatch ·)

theorem Refines.nodeSourcesOf_perm (hr : db.Refines (Ledger.ofWrites writes))
    (hwrites : ∀ write ∈ writes, write.Extracted) (hlower : ∀ write ∈ writes, write.LowerAgrees) :
    (db.nodeSourcesOf rules workspaceId documentId).Perm
      ((lastBatch workspaceId documentId writes).elim [] fun batch =>
        batch.nodes.map fun n => (normalizeKey rules n.name, n.fact)) := by
  have hmem : ∀ key f, (key, f) ∈ db.nodeSourcesOf rules workspaceId documentId ↔
      ∃ batch, lastBatch workspaceId documentId writes = some batch ∧ batch.Tells key f := by
    intro key f
    rw [hr.wellFormed.mem_nodeSourcesOf, hr.tells, Ledger.Tells, Ledger.extracted_ofWrites]
  cases hlast : lastBatch workspaceId documentId writes with
  | none =>
    rw [hlast] at hmem
    refine List.perm_nil.mpr (List.eq_nil_iff_forall_not_mem.mpr fun x hx => ?_)
    obtain ⟨batch, hbatch, -⟩ := (hmem x.1 x.2).mp hx
    cases hbatch
  | some batch =>
    rw [hlast] at hmem
    have hwrite := mem_of_lastBatch hlast
    have hextracted : batch.Extracted := hwrites _ hwrite
    have hagrees : batch.LowerAgrees := hlower _ hwrite
    have hnodup : (batch.nodes.map fun n => (normalizeKey rules n.name, n.fact)).Nodup := by
      refine List.Nodup.of_map Prod.fst ?_
      rw [List.map_map]
      exact hextracted.nodes_nodup
    refine (List.perm_ext_iff_of_nodup hr.wellFormed.nodeSourcesOf_nodup hnodup).mpr ?_
    rintro ⟨key, f⟩
    rw [hmem, List.mem_map]
    constructor
    · rintro ⟨_, heq, htells⟩
      cases heq
      obtain ⟨n, hn, hkey, hfact⟩ := (hextracted.tells_iff hagrees).mp htells
      exact ⟨n, hn, Prod.ext hkey hfact⟩
    · rintro ⟨n, hn, heq⟩
      obtain ⟨hkey, hfact⟩ := Prod.ext_iff.mp heq
      exact ⟨batch, rfl, (hextracted.tells_iff hagrees).mpr ⟨n, hn, hkey, hfact⟩⟩

theorem Refines.edgeSourcesOf_perm (hr : db.Refines (Ledger.ofWrites writes))
    (hwrites : ∀ write ∈ writes, write.Extracted) (hlower : ∀ write ∈ writes, write.LowerAgrees) :
    (db.edgeSourcesOf rules workspaceId documentId).Perm
      ((lastBatch workspaceId documentId writes).elim [] fun batch =>
        batch.edges.map fun e => (normalizeKey rules e.source, normalizeKey rules e.target,
          rules.lower e.relationship, e.fact)) := by
  have hmem : ∀ source target relationship f, (source, target, relationship, f) ∈
      db.edgeSourcesOf rules workspaceId documentId ↔
        ∃ batch, lastBatch workspaceId documentId writes = some batch ∧
          batch.Relates source target relationship f := by
    intro source target relationship f
    rw [hr.wellFormed.mem_edgeSourcesOf, hr.relates, Ledger.Relates, Ledger.extracted_ofWrites]
  cases hlast : lastBatch workspaceId documentId writes with
  | none =>
    rw [hlast] at hmem
    refine List.perm_nil.mpr (List.eq_nil_iff_forall_not_mem.mpr fun x hx => ?_)
    obtain ⟨batch, hbatch, -⟩ := (hmem x.1 x.2.1 x.2.2.1 x.2.2.2).mp hx
    cases hbatch
  | some batch =>
    rw [hlast] at hmem
    have hwrite := mem_of_lastBatch hlast
    have hextracted : batch.Extracted := hwrites _ hwrite
    have hagrees : batch.LowerAgrees := hlower _ hwrite
    -- the text of a relationship is among what is said of it, and has its key
    have hnodup : (batch.edges.map fun e => (normalizeKey rules e.source,
        normalizeKey rules e.target, rules.lower e.relationship, e.fact)).Nodup := by
      refine List.Nodup.of_map (fun x => (x.1, x.2.1, normalizeKey rules x.2.2.2.relationship)) ?_
      rw [List.map_map]
      exact hextracted.edges_nodup
    refine (List.perm_ext_iff_of_nodup hr.wellFormed.edgeSourcesOf_nodup hnodup).mpr ?_
    rintro ⟨source, target, relationship, f⟩
    rw [hmem, List.mem_map]
    constructor
    · rintro ⟨_, heq, hrelates⟩
      cases heq
      obtain ⟨e, he, rfl, rfl, rfl, rfl⟩ := (hextracted.relates_iff hagrees).mp hrelates
      exact ⟨e, he, rfl⟩
    · rintro ⟨e, he, heq⟩
      cases heq
      exact ⟨batch, rfl, (hextracted.relates_iff hagrees).mpr ⟨e, he, rfl, rfl, rfl, rfl⟩⟩

end Provenance

end Database

open Database in
/-- Runs of ingestions and deletions leave every row backed, and each document with the sources of
the batch that was committed last for it. -/
theorem run_provenance {writes : List (Write rules ν)} {db : Database ν}
    (h : Transition.run step Database.empty writes = some db)
    (hwrites : ∀ write ∈ writes, write.Extracted) (hlower : ∀ write ∈ writes, write.LowerAgrees) :
    db.Provenance rules writes := by
  have hr : db.Refines (Ledger.ofWrites writes) := refines_ofWrites h
  have hbacked : (Ledger.ofWrites writes).Backed := Ledger.backed_ofWrites hwrites hlower
  have hedges : db.EdgesBacked :=
    EdgesBacked.run (fun _ he => absurd he List.not_mem_nil) refines_empty h
  have hend : ∀ l ∈ db.nodeLabels, ∃ n ∈ db.nodes, n.id = l.id := by
    intro l hl
    obtain ⟨n, hn, rfl⟩ := List.mem_map.mp hl
    exact ⟨n, hn, rfl⟩
  refine
    { edges := fun e he => hedges e.label (List.mem_map_of_mem he)
      nodes := fun n hn => .inl ?_
      ends := fun e he => ⟨?_, ?_⟩
      nodeSources := fun w d => hr.nodeSourcesOf_perm hwrites hlower
      edgeSources := fun w d => hr.edgeSourcesOf_perm hwrites hlower }
  · have hlabel : n.label ∈ db.nodeLabels := List.mem_map_of_mem hn
    have hspelled := (hr.spelling n.workspaceId (rules.lower n.entityName) n.entityName).mpr
      ⟨n.label, hlabel, rfl, rfl⟩
    obtain ⟨d, f, hf⟩ := hbacked _ _ _ hspelled
    obtain ⟨s, hs, -, hk, -⟩ := (hr.tells _ _ _ _).mpr hf
    exact ⟨s, hs, hr.wellFormed.id_unique hk ⟨n.label, hlabel, rfl, rfl⟩⟩
  · obtain ⟨l, hl, hid, -⟩ := hr.wellFormed.sourceEnd e.label (List.mem_map_of_mem he)
    exact (hend l hl).imp fun _ h => ⟨h.1, h.2.trans hid⟩
  · obtain ⟨l, hl, hid, -⟩ := hr.wellFormed.targetEnd e.label (List.mem_map_of_mem he)
    exact (hend l hl).imp fun _ h => ⟨h.1, h.2.trans hid⟩

section Company

/-- A batch in which one company owns another, and the run of two documents that it was extracted
from, the first of which is deleted. -/
def ownedCompany : GraphWriteBatch asciiRules Nat :=
  let batch := fromExtractions asciiRules Nat [(0, [.edge ['o', 'w', 'n', 's'] ['A'] ['B'] none])]
  (attachNodeEmbeddings batch [1, 2]).getD batch

def ownedCompanyWrites : List (Write asciiRules Nat) :=
  [.ingest 0 1 ownedCompany, .ingest 0 2 ownedCompany, .delete 0 1]

theorem run_provenance_ownedCompany :
    ∃ db, Transition.run step Database.empty ownedCompanyWrites = some db ∧
      db.Provenance asciiRules ownedCompanyWrites := by
  have hrun : (Transition.run step Database.empty ownedCompanyWrites).isSome = true := by
    decide +kernel
  obtain ⟨db, hdb⟩ := Option.isSome_iff_exists.mp hrun
  have hextracted : ownedCompany.Extracted :=
    ⟨[(0, [.edge ['o', 'w', 'n', 's'] ['A'] ['B'] none])], [1, 2], rfl⟩
  refine ⟨db, hdb, run_provenance hdb ?_ fun write _ => ?_⟩
  · simpa [ownedCompanyWrites, Write.Extracted] using hextracted
  · cases write with
    | ingest w d batch => exact fun _ _ => rfl
    | delete w d => trivial

end Company

section View

variable {db : Database ν} {ledger : Ledger rules ν} {workspaceId : Nat} {visible : List Nat}

/-- Values that are picked from rows under the keys of the rows. -/
theorem picked_nodup {α β κ : Type} {rows : List α} {key : α → κ} (h : (rows.map key).Nodup)
    {f : α → Option β} {key' : β → κ} (hf : ∀ s b, f s = some b → key' b = key s) :
    ((rows.filterMap f).map key').Nodup := by
  refine List.pairwise_map.mpr (List.pairwise_filterMap.mpr ((List.pairwise_map.mp h).imp ?_))
  intro s t hne b hb c hc heq
  exact hne ((hf s b hb).symm.trans (heq.trans (hf t c hc)))

theorem Database.WellFormed.graph_nodes_nodup (hwf : db.WellFormed rules) :
    ((fetchWorkspaceGraph rules db workspaceId visible).nodes.map GraphNodeRow.id).Nodup := by
  have hrows : ((visibleNodes db workspaceId visible).map fun row => row.1.id).Nodup := by
    refine picked_nodup hwf.nodeRowIds fun n row hrow => ?_
    obtain ⟨-, hrow⟩ := Option.ite_none_right_eq_some.mp hrow
    obtain ⟨s, -, rfl⟩ := Option.map_eq_some_iff.mp hrow
    rfl
  rw [fetchWorkspaceGraph]
  split
  · exact List.nodup_nil
  · refine ((List.mergeSort_perm _ _).map _).nodup_iff.mpr ?_
    rwa [List.map_map]

theorem Database.WellFormed.graph_links_nodup (hwf : db.WellFormed rules) :
    ((fetchWorkspaceGraph rules db workspaceId visible).links.map GraphLinkResponse.id).Nodup := by
  rw [fetchWorkspaceGraph]
  split
  · exact List.nodup_nil
  · refine ((List.mergeSort_perm _ _).map _).nodup_iff.mpr ?_
    refine picked_nodup hwf.edgeRowIds fun e link hlink => ?_
    obtain ⟨-, hlink⟩ := Option.ite_none_right_eq_some.mp hlink
    obtain ⟨s, -, rfl⟩ := Option.map_eq_some_iff.mp hlink
    rfl

theorem exists_graph_node_of_nameOf {graph : GraphResponse} {id : Nat} {name : List Char}
    (h : graph.nameOf id = some name) : ∃ n ∈ graph.nodes, n.id = id := by
  obtain ⟨n, hn, -⟩ := Option.map_eq_some_iff.mp h
  exact ⟨n, List.mem_of_find?_eq_some hn, by simpa using List.find?_some hn⟩

/-- The document of a link tells something of both its ends, so they are in the view. -/
theorem Database.Refines.graph_link_ends (hr : db.Refines ledger) {link : GraphLinkResponse}
    (h : link ∈ (fetchWorkspaceGraph rules db workspaceId visible).links) :
    (∃ n ∈ (fetchWorkspaceGraph rules db workspaceId visible).nodes, n.id = link.source) ∧
      ∃ n ∈ (fetchWorkspaceGraph rules db workspaceId visible).nodes, n.id = link.target := by
  have hvisible : visible ≠ [] := by
    rintro rfl
    exact List.not_mem_nil h
  obtain ⟨e, he, hws, s, hs, rfl⟩ := (Database.mem_graph_links hvisible).mp h
  obtain ⟨a, b, hrows⟩ := hr.wellFormed.edgeRows he hws
  obtain ⟨-, -, relationship, hfirst⟩ := hr.showsEdge hrows hs
  obtain ⟨⟨f, hf⟩, g, hg⟩ := hfirst.ends
  refine ⟨?_, ?_⟩
  · rw [← hrows.sourceId]
    exact exists_graph_node_of_nameOf (hr.nameOf_label hrows.source hrows.sourceWorkspace hf)
  · rw [← hrows.targetId]
    exact exists_graph_node_of_nameOf (hr.nameOf_label hrows.target hrows.targetWorkspace hg)

end View

/-- A view of the graph holds the ends of its links, and no row of it twice. -/
theorem fetchWorkspaceGraph_closed {writes : List (Write rules ν)} {db : Database ν}
    (h : Transition.run step Database.empty writes = some db) (workspaceId : Nat)
    (visible : List Nat) :
    (∀ link ∈ (fetchWorkspaceGraph rules db workspaceId visible).links,
      (∃ n ∈ (fetchWorkspaceGraph rules db workspaceId visible).nodes, n.id = link.source) ∧
        ∃ n ∈ (fetchWorkspaceGraph rules db workspaceId visible).nodes, n.id = link.target) ∧
      ((fetchWorkspaceGraph rules db workspaceId visible).nodes.map GraphNodeRow.id).Nodup ∧
        ((fetchWorkspaceGraph rules db workspaceId visible).links.map GraphLinkResponse.id).Nodup :=
by
  have hr : db.Refines (Ledger.ofWrites writes) := Database.refines_ofWrites h
  refine ⟨fun link hlink => hr.graph_link_ends hlink, ?_, ?_⟩
  · exact hr.wellFormed.graph_nodes_nodup
  · exact hr.wellFormed.graph_links_nodup

theorem fetchWorkspaceGraph_closed_ownedCompany :
    ∃ db, Transition.run step Database.empty ownedCompanyWrites = some db ∧
      (fetchWorkspaceGraph asciiRules db 0 [2]).links.length = 1 ∧
      ∀ link ∈ (fetchWorkspaceGraph asciiRules db 0 [2]).links,
        (∃ n ∈ (fetchWorkspaceGraph asciiRules db 0 [2]).nodes, n.id = link.source) ∧
          ∃ n ∈ (fetchWorkspaceGraph asciiRules db 0 [2]).nodes, n.id = link.target := by
  have hrun : (Transition.run step Database.empty ownedCompanyWrites).any
      (fun db => (fetchWorkspaceGraph asciiRules db 0 [2]).links.length = 1) = true := by
    decide +kernel
  obtain ⟨db, hdb, hlinks⟩ := (Option.any_eq_true _ _).mp hrun
  exact ⟨db, hdb, of_decide_eq_true hlinks, (fetchWorkspaceGraph_closed hdb 0 [2]).1⟩

end GmragApi.Graph

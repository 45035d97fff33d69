import GmragApi.GraphConstruction
import GmragApi.GraphProvenance
import GmragApi.Lowercase

/-! What the statements of one graph batch propose: whether two rows of a statement have one conflict
key, and whether every node and edge of the batch gets its source row. The batch is deduplicated and
looked up under `to_lowercase`, the rows are unique under `lower`. -/

namespace GmragApi.Graph

open Lowercase

variable {ν : Type} {rules : TextRules}

/-- `lower` of the database maps each character to its simple lower case. -/
def caseRules (t : CaseTables) (collation : TextRules) : TextRules :=
  { collation with
    toLowercase := t.toLowercase
    lower := t.simpleLowercase }

/-- The rows that the statements of a run propose; one that is not reached proposes none. -/
structure Proposals (ν : Type) where
  nodes : List (GraphNode ν)
  nodeSources : List (NodeSource ν)
  edges : List GraphEdge
  edgeSources : List EdgeSource

namespace Database

def proposals (db : Database ν) (workspaceId documentId : Nat) (batch : GraphWriteBatch rules ν) :
    Proposals ν :=
  let db := deleteUntrackedGraphItems db workspaceId
  let nodes := proposedNodes db workspaceId batch.nodes
  match bulkUpsertGraphNodes rules db workspaceId batch.nodes with
  | none => ⟨nodes, [], [], []⟩
  | some (db, nodeIds) =>
    let nodeSources := newNodeSources rules workspaceId documentId nodeIds batch.nodes
    match insertGraphNodeSources rules db workspaceId documentId nodeIds batch.nodes with
    | none => ⟨nodes, nodeSources, [], []⟩
    | some db =>
      let resolved := resolveEdges rules nodeIds batch.edges
      let edges := proposedEdges db workspaceId resolved
      match bulkUpsertGraphEdges rules db workspaceId resolved with
      | none => ⟨nodes, nodeSources, edges, []⟩
      | some db =>
        ⟨nodes, nodeSources, edges, newEdgeSources rules db workspaceId documentId resolved⟩

/-- No statement proposes two rows with one conflict key. -/
structure KeysDistinct (rules : TextRules) (p : Proposals ν) : Prop where
  nodes : (p.nodes.map (GraphNode.key rules)).Nodup
  nodeSources : (p.nodeSources.map NodeSource.key).Nodup
  edges : (p.edges.map (GraphEdge.key rules)).Nodup
  edgeSources : (p.edgeSources.map EdgeSource.key).Nodup

/-- The run has written a source row for every node of the batch, of the row with its name, and for
every edge, of the row between the nodes it names. -/
structure Recorded (db' : Database ν) (workspaceId documentId : Nat)
    (batch : GraphWriteBatch rules ν) (p : Proposals ν) : Prop where
  nodes : ∀ n ∈ batch.nodes, ∃ s ∈ p.nodeSources, s ∈ db'.nodeSources ∧
    s.documentId = documentId ∧ s.workspaceId = workspaceId ∧
    db'.HasKey rules s.graphNodeId (workspaceId, rules.lower n.name) ∧ s.fact = n.fact
  edges : ∀ e ∈ batch.edges, ∃ s ∈ p.edgeSources, s ∈ db'.edgeSources ∧
    s.documentId = documentId ∧ s.workspaceId = workspaceId ∧
    (∃ row ∈ db'.edgeLabels, row.id = s.graphEdgeId ∧ row.workspaceId = workspaceId ∧
      rules.lower row.relationship = rules.lower e.relationship ∧
      ∃ n ∈ batch.nodes, ∃ m ∈ batch.nodes,
        n.key rules = (e.key rules).1 ∧ m.key rules = (e.key rules).2.1 ∧
        db'.HasKey rules row.sourceNodeId (workspaceId, rules.lower n.name) ∧
        db'.HasKey rules row.targetNodeId (workspaceId, rules.lower m.name)) ∧
    s.fact = e.fact

/-- The batch is neither doubled in a statement nor, where the run goes through, lost. -/
def Accounted (db : Database ν) (workspaceId documentId : Nat)
    (batch : GraphWriteBatch rules ν) : Prop :=
  KeysDistinct rules (db.proposals workspaceId documentId batch) ∧
    ∀ db' ∈ bulkUpsertGraph db workspaceId documentId batch,
      Recorded db' workspaceId documentId batch (db.proposals workspaceId documentId batch)

end Database

/-- The batch is one of `from_extractions`, with or without the vectors of its nodes. -/
def GraphWriteBatch.Built (batch : GraphWriteBatch rules ν) : Prop :=
  ∃ extractions, batch = GraphWriteBatch.fromExtractionsOrdered rules ν extractions ∨
    ∃ embeddings, attachNodeEmbeddings (GraphWriteBatch.fromExtractionsOrdered rules ν extractions)
      embeddings = some batch

/-- The names of the batch as `lower` reads them. -/
def GraphWriteBatch.lowerNames (batch : GraphWriteBatch rules ν) : List (List Char) :=
  batch.nodes.map fun n => rules.lower n.name

/-- The edges whose two ends are found under the keys that the statement for the nodes returns. -/
def GraphWriteBatch.found (batch : GraphWriteBatch rules ν) : List EdgeInput :=
  batch.edges.filter fun e =>
    batch.lowerNames.contains (normalizeKey rules e.source) &&
      batch.lowerNames.contains (normalizeKey rules e.target)

/-- Edges between the same two nodes have relationships that `lower` keeps apart. -/
def GraphWriteBatch.RelationshipsApart (batch : GraphWriteBatch rules ν) : Prop :=
  batch.found.Pairwise fun e e' =>
    normalizeKey rules e.source = normalizeKey rules e'.source →
    normalizeKey rules e.target = normalizeKey rules e'.target →
    rules.lower e.relationship ≠ rules.lower e'.relationship

section Built

variable {batch : GraphWriteBatch rules ν}

/-- The names of the nodes, as the batch had them before the vectors. -/
theorem GraphWriteBatch.Built.names (h : batch.Built) : ∃ extractions,
    batch.nodes.map NodeInput.name =
      (GraphWriteBatch.fromExtractionsOrdered rules ν extractions).nodes.map NodeInput.name := by
  obtain ⟨extractions, rfl | ⟨embeddings, hattached⟩⟩ := h
  · exact ⟨extractions, rfl⟩
  · refine ⟨extractions, List.ext_getElem? fun i => ?_⟩
    have horder := attached_inOrder hattached
    rw [List.getElem?_map, List.getElem?_map]
    cases hn : (GraphWriteBatch.fromExtractionsOrdered rules ν extractions).nodes[i]? with
    | none =>
      rw [List.getElem?_eq_none_iff] at hn
      rw [List.getElem?_eq_none (by rw [horder.count]; exact hn)]
    | some n =>
      rw [(horder.nodes i n hn).2]
      rfl

theorem GraphWriteBatch.Built.keys_nodup (h : batch.Built) :
    (batch.nodes.map (NodeInput.key rules)).Nodup := by
  obtain ⟨extractions, hnames⟩ := h.names
  have hkeys := (constructed rules ν extractions).nodeKeys
  have hmap : ∀ nodes : List (NodeInput ν), nodes.map (NodeInput.key rules) =
      (nodes.map NodeInput.name).map (normalizeKey rules) := fun nodes => by
    rw [List.map_map]
    rfl
  rw [hmap] at hkeys ⊢
  rwa [hnames]

/-- The names are kept without blanks around them. -/
theorem GraphWriteBatch.Built.trimmed (h : batch.Built) {n : NodeInput ν} (hn : n ∈ batch.nodes) :
    n.key rules = rules.toLowercase n.name := by
  obtain ⟨extractions, hnames⟩ := h.names
  have hname : n.name ∈ (GraphWriteBatch.fromExtractionsOrdered rules ν extractions).nodes.map
      NodeInput.name := hnames ▸ List.mem_map_of_mem hn
  obtain ⟨n', hn', heq⟩ := List.mem_map.mp hname
  have hold := (fromExtractions_nodes_perm rules extractions).mem_iff.mp hn'
  obtain ⟨first, rest, -, hfirst⟩ := mem_nodes_key_iff.mp hold
  rw [NodeInput.key, normalizeKey, ← heq, hfirst, trim_trim]

end Built

namespace Database

section Keys

variable {db : Database ν} {workspaceId documentId : Nat} {ids : NodeIds}
  {nodes : List (NodeInput ν)} {edges : List EdgeInput}

/-- Nodes with keys of their own have rows of their own. -/
theorem nodeSources_keys_nodup (documentId : Nat) (hwf : db.WellFormed rules)
    (hids : db.Resolves rules workspaceId nodes ids)
    (hkeys : (nodes.map (NodeInput.key rules)).Nodup) :
    ((newNodeSources rules workspaceId documentId ids nodes).map NodeSource.key).Nodup := by
  refine List.pairwise_map.mpr (List.pairwise_filterMap.mpr ?_)
  refine (List.pairwise_map.mp hkeys).imp fun {n n'} hne s hs s' hs' heq => hne ?_
  obtain ⟨id, hid, rfl⟩ := Option.map_eq_some_iff.mp hs
  obtain ⟨id', hid', rfl⟩ := Option.map_eq_some_iff.mp hs'
  have hsame : id = id' := (Prod.mk.inj heq).1
  subst hsame
  have hrow := ((hids.lookup _ _).mp hid).2
  have hrow' := ((hids.lookup _ _).mp hid').2
  exact (Prod.mk.inj (hwf.key_unique hrow hrow')).2

theorem proposedEdges_map_key (db : Database ν) (workspaceId : Nat)
    (resolved : List (Nat × Nat × EdgeInput)) :
    (proposedEdges db workspaceId resolved).map (GraphEdge.key rules) =
      resolved.map fun t => (workspaceId, t.1, t.2.1, rules.lower t.2.2.relationship) := by
  refine List.ext_getElem (by simp [proposedEdges]) (fun i hi hj => ?_)
  simp only [proposedEdges, List.getElem_map, List.getElem_mapIdx, GraphEdge.key]

/-- Edges whose ends all have ids are proposed under keys of their own just when `lower` keeps the
relationships between the same ends apart. -/
theorem edges_keys_nodup_iff (hwf : db.WellFormed rules)
    (hids : db.Resolves rules workspaceId nodes ids)
    (hends : ∀ e ∈ edges, (∃ a, ids.lookup (normalizeKey rules e.source) = some a) ∧
      ∃ b, ids.lookup (normalizeKey rules e.target) = some b) (db' : Database ν) :
    ((proposedEdges db' workspaceId (resolveEdges rules ids edges)).map
        (GraphEdge.key rules)).Nodup ↔
      edges.Pairwise fun e e' =>
        normalizeKey rules e.source = normalizeKey rules e'.source →
        normalizeKey rules e.target = normalizeKey rules e'.target →
        rules.lower e.relationship ≠ rules.lower e'.relationship := by
  rw [proposedEdges_map_key, List.Nodup, List.pairwise_map, resolveEdges, List.pairwise_filterMap]
  constructor
  · intro hpairs
    refine hpairs.imp_of_mem fun {e e'} he he' hne hsource htarget hrelationship => ?_
    obtain ⟨⟨a, ha⟩, b, hb⟩ := hends e he
    refine hne (a, b, e) ?_ (a, b, e') ?_ ?_
    · simp [ha, hb]
    · simp [← hsource, ← htarget, ha, hb]
    · simp [hrelationship]
  · intro hapart
    refine hapart.imp fun {e e'} hne t ht t' ht' heq => ?_
    obtain ⟨a, ha, ht⟩ := Option.bind_eq_some_iff.mp ht
    obtain ⟨b, hb, rfl⟩ := Option.map_eq_some_iff.mp ht
    obtain ⟨a', ha', ht'⟩ := Option.bind_eq_some_iff.mp ht'
    obtain ⟨b', hb', rfl⟩ := Option.map_eq_some_iff.mp ht'
    simp only [Prod.mk.injEq, true_and] at heq
    obtain ⟨rfl, rfl, hrelationship⟩ := heq
    have hsource := hwf.key_unique ((hids.lookup _ _).mp ha).2 ((hids.lookup _ _).mp ha').2
    have htarget := hwf.key_unique ((hids.lookup _ _).mp hb).2 ((hids.lookup _ _).mp hb').2
    exact hne (Prod.mk.inj hsource).2 (Prod.mk.inj htarget).2 hrelationship

theorem edgeSources_keys_nodup (documentId : Nat) (hwf : db.WellFormed rules)
    {resolved : List (Nat × Nat × EdgeInput)}
    (hkeys : (resolved.map fun t =>
      (workspaceId, t.1, t.2.1, rules.lower t.2.2.relationship)).Nodup) :
    ((newEdgeSources rules db workspaceId documentId resolved).map EdgeSource.key).Nodup := by
  refine List.pairwise_map.mpr (List.pairwise_filterMap.mpr ?_)
  refine (List.pairwise_map.mp hkeys).imp fun {t t'} hne s hs s' hs' heq => hne ?_
  obtain ⟨row, hrow, rfl⟩ := Option.map_eq_some_iff.mp hs
  obtain ⟨row', hrow', rfl⟩ := Option.map_eq_some_iff.mp hs'
  obtain ⟨hmem, hkey⟩ := (Upsert.find?_beq_iff hwf.edgeRowKeys).mp hrow
  obtain ⟨hmem', hkey'⟩ := (Upsert.find?_beq_iff hwf.edgeRowKeys).mp hrow'
  have hlabel := hwf.edge_eq_of_id (List.mem_map_of_mem hmem) (List.mem_map_of_mem hmem')
    (Prod.mk.inj heq).1
  have hsame : row.key rules = row'.key rules := congrArg (EdgeLabel.key rules) hlabel
  rw [← hkey, hsame, hkey']

theorem mem_insertGraphEdgeSources {db' : Database ν} {resolved : List (Nat × Nat × EdgeInput)}
    (h : insertGraphEdgeSources rules db workspaceId documentId resolved = some db')
    {s : EdgeSource} : s ∈ db'.edgeSources ↔
      s ∈ newEdgeSources rules db workspaceId documentId resolved ∨ s ∈ db.edgeSources ∧
        s.key ∉ (newEdgeSources rules db workspaceId documentId resolved).map EdgeSource.key := by
  obtain ⟨table, htable, rfl⟩ := Option.map_eq_some_iff.mp h
  exact Upsert.mem_statement_of_replace (fun _ _ => EdgeSource.update_of_key) htable

end Keys

section Accounting

variable {db db₁ db₂ db₃ db' : Database ν} {workspaceId documentId : Nat} {ids : NodeIds}
  {batch : GraphWriteBatch rules ν}

theorem proposed_nodup_iff :
    ((proposedNodes db workspaceId batch.nodes).map (GraphNode.key rules)).Nodup ↔
      batch.lowerNames.Nodup := by
  have hkeys : (batch.nodes.map fun n => (workspaceId, rules.lower n.name)) =
      batch.lowerNames.map (Prod.mk workspaceId) := by
    rw [GraphWriteBatch.lowerNames, List.map_map]
    rfl
  rw [proposedNodes_keys, hkeys, List.nodup_map_iff fun _ _ heq => (Prod.mk.inj heq).2]

theorem proposals_nodes (db : Database ν) (workspaceId documentId : Nat)
    (batch : GraphWriteBatch rules ν) :
    (db.proposals workspaceId documentId batch).nodes =
      proposedNodes (deleteUntrackedGraphItems db workspaceId) workspaceId batch.nodes := by
  unfold proposals
  dsimp only
  split
  next => rfl
  next =>
    split
    next => rfl
    next => split <;> rfl

theorem KeysDistinct.lowerNames_nodup
    (h : KeysDistinct rules (db.proposals workspaceId documentId batch)) :
    batch.lowerNames.Nodup := by
  have hnodes := h.nodes
  rw [proposals_nodes] at hnodes
  exact proposed_nodup_iff.mp hnodes

/-- The first statement goes through on names that fit their columns and that `lower` keeps
apart. -/
theorem bulkUpsertGraphNodes_isSome_iff (db : Database ν) (workspaceId : Nat)
    (batch : GraphWriteBatch rules ν) :
    (bulkUpsertGraphNodes rules db workspaceId batch.nodes).isSome ↔
      batch.nodes.all NodeInput.fits = true ∧ batch.lowerNames.Nodup := by
  have hkeys : ((proposedNodes db workspaceId batch.nodes).map (GraphNode.key rules)).Nodup ↔
      batch.lowerNames.Nodup := proposed_nodup_iff
  rw [← hkeys]
  unfold bulkUpsertGraphNodes Upsert.statement
  split
  next hfits => simp [hfits]
  next hfits => simp [hfits]

theorem insertGraphNodeSources_of_nodup (db : Database ν) {nodes : List (NodeInput ν)}
    (hkeys : ((newNodeSources rules workspaceId documentId ids nodes).map NodeSource.key).Nodup) :
    ∃ db', insertGraphNodeSources rules db workspaceId documentId ids nodes = some db' :=
  ⟨_, Option.map_eq_some_iff.mpr ⟨_, if_pos hkeys, rfl⟩⟩

theorem bulkUpsertGraphEdges_isSome (db : Database ν) (workspaceId : Nat)
    (resolved : List (Nat × Nat × EdgeInput)) :
    (bulkUpsertGraphEdges rules db workspaceId resolved).isSome ↔
      (resolved.all fun e => e.2.2.fits) = true ∧
        ((proposedEdges db workspaceId resolved).map (GraphEdge.key rules)).Nodup := by
  unfold bulkUpsertGraphEdges Upsert.statement
  split
  next hfits => simp [hfits]
  next hfits => simp [hfits]

theorem insertGraphEdgeSources_of_nodup {resolved : List (Nat × Nat × EdgeInput)}
    (hkeys : ((newEdgeSources rules db workspaceId documentId resolved).map EdgeSource.key).Nodup) :
    ∃ db', insertGraphEdgeSources rules db workspaceId documentId resolved = some db' :=
  ⟨_, Option.map_eq_some_iff.mpr ⟨_, if_pos hkeys, rfl⟩⟩

/-- A name on which both foldings agree finds its row. -/
theorem Resolves.lookup_name (hids : db.Resolves rules workspaceId batch.nodes ids)
    (hagree : ∀ n ∈ batch.nodes, rules.lower n.name = n.key rules) {n : NodeInput ν}
    (hn : n ∈ batch.nodes) : ∃ id, ids.lookup (n.key rules) = some id ∧
      db.HasKey rules id (workspaceId, rules.lower n.name) := by
  obtain ⟨id, hid⟩ := hids.row n hn
  refine ⟨id, (hids.lookup _ _).mpr ⟨⟨n, hn, hagree n hn⟩, ?_⟩, hid⟩
  rw [← hagree n hn]
  exact hid

theorem mem_lowerNames {key : List Char} :
    batch.lowerNames.contains key = true ↔ ∃ n ∈ batch.nodes, rules.lower n.name = key := by
  rw [List.contains_iff_mem, GraphWriteBatch.lowerNames, List.mem_map]

/-- A key that the statement for the nodes returns is looked up. -/
theorem Resolves.lookup_returned (hids : db.Resolves rules workspaceId batch.nodes ids)
    {key : List Char} (hkey : batch.lowerNames.contains key = true) :
    ∃ id, ids.lookup key = some id := by
  obtain ⟨n, hn, rfl⟩ := mem_lowerNames.mp hkey
  obtain ⟨id, hid⟩ := hids.row n hn
  exact ⟨id, (hids.lookup _ _).mpr ⟨⟨n, hn, rfl⟩, hid⟩⟩

theorem Resolves.found_ends (hids : db.Resolves rules workspaceId batch.nodes ids) {e : EdgeInput}
    (he : e ∈ batch.found) : (∃ a, ids.lookup (normalizeKey rules e.source) = some a) ∧
      ∃ b, ids.lookup (normalizeKey rules e.target) = some b := by
  obtain ⟨hsource, htarget⟩ := Bool.and_eq_true_iff.mp (List.mem_filter.mp he).2
  exact ⟨hids.lookup_returned hsource, hids.lookup_returned htarget⟩

/-- The other edges are passed over. -/
theorem Resolves.resolveEdges_found (hids : db.Resolves rules workspaceId batch.nodes ids) :
    resolveEdges rules ids batch.edges = resolveEdges rules ids batch.found := by
  rw [resolveEdges, resolveEdges, GraphWriteBatch.found, List.filterMap_filter]
  refine List.filterMap_congr fun e _ => ?_
  split
  next => rfl
  next hlost =>
    refine Option.eq_none_iff_forall_ne_some.mpr fun t ht => hlost ?_
    obtain ⟨a, ha, ht⟩ := Option.bind_eq_some_iff.mp ht
    obtain ⟨b, hb, -⟩ := Option.map_eq_some_iff.mp ht
    exact Bool.and_eq_true_iff.mpr ⟨mem_lowerNames.mpr ((hids.lookup _ _).mp ha).1,
      mem_lowerNames.mpr ((hids.lookup _ _).mp hb).1⟩

theorem Resolves.resolved_fit (hids : db.Resolves rules workspaceId batch.nodes ids) :
    ((resolveEdges rules ids batch.edges).all fun e => e.2.2.fits) = true ↔
      batch.found.all EdgeInput.fits = true := by
  rw [hids.resolveEdges_found, List.all_eq_true, List.all_eq_true]
  constructor
  · intro h e he
    obtain ⟨⟨a, ha⟩, b, hb⟩ := hids.found_ends he
    exact h (a, b, e) (mem_resolveEdges.mpr ⟨he, ha, hb⟩)
  · rintro h ⟨a, b, e⟩ he
    exact h e (mem_resolveEdges.mp he).1

theorem Resolves.edges_keys_nodup_iff (hwf : db.WellFormed rules)
    (hids : db.Resolves rules workspaceId batch.nodes ids) (db' : Database ν) :
    ((proposedEdges db' workspaceId (resolveEdges rules ids batch.edges)).map
        (GraphEdge.key rules)).Nodup ↔ batch.RelationshipsApart := by
  rw [hids.resolveEdges_found]
  exact Database.edges_keys_nodup_iff hwf hids (fun e he => hids.found_ends he) db'

section Through

variable {db₀ : Database ν}
  (h : Statements rules workspaceId documentId batch db₀ db₁ db₂ db₃ db' ids)

include h

theorem Statements.hasKey {id : Nat} {k : Nat × List Char} (hk : db₁.HasKey rules id k) :
    db'.HasKey rules id k := by
  obtain ⟨l, hl, hrest⟩ := h.within₃.hasKey (h.within₂.hasKey hk)
  exact ⟨l, h.labels'.1 ▸ hl, hrest⟩

theorem Statements.nodeSources_mono {s : NodeSource ν} (hs : s ∈ db₂.nodeSources) :
    s ∈ db'.nodeSources := by
  obtain ⟨_, -, rfl⟩ := Option.map_eq_some_iff.mp h.edgeSources
  rw [(bulkUpsertGraphEdges_table h.edges).2]
  exact hs

/-- Where `lower` and `to_lowercase` agree on the names, every node and edge finds its row. -/
theorem Statements.recorded (hagree : ∀ n ∈ batch.nodes, rules.lower n.name = n.key rules) :
    Recorded db' workspaceId documentId batch
      ⟨proposedNodes db₀ workspaceId batch.nodes,
        newNodeSources rules workspaceId documentId ids batch.nodes,
        proposedEdges db₂ workspaceId (resolveEdges rules ids batch.edges),
        newEdgeSources rules db₃ workspaceId documentId
          (resolveEdges rules ids batch.edges)⟩ := by
  refine ⟨fun n hn => ?_, fun e he => ?_⟩
  · obtain ⟨id, hlookup, hid⟩ := h.resolves₁.lookup_name hagree hn
    have hrow : (⟨id, documentId, workspaceId, n.entityType, n.description, n.embedding⟩ :
        NodeSource ν) ∈ newNodeSources rules workspaceId documentId ids batch.nodes :=
      mem_newNodeSources.mpr ⟨n, hn, hlookup, rfl, rfl, rfl⟩
    exact ⟨_, hrow,
      h.nodeSources_mono ((mem_insertGraphNodeSources h.nodeSources).mpr (.inl hrow)), rfl, rfl,
      h.hasKey hid, rfl⟩
  · obtain ⟨⟨n, hn, hsource⟩, m, hm, htarget⟩ := batch.linked e he
    obtain ⟨a, ha, hida⟩ := h.resolves₁.lookup_name hagree hn
    obtain ⟨b, hb, hidb⟩ := h.resolves₁.lookup_name hagree hm
    have hresolved : (a, b, e) ∈ resolveEdges rules ids batch.edges :=
      mem_resolveEdges.mpr ⟨he, hsource ▸ ha, htarget ▸ hb⟩
    obtain ⟨row, hrow, hkey⟩ := exists_edge_of_resolved h.edges hresolved
    have hlabel : row.label ∈ db₃.edgeLabels := List.mem_map_of_mem hrow
    have hs : (⟨row.id, documentId, workspaceId, e.relationship, e.description⟩ : EdgeSource) ∈
        newEdgeSources rules db₃ workspaceId documentId (resolveEdges rules ids batch.edges) :=
      (mem_newEdgeSources h.wellFormed₃).mpr
        ⟨_, hresolved, ⟨row.label, hlabel, rfl, hkey⟩, rfl, rfl, rfl⟩
    simp only [GraphEdge.key, Prod.mk.injEq] at hkey
    obtain ⟨hws, hsourceId, htargetId, hrelationship⟩ := hkey
    refine ⟨_, hs,
      (mem_insertGraphEdgeSources h.edgeSources).mpr (.inl hs), rfl, rfl,
      ⟨row.label, h.labels'.2 ▸ hlabel, rfl, hws, hrelationship, n, hn, m, hm, hsource, htarget,
        ?_, ?_⟩, rfl⟩
    · exact h.hasKey ((show row.label.sourceNodeId = a from hsourceId) ▸ hida)
    · exact h.hasKey ((show row.label.targetNodeId = b from htargetId) ▸ hidb)

/-- The source row of a node is that of a node whose `to_lowercase` is its `lower`. -/
theorem Statements.covered {p : Proposals ν}
    (hp : p.nodeSources = newNodeSources rules workspaceId documentId ids batch.nodes)
    (hrecorded : Recorded db' workspaceId documentId batch p) :
    ∀ n ∈ batch.nodes, ∃ m ∈ batch.nodes, m.key rules = rules.lower n.name := by
  intro n hn
  obtain ⟨s, hs, -, -, -, hrow, -⟩ := hrecorded.nodes n hn
  obtain ⟨m, hm, hlookup, -⟩ := mem_newNodeSources.mp (hp ▸ hs)
  have hown := ((h.resolves₃.lookup _ _).mp hlookup).2
  have hrow₃ : db₃.HasKey rules s.graphNodeId (workspaceId, rules.lower n.name) := by
    obtain ⟨l, hl, hrest⟩ := hrow
    exact ⟨l, h.labels'.1 ▸ hl, hrest⟩
  exact ⟨m, hm, (Prod.mk.inj (h.wellFormed₃.key_unique hown hrow₃)).2⟩

end Through

/-- What a run that goes through proposes. -/
theorem Statements.proposals_eq
    (h : Statements rules workspaceId documentId batch (deleteUntrackedGraphItems db workspaceId)
      db₁ db₂ db₃ db' ids) :
    db.proposals workspaceId documentId batch =
      ⟨proposedNodes (deleteUntrackedGraphItems db workspaceId) workspaceId batch.nodes,
        newNodeSources rules workspaceId documentId ids batch.nodes,
        proposedEdges db₂ workspaceId (resolveEdges rules ids batch.edges),
        newEdgeSources rules db₃ workspaceId documentId
          (resolveEdges rules ids batch.edges)⟩ := by
  simp only [proposals, h.nodes, h.nodeSources, h.edges]

theorem Statements.bulkUpsertGraph_eq
    (h : Statements rules workspaceId documentId batch (deleteUntrackedGraphItems db workspaceId)
      db₁ db₂ db₃ db' ids) : bulkUpsertGraph db workspaceId documentId batch = some db' := by
  simp only [bulkUpsertGraph, h.nodes, h.nodeSources, h.edges, h.edgeSources, Option.bind_some]

/-- A run that goes through has accounted for its batch just when the foldings agree. -/
theorem Statements.through_iff
    (h : Statements rules workspaceId documentId batch (deleteUntrackedGraphItems db workspaceId)
      db₁ db₂ db₃ db' ids)
    (hkeys : (batch.nodes.map (NodeInput.key rules)).Nodup)
    (hlower : batch.lowerNames.Nodup)
    (hcovered : (∀ n ∈ batch.nodes, ∃ m ∈ batch.nodes, m.key rules = rules.lower n.name) →
      ∀ n ∈ batch.nodes, rules.lower n.name = n.key rules) :
    db.Accounted workspaceId documentId batch ↔
      ∀ n ∈ batch.nodes, rules.lower n.name = n.key rules := by
  have hedges : ((proposedEdges db₂ workspaceId (resolveEdges rules ids batch.edges)).map
      (GraphEdge.key rules)).Nodup :=
    ((bulkUpsertGraphEdges_isSome db₂ workspaceId _).mp (Option.isSome_of_eq_some h.edges)).2
  rw [Accounted, h.bulkUpsertGraph_eq, h.proposals_eq]
  constructor
  · rintro ⟨-, hrecorded⟩
    exact hcovered (h.covered rfl (hrecorded db' rfl))
  · intro hagree
    refine ⟨⟨proposed_nodup_iff.mpr hlower,
      nodeSources_keys_nodup _ h.wellFormed₁ h.resolves₁ hkeys, hedges, ?_⟩, fun last hlast => ?_⟩
    · rw [proposedEdges_map_key] at hedges
      exact edgeSources_keys_nodup _ h.wellFormed₃ hedges
    · cases Option.some.inj hlast
      exact h.recorded hagree

/-- A first statement that does not go through is accounted for just when its rows have one key each,
since it then stops at a text that its column does not take. -/
theorem accounted_iff_of_stopped
    (hnodes : bulkUpsertGraphNodes rules (deleteUntrackedGraphItems db workspaceId) workspaceId
      batch.nodes = none) :
    db.Accounted workspaceId documentId batch ↔ batch.lowerNames.Nodup ∧
      (batch.nodes.all NodeInput.fits = true → batch.RelationshipsApart ∧
        (batch.found.all EdgeInput.fits = true →
          ∀ n ∈ batch.nodes, rules.lower n.name = n.key rules)) := by
  have hfirst := bulkUpsertGraphNodes_isSome_iff (deleteUntrackedGraphItems db workspaceId)
    workspaceId batch
  have hproposed : ((proposedNodes (deleteUntrackedGraphItems db workspaceId) workspaceId
      batch.nodes).map (GraphNode.key rules)).Nodup ↔ batch.lowerNames.Nodup := proposed_nodup_iff
  rw [hnodes, Option.isSome_none, Bool.false_eq_true, false_iff, not_and] at hfirst
  have hstopped : bulkUpsertGraph db workspaceId documentId batch = none := by
    rw [bulkUpsertGraph, hnodes]
    rfl
  have hrows : db.proposals workspaceId documentId batch =
      ⟨proposedNodes (deleteUntrackedGraphItems db workspaceId) workspaceId batch.nodes,
        [], [], []⟩ := by
    simp only [proposals, hnodes]
  rw [Accounted, hstopped, hrows]
  constructor
  · rintro ⟨hdistinct, -⟩
    have hlower := hproposed.mp hdistinct.nodes
    exact ⟨hlower, fun hfits => absurd hlower (hfirst hfits)⟩
  · rintro ⟨hlower, -⟩
    exact ⟨⟨hproposed.mpr hlower, List.nodup_nil, List.nodup_nil, List.nodup_nil⟩,
      fun _ h => nomatch h⟩

section Written

variable (hwf : db.WellFormed rules) (hkeys : (batch.nodes.map (NodeInput.key rules)).Nodup)
  (hnodes : bulkUpsertGraphNodes rules (deleteUntrackedGraphItems db workspaceId) workspaceId
    batch.nodes = some (db₁, ids))

include hwf hkeys hnodes

/-- Behind a first statement that goes through only the third one can fail. -/
theorem statements_of_written (documentId : Nat) :
    ∃ db₂, insertGraphNodeSources rules db₁ workspaceId documentId ids batch.nodes = some db₂ ∧
      ((bulkUpsertGraphEdges rules db₂ workspaceId (resolveEdges rules ids batch.edges)).isSome ↔
        batch.found.all EdgeInput.fits = true ∧ batch.RelationshipsApart) ∧
      ∀ db₃, bulkUpsertGraphEdges rules db₂ workspaceId (resolveEdges rules ids batch.edges) =
          some db₃ →
        ∃ db', Statements rules workspaceId documentId batch
          (deleteUntrackedGraphItems db workspaceId) db₁ db₂ db₃ db' ids := by
  have hwf₀ := hwf.deleteUntracked workspaceId
  have hwf₁ := (hwf₀.bulkNodes hnodes).2
  have hids := hwf₀.resolves hnodes
  have hsourceKeys := nodeSources_keys_nodup documentId hwf₁ hids hkeys
  obtain ⟨db₂, hnodeSources⟩ := insertGraphNodeSources_of_nodup db₁ hsourceKeys
  refine ⟨db₂, hnodeSources, ?_, fun db₃ hedges => ?_⟩
  · rw [bulkUpsertGraphEdges_isSome, hids.resolved_fit, hids.edges_keys_nodup_iff hwf₁]
  · have hthird :=
      (bulkUpsertGraphEdges_isSome db₂ workspaceId _).mp (Option.isSome_of_eq_some hedges)
    have hwf₂ := hwf₁.insertNodeSources hids hnodeSources
    have hin₂ : db₁.Within db₂ := by
      obtain ⟨table, -, rfl⟩ := Option.map_eq_some_iff.mp hnodeSources
      exact ⟨List.Subset.refl _, List.Subset.refl _⟩
    have hends := (hids.within hin₂ hwf₂).endsExist batch.edges
    have hedgeKeys := hthird.2
    rw [proposedEdges_map_key] at hedgeKeys
    obtain ⟨db', hedgeSources⟩ := insertGraphEdgeSources_of_nodup (edgeSources_keys_nodup
      documentId (hwf₂.bulkEdges hends hedges).2 hedgeKeys)
    exact ⟨db', hnodes, hnodeSources, hedges, hedgeSources, hwf₀⟩

/-- Behind a first statement that goes through, the third one decides. -/
theorem accounted_iff_of_written (documentId : Nat) (hlower : batch.lowerNames.Nodup)
    (hcovered : (∀ n ∈ batch.nodes, ∃ m ∈ batch.nodes, m.key rules = rules.lower n.name) →
      ∀ n ∈ batch.nodes, rules.lower n.name = n.key rules) :
    db.Accounted workspaceId documentId batch ↔ batch.RelationshipsApart ∧
      (batch.found.all EdgeInput.fits = true →
        ∀ n ∈ batch.nodes, rules.lower n.name = n.key rules) := by
  obtain ⟨db₂, hnodeSources, hthird, hthrough⟩ := statements_of_written hwf hkeys hnodes documentId
  cases hedges : bulkUpsertGraphEdges rules db₂ workspaceId
      (resolveEdges rules ids batch.edges) with
  | none =>
    have hwf₁ := ((hwf.deleteUntracked workspaceId).bulkNodes hnodes).2
    have hids := (hwf.deleteUntracked workspaceId).resolves hnodes
    have hapart := hids.edges_keys_nodup_iff hwf₁ db₂
    have hstopped : bulkUpsertGraph db workspaceId documentId batch = none := by
      simp only [bulkUpsertGraph, hnodes, hnodeSources, hedges, Option.bind_some, Option.bind_none]
    have hrows : db.proposals workspaceId documentId batch =
        ⟨proposedNodes (deleteUntrackedGraphItems db workspaceId) workspaceId batch.nodes,
          newNodeSources rules workspaceId documentId ids batch.nodes,
          proposedEdges db₂ workspaceId (resolveEdges rules ids batch.edges), []⟩ := by
      simp only [proposals, hnodes, hnodeSources, hedges]
    rw [hedges, Option.isSome_none, Bool.false_eq_true, false_iff, not_and] at hthird
    rw [Accounted, hstopped, hrows]
    constructor
    · rintro ⟨hdistinct, -⟩
      have hkept := hapart.mp hdistinct.edges
      exact ⟨hkept, fun hfits => absurd hkept (hthird hfits)⟩
    · rintro ⟨hkept, -⟩
      exact ⟨⟨proposed_nodup_iff.mpr hlower, nodeSources_keys_nodup _ hwf₁ hids hkeys,
        hapart.mpr hkept, List.nodup_nil⟩, fun _ h => nomatch h⟩
  | some db₃ =>
    obtain ⟨db', hrun⟩ := hthrough db₃ hedges
    rw [hedges, Option.isSome_some] at hthird
    obtain ⟨hfits, hapart⟩ := hthird.mp rfl
    rw [hrun.through_iff hkeys hlower hcovered]
    exact ⟨fun h => ⟨hapart, fun _ => h⟩, fun h => h.2 hfits⟩

end Written

/-- The batch is accounted for just when the foldings agree as far as the statements get. -/
theorem accounted_iff_of_keys (hwf : db.WellFormed rules)
    (hkeys : (batch.nodes.map (NodeInput.key rules)).Nodup)
    (hcovered : batch.lowerNames.Nodup →
      (∀ n ∈ batch.nodes, ∃ m ∈ batch.nodes, m.key rules = rules.lower n.name) →
      ∀ n ∈ batch.nodes, rules.lower n.name = n.key rules) :
    db.Accounted workspaceId documentId batch ↔ batch.lowerNames.Nodup ∧
      (batch.nodes.all NodeInput.fits = true → batch.RelationshipsApart ∧
        (batch.found.all EdgeInput.fits = true →
          ∀ n ∈ batch.nodes, rules.lower n.name = n.key rules)) := by
  cases hnodes : bulkUpsertGraphNodes rules (deleteUntrackedGraphItems db workspaceId) workspaceId
      batch.nodes with
  | none => exact accounted_iff_of_stopped hnodes
  | some written =>
    obtain ⟨db₁, ids⟩ := written
    obtain ⟨hfits, hlower⟩ :=
      (bulkUpsertGraphNodes_isSome_iff _ workspaceId batch).mp (Option.isSome_of_eq_some hnodes)
    rw [accounted_iff_of_written hwf hkeys hnodes documentId hlower (hcovered hlower)]
    exact ⟨fun h => ⟨hlower, fun _ => h⟩, fun h => h.2 hfits⟩

/-- The transaction goes through just when its columns take the rows and `lower` keeps them
apart. -/
theorem bulkUpsertGraph_isSome_iff (hwf : db.WellFormed rules)
    (hkeys : (batch.nodes.map (NodeInput.key rules)).Nodup) :
    (bulkUpsertGraph db workspaceId documentId batch).isSome ↔
      (batch.nodes.all NodeInput.fits = true ∧ batch.lowerNames.Nodup) ∧
        batch.found.all EdgeInput.fits = true ∧ batch.RelationshipsApart := by
  rw [← bulkUpsertGraphNodes_isSome_iff (deleteUntrackedGraphItems db workspaceId) workspaceId
    batch]
  cases hnodes : bulkUpsertGraphNodes rules (deleteUntrackedGraphItems db workspaceId) workspaceId
      batch.nodes with
  | none => simp [bulkUpsertGraph, hnodes]
  | some written =>
    obtain ⟨db₁, ids⟩ := written
    obtain ⟨db₂, hnodeSources, hthird, hthrough⟩ :=
      statements_of_written hwf hkeys hnodes documentId
    rw [← hthird]
    cases hedges : bulkUpsertGraphEdges rules db₂ workspaceId
        (resolveEdges rules ids batch.edges) with
    | none => simp [bulkUpsertGraph, hnodes, hnodeSources, hedges]
    | some db₃ =>
      obtain ⟨db', hrun⟩ := hthrough db₃ hedges
      rw [hrun.bulkUpsertGraph_eq]
      exact ⟨fun _ => ⟨rfl, rfl⟩, fun _ => rfl⟩

end Accounting

end Database

/-- Every batch is accounted for, on every graph, just when `lower` keeps its names apart and, unless
the columns refuse a row before, keeps apart the relationships between the same nodes and reads the
names as `to_lowercase` does. -/
theorem accounted_iff (t : CaseTables) (collation : TextRules)
    (batch : GraphWriteBatch (caseRules t collation) ν) (hbatch : batch.Built) (db : Database ν)
    (hwf : db.WellFormed (caseRules t collation)) (workspaceId documentId : Nat) :
    db.Accounted workspaceId documentId batch ↔ batch.lowerNames.Nodup ∧
      (batch.nodes.all NodeInput.fits = true → batch.RelationshipsApart ∧
        (batch.found.all EdgeInput.fits = true → batch.LowerAgrees)) := by
  have hagrees : batch.LowerAgrees ↔ ∀ n ∈ batch.nodes,
      (caseRules t collation).lower n.name = n.key (caseRules t collation) := by
    refine forall₂_congr fun n hn => ?_
    rw [hbatch.trimmed hn]
  rw [hagrees]
  refine Database.accounted_iff_of_keys hwf hbatch.keys_nodup fun hlower hcovered => ?_
  have hnames : ((batch.nodes.map NodeInput.name).map t.simpleLowercase).Nodup := by
    rw [List.map_map]
    exact hlower
  have hagree := t.agree_of_covered hnames fun name hname => by
    obtain ⟨n, hn, rfl⟩ := List.mem_map.mp hname
    obtain ⟨m, hm, hkey⟩ := hcovered n hn
    exact ⟨m.name, List.mem_map_of_mem hm, (hbatch.trimmed hm).symm.trans hkey⟩
  intro n hn
  rw [hbatch.trimmed hn]
  exact (hagree n.name (List.mem_map_of_mem hn)).symm

section Greek

/-- The simple lower case of the Greek and ASCII letters and of the dotted capital I. -/
def greekLower (c : Char) : Char :=
  if 0x391 ≤ c.toNat ∧ c.toNat ≤ 0x3A9 ∧ c.toNat ≠ 0x3A2 then Char.ofNat (c.toNat + 32)
  else if c = 'İ' then 'i'
  else c.toLower

def greekLowercase (c : Char) : List Char :=
  if c = 'İ' then ['i', '\u0307'] else [greekLower c]

theorem greekLowercase_eq (c : Char) :
    greekLowercase c = [greekLower c] ∨ 2 ≤ (greekLowercase c).length := by
  unfold greekLowercase
  split
  next => exact .inr (Nat.le_refl _)
  next => exact .inl rfl

theorem greekLower_sigma : greekLower 'Σ' = 'σ' := by decide

def greekTables : CaseTables where
  isCased c := c.isAlpha || (0x391 ≤ c.toNat && c.toNat ≤ 0x3C9)
  isCaseIgnorable c := c == '.' || c == '\'' || c == '\u0307'
  toLower := greekLowercase
  simpleLower := greekLower
  toLower_eq := greekLowercase_eq
  simpleLower_sigma := greekLower_sigma

def greekRules : TextRules := caseRules greekTables asciiRules

/-- A document whose only entity ends in a sigma. -/
def sigmaBatch : GraphWriteBatch greekRules Nat :=
  GraphWriteBatch.fromExtractionsOrdered greekRules Nat [(0, [.node ['Α', 'Σ'] none none])]

theorem sigmaBatch_rows :
    sigmaBatch.nodes = [⟨['Α', 'Σ'], none, none, none⟩] ∧ sigmaBatch.edges = [] :=
  fromExtractions_single greekRules Nat 0 ['Α', 'Σ'] (by decide +kernel)

theorem empty_wellFormed : (Database.empty : Database Nat).WellFormed greekRules :=
  Database.refines_empty.wellFormed

/-- The run goes through and leaves the entity without a source. -/
theorem sigmaBatch_lost : ∃ db', bulkUpsertGraph Database.empty 0 1 sigmaBatch = some db' ∧
    db'.nodes.map GraphNode.entityName = [['Α', 'Σ']] ∧ db'.nodeSources = [] := by
  have hrun : (bulkUpsertGraph Database.empty 0 1 sigmaBatch).any (fun db' =>
      db'.nodes.map GraphNode.entityName = [['Α', 'Σ']] ∧ db'.nodeSources = []) = true := by
    unfold bulkUpsertGraph
    rw [sigmaBatch_rows.1, sigmaBatch_rows.2]
    decide +kernel
  obtain ⟨db', hdb', hrows⟩ := (Option.any_eq_true _ _).mp hrun
  exact ⟨db', hdb', of_decide_eq_true hrows⟩

/-- Two entities that only `lower` takes for one. -/
def sigmaPair : GraphWriteBatch greekRules Nat :=
  GraphWriteBatch.fromExtractionsOrdered greekRules Nat
    [(0, [.node ['Α', 'Σ'] none none, .node ['α', 'σ'] none none])]

theorem sigmaPair_collides : ¬ sigmaPair.lowerNames.Nodup := by
  have hperm := (fromExtractions_nodes_perm (ν := Nat) greekRules
    [(0, [.node ['Α', 'Σ'] none none, .node ['α', 'σ'] none none])]).map
      fun n => greekRules.lower n.name
  have hnames : (Graph.fromExtractions greekRules Nat
      [(0, [.node ['Α', 'Σ'] none none, .node ['α', 'σ'] none none])]).nodes.map
        (fun n => greekRules.lower n.name) = [['α', 'σ'], ['α', 'σ']] := by
    decide +kernel
  rw [hnames] at hperm
  intro hnodup
  have hpair := hperm.nodup_iff.mp hnodup
  simp at hpair

/-- The source of the one entity is lost, and the two entities are proposed under one key. -/
theorem sigma_unaccounted :
    (sigmaBatch.Built ∧ ¬ Database.empty.Accounted 0 1 sigmaBatch) ∧
      sigmaPair.Built ∧ ¬ Database.empty.Accounted 0 1 sigmaPair ∧
        bulkUpsertGraph Database.empty 0 1 sigmaPair = none := by
  refine ⟨⟨⟨_, .inl rfl⟩, fun h => ?_⟩, ⟨_, .inl rfl⟩, fun h => ?_, ?_⟩
  · obtain ⟨db', hdb', -, hnone⟩ := sigmaBatch_lost
    obtain ⟨s, -, hs, -⟩ := (h.2 db' hdb').nodes ⟨['Α', 'Σ'], none, none, none⟩
      (by rw [sigmaBatch_rows.1]; exact List.mem_singleton_self _)
    rw [hnone] at hs
    cases hs
  · exact sigmaPair_collides h.1.lowerNames_nodup
  · have hfirst := Database.bulkUpsertGraphNodes_isSome_iff
      (deleteUntrackedGraphItems Database.empty 0) 0 sigmaPair
    have hstuck : bulkUpsertGraphNodes greekRules (deleteUntrackedGraphItems Database.empty 0) 0
        sigmaPair.nodes = none :=
      Option.not_isSome_iff_eq_none.mp fun hsome => sigmaPair_collides (hfirst.mp hsome).2
    rw [bulkUpsertGraph, hstuck]
    rfl

/-- A sigma in front of a letter is read alike. -/
theorem sigmaFirst_accounted :
    Database.empty.Accounted 0 1 (GraphWriteBatch.fromExtractionsOrdered greekRules Nat
      [(0, [.node ['Σ', 'Α'] none none])]) := by
  obtain ⟨hnodes, hedges⟩ := fromExtractions_single greekRules Nat 0 ['Σ', 'Α']
    (by decide +kernel)
  refine (accounted_iff greekTables asciiRules _ ⟨_, .inl rfl⟩ Database.empty
    empty_wellFormed 0 1).mpr ⟨?_, fun _ => ⟨?_, fun _ n hn => ?_⟩⟩
  · exact (congrArg (fun nodes : List (NodeInput Nat) =>
      (nodes.map fun n => greekRules.lower n.name).Nodup) hnodes).mpr (List.pairwise_singleton _ _)
  · exact List.Pairwise.sublist List.filter_sublist
      ((congrArg (List.Pairwise _) hedges).mpr List.Pairwise.nil)
  · obtain rfl := List.mem_singleton.mp (hnodes ▸ hn)
    decide +kernel

end Greek

end GmragApi.Graph

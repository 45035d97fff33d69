import GmragApi.OverlapCommit

/-! A batch that one transaction could write can be written on any tables: whether the statements
fail rests on the batch alone. -/

namespace GmragApi.Graph

variable {ν : Type} {rules : TextRules}

/-- The texts fit their columns, and no statement comes to one row twice. -/
structure Write.Writable (write : Write rules ν) : Prop where
  fits : ∀ n ∈ write.nodes, n.fits = true
  names : (write.nodes.map fun n => rules.lower n.name).Nodup
  nodes : write.nodes.Pairwise fun n m => write.Returns (normalizeKey rules n.name) →
    normalizeKey rules n.name ≠ normalizeKey rules m.name
  edges : write.edges.Pairwise fun e f => write.Returns (normalizeKey rules e.source) →
    write.Returns (normalizeKey rules e.target) →
      (normalizeKey rules e.source, normalizeKey rules e.target, rules.lower e.relationship) ≠
        (normalizeKey rules f.source, normalizeKey rules f.target, rules.lower f.relationship)
  edgesFit : ∀ e ∈ write.edges, write.Returns (normalizeKey rules e.source) →
    write.Returns (normalizeKey rules e.target) → e.fits = true

namespace Overlap

variable {t : Transaction rules ν} {db : Database ν} {ledger : Ledger rules ν}

/-- A transaction that came to its end has written such a batch. -/
theorem Transaction.Sound.writable (h : t.Sound db) (hcomplete : t.complete = true) :
    t.write.Writable where
  fits n hn := by
    obtain ⟨-, hdone, -⟩ := complete_todo hcomplete
    have hleft : t.nodesLeft = [] := (if_neg hdone.1).trans hdone.2
    refine (h.rows.fits n hn).resolve_left ?_
    rw [hleft]
    exact List.not_mem_nil
  names := by
    have hkeys := h.fit.nodes.keys
    rw [h.rows.nodes_complete hcomplete] at hkeys
    refine List.Nodup.of_map (Prod.mk t.write.workspaceId) ?_
    rw [List.map_map]
    exact hkeys
  nodes := by
    have hkeys := h.sources.nodeKeys
    rw [h.sources.nodes_complete hcomplete, Database.newNodeSources] at hkeys
    refine (List.pairwise_filterMap.mp (List.pairwise_map.mp hkeys)).imp
      fun {n m} hne hret heq => ?_
    obtain ⟨id, hid⟩ := h.rows.lookup_of_returns hcomplete hret
    exact hne _ (Option.map_eq_some_iff.mpr ⟨id, hid, rfl⟩) _
      (Option.map_eq_some_iff.mpr ⟨id, heq ▸ hid, rfl⟩) rfl
  edges := by
    have hkeys := h.fit.edges.keys
    rw [h.rows.edges_complete hcomplete, Transaction.resolved, resolveEdges] at hkeys
    refine (List.pairwise_filterMap.mp (List.pairwise_map.mp hkeys)).imp
      fun {e f} hne hsource htarget heq => ?_
    obtain ⟨a, ha⟩ := h.rows.lookup_of_returns hcomplete hsource
    obtain ⟨b, hb⟩ := h.rows.lookup_of_returns hcomplete htarget
    simp only [Prod.mk.injEq] at heq
    have hresolve : ∀ x : EdgeInput, t.nodeIds.lookup (normalizeKey rules x.source) = some a →
        t.nodeIds.lookup (normalizeKey rules x.target) = some b →
        ((t.nodeIds.lookup (normalizeKey rules x.source)).bind fun sourceId =>
          (t.nodeIds.lookup (normalizeKey rules x.target)).map fun targetId =>
            (sourceId, targetId, x)) = some (a, b, x) := by
      intro x hxa hxb
      rw [hxa, hxb]
      rfl
    refine hne _ (hresolve e ha hb) _ (hresolve f (heq.1 ▸ ha) (heq.2.1 ▸ hb)) ?_
    simp only [Write.edgeKey, heq.2.2]
  edgesFit e he hsource htarget := by
    obtain ⟨a, ha⟩ := h.rows.lookup_of_returns hcomplete hsource
    obtain ⟨b, hb⟩ := h.rows.lookup_of_returns hcomplete htarget
    obtain ⟨-, -, hdone⟩ := complete_todo hcomplete
    have hresolved : (a, b, e) ∈ t.resolved := Database.mem_resolveEdges.mpr ⟨he, ha, hb⟩
    refine ((h.rows.edgesFit.resolve_left hdone.1) _ hresolved).resolve_left ?_
    rw [hdone.2]
    exact List.not_mem_nil

end Overlap

namespace Database

variable {db db' : Database ν} {ledger : Ledger rules ν} {workspaceId documentId : Nat}
  {ids : NodeIds}

theorem statement_isSome {α κ : Type} [DecidableEq κ] {key : α → κ} {rows : List α}
    (merge : α → α → α) (table : List α) (h : (rows.map key).Nodup) :
    ∃ result, Upsert.statement key merge table rows = some result := ⟨_, if_pos h⟩

theorem bulkUpsertGraphNodes_isSome {nodes : List (NodeInput ν)}
    (hfits : ∀ n ∈ nodes, n.fits = true) (hnames : (nodes.map fun n => rules.lower n.name).Nodup) :
    ∃ db' ids, bulkUpsertGraphNodes rules db workspaceId nodes = some (db', ids) := by
  have hkeys : ((proposedNodes db workspaceId nodes).map (GraphNode.key rules)).Nodup := by
    have hpairs : (nodes.map fun n => (workspaceId, rules.lower n.name)) =
        (nodes.map fun n => rules.lower n.name).map (Prod.mk workspaceId) := by
      rw [List.map_map, Function.comp_def]
    rw [proposedNodes_keys, hpairs]
    exact hnames.map (Prod.mk_right_injective workspaceId)
  obtain ⟨table, htable⟩ := statement_isSome GraphNode.update db.nodes hkeys
  rw [bulkUpsertGraphNodes, if_pos (List.all_eq_true.mpr hfits), htable]
  exact ⟨_, _, rfl⟩

section Writable

variable {batch : GraphWriteBatch rules ν}

/-- Two keys with one id are one key. -/
theorem Resolves.lookup_inj (h : db.Resolves rules workspaceId batch.nodes ids)
    (hwf : db.WellFormed rules) {key key' : List Char} {id : Nat} (hk : ids.lookup key = some id)
    (hk' : ids.lookup key' = some id) : key = key' :=
  congrArg Prod.snd (hwf.key_unique ((h.lookup _ _).mp hk).2 ((h.lookup _ _).mp hk').2)

theorem newNodeSources_nodup
    (hwrite : (Write.ingest workspaceId documentId batch).Writable) (hwf : db.WellFormed rules)
    (hids : db.Resolves rules workspaceId batch.nodes ids) :
    ((newNodeSources rules workspaceId documentId ids batch.nodes).map NodeSource.key).Nodup := by
  refine List.pairwise_map.mpr (List.pairwise_filterMap.mpr (hwrite.nodes.imp ?_))
  intro n m hne s hs s' hs' heq
  obtain ⟨id, hid, rfl⟩ := Option.map_eq_some_iff.mp hs
  obtain ⟨id', hid', rfl⟩ := Option.map_eq_some_iff.mp hs'
  have hsame : id = id' := congrArg Prod.fst heq
  exact hne ((hids.lookup _ _).mp hid).1 (hids.lookup_inj hwf hid (hsame ▸ hid'))

theorem resolved_nodup
    (hwrite : (Write.ingest workspaceId documentId batch).Writable) (hwf : db.WellFormed rules)
    (hids : db.Resolves rules workspaceId batch.nodes ids) :
    ((resolveEdges rules ids batch.edges).map
      (Write.ingest workspaceId documentId batch).edgeKey).Nodup := by
  refine List.pairwise_map.mpr (List.pairwise_filterMap.mpr (hwrite.edges.imp ?_))
  intro e f hne x hx y hy heq
  simp only [Option.bind_eq_some_iff, Option.map_eq_some_iff] at hx hy
  obtain ⟨a, ha, b, hb, rfl⟩ := hx
  obtain ⟨c, hc, d, hd, rfl⟩ := hy
  simp only [Write.edgeKey, Prod.mk.injEq] at heq
  obtain ⟨-, rfl, rfl, hrel⟩ := heq
  refine hne ((hids.lookup _ _).mp ha).1 ((hids.lookup _ _).mp hb).1 ?_
  rw [hids.lookup_inj hwf ha hc, hids.lookup_inj hwf hb hd, hrel]

theorem resolved_fit (hwrite : (Write.ingest workspaceId documentId batch).Writable)
    (hids : db.Resolves rules workspaceId batch.nodes ids) :
    ((resolveEdges rules ids batch.edges).all fun e => e.2.2.fits) = true := by
  refine List.all_eq_true.mpr fun x hx => ?_
  obtain ⟨he, ha, hb⟩ := mem_resolveEdges.mp hx
  exact hwrite.edgesFit _ he ((hids.lookup _ _).mp ha).1 ((hids.lookup _ _).mp hb).1

theorem proposedEdges_keys (db : Database ν) (edges : List (Nat × Nat × EdgeInput))
    (batch : GraphWriteBatch rules ν) :
    (proposedEdges db workspaceId edges).map (GraphEdge.key rules) =
      edges.map (Write.ingest workspaceId documentId batch).edgeKey := by
  refine List.ext_getElem (by simp [proposedEdges]) fun i hi hj => ?_
  simp only [proposedEdges, List.getElem_map, List.getElem_mapIdx, GraphEdge.key]
  rfl

theorem newEdgeSources_nodup (hwf : db.WellFormed rules) {edges : List (Nat × Nat × EdgeInput)}
    (hedges : (edges.map (Write.ingest workspaceId documentId batch).edgeKey).Nodup) :
    ((newEdgeSources rules db workspaceId documentId edges).map EdgeSource.key).Nodup := by
  refine List.pairwise_map.mpr (List.pairwise_filterMap.mpr ((List.pairwise_map.mp hedges).imp ?_))
  intro e f hne s hs s' hs' heq
  simp only [Option.map_eq_some_iff, Upsert.find?_beq_iff hwf.edgeRowKeys] at hs hs'
  obtain ⟨row, ⟨hrow, hkey⟩, rfl⟩ := hs
  obtain ⟨row', ⟨hrow', hkey'⟩, rfl⟩ := hs'
  have hid : row.id = row'.id := congrArg Prod.fst heq
  have hlabel := hwf.edge_eq_of_id (List.mem_map_of_mem hrow) (List.mem_map_of_mem hrow') hid
  exact hne (hkey.symm.trans ((congrArg (EdgeLabel.key rules) hlabel).trans hkey'))

/-- No statement of the transaction fails. -/
theorem Refines.bulkUpsertGraph_isSome (hr : db.Refines ledger)
    (hnone : ledger.extracted workspaceId documentId = none)
    (hwrite : (Write.ingest workspaceId documentId batch).Writable) :
    ∃ db', Graph.bulkUpsertGraph db workspaceId documentId batch = some db' := by
  have hr₀ := hr.deleteUntracked workspaceId
  obtain ⟨db₁, ids, hnodes⟩ : ∃ db₁ ids, bulkUpsertGraphNodes rules
      (deleteUntrackedGraphItems db workspaceId) workspaceId batch.nodes = some (db₁, ids) :=
    bulkUpsertGraphNodes_isSome hwrite.fits hwrite.names
  have hr₁ := hr₀.bulkNodes hnodes
  have hids := hr₀.wellFormed.resolves hnodes
  have hsourceKeys := newNodeSources_nodup hwrite hr₁.wellFormed hids
  obtain ⟨sources, hsources⟩ := statement_isSome NodeSource.update db₁.nodeSources
    hsourceKeys
  have hnodeSources : insertGraphNodeSources rules db₁ workspaceId documentId ids batch.nodes =
      some { db₁ with nodeSources := sources } :=
    Option.map_eq_some_iff.mpr ⟨sources, hsources, rfl⟩
  have htells : ∀ key f, ¬ db₁.Tells rules workspaceId documentId key f := by
    intro key f hf
    obtain ⟨old, hold, -⟩ := (hr₁.tells _ _ _ _).mp hf
    exact Option.some_ne_none old (hold.symm.trans hnone)
  have hwf₂ := hr₁.wellFormed.insertNodeSources hids hnodeSources
  have hids₂ : Resolves rules { db₁ with nodeSources := sources } workspaceId batch.nodes ids :=
    hids.within ⟨List.Subset.refl _, List.Subset.refl _⟩ hwf₂
  have hresolved := resolved_nodup hwrite hwf₂ hids₂
  obtain ⟨edges, hedges⟩ := statement_isSome GraphEdge.update db₁.edges
    ((proposedEdges_keys { db₁ with nodeSources := sources } _ batch).symm ▸ hresolved)
  have hbulkEdges : bulkUpsertGraphEdges rules { db₁ with nodeSources := sources } workspaceId
      (resolveEdges rules ids batch.edges) = some { db₁ with
        nodeSources := sources
        edges := edges
        nextId := db₁.nextId + (resolveEdges rules ids batch.edges).length } := by
    rw [bulkUpsertGraphEdges, if_pos (resolved_fit hwrite hids₂)]
    exact Option.map_eq_some_iff.mpr ⟨edges, hedges, rfl⟩
  obtain ⟨-, hwf₃⟩ := hwf₂.bulkEdges (hids₂.endsExist batch.edges) hbulkEdges
  obtain ⟨edgeSources, hedgeSources⟩ := statement_isSome EdgeSource.update db₁.edgeSources
    (newEdgeSources_nodup hwf₃ hresolved)
  have hlast : insertGraphEdgeSources rules { db₁ with
        nodeSources := sources
        edges := edges
        nextId := db₁.nextId + (resolveEdges rules ids batch.edges).length } workspaceId documentId
      (resolveEdges rules ids batch.edges) = some { db₁ with
        nodeSources := sources
        edges := edges
        edgeSources := edgeSources
        nextId := db₁.nextId + (resolveEdges rules ids batch.edges).length } :=
    Option.map_eq_some_iff.mpr ⟨edgeSources, hedgeSources, rfl⟩
  refine Option.isSome_iff_exists.mp ?_
  simp only [Graph.bulkUpsertGraph, hnodes, Option.bind_some, hnodeSources, hbulkEdges, hlast,
    Option.isSome_some]

theorem Refines.step_isSome (hr : db.Refines ledger) {write : Write rules ν}
    (hwrite : write.Writable) : ∃ db', Graph.step db write = some db' := by
  cases write with
  | ingest w d batch =>
    have hcleared := (hr.dropSources w d).deleteUntracked w
    exact hcleared.bulkUpsertGraph_isSome (if_pos ⟨rfl, rfl⟩) hwrite
  | delete w d => exact ⟨_, rfl⟩

theorem Refines.run_isSome (hr : db.Refines ledger) {writes : List (Write rules ν)}
    (hwrites : ∀ write ∈ writes, write.Writable) :
    ∃ db', Transition.run Graph.step db writes = some db' := by
  induction writes generalizing db ledger with
  | nil => exact ⟨db, rfl⟩
  | cons write writes ih =>
    obtain ⟨mid, hmid⟩ := hr.step_isSome (hwrites write List.mem_cons_self)
    obtain ⟨db', hdb'⟩ := ih (hr.step hmid) fun w hw => hwrites w (List.mem_cons_of_mem _ hw)
    exact ⟨db', Option.bind_eq_some_iff.mpr ⟨mid, hmid, hdb'⟩⟩

end Writable

end Database

end GmragApi.Graph

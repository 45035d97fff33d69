import GmragApi.GraphInvariant

/-! One ingestion transaction on the graph tables, statement by statement, and whole runs. -/

namespace GmragApi.Graph

variable {ν : Type} {rules : TextRules}

/-- The first entry of a key is the only one. -/
theorem lookup_eq_some_iff_mem {α β : Type} [BEq α] [LawfulBEq α] {entries : List (α × β)}
    (hone : ∀ k v w, (k, v) ∈ entries → (k, w) ∈ entries → v = w) {k : α} {v : β} :
    entries.lookup k = some v ↔ (k, v) ∈ entries := by
  constructor
  · intro h
    obtain ⟨front, back, rfl, -⟩ := List.lookup_eq_some_iff.mp h
    exact List.mem_append_right _ List.mem_cons_self
  · intro h
    obtain ⟨w, hw⟩ : ∃ w, entries.lookup k = some w := by
      refine Option.ne_none_iff_exists'.mp (fun hnone => ?_)
      have hne := List.lookup_eq_none_iff.mp hnone (k, v) h
      simp at hne
    obtain ⟨front, back, rfl, -⟩ := List.lookup_eq_some_iff.mp hw
    rw [hw, hone k v w h (List.mem_append_right _ List.mem_cons_self)]

/-- Ids that count up from the next one. -/
theorem mapIdx_ids_nodup {α β : Type} (next : Nat) (f : Nat → α → β) (id : β → Nat)
    (hid : ∀ i a, id (f i a) = next + i) (as : List α) : ((as.mapIdx f).map id).Nodup := by
  refine List.pairwise_iff_getElem.mpr (fun i j hi hj hij => ?_)
  simp only [List.getElem_map, List.getElem_mapIdx, hid]
  omega

theorem mapIdx_ids_bound {α β : Type} (next : Nat) (f : Nat → α → β) (id : β → Nat)
    (hid : ∀ i a, id (f i a) = next + i) {as : List α} {b : β} (hb : b ∈ as.mapIdx f) :
    next ≤ id b ∧ id b < next + as.length := by
  obtain ⟨i, hi, rfl⟩ := List.mem_mapIdx.mp hb
  rw [hid]
  omega

/-- Rows with ids from the next one on keep the ids apart. -/
theorem ids_append_nodup {α : Type} {id : α → Nat} {next : Nat} {rows fresh : List α}
    (hrows : (rows.map id).Nodup) (hfresh : (fresh.map id).Nodup) (hold : ∀ a ∈ rows, id a < next)
    (hnew : ∀ a ∈ fresh, next ≤ id a) : ((rows ++ fresh).map id).Nodup := by
  rw [List.map_append, List.nodup_append]
  refine ⟨hrows, hfresh, fun k hk l hl heq => ?_⟩
  obtain ⟨a, ha, rfl⟩ := List.mem_map.mp hk
  obtain ⟨b, hb, rfl⟩ := List.mem_map.mp hl
  have hlt := hold a ha
  have hge := hnew b hb
  omega

namespace Database

variable {db db' : Database ν} {workspaceId documentId : Nat} {nodes : List (NodeInput ν)}
  {ids : NodeIds}

/-- What the ids of an upsert are: those of the rows of the names it was given. -/
structure Resolves (rules : TextRules) (db : Database ν) (workspaceId : Nat)
    (nodes : List (NodeInput ν)) (ids : NodeIds) : Prop where
  lookup : ∀ key id, ids.lookup key = some id ↔
    (∃ m ∈ nodes, rules.lower m.name = key) ∧ db.HasKey rules id (workspaceId, key)
  row : ∀ m ∈ nodes, ∃ id, db.HasKey rules id (workspaceId, rules.lower m.name)

section Within

theorem Within.sourceEnd (h : db.Within db') (hwf : db.WellFormed rules) {e : EdgeLabel}
    (he : e ∈ db.edgeLabels) : ∃ l ∈ db'.nodeLabels, l.id = e.sourceNodeId ∧
      l.workspaceId = e.workspaceId := by
  obtain ⟨l, hl, hrest⟩ := hwf.sourceEnd e he
  exact ⟨l, h.nodes hl, hrest⟩

theorem Within.targetEnd (h : db.Within db') (hwf : db.WellFormed rules) {e : EdgeLabel}
    (he : e ∈ db.edgeLabels) : ∃ l ∈ db'.nodeLabels, l.id = e.targetNodeId ∧
      l.workspaceId = e.workspaceId := by
  obtain ⟨l, hl, hrest⟩ := hwf.targetEnd e he
  exact ⟨l, h.nodes hl, hrest⟩

theorem Within.nodeOfSource (h : db.Within db') (hwf : db.WellFormed rules)
    (hsources : db'.nodeSources = db.nodeSources) :
    ∀ s ∈ db'.nodeSources, ∃ l ∈ db'.nodeLabels, l.id = s.graphNodeId ∧
      l.workspaceId = s.workspaceId := by
  intro s hs
  obtain ⟨l, hl, hrest⟩ := hwf.nodeOfSource s (hsources ▸ hs)
  exact ⟨l, h.nodes hl, hrest⟩

theorem Within.edgeOfSource (h : db.Within db') (hwf : db.WellFormed rules)
    (hsources : db'.edgeSources = db.edgeSources) :
    ∀ s ∈ db'.edgeSources, ∃ e ∈ db'.edgeLabels, e.id = s.graphEdgeId ∧
      e.workspaceId = s.workspaceId := by
  intro s hs
  obtain ⟨e, he, hrest⟩ := hwf.edgeOfSource s (hsources ▸ hs)
  exact ⟨e, h.edges he, hrest⟩

end Within

section Nodes

/-- The rows that the statement on `graph_nodes` inserts. -/
def freshNodes (rules : TextRules) (db : Database ν) (workspaceId : Nat)
    (nodes : List (NodeInput ν)) : List (GraphNode ν) :=
  Upsert.fresh (GraphNode.key rules) db.nodes (proposedNodes db workspaceId nodes)

theorem bulkUpsertGraphNodes_table
    (h : bulkUpsertGraphNodes rules db workspaceId nodes = some (db', ids)) :
    Upsert.statement (GraphNode.key rules) GraphNode.update db.nodes
        (proposedNodes db workspaceId nodes) = some db'.nodes ∧
      db' = { db with nodes := db'.nodes, nextId := db.nextId + nodes.length } ∧
      ids = nodes.filterMap fun n =>
        (db'.nodes.find? fun row => row.key rules == (workspaceId, rules.lower n.name)).map
          fun row => (rules.lower row.entityName, row.id) := by
  obtain ⟨-, h⟩ := Option.ite_none_right_eq_some.mp h
  obtain ⟨table, htable, h⟩ := Option.map_eq_some_iff.mp h
  cases h
  exact ⟨htable, rfl, rfl⟩

theorem bulkUpsertGraphNodes_labels
    (h : bulkUpsertGraphNodes rules db workspaceId nodes = some (db', ids)) :
    db'.nodeLabels =
      db.nodeLabels ++ (db.freshNodes rules workspaceId nodes).map GraphNode.label :=
  Upsert.map_statement GraphNode.update_label (bulkUpsertGraphNodes_table h).1

theorem mem_freshNodes {new : GraphNode ν} (h : new ∈ db.freshNodes rules workspaceId nodes) :
    new ∈ proposedNodes db workspaceId nodes ∧
      ∀ l ∈ db.nodeLabels, l.key rules ≠ new.key rules := by
  obtain ⟨hnew, hkey⟩ := Upsert.mem_fresh.mp h
  refine ⟨hnew, fun l hl heq => hkey ?_⟩
  obtain ⟨row, hrow, rfl⟩ := List.mem_map.mp hl
  exact List.mem_map.mpr ⟨row, hrow, heq⟩

theorem WellFormed.bulkNodes (hwf : db.WellFormed rules)
    (h : bulkUpsertGraphNodes rules db workspaceId nodes = some (db', ids)) :
    db.Within db' ∧ db'.WellFormed rules := by
  have hlabels := bulkUpsertGraphNodes_labels h
  obtain ⟨htable, hdb', -⟩ := bulkUpsertGraphNodes_table h
  have hedges : db'.edgeLabels = db.edgeLabels := by rw [hdb', edgeLabels, edgeLabels]
  have hnext : db'.nextId = db.nextId + nodes.length := by rw [hdb']
  have hfresh : ∀ new ∈ db.freshNodes rules workspaceId nodes,
      db.nextId ≤ new.id ∧ new.id < db.nextId + nodes.length := fun new hnew =>
    mapIdx_ids_bound db.nextId _ GraphNode.id (fun _ _ => rfl) (mem_freshNodes hnew).1
  have hin : db.Within db' :=
    ⟨hlabels ▸ List.subset_append_left _ _, hedges ▸ List.Subset.refl _⟩
  have hnodeSources : db'.nodeSources = db.nodeSources := by rw [hdb']
  have hedgeSources : db'.edgeSources = db.edgeSources := by rw [hdb']
  refine ⟨hin,
    { nodeIds := ?_
      nodeKeys := ?_
      edgeIds := hedges ▸ hwf.edgeIds
      edgeKeys := hedges ▸ hwf.edgeKeys
      nodeSourceKeys := hnodeSources ▸ hwf.nodeSourceKeys
      edgeSourceKeys := hedgeSources ▸ hwf.edgeSourceKeys
      nodeBound := fun l hl => ?_
      edgeBound := fun e he => ?_
      sourceEnd := fun e he => hin.sourceEnd hwf (hedges ▸ he)
      targetEnd := fun e he => hin.targetEnd hwf (hedges ▸ he)
      nodeOfSource := hin.nodeOfSource hwf hnodeSources
      edgeOfSource := hin.edgeOfSource hwf hedgeSources }⟩
  · rw [hlabels]
    refine ids_append_nodup hwf.nodeIds ?_ hwf.nodeBound fun l hl => ?_
    · rw [List.map_map]
      exact (mapIdx_ids_nodup db.nextId _ GraphNode.id (fun _ _ => rfl) nodes).sublist
        (List.filter_sublist.map _)
    · obtain ⟨new, hnew, rfl⟩ := List.mem_map.mp hl
      exact (hfresh new hnew).1
  · have hkeys := Upsert.statement_keys_nodup GraphNode.update_key hwf.nodeRowKeys htable
    rw [nodeLabels, List.map_map]
    exact hkeys
  · rw [hlabels] at hl
    rw [hnext]
    rcases List.mem_append.mp hl with hl | hl
    · have hold := hwf.nodeBound l hl
      omega
    · obtain ⟨new, hnew, rfl⟩ := List.mem_map.mp hl
      exact (hfresh new hnew).2
  · have hold := hwf.edgeBound e (hedges ▸ he)
    omega

theorem proposedNodes_keys (db : Database ν) (workspaceId : Nat) (nodes : List (NodeInput ν)) :
    (proposedNodes db workspaceId nodes).map (GraphNode.key rules) =
      nodes.map fun n => (workspaceId, rules.lower n.name) := by
  refine List.ext_getElem (by simp [proposedNodes]) (fun i hi hj => ?_)
  simp only [proposedNodes, List.getElem_map, List.getElem_mapIdx, GraphNode.key]

theorem exists_proposed_iff {w : Nat} {key name : List Char} :
    (∃ new ∈ proposedNodes db workspaceId nodes,
        new.key rules = (w, key) ∧ new.entityName = name) ↔
      w = workspaceId ∧ ∃ n ∈ nodes, rules.lower n.name = key ∧ n.name = name := by
  constructor
  · rintro ⟨new, hnew, hkey, rfl⟩
    obtain ⟨i, hi, rfl⟩ := List.mem_mapIdx.mp hnew
    cases hkey
    exact ⟨rfl, nodes[i], List.getElem_mem hi, rfl, rfl⟩
  · rintro ⟨rfl, n, hn, rfl, rfl⟩
    obtain ⟨i, hi, rfl⟩ := List.getElem_of_mem hn
    exact ⟨_, List.mem_mapIdx.mpr ⟨i, hi, rfl⟩, rfl, rfl⟩

theorem WellFormed.resolves (hwf : db.WellFormed rules)
    (h : bulkUpsertGraphNodes rules db workspaceId nodes = some (db', ids)) :
    db'.Resolves rules workspaceId nodes ids := by
  have hwf' := (hwf.bulkNodes h).2
  obtain ⟨htable, -, hids⟩ := bulkUpsertGraphNodes_table h
  have hmem : ∀ k v, (k, v) ∈ ids ↔
      (∃ m ∈ nodes, rules.lower m.name = k) ∧ db'.HasKey rules v (workspaceId, k) := by
    intro k v
    simp only [hids, List.mem_filterMap, Option.map_eq_some_iff,
      Upsert.find?_beq_iff hwf'.nodeRowKeys]
    constructor
    · rintro ⟨n, hn, row, ⟨hrow, hkey⟩, heq⟩
      cases heq
      have hlower : rules.lower row.entityName = rules.lower n.name := congrArg Prod.snd hkey
      exact ⟨⟨n, hn, hlower.symm⟩, row.label, List.mem_map_of_mem hrow, rfl, hlower.symm ▸ hkey⟩
    · rintro ⟨⟨n, hn, rfl⟩, l, hl, rfl, hkey⟩
      obtain ⟨row, hrow, rfl⟩ := List.mem_map.mp hl
      exact ⟨n, hn, row, ⟨hrow, hkey⟩, Prod.ext (congrArg Prod.snd hkey) rfl⟩
  refine ⟨fun key id => ?_, fun m hm => ?_⟩
  · rw [← hmem]
    refine lookup_eq_some_iff_mem fun k v w hv hw => ?_
    exact hwf'.id_unique ((hmem k v).mp hv).2 ((hmem k w).mp hw).2
  · obtain ⟨new, hnew, hkey, -⟩ : ∃ new ∈ proposedNodes db workspaceId nodes,
        new.key rules = (workspaceId, rules.lower m.name) ∧ new.entityName = m.name :=
      exists_proposed_iff.mpr ⟨rfl, m, hm, rfl, rfl⟩
    obtain ⟨row, hrow, hrowKey⟩ := Upsert.exists_of_proposed GraphNode.update_key htable hnew
    exact ⟨row.id, row.label, List.mem_map_of_mem hrow, rfl, hrowKey.trans hkey⟩

/-- No two nodes of the batch have one key, so its spelling of the key is the one there is. -/
theorem spelling_eq_some_iff {batch : GraphWriteBatch rules ν}
    (h : bulkUpsertGraphNodes rules db workspaceId batch.nodes = some (db', ids))
    {key name : List Char} :
    batch.spelling key = some name ↔
      ∃ n ∈ batch.nodes, rules.lower n.name = key ∧ n.name = name := by
  have hkeys : (batch.nodes.map fun n => rules.lower n.name).Nodup := by
    have hproposed := Upsert.statement_nodup (bulkUpsertGraphNodes_table h).1
    rw [proposedNodes_keys] at hproposed
    have hpairs : (batch.nodes.map fun n => (workspaceId, rules.lower n.name)) =
        (batch.nodes.map fun n => rules.lower n.name).map (Prod.mk workspaceId) := by
      rw [List.map_map, Function.comp_def]
    exact List.Nodup.of_map _ (hpairs ▸ hproposed)
  rw [GraphWriteBatch.spelling, Option.map_eq_some_iff]
  refine exists_congr fun n => ?_
  rw [Upsert.find?_key_iff hkeys, and_assoc]

theorem Refines.bulkNodes {ledger : Ledger rules ν} (hr : db.Refines ledger)
    {batch : GraphWriteBatch rules ν}
    (h : bulkUpsertGraphNodes rules db workspaceId batch.nodes = some (db', ids)) :
    db'.Refines (ledger.spell workspaceId batch) := by
  obtain ⟨hin, hwf'⟩ := hr.wellFormed.bulkNodes h
  obtain ⟨-, hdb', -⟩ := bulkUpsertGraphNodes_table h
  refine
    { wellFormed := hwf'
      spelling := fun w key name => ?_
      tells := fun w d key f =>
        (hin.tells_iff hr.wellFormed hwf' (by rw [hdb']) key f).trans (hr.tells w d key f)
      relates := fun w d source target relationship f =>
        (hin.relates_iff hr.wellFormed hwf' (by rw [hdb']) source target relationship f).trans
          (hr.relates w d source target relationship f) }
  have hfresh : ∀ l ∈ (db.freshNodes rules workspaceId batch.nodes).map GraphNode.label,
      l.key rules = (w, key) → (∀ l ∈ db.nodeLabels, l.key rules ≠ (w, key)) ∧
        w = workspaceId ∧ batch.spelling key = some l.name := by
    intro l hl hkey
    obtain ⟨new, hnew, rfl⟩ := List.mem_map.mp hl
    obtain ⟨hproposed, hother⟩ := mem_freshNodes hnew
    obtain ⟨hw, hn⟩ := exists_proposed_iff.mp ⟨new, hproposed, hkey, rfl⟩
    exact ⟨fun old hold => hkey ▸ hother old hold, hw, (spelling_eq_some_iff h).mpr hn⟩
  rw [Ledger.spell_spelling_eq_some, hr.spelling, bulkUpsertGraphNodes_labels h]
  constructor
  · rintro (⟨l, hl, hkey, hname⟩ | ⟨hnone, rfl, hspelling⟩)
    · exact ⟨l, List.mem_append_left _ hl, hkey, hname⟩
    · obtain ⟨n, hn, hkey, hname⟩ := (spelling_eq_some_iff h).mp hspelling
      obtain ⟨new, hnew, hnewKey, hnewName⟩ : ∃ new ∈ proposedNodes db w batch.nodes,
          new.key rules = (w, key) ∧ new.entityName = name :=
        exists_proposed_iff.mpr ⟨rfl, n, hn, hkey, hname⟩
      refine ⟨new.label, List.mem_append_right _ (List.mem_map_of_mem ?_), hnewKey, hnewName⟩
      refine Upsert.mem_fresh.mpr ⟨hnew, fun hmem => ?_⟩
      obtain ⟨row, hrow, hrowKey⟩ := List.mem_map.mp hmem
      have hspelled := (hr.spelling w key row.entityName).mpr
        ⟨row.label, List.mem_map_of_mem hrow, hrowKey.trans hnewKey, rfl⟩
      rw [hnone] at hspelled
      cases hspelled
  · rintro ⟨l, hl, hkey, rfl⟩
    rcases List.mem_append.mp hl with hl | hl
    · exact .inl ⟨l, hl, hkey, rfl⟩
    · obtain ⟨hnone, hw, hspelling⟩ := hfresh l hl hkey
      refine .inr ⟨Option.eq_none_iff_forall_ne_some.mpr fun old hold => ?_, hw, hspelling⟩
      obtain ⟨l', hl', hkey', -⟩ := (hr.spelling w key old).mp hold
      exact hnone l' hl' hkey'

end Nodes

section NodeSources

variable {batch : GraphWriteBatch rules ν}

def newNodeSources (rules : TextRules) (workspaceId documentId : Nat) (ids : NodeIds)
    (nodes : List (NodeInput ν)) : List (NodeSource ν) :=
  nodes.filterMap fun n =>
    (ids.lookup (normalizeKey rules n.name)).map fun id =>
      ⟨id, documentId, workspaceId, n.entityType, n.description, n.embedding⟩

theorem mem_newNodeSources {s : NodeSource ν} :
    s ∈ newNodeSources rules workspaceId documentId ids nodes ↔
      ∃ n ∈ nodes, ids.lookup (normalizeKey rules n.name) = some s.graphNodeId ∧
        s.documentId = documentId ∧ s.workspaceId = workspaceId ∧ s.fact = n.fact := by
  simp only [newNodeSources, List.mem_filterMap, Option.map_eq_some_iff]
  constructor
  · rintro ⟨n, hn, id, hid, rfl⟩
    exact ⟨n, hn, hid, rfl, rfl, rfl⟩
  · rintro ⟨n, hn, hid, rfl, rfl, hfact⟩
    cases EntityFact.mk.inj hfact with
    | intro htype hrest =>
      exact ⟨n, hn, s.graphNodeId, hid, by rw [← htype, ← hrest.1, ← hrest.2]⟩

/-- The document has no source in the workspace, so all of its sources are new rows. -/
theorem insertGraphNodeSources_append
    (hnone : ∀ key f, ¬ db.Tells rules workspaceId documentId key f)
    (hids : db.Resolves rules workspaceId nodes ids)
    (h : insertGraphNodeSources rules db workspaceId documentId ids nodes = some db') :
    db' = { db with nodeSources :=
      db.nodeSources ++ newNodeSources rules workspaceId documentId ids nodes } := by
  obtain ⟨table, htable, rfl⟩ := Option.map_eq_some_iff.mp h
  have happend : table = db.nodeSources ++
      newNodeSources rules workspaceId documentId ids nodes := by
    refine Upsert.statement_append (fun new hnew old hold heq => ?_) htable
    obtain ⟨n, -, hlookup, hdoc, -, -⟩ := mem_newNodeSources.mp hnew
    obtain ⟨hnode, hdocs⟩ := Prod.ext_iff.mp heq
    have hkey := ((hids.lookup _ _).mp hlookup).2
    exact hnone _ _ ⟨old, hold, hdocs.symm.trans hdoc,
      (show new.graphNodeId = old.graphNodeId from hnode) ▸ hkey, rfl⟩
  rw [happend]

theorem mem_insertGraphNodeSources
    (h : insertGraphNodeSources rules db workspaceId documentId ids nodes = some db')
    {s : NodeSource ν} : s ∈ db'.nodeSources ↔
      s ∈ newNodeSources rules workspaceId documentId ids nodes ∨ s ∈ db.nodeSources ∧
        s.key ∉ (newNodeSources rules workspaceId documentId ids nodes).map NodeSource.key := by
  obtain ⟨table, htable, rfl⟩ := Option.map_eq_some_iff.mp h
  exact Upsert.mem_statement_of_replace (fun _ _ => NodeSource.update_of_key) htable

theorem WellFormed.insertNodeSources (hwf : db.WellFormed rules)
    (hids : db.Resolves rules workspaceId nodes ids)
    (h : insertGraphNodeSources rules db workspaceId documentId ids nodes = some db') :
    db'.WellFormed rules := by
  have hkeys : (db'.nodeSources.map NodeSource.key).Nodup := by
    obtain ⟨table, htable, rfl⟩ := Option.map_eq_some_iff.mp h
    exact Upsert.statement_keys_nodup NodeSource.update_key hwf.nodeSourceKeys htable
  have hsources : ∀ s ∈ db'.nodeSources, ∃ l ∈ db.nodeLabels, l.id = s.graphNodeId ∧
      l.workspaceId = s.workspaceId := by
    intro s hs
    rcases (mem_insertGraphNodeSources h).mp hs with hs | ⟨hs, -⟩
    · obtain ⟨n, -, hlookup, -, hws, -⟩ := mem_newNodeSources.mp hs
      obtain ⟨l, hl, hid, hkey⟩ := ((hids.lookup _ _).mp hlookup).2
      exact ⟨l, hl, hid, (congrArg Prod.fst hkey).trans hws.symm⟩
    · exact hwf.nodeOfSource s hs
  obtain ⟨table, -, rfl⟩ := Option.map_eq_some_iff.mp h
  exact { hwf with nodeSourceKeys := hkeys, nodeOfSource := hsources }

/-- The document now tells what its batch tells. -/
theorem tells_insertGraphNodeSources (hwf : db.WellFormed rules)
    (hnone : ∀ key f, ¬ db.Tells rules workspaceId documentId key f)
    (hids : db.Resolves rules workspaceId batch.nodes ids)
    (h : insertGraphNodeSources rules db workspaceId documentId ids batch.nodes = some db')
    (w d : Nat) (key : List Char) (f : EntityFact ν) :
    db'.Tells rules w d key f ↔ db.Tells rules w d key f ∨
      ((w = workspaceId ∧ d = documentId) ∧ batch.Tells key f) := by
  rw [insertGraphNodeSources_append hnone hids h]
  constructor
  · rintro ⟨s, hs, rfl, hk, rfl⟩
    rcases List.mem_append.mp hs with hs | hs
    · exact .inl ⟨s, hs, rfl, hk, rfl⟩
    · obtain ⟨n, hn, hlookup, hdoc, -, hfact⟩ := mem_newNodeSources.mp hs
      obtain ⟨hreturns, hk'⟩ := (hids.lookup _ _).mp hlookup
      cases hwf.key_unique hk hk'
      exact .inr ⟨⟨rfl, hdoc⟩, hreturns, n, hn, rfl, hfact.symm⟩
  · rintro (⟨s, hs, hrest⟩ | ⟨⟨rfl, rfl⟩, hreturns, n, hn, rfl, rfl⟩)
    · exact ⟨s, List.mem_append_left _ hs, hrest⟩
    · obtain ⟨m, hm, hkey⟩ := hreturns
      obtain ⟨id, hid⟩ := hids.row m hm
      have hlookup := (hids.lookup _ _).mpr ⟨⟨m, hm, hkey⟩, hkey ▸ hid⟩
      refine ⟨⟨id, d, w, n.entityType, n.description, n.embedding⟩,
        List.mem_append_right _ ?_, rfl, hkey ▸ hid, rfl⟩
      exact mem_newNodeSources.mpr ⟨n, hn, hlookup, rfl, rfl, rfl⟩

end NodeSources

section Edges

variable {edges : List (Nat × Nat × EdgeInput)}

theorem mem_resolveEdges {a b : Nat} {e : EdgeInput} {inputs : List EdgeInput} :
    (a, b, e) ∈ resolveEdges rules ids inputs ↔
      e ∈ inputs ∧ ids.lookup (normalizeKey rules e.source) = some a ∧
        ids.lookup (normalizeKey rules e.target) = some b := by
  simp only [resolveEdges, List.mem_filterMap, Option.bind_eq_some_iff, Option.map_eq_some_iff,
    Prod.mk.injEq]
  constructor
  · rintro ⟨e', he, a', ha, b', hb, rfl, rfl, rfl⟩
    exact ⟨he, ha, hb⟩
  · rintro ⟨he, ha, hb⟩
    exact ⟨e, he, a, ha, b, hb, rfl, rfl, rfl⟩

theorem bulkUpsertGraphEdges_table
    (h : bulkUpsertGraphEdges rules db workspaceId edges = some db') :
    Upsert.statement (GraphEdge.key rules) GraphEdge.update db.edges
        (proposedEdges db workspaceId edges) = some db'.edges ∧
      db' = { db with edges := db'.edges, nextId := db.nextId + edges.length } := by
  obtain ⟨-, h⟩ := Option.ite_none_right_eq_some.mp h
  obtain ⟨table, htable, rfl⟩ := Option.map_eq_some_iff.mp h
  exact ⟨htable, rfl⟩

theorem mem_edgeLabels_bulkEdges
    (h : bulkUpsertGraphEdges rules db workspaceId edges = some db') {e : EdgeLabel}
    (he : e ∈ db'.edgeLabels) :
    e ∈ db.edgeLabels ∨ ∃ new ∈ proposedEdges db workspaceId edges, new.label = e := by
  rw [edgeLabels, Upsert.map_statement GraphEdge.update_label (bulkUpsertGraphEdges_table h).1]
    at he
  rcases List.mem_append.mp he with he | he
  · exact .inl he
  · obtain ⟨new, hnew, rfl⟩ := List.mem_map.mp he
    exact .inr ⟨new, (Upsert.mem_fresh.mp hnew).1, rfl⟩

theorem mem_proposedEdges {new : GraphEdge} (h : new ∈ proposedEdges db workspaceId edges) :
    ∃ t ∈ edges, new.workspaceId = workspaceId ∧ new.sourceNodeId = t.1 ∧
      new.targetNodeId = t.2.1 := by
  obtain ⟨i, hi, rfl⟩ := List.mem_mapIdx.mp h
  exact ⟨edges[i], List.getElem_mem hi, rfl, rfl, rfl⟩

/-- The ends of the edges are rows of the workspace. -/
def EndsExist (db : Database ν) (workspaceId : Nat) (edges : List (Nat × Nat × EdgeInput)) : Prop :=
  ∀ t ∈ edges, (∃ l ∈ db.nodeLabels, l.id = t.1 ∧ l.workspaceId = workspaceId) ∧
    ∃ l ∈ db.nodeLabels, l.id = t.2.1 ∧ l.workspaceId = workspaceId

theorem WellFormed.bulkEdges (hwf : db.WellFormed rules) (hends : db.EndsExist workspaceId edges)
    (h : bulkUpsertGraphEdges rules db workspaceId edges = some db') :
    db.Within db' ∧ db'.WellFormed rules := by
  obtain ⟨htable, hdb'⟩ := bulkUpsertGraphEdges_table h
  have hnodes : db'.nodeLabels = db.nodeLabels := by rw [hdb', nodeLabels, nodeLabels]
  have hnext : db'.nextId = db.nextId + edges.length := by rw [hdb']
  have hnew : ∀ new ∈ proposedEdges db workspaceId edges,
      db.nextId ≤ new.id ∧ new.id < db.nextId + edges.length := fun new hnew =>
    mapIdx_ids_bound db.nextId _ GraphEdge.id (fun _ _ => rfl) hnew
  have hlabels : db'.edgeLabels = db.edgeLabels ++ (Upsert.fresh (GraphEdge.key rules) db.edges
      (proposedEdges db workspaceId edges)).map GraphEdge.label :=
    Upsert.map_statement GraphEdge.update_label htable
  have hin : db.Within db' :=
    ⟨hnodes ▸ List.Subset.refl _, hlabels ▸ List.subset_append_left _ _⟩
  have hnodeSources : db'.nodeSources = db.nodeSources := by rw [hdb']
  have hedgeSources : db'.edgeSources = db.edgeSources := by rw [hdb']
  refine ⟨hin,
    { nodeIds := hnodes ▸ hwf.nodeIds
      nodeKeys := hnodes ▸ hwf.nodeKeys
      edgeIds := ?_
      edgeKeys := ?_
      nodeSourceKeys := hnodeSources ▸ hwf.nodeSourceKeys
      edgeSourceKeys := hedgeSources ▸ hwf.edgeSourceKeys
      nodeBound := fun l hl => ?_
      edgeBound := fun e he => ?_
      sourceEnd := fun e he => ?_
      targetEnd := fun e he => ?_
      nodeOfSource := hin.nodeOfSource hwf hnodeSources
      edgeOfSource := hin.edgeOfSource hwf hedgeSources }⟩
  · rw [hlabels]
    refine ids_append_nodup hwf.edgeIds ?_ hwf.edgeBound fun e he => ?_
    · rw [List.map_map]
      exact (mapIdx_ids_nodup db.nextId _ GraphEdge.id (fun _ _ => rfl) edges).sublist
        (List.filter_sublist.map _)
    · obtain ⟨new, hfresh, rfl⟩ := List.mem_map.mp he
      exact (hnew new (Upsert.mem_fresh.mp hfresh).1).1
  · have hkeys := Upsert.statement_keys_nodup GraphEdge.update_key hwf.edgeRowKeys htable
    rw [edgeLabels, List.map_map]
    exact hkeys
  · have hold := hwf.nodeBound l (hnodes ▸ hl)
    omega
  · rw [hnext]
    rcases mem_edgeLabels_bulkEdges h he with he | ⟨new, hproposed, rfl⟩
    · have hold := hwf.edgeBound e he
      omega
    · exact (hnew new hproposed).2
  · rcases mem_edgeLabels_bulkEdges h he with he | ⟨new, hproposed, rfl⟩
    · exact hin.sourceEnd hwf he
    · obtain ⟨t, ht, hws, hsource, -⟩ := mem_proposedEdges hproposed
      obtain ⟨l, hl, hid, hlws⟩ := (hends t ht).1
      exact ⟨l, hin.nodes hl, hid.trans hsource.symm, hlws.trans hws.symm⟩
  · rcases mem_edgeLabels_bulkEdges h he with he | ⟨new, hproposed, rfl⟩
    · exact hin.targetEnd hwf he
    · obtain ⟨t, ht, hws, -, htarget⟩ := mem_proposedEdges hproposed
      obtain ⟨l, hl, hid, hlws⟩ := (hends t ht).2
      exact ⟨l, hin.nodes hl, hid.trans htarget.symm, hlws.trans hws.symm⟩

/-- Each edge of the batch has its row. -/
theorem exists_edge_of_resolved
    (h : bulkUpsertGraphEdges rules db workspaceId edges = some db') {t : Nat × Nat × EdgeInput}
    (ht : t ∈ edges) :
    ∃ row ∈ db'.edges,
      row.key rules = (workspaceId, t.1, t.2.1, rules.lower t.2.2.relationship) := by
  obtain ⟨i, hi, rfl⟩ := List.getElem_of_mem ht
  exact Upsert.exists_of_proposed GraphEdge.update_key (bulkUpsertGraphEdges_table h).1
    (List.mem_mapIdx.mpr ⟨i, hi, rfl⟩)

end Edges

section EdgeSources

variable {batch : GraphWriteBatch rules ν} {edges : List (Nat × Nat × EdgeInput)}

def newEdgeSources (rules : TextRules) (db : Database ν) (workspaceId documentId : Nat)
    (edges : List (Nat × Nat × EdgeInput)) : List EdgeSource :=
  edges.filterMap fun e =>
    (db.edges.find? fun row =>
      row.key rules == (workspaceId, e.1, e.2.1, rules.lower e.2.2.relationship)).map fun row =>
        ⟨row.id, documentId, workspaceId, e.2.2.relationship, e.2.2.description⟩

theorem mem_newEdgeSources (hwf : db.WellFormed rules) {s : EdgeSource} :
    s ∈ newEdgeSources rules db workspaceId documentId edges ↔
      ∃ t ∈ edges, (∃ e ∈ db.edgeLabels, e.id = s.graphEdgeId ∧
          e.key rules = (workspaceId, t.1, t.2.1, rules.lower t.2.2.relationship)) ∧
        s.documentId = documentId ∧ s.workspaceId = workspaceId ∧ s.fact = t.2.2.fact := by
  simp only [newEdgeSources, List.mem_filterMap, Option.map_eq_some_iff,
    Upsert.find?_beq_iff hwf.edgeRowKeys]
  refine exists_congr fun t => and_congr_right fun ht => ?_
  constructor
  · rintro ⟨row, ⟨hrow, hkey⟩, rfl⟩
    exact ⟨⟨row.label, List.mem_map_of_mem hrow, rfl, hkey⟩, rfl, rfl, rfl⟩
  · rintro ⟨⟨e, he, hid, hkey⟩, rfl, rfl, hfact⟩
    obtain ⟨row, hrow, rfl⟩ := List.mem_map.mp he
    obtain ⟨hrel, hdesc⟩ := RelationFact.mk.inj hfact
    have hid : row.id = s.graphEdgeId := hid
    exact ⟨row, ⟨hrow, hkey⟩, by rw [hid, ← hrel, ← hdesc]⟩

theorem insertGraphEdgeSources_append (hwf : db.WellFormed rules)
    (hnone : ∀ source target relationship f,
      ¬ db.Relates rules workspaceId documentId source target relationship f)
    (h : insertGraphEdgeSources rules db workspaceId documentId edges = some db') :
    db' = { db with edgeSources :=
      db.edgeSources ++ newEdgeSources rules db workspaceId documentId edges } := by
  obtain ⟨table, htable, rfl⟩ := Option.map_eq_some_iff.mp h
  have happend : table = db.edgeSources ++
      newEdgeSources rules db workspaceId documentId edges := by
    refine Upsert.statement_append (fun new hnew old hold heq => ?_) htable
    obtain ⟨t, -, ⟨e, he, hid, hkey⟩, hdoc, -, -⟩ := (mem_newEdgeSources hwf).mp hnew
    obtain ⟨hedge, hdocs⟩ := Prod.ext_iff.mp heq
    have hedge : new.graphEdgeId = old.graphEdgeId := hedge
    have hws : e.workspaceId = workspaceId := congrArg Prod.fst hkey
    obtain ⟨a, ha, haid, haws⟩ := hwf.sourceEnd e he
    obtain ⟨b, hb, hbid, hbws⟩ := hwf.targetEnd e he
    exact hnone _ _ _ _ ⟨old, hold, hdocs.symm.trans hdoc,
      ⟨e, he, hid.trans hedge, rfl, ⟨a, ha, haid, Prod.ext (haws.trans hws) rfl⟩,
        ⟨b, hb, hbid, Prod.ext (hbws.trans hws) rfl⟩⟩, rfl⟩
  rw [happend]

theorem WellFormed.insertEdgeSources (hwf : db.WellFormed rules)
    (hnone : ∀ source target relationship f,
      ¬ db.Relates rules workspaceId documentId source target relationship f)
    (h : insertGraphEdgeSources rules db workspaceId documentId edges = some db') :
    db'.WellFormed rules := by
  have hdb' := insertGraphEdgeSources_append hwf hnone h
  have hkeys : (db'.edgeSources.map EdgeSource.key).Nodup := by
    obtain ⟨table, htable, rfl⟩ := Option.map_eq_some_iff.mp h
    exact Upsert.statement_keys_nodup EdgeSource.update_key hwf.edgeSourceKeys htable
  have hsources : ∀ s ∈ db'.edgeSources, ∃ e ∈ db.edgeLabels, e.id = s.graphEdgeId ∧
      e.workspaceId = s.workspaceId := by
    intro s hs
    rw [hdb'] at hs
    rcases List.mem_append.mp hs with hs | hs
    · exact hwf.edgeOfSource s hs
    · obtain ⟨t, -, ⟨e, he, hid, hkey⟩, -, hws, -⟩ := (mem_newEdgeSources hwf).mp hs
      exact ⟨e, he, hid, (congrArg Prod.fst hkey).trans hws.symm⟩
  rw [hdb'] at hkeys hsources ⊢
  exact { hwf with edgeSourceKeys := hkeys, edgeOfSource := hsources }

/-- The document now relates what its batch relates. -/
theorem relates_insertGraphEdgeSources (hwf : db.WellFormed rules)
    (hnone : ∀ source target relationship f,
      ¬ db.Relates rules workspaceId documentId source target relationship f)
    (hids : db.Resolves rules workspaceId batch.nodes ids)
    (hrows : ∀ t ∈ resolveEdges rules ids batch.edges, ∃ row ∈ db.edges,
      row.key rules = (workspaceId, t.1, t.2.1, rules.lower t.2.2.relationship))
    (h : insertGraphEdgeSources rules db workspaceId documentId
      (resolveEdges rules ids batch.edges) = some db')
    (w d : Nat) (source target relationship : List Char) (f : RelationFact) :
    db'.Relates rules w d source target relationship f ↔
      db.Relates rules w d source target relationship f ∨
        ((w = workspaceId ∧ d = documentId) ∧ batch.Relates source target relationship f) := by
  rw [insertGraphEdgeSources_append hwf hnone h]
  constructor
  · rintro ⟨s, hs, rfl, ⟨e, he, hid, hrel, hsource, htarget⟩, rfl⟩
    rcases List.mem_append.mp hs with hs | hs
    · exact .inl ⟨s, hs, rfl, ⟨e, he, hid, hrel, hsource, htarget⟩, rfl⟩
    · obtain ⟨⟨a, b, input⟩, ht, ⟨e', he', hid', hkey⟩, hdoc, -, hfact⟩ :=
        (mem_newEdgeSources hwf).mp hs
      cases hwf.edge_eq_of_id he he' (hid.trans hid'.symm)
      simp only [EdgeLabel.key, Prod.mk.injEq] at hkey
      obtain ⟨-, ha, hb, hlower⟩ := hkey
      obtain ⟨hinput, hla, hlb⟩ := mem_resolveEdges.mp ht
      obtain ⟨hreturnsA, hka⟩ := (hids.lookup _ _).mp hla
      obtain ⟨hreturnsB, hkb⟩ := (hids.lookup _ _).mp hlb
      cases hwf.key_unique hsource (ha.symm ▸ hka)
      cases hwf.key_unique htarget (hb.symm ▸ hkb)
      exact .inr ⟨⟨rfl, hdoc⟩, hreturnsA, hreturnsB, input, hinput, rfl, rfl,
        hlower.symm.trans hrel, hfact.symm⟩
  · rintro (⟨s, hs, hrest⟩ | ⟨⟨rfl, rfl⟩, ⟨m, hm, hmkey⟩, ⟨m', hm', hmkey'⟩, input, hinput,
      rfl, rfl, rfl, rfl⟩)
    · exact ⟨s, List.mem_append_left _ hs, hrest⟩
    · obtain ⟨a, ha⟩ := hids.row m hm
      obtain ⟨b, hb⟩ := hids.row m' hm'
      rw [hmkey] at ha
      rw [hmkey'] at hb
      have hla := (hids.lookup _ _).mpr ⟨⟨m, hm, hmkey⟩, ha⟩
      have hlb := (hids.lookup _ _).mpr ⟨⟨m', hm', hmkey'⟩, hb⟩
      have ht : (a, b, input) ∈ resolveEdges rules ids batch.edges :=
        mem_resolveEdges.mpr ⟨hinput, hla, hlb⟩
      obtain ⟨row, hrow, hkey⟩ := hrows _ ht
      simp only [GraphEdge.key, Prod.mk.injEq] at hkey
      obtain ⟨hrowWs, hrowA, hrowB, hrowRel⟩ := hkey
      refine ⟨⟨row.id, d, w, input.relationship, input.description⟩,
        List.mem_append_right _ ?_, rfl,
        ⟨row.label, List.mem_map_of_mem hrow, rfl, hrowRel, ?_, ?_⟩, rfl⟩
      · refine (mem_newEdgeSources hwf).mpr ⟨_, ht, ⟨row.label, List.mem_map_of_mem hrow, rfl, ?_⟩,
          rfl, rfl, rfl⟩
        simp only [GraphEdge.label_key, GraphEdge.key, hrowWs, hrowA, hrowB, hrowRel]
      · exact (show row.label.sourceNodeId = a from hrowA) ▸ ha
      · exact (show row.label.targetNodeId = b from hrowB) ▸ hb

end EdgeSources

section Step

theorem Resolves.within (h : db.Resolves rules workspaceId nodes ids) (hin : db.Within db')
    (hwf' : db'.WellFormed rules) : db'.Resolves rules workspaceId nodes ids where
  lookup key id := by
    rw [h.lookup]
    refine and_congr_right fun ⟨m, hm, hkey⟩ => ⟨hin.hasKey, fun hk => ?_⟩
    obtain ⟨id', hid'⟩ := h.row m hm
    rw [hkey] at hid'
    rwa [hwf'.id_unique hk (hin.hasKey hid')]
  row m hm := (h.row m hm).imp fun _ => hin.hasKey

theorem Resolves.endsExist (h : db.Resolves rules workspaceId nodes ids)
    (inputs : List EdgeInput) :
    db.EndsExist workspaceId (resolveEdges rules ids inputs) := by
  have hrow : ∀ key id, ids.lookup key = some id →
      ∃ l ∈ db.nodeLabels, l.id = id ∧ l.workspaceId = workspaceId := by
    intro key id hlookup
    obtain ⟨l, hl, hid, hkey⟩ := ((h.lookup key id).mp hlookup).2
    exact ⟨l, hl, hid, congrArg Prod.fst hkey⟩
  rintro ⟨a, b, e⟩ ht
  obtain ⟨-, ha, hb⟩ := mem_resolveEdges.mp ht
  exact ⟨hrow _ a ha, hrow _ b hb⟩

/-- The tables between the four statements of an ingestion that goes through. -/
structure Statements (rules : TextRules) (workspaceId documentId : Nat)
    (batch : GraphWriteBatch rules ν) (db₀ db₁ db₂ db₃ db' : Database ν) (ids : NodeIds) :
    Prop where
  nodes : bulkUpsertGraphNodes rules db₀ workspaceId batch.nodes = some (db₁, ids)
  nodeSources :
    insertGraphNodeSources rules db₁ workspaceId documentId ids batch.nodes = some db₂
  edges : bulkUpsertGraphEdges rules db₂ workspaceId (resolveEdges rules ids batch.edges) =
    some db₃
  edgeSources : insertGraphEdgeSources rules db₃ workspaceId documentId
    (resolveEdges rules ids batch.edges) = some db'
  wellFormed₀ : db₀.WellFormed rules

/-- The statements of a document that had no sources. -/
structure Stages (rules : TextRules) (workspaceId documentId : Nat)
    (batch : GraphWriteBatch rules ν) (db₀ db₁ db₂ db₃ db' : Database ν) (ids : NodeIds) :
    Prop extends Statements rules workspaceId documentId batch db₀ db₁ db₂ db₃ db' ids where
  untold : ∀ key f, ¬ db₀.Tells rules workspaceId documentId key f
  unrelated : ∀ source target relationship f,
    ¬ db₀.Relates rules workspaceId documentId source target relationship f

section Statements

variable {batch : GraphWriteBatch rules ν} {db₀ db₁ db₂ db₃ : Database ν} {ids : NodeIds}
  (h : Statements rules workspaceId documentId batch db₀ db₁ db₂ db₃ db' ids)

include h

theorem Statements.within₁ : db₀.Within db₁ := (h.wellFormed₀.bulkNodes h.nodes).1

theorem Statements.wellFormed₁ : db₁.WellFormed rules := (h.wellFormed₀.bulkNodes h.nodes).2

theorem Statements.resolves₁ : db₁.Resolves rules workspaceId batch.nodes ids :=
  h.wellFormed₀.resolves h.nodes

theorem Statements.labels₂ : db₂.nodeLabels = db₁.nodeLabels ∧ db₂.edgeLabels = db₁.edgeLabels := by
  obtain ⟨table, -, rfl⟩ := Option.map_eq_some_iff.mp h.nodeSources
  exact ⟨rfl, rfl⟩

theorem Statements.within₂ : db₁.Within db₂ :=
  ⟨h.labels₂.1 ▸ List.Subset.refl _, h.labels₂.2 ▸ List.Subset.refl _⟩

theorem Statements.wellFormed₂ : db₂.WellFormed rules :=
  h.wellFormed₁.insertNodeSources h.resolves₁ h.nodeSources

theorem Statements.resolves₂ : db₂.Resolves rules workspaceId batch.nodes ids :=
  h.resolves₁.within h.within₂ h.wellFormed₂

theorem Statements.within₃ : db₂.Within db₃ :=
  (h.wellFormed₂.bulkEdges (h.resolves₂.endsExist batch.edges) h.edges).1

theorem Statements.wellFormed₃ : db₃.WellFormed rules :=
  (h.wellFormed₂.bulkEdges (h.resolves₂.endsExist batch.edges) h.edges).2

theorem Statements.resolves₃ : db₃.Resolves rules workspaceId batch.nodes ids :=
  h.resolves₂.within h.within₃ h.wellFormed₃

theorem Statements.labels' : db'.nodeLabels = db₃.nodeLabels ∧ db'.edgeLabels = db₃.edgeLabels := by
  obtain ⟨table, -, rfl⟩ := Option.map_eq_some_iff.mp h.edgeSources
  exact ⟨rfl, rfl⟩

end Statements

section Stages

variable {batch : GraphWriteBatch rules ν} {db₀ db₁ db₂ db₃ : Database ν} {ids : NodeIds}
  (h : Stages rules workspaceId documentId batch db₀ db₁ db₂ db₃ db' ids)

include h

theorem Stages.untold₁ (key : List Char) (f : EntityFact ν) :
    ¬ db₁.Tells rules workspaceId documentId key f := by
  intro hf
  have hsources : db₁.nodeSources = db₀.nodeSources := by
    rw [(bulkUpsertGraphNodes_table h.nodes).2.1]
  exact h.untold key f ((h.within₁.tells_iff h.wellFormed₀ h.wellFormed₁ hsources key f).mp hf)

theorem Stages.append₂ :
    db₂ = { db₁ with nodeSources :=
      db₁.nodeSources ++ newNodeSources rules workspaceId documentId ids batch.nodes } :=
  insertGraphNodeSources_append h.untold₁ h.resolves₁ h.nodeSources

/-- Until the last statement the tables say of relations what they said before. -/
theorem Stages.relates₃ (w d : Nat) (source target relationship : List Char) (f : RelationFact) :
    db₃.Relates rules w d source target relationship f ↔
      db₀.Relates rules w d source target relationship f := by
  rw [h.within₃.relates_iff h.wellFormed₂ h.wellFormed₃
      (by rw [(bulkUpsertGraphEdges_table h.edges).2]),
    h.within₂.relates_iff h.wellFormed₁ h.wellFormed₂ (by rw [h.append₂]),
    h.within₁.relates_iff h.wellFormed₀ h.wellFormed₁
      (by rw [(bulkUpsertGraphNodes_table h.nodes).2.1])]

theorem Stages.unrelated₃ (source target relationship : List Char) (f : RelationFact) :
    ¬ db₃.Relates rules workspaceId documentId source target relationship f := by
  rw [h.relates₃]
  exact h.unrelated source target relationship f

theorem Stages.append' :
    db' = { db₃ with edgeSources :=
      db₃.edgeSources ++
        newEdgeSources rules db₃ workspaceId documentId (resolveEdges rules ids batch.edges) } :=
  insertGraphEdgeSources_append h.wellFormed₃ h.unrelated₃ h.edgeSources

theorem Stages.within' : db₃.Within db' := by
  rw [h.append']
  exact ⟨List.Subset.refl _, List.Subset.refl _⟩

theorem Stages.wellFormed' : db'.WellFormed rules :=
  h.wellFormed₃.insertEdgeSources h.unrelated₃ h.edgeSources

theorem Stages.nodes_eq : db'.nodes = db₁.nodes := by
  rw [h.append', (bulkUpsertGraphEdges_table h.edges).2, h.append₂]

theorem Stages.nodeSources_eq : db'.nodeSources =
    db₀.nodeSources ++ newNodeSources rules workspaceId documentId ids batch.nodes := by
  rw [h.append', (bulkUpsertGraphEdges_table h.edges).2, h.append₂,
    (bulkUpsertGraphNodes_table h.nodes).2.1]

theorem Stages.edges_eq : db'.edges = db₃.edges := by
  rw [h.append']

theorem Stages.edgeSources_eq : db'.edgeSources = db₀.edgeSources ++
    newEdgeSources rules db₃ workspaceId documentId (resolveEdges rules ids batch.edges) := by
  have hold : db₃.edgeSources = db₀.edgeSources := by
    rw [(bulkUpsertGraphEdges_table h.edges).2, h.append₂,
      (bulkUpsertGraphNodes_table h.nodes).2.1]
  rw [h.append', hold]

/-- The tables say of entities what they said before, and what the batch says. -/
theorem Stages.tells (w d : Nat) (key : List Char) (f : EntityFact ν) :
    db'.Tells rules w d key f ↔ db₁.Tells rules w d key f ∨
      ((w = workspaceId ∧ d = documentId) ∧ batch.Tells key f) := by
  rw [h.within'.tells_iff h.wellFormed₃ h.wellFormed' (by rw [h.append']),
    h.within₃.tells_iff h.wellFormed₂ h.wellFormed₃
      (by rw [(bulkUpsertGraphEdges_table h.edges).2]),
    tells_insertGraphNodeSources h.wellFormed₁ h.untold₁ h.resolves₁ h.nodeSources]

theorem Stages.relates (w d : Nat) (source target relationship : List Char) (f : RelationFact) :
    db'.Relates rules w d source target relationship f ↔
      db₀.Relates rules w d source target relationship f ∨
        ((w = workspaceId ∧ d = documentId) ∧ batch.Relates source target relationship f) := by
  rw [relates_insertGraphEdgeSources h.wellFormed₃ h.unrelated₃ h.resolves₃
    (fun t ht => exists_edge_of_resolved h.edges ht) h.edgeSources, h.relates₃]

theorem Stages.within : db₀.Within db' :=
  ⟨fun _ hl => h.within'.nodes (h.within₃.nodes (h.within₂.nodes (h.within₁.nodes hl))),
    fun _ he => h.within'.edges (h.within₃.edges (h.within₂.edges (h.within₁.edges he)))⟩

theorem Stages.otherNodeSource {s : NodeSource ν}
    (hother : ¬ (s.workspaceId = workspaceId ∧ s.documentId = documentId)) :
    s ∈ db'.nodeSources ↔ s ∈ db₀.nodeSources := by
  rw [h.nodeSources_eq, List.mem_append, or_iff_left]
  intro hnew
  obtain ⟨n, -, -, hdoc, hws, -⟩ := mem_newNodeSources.mp hnew
  exact hother ⟨hws, hdoc⟩

theorem Stages.otherEdgeSource {s : EdgeSource}
    (hother : ¬ (s.workspaceId = workspaceId ∧ s.documentId = documentId)) :
    s ∈ db'.edgeSources ↔ s ∈ db₀.edgeSources := by
  rw [h.edgeSources_eq, List.mem_append, or_iff_left]
  intro hnew
  obtain ⟨t, -, -, hdoc, hws, -⟩ := (mem_newEdgeSources h.wellFormed₃).mp hnew
  exact hother ⟨hws, hdoc⟩

end Stages

theorem WellFormed.stages (hwf : db.WellFormed rules)
    (htells : ∀ key f, ¬ db.Tells rules workspaceId documentId key f)
    (hrelates : ∀ source target relationship f,
      ¬ db.Relates rules workspaceId documentId source target relationship f)
    {batch : GraphWriteBatch rules ν}
    (h : bulkUpsertGraph db workspaceId documentId batch = some db') : ∃ db₁ db₂ db₃ ids,
      Stages rules workspaceId documentId batch (deleteUntrackedGraphItems db workspaceId)
        db₁ db₂ db₃ db' ids := by
  obtain ⟨⟨db₁, ids⟩, hnodes, h⟩ := Option.bind_eq_some_iff.mp h
  obtain ⟨db₂, hnodeSources, h⟩ := Option.bind_eq_some_iff.mp h
  obtain ⟨db₃, hedges, hedgeSources⟩ := Option.bind_eq_some_iff.mp h
  have hwf₀ := hwf.deleteUntracked workspaceId
  have hin₀ := within_deleteUntracked db workspaceId
  exact ⟨db₁, db₂, db₃, ids, ⟨hnodes, hnodeSources, hedges, hedgeSources, hwf₀⟩,
    fun key f hf => htells key f ((hin₀.tells_iff hwf₀ hwf rfl key f).mpr hf),
    fun _ _ _ _ hf => hrelates _ _ _ _ ((hin₀.relates_iff hwf₀ hwf rfl _ _ _ _).mpr hf)⟩

theorem Refines.stages {ledger : Ledger rules ν} (hr : db.Refines ledger)
    (hnone : ledger.extracted workspaceId documentId = none) {batch : GraphWriteBatch rules ν}
    (h : bulkUpsertGraph db workspaceId documentId batch = some db') : ∃ db₁ db₂ db₃ ids,
      Stages rules workspaceId documentId batch (deleteUntrackedGraphItems db workspaceId)
        db₁ db₂ db₃ db' ids := by
  refine hr.wellFormed.stages (fun key f hf => ?_) (fun source target relationship f hf => ?_) h
  · obtain ⟨old, hold, -⟩ := (hr.tells _ _ _ _).mp hf
    exact Option.some_ne_none old (hold.symm.trans hnone)
  · obtain ⟨old, hold, -⟩ := (hr.relates _ _ _ _ _ _).mp hf
    exact Option.some_ne_none old (hold.symm.trans hnone)

/-- The four statements of an ingestion record the batch. -/
theorem Refines.bulkUpsertGraph {ledger : Ledger rules ν} (hr : db.Refines ledger)
    (hnone : ledger.extracted workspaceId documentId = none) {batch : GraphWriteBatch rules ν}
    (h : bulkUpsertGraph db workspaceId documentId batch = some db') :
    db'.Refines (((ledger.sweep workspaceId).spell workspaceId batch).setExtracted workspaceId
      documentId (some batch)) := by
  obtain ⟨db₁, db₂, db₃, ids, hstages⟩ := hr.stages hnone h
  have hr₀ := hr.deleteUntracked workspaceId
  have hr₁ := hr₀.bulkNodes hstages.nodes
  have hlabels : db'.nodeLabels = db₁.nodeLabels := by
    rw [nodeLabels, hstages.nodes_eq, nodeLabels]
  refine
    { wellFormed := hstages.wellFormed'
      spelling := fun w key name => by rw [hlabels]; exact hr₁.spelling w key name
      tells := fun w d key f => ?_
      relates := fun w d source target relationship f => ?_ }
  · rw [hstages.tells, hr₁.tells]
    exact (Ledger.tells_setExtracted_some hnone key f).symm
  · rw [hstages.relates, hr₀.relates]
    exact (Ledger.relates_setExtracted_some hnone source target relationship f).symm

theorem Refines.step {ledger : Ledger rules ν} (hr : db.Refines ledger) {write : Write rules ν}
    (h : step db write = some db') : db'.Refines (ledger.write write) := by
  cases write with
  | ingest workspaceId documentId batch =>
    have hcleared := (hr.dropSources workspaceId documentId).deleteUntracked workspaceId
    have hnone : ((ledger.setExtracted workspaceId documentId none).sweep workspaceId).extracted
        workspaceId documentId = none := if_pos ⟨rfl, rfl⟩
    have hwritten := hcleared.bulkUpsertGraph hnone h
    rwa [Ledger.sweep_sweep] at hwritten
  | delete workspaceId documentId =>
    cases Option.some.inj h
    exact (hr.dropSources workspaceId documentId).deleteUntracked workspaceId

theorem refines_empty : (empty : Database ν).Refines (Ledger.empty : Ledger rules ν) where
  wellFormed :=
    { nodeIds := List.nodup_nil
      nodeKeys := List.nodup_nil
      edgeIds := List.nodup_nil
      edgeKeys := List.nodup_nil
      nodeSourceKeys := List.nodup_nil
      edgeSourceKeys := List.nodup_nil
      nodeBound := fun _ h => absurd h List.not_mem_nil
      edgeBound := fun _ h => absurd h List.not_mem_nil
      sourceEnd := fun _ h => absurd h List.not_mem_nil
      targetEnd := fun _ h => absurd h List.not_mem_nil
      nodeOfSource := fun _ h => absurd h List.not_mem_nil
      edgeOfSource := fun _ h => absurd h List.not_mem_nil }
  spelling _ _ _ := ⟨fun h => (nomatch h), fun ⟨_, h, _⟩ => absurd h List.not_mem_nil⟩
  tells _ _ _ _ := ⟨fun ⟨_, h, _⟩ => absurd h List.not_mem_nil, fun ⟨_, h, _⟩ => nomatch h⟩
  relates _ _ _ _ _ _ := ⟨fun ⟨_, h, _⟩ => absurd h List.not_mem_nil, fun ⟨_, h, _⟩ => nomatch h⟩

theorem Refines.run {ledger : Ledger rules ν} (hr : db.Refines ledger)
    {writes : List (Write rules ν)} (h : Transition.run Graph.step db writes = some db') :
    db'.Refines (writes.foldl Ledger.write ledger) := by
  induction writes generalizing db ledger with
  | nil =>
    cases Option.some.inj h
    exact hr
  | cons write writes ih =>
    obtain ⟨mid, hmid, h⟩ := Option.bind_eq_some_iff.mp h
    exact ih (hr.step hmid) h

/-- The tables of a run stand for the ledger of its writes. -/
theorem refines_ofWrites {writes : List (Write rules ν)}
    (h : Transition.run Graph.step empty writes = some db) : db.Refines (Ledger.ofWrites writes) :=
  refines_empty.run h

end Step

end Database

end GmragApi.Graph

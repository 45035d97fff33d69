import GmragApi.GraphProvenance
import GmragApi.OverlapRows

/-! What an open transaction has changed, against the tables that are committed meanwhile. -/

namespace GmragApi.Graph

variable {ν : Type} {rules : TextRules}

namespace Database

/-- The tables hold what the ledger says, whatever the spelling of a name that is kept. -/
structure Reflects (db : Database ν) (ledger : Ledger rules ν) : Prop where
  wellFormed : db.WellFormed rules
  backed : db.EdgesBacked
  nodes : ∀ workspaceId key, (∃ name, ledger.spelling workspaceId key = some name) ↔
    ∃ l ∈ db.nodeLabels, l.key rules = (workspaceId, key)
  tells : ∀ workspaceId documentId key f, db.Tells rules workspaceId documentId key f ↔
    ledger.Tells workspaceId documentId key f
  relates : ∀ workspaceId documentId source target relationship f,
    db.Relates rules workspaceId documentId source target relationship f ↔
      ledger.Relates workspaceId documentId source target relationship f

theorem Refines.reflects {db : Database ν} {ledger : Ledger rules ν} (h : db.Refines ledger)
    (hbacked : db.EdgesBacked) : db.Reflects ledger where
  wellFormed := h.wellFormed
  backed := hbacked
  nodes w key := by
    simp only [h.spelling]
    exact ⟨fun ⟨_, l, hl, hkey, _⟩ => ⟨l, hl, hkey⟩,
      fun ⟨l, hl, hkey⟩ => ⟨l.name, l, hl, hkey, rfl⟩⟩
  tells := h.tells
  relates := h.relates

section Reflects

variable {db : Database ν} {ledger : Ledger rules ν}

/-- A document that is a source of an edge is one of both its ends. -/
theorem Reflects.source_of_end (h : db.Reflects ledger) {e : GraphEdge} (he : e ∈ db.edges)
    {s : EdgeSource} (hs : s ∈ db.edgeSources) (hid : s.graphEdgeId = e.id) {id : Nat}
    (hend : e.sourceNodeId = id ∨ e.targetNodeId = id) :
    ∃ s' ∈ db.nodeSources, s'.graphNodeId = id ∧ s'.documentId = s.documentId ∧
      s'.workspaceId = s.workspaceId := by
  have hlabel : e.label ∈ db.edgeLabels := List.mem_map_of_mem he
  have hws : s.workspaceId = e.workspaceId := h.wellFormed.edge_of_source hlabel hs hid
  obtain ⟨a, ha, haid, haws⟩ := h.wellFormed.sourceEnd e.label hlabel
  obtain ⟨b, hb, hbid, hbws⟩ := h.wellFormed.targetEnd e.label hlabel
  have hrelates : db.Relates rules s.workspaceId s.documentId (rules.lower a.name)
      (rules.lower b.name) (rules.lower e.relationship) s.fact :=
    ⟨s, hs, rfl, ⟨e.label, hlabel, hid.symm, rfl, ⟨a, ha, haid, Prod.ext (haws.trans hws.symm) rfl⟩,
      ⟨b, hb, hbid, Prod.ext (hbws.trans hws.symm) rfl⟩⟩, rfl⟩
  obtain ⟨batch, hbatch, hrel⟩ := (h.relates _ _ _ _ _ _).mp hrelates
  obtain ⟨⟨f, hf⟩, g, hg⟩ := hrel.ends
  have hsource : ∀ l ∈ db.nodeLabels, l.id = id → l.workspaceId = e.label.workspaceId →
      (∃ f, batch.Tells (rules.lower l.name) f) → ∃ s' ∈ db.nodeSources, s'.graphNodeId = id ∧
        s'.documentId = s.documentId ∧ s'.workspaceId = s.workspaceId := by
    rintro l hl hlid hlws ⟨f, hf⟩
    obtain ⟨s', hs', hdoc, hk, -⟩ := (h.tells s.workspaceId s.documentId (rules.lower l.name) f).mpr
      ⟨batch, hbatch, hf⟩
    have hnode : s'.graphNodeId = id := (h.wellFormed.id_unique hk
      ⟨l, hl, rfl, Prod.ext (hlws.trans hws.symm) rfl⟩).trans hlid
    exact ⟨s', hs', hnode, hdoc, h.wellFormed.nodeSource_workspace hs' hk⟩
  rcases hend with hend | hend
  · exact hsource a ha (haid.trans hend) haws ⟨f, hf⟩
  · exact hsource b hb (hbid.trans hend) hbws ⟨g, hg⟩

/-- Nothing but the document that is written backs the edges of a node that nothing else backs. -/
theorem Reflects.edge_unbacked (h : db.Reflects ledger) {write : Write rules ν} {e : GraphEdge}
    (he : e ∈ db.edges) {id : Nat} (hend : e.sourceNodeId = id ∨ e.targetNodeId = id)
    (hbacked : ¬ write.NodeBacked db id) : ¬ write.EdgeBacked db e.id := by
  rintro ⟨s, hs, hid, hother⟩
  obtain ⟨s', hs', hid', hdoc, hws⟩ := h.source_of_end he hs hid hend
  exact hbacked ⟨s', hs', hid', by rwa [hdoc, hws]⟩

end Reflects

end Database

namespace Overlap

open Transition ProcessPool

namespace Transaction

/-- The rows that a transaction holds are rows of its workspace; they fit the committed tables. -/
structure RowsFit (t : Transaction rules ν) (db : Database ν) : Prop where
  nodes : t.changes.nodes.Fits GraphNode.id GraphNode.label (GraphNode.key rules) db.nodes
  edges : t.changes.edges.Fits GraphEdge.id GraphEdge.label (GraphEdge.key rules) db.edges
  nodeBound : ∀ r ∈ t.changes.nodes.rows, r.id < db.nextId
  edgeBound : ∀ r ∈ t.changes.edges.rows, r.id < db.nextId
  nodeWorkspace : ∀ r ∈ t.changes.nodes.rows, r.workspaceId = t.write.workspaceId
  edgeWorkspace : ∀ r ∈ t.changes.edges.rows, r.workspaceId = t.write.workspaceId

section RowsFit

variable {s : State rules ν} {i : Nat} {t t' u : Transaction rules ν} {db : Database ν}

theorem rowsFit_begin (write : Write rules ν) (db : Database ν) : (begin write).RowsFit db where
  nodes := TableChanges.fits_empty
  edges := TableChanges.fits_empty
  nodeBound _ h := absurd h List.not_mem_nil
  edgeBound _ h := absurd h List.not_mem_nil
  nodeWorkspace _ h := absurd h List.not_mem_nil
  edgeWorkspace _ h := absurd h List.not_mem_nil

theorem RowsFit.deleteEdges (h : t.RowsFit s.db) (hwf : s.db.WellFormed rules)
    {gone : List GraphEdge} (hgone : ∀ e ∈ gone, e ∈ s.db.edges)
    (hws : ∀ e ∈ gone, e.workspaceId = t.write.workspaceId) :
    ({ t with changes := t.changes.deleteEdges s.db gone } : Transaction rules ν).RowsFit s.db where
  nodes := h.nodes
  edges := h.edges.delete fun e he _ ha hid =>
    hwf.edge_eq_of_id (List.mem_map_of_mem ha) (List.mem_map_of_mem (hgone e he)) hid
  nodeBound := h.nodeBound
  edgeBound := TableChanges.forall_rows_delete h.edgeBound fun e he =>
    hwf.edgeBound e.label (List.mem_map_of_mem (hgone e he))
  nodeWorkspace := h.nodeWorkspace
  edgeWorkspace := TableChanges.forall_rows_delete h.edgeWorkspace hws

theorem RowsFit.deleteNode (h : t.RowsFit s.db) (hwf : s.db.WellFormed rules) {n : GraphNode ν}
    (hn : n ∈ s.db.nodes) (hws : n.workspaceId = t.write.workspaceId) :
    ({ t with changes := t.changes.deleteNode s.db n } : Transaction rules ν).RowsFit s.db := by
  have hedges : ({ t with changes := t.changes.deleteEdges s.db (s.db.edges.filter fun e =>
      e.sourceNodeId == n.id || e.targetNodeId == n.id) } : Transaction rules ν).RowsFit s.db := by
    refine h.deleteEdges hwf (fun e he => (List.mem_filter.mp he).1) fun e he => ?_
    obtain ⟨he, hend⟩ := List.mem_filter.mp he
    have hend : e.sourceNodeId = n.id ∨ e.targetNodeId = n.id := by simpa using hend
    exact (hwf.end_workspace (List.mem_map_of_mem he) (List.mem_map_of_mem hn) hend).trans hws
  refine
    { hedges with
      nodes := h.nodes.delete (List.forall_mem_singleton.mpr fun a ha hid => ?_)
      nodeBound := TableChanges.forall_rows_delete h.nodeBound (List.forall_mem_singleton.mpr ?_)
      nodeWorkspace := TableChanges.forall_rows_delete h.nodeWorkspace
        (List.forall_mem_singleton.mpr hws) }
  · exact hwf.node_eq_of_id (List.mem_map_of_mem ha) (List.mem_map_of_mem hn) hid
  · exact hwf.nodeBound n.label (List.mem_map_of_mem hn)

theorem RowsFit.advance (h : t.RowsFit s.db) (hwf : s.db.WellFormed rules)
    (hadvance : Advance s i t t') : t'.RowsFit s.db := by
  cases hadvance with
  | deleteEdgeSources _ _ | deleteNodeSources _ _ | beginDelete _ _ _ _ | beginNodes _ _
  | insertNodeSources _ _ _ | beginEdges _ _ | insertEdgeSources _ _ _ | pass _ _ =>
    exact { h with }
  | @deleteEdge victims rest e hrunning he hws hfree hbacked =>
    have hedge : ({ t with changes := t.changes.deleteEdges s.db [e] } :
        Transaction rules ν).RowsFit s.db :=
      h.deleteEdges hwf (by simpa using he) (by simpa using hws)
    exact { hedge with }
  | deleteNode hrunning hn hws hfree hbacked =>
    have hnode := h.deleteNode hwf hn hws
    exact { hnode with }

/-- An id that is taken is smaller than the next one. -/
theorem upserted_bound {α : Type} {id : α → Nat} {c : TableChanges α} {table : List α}
    {merge : α → α → α} {has : α → Bool} {proposed : α} {next : Nat}
    (hid : ∀ old new, id (merge old new) = id old) (htable : ∀ a ∈ table, id a < next)
    (hrows : ∀ r ∈ c.rows, id r < next) (hproposed : id proposed = next) :
    id (c.upserted id merge table has proposed) < next + 1 := by
  rw [TableChanges.upserted]
  cases hfind : (c.apply id table).find? has with
  | none =>
    have heq : id proposed = next := hproposed
    simp only [Option.elim_none]
    omega
  | some old =>
    have hlt : id old < next := by
      rcases TableChanges.mem_or_written (List.mem_of_find?_eq_some hfind) with hold | hold
      · exact htable old hold
      · exact hrows old (TableChanges.mem_rows_of_written hold)
    simp only [Option.elim_some, hid]
    omega

theorem RowsFit.written_workspace (h : t.RowsFit db) {n : GraphNode ν}
    (hn : n ∈ t.changes.nodes.written) : n.workspaceId = t.write.workspaceId :=
  h.nodeWorkspace n (TableChanges.mem_rows_of_written hn)

theorem RowsFit.written_edge_workspace (h : t.RowsFit db) {e : GraphEdge}
    (he : e ∈ t.changes.edges.written) : e.workspaceId = t.write.workspaceId :=
  h.edgeWorkspace e (TableChanges.mem_rows_of_written he)

theorem RowsFit.next (h : t.RowsFit s.db) :
    t.RowsFit ({ s.db with nextId := s.db.nextId + 1 } : Database ν) :=
  { h with
    nodeBound := fun r hr => Nat.lt_succ_of_lt (h.nodeBound r hr)
    edgeBound := fun r hr => Nat.lt_succ_of_lt (h.edgeBound r hr) }

theorem RowsFit.upsert (h : t.RowsFit s.db) (hwf : s.db.WellFormed rules)
    (hupsert : Upserts s i t t') :
    t'.RowsFit ({ s.db with nextId := s.db.nextId + 1 } : Database ν) := by
  have hnodeBound : ∀ n ∈ s.db.nodes, n.id < s.db.nextId := fun n hn =>
    hwf.nodeBound n.label (List.mem_map_of_mem hn)
  have hedgeBound : ∀ e ∈ s.db.edges, e.id < s.db.nextId := fun e he =>
    hwf.edgeBound e.label (List.mem_map_of_mem he)
  cases hupsert with
  | @node n rows hrunning hfits hnew hfree =>
    have hkey := t.nodeRow_key s.db n
    refine
      { h.next with
        nodes := h.nodes.write_upserted (fun _ => beq_iff_eq) GraphNode.update_label
          (fun _ _ heq => congrArg NodeLabel.id heq)
          (fun _ _ heq => congrArg (NodeLabel.key rules) heq) hwf.nodeRowIds hwf.nodeRowKeys hnew
          (fun a ha => Nat.ne_of_lt (hnodeBound a ha)) (fun r hr => Nat.ne_of_lt (h.nodeBound r hr))
        nodeBound := TableChanges.forall_rows_write h.next.nodeBound
          (List.forall_mem_singleton.mpr ?_)
        nodeWorkspace := TableChanges.forall_rows_write h.nodeWorkspace
          (List.forall_mem_singleton.mpr (congrArg Prod.fst hkey)) }
    exact upserted_bound (fun _ _ => rfl) hnodeBound h.nodeBound rfl
  | @edge e rows hrunning hfits hnew hfree =>
    have hkey := t.edgeRow_key s.db e
    refine
      { h.next with
        edges := h.edges.write_upserted (fun _ => beq_iff_eq) GraphEdge.update_label
          (fun _ _ heq => congrArg EdgeLabel.id heq)
          (fun _ _ heq => congrArg (EdgeLabel.key rules) heq) hwf.edgeRowIds hwf.edgeRowKeys hnew
          (fun a ha => Nat.ne_of_lt (hedgeBound a ha)) (fun r hr => Nat.ne_of_lt (h.edgeBound r hr))
        edgeBound := TableChanges.forall_rows_write h.next.edgeBound
          (List.forall_mem_singleton.mpr ?_)
        edgeWorkspace := TableChanges.forall_rows_write h.edgeWorkspace
          (List.forall_mem_singleton.mpr (congrArg Prod.fst hkey)) }
    exact upserted_bound (fun _ _ => rfl) hedgeBound h.edgeBound rfl

/-- Neither transaction holds a row that the other wrote. -/
structure Apart (t u : Transaction rules ν) : Prop where
  nodes : TableChanges.Apart GraphNode.id (GraphNode.key rules) t.changes.nodes u.changes.nodes
  edges : TableChanges.Apart GraphEdge.id (GraphEdge.key rules) t.changes.edges u.changes.edges

theorem RowsFit.other (h : t.RowsFit db) (hapart : t.Apart u) : t.RowsFit (u.changes.apply db) :=
  { h with
    nodes := h.nodes.other hapart.nodes
    edges := h.edges.other hapart.edges }

end RowsFit

section Sources

variable {s : State rules ν} {i : Nat} {t t' u : Transaction rules ν} {ledger : Ledger rules ν}
  {db : Database ν}

/-- The ids of an upsert are those of the rows that it wrote. -/
theorem mem_nodeIds {key : List Char} {id : Nat} (h : t.nodeIds.lookup key = some id) :
    ∃ r ∈ t.changes.nodes.written, rules.lower r.entityName = key ∧ r.id = id := by
  obtain ⟨front, back, heq, -⟩ := List.lookup_eq_some_iff.mp h
  have hmem : (key, id) ∈ t.nodeIds := by
    rw [heq]
    exact List.mem_append_right _ List.mem_cons_self
  obtain ⟨r, hr, hpair⟩ := List.mem_map.mp hmem
  exact ⟨r, hr, congrArg Prod.fst hpair, congrArg Prod.snd hpair⟩

theorem SourceProgress.node_of_source (h : t.SourceProgress) {r : NodeSource ν}
    (hr : r ∈ t.changes.nodeSources.written) :
    (∃ n ∈ t.changes.nodes.written, n.id = r.graphNodeId) ∧
      t.write.Owns r.workspaceId r.documentId := by
  rcases h.nodes with ⟨-, hnil⟩ | ⟨-, -, heq⟩
  · rw [hnil] at hr
    exact absurd hr List.not_mem_nil
  · rw [heq] at hr
    obtain ⟨n, -, hlookup, hdoc, hws, -⟩ := Database.mem_newNodeSources.mp hr
    obtain ⟨row, hrow, -, hid⟩ := mem_nodeIds hlookup
    exact ⟨⟨row, hrow, hid⟩, hws, hdoc⟩

theorem SourceProgress.edge_of_source (h : t.SourceProgress) {r : EdgeSource}
    (hr : r ∈ t.changes.edgeSources.written) :
    (∃ e ∈ t.changes.edges.written, e.id = r.graphEdgeId) ∧
      t.write.Owns r.workspaceId r.documentId := by
  rcases h.edges with ⟨-, hnil⟩ | ⟨-, -, -, hiff⟩
  · rw [hnil] at hr
    exact absurd hr List.not_mem_nil
  · obtain ⟨e, -, row, hrow, -, rfl⟩ := (hiff r).mp hr
    exact ⟨⟨row, hrow, rfl⟩, rfl, rfl⟩

/-- The edges that a transaction writes end in nodes that it has written. -/
theorem RowProgress.end_written (h : t.RowProgress) {e : GraphEdge}
    (he : e ∈ t.changes.edges.written) :
    (∃ n ∈ t.changes.nodes.written, n.id = e.sourceNodeId) ∧
      ∃ n ∈ t.changes.nodes.written, n.id = e.targetNodeId := by
  rcases h.edges with ⟨-, hnil⟩ | ⟨-, -, heq⟩
  · rw [hnil] at he
    exact absurd he List.not_mem_nil
  · have hkey : e.key rules ∈ t.resolved.map t.write.edgeKey :=
      heq ▸ List.mem_append_left _ (List.mem_map_of_mem he)
    obtain ⟨⟨a, b, input⟩, hinput, hsame⟩ := List.mem_map.mp hkey
    obtain ⟨-, ha, hb⟩ := Database.mem_resolveEdges.mp hinput
    obtain ⟨n, hn, -, hnid⟩ := mem_nodeIds ha
    obtain ⟨m, hm, -, hmid⟩ := mem_nodeIds hb
    simp only [Write.edgeKey, GraphEdge.key, Prod.mk.injEq] at hsame
    exact ⟨⟨n, hn, hnid.trans hsame.2.1⟩, m, hm, hmid.trans hsame.2.2.1⟩

/-- What has been deleted is backed by no other document, and still is when others commit. -/
structure Unbacked (t : Transaction rules ν) (db : Database ν) : Prop where
  nodes : ∀ r ∈ t.changes.nodes.deleted, ¬ t.write.NodeBacked db r.id
  edges : ∀ r ∈ t.changes.edges.deleted, ¬ t.write.EdgeBacked db r.id

theorem unbacked_begin (write : Write rules ν) (db : Database ν) : (begin write).Unbacked db where
  nodes _ h := absurd h List.not_mem_nil
  edges _ h := absurd h List.not_mem_nil

theorem Unbacked.advance (h : t.Unbacked s.db) (hreflects : s.db.Reflects ledger)
    (hadvance : Advance s i t t') : t'.Unbacked s.db := by
  cases hadvance with
  | deleteEdgeSources _ _ | deleteNodeSources _ _ | beginDelete _ _ _ _ | beginNodes _ _
  | insertNodeSources _ _ _ | beginEdges _ _ | insertEdgeSources _ _ _ | pass _ _ =>
    exact ⟨h.nodes, h.edges⟩
  | deleteEdge hrunning he hws hfree hbacked =>
    refine ⟨h.nodes, fun r hr => ?_⟩
    rcases List.mem_append.mp hr with hr | hr
    · exact h.edges r hr
    · rw [List.mem_singleton.mp hr]
      exact hbacked
  | deleteNode hrunning hn hws hfree hbacked =>
    refine ⟨fun r hr => ?_, fun r hr => ?_⟩
    · rcases List.mem_append.mp hr with hr | hr
      · exact h.nodes r hr
      · rw [List.mem_singleton.mp hr]
        exact hbacked
    · rcases List.mem_append.mp hr with hmem | hmem
      · exact h.edges r hmem
      · obtain ⟨he, hend⟩ := List.mem_filter.mp hmem
        exact hreflects.edge_unbacked he (by simpa using hend) hbacked

theorem Unbacked.other (h : t.Unbacked db) (hapart : t.Apart u) (hsources : u.SourceProgress) :
    t.Unbacked (u.changes.apply db) := by
  refine ⟨fun r hr => ?_, fun r hr => ?_⟩
  · rintro ⟨x, hx, hid, hother⟩
    rcases TableChanges.mem_or_written hx with hx | hx
    · exact h.nodes r hr ⟨x, hx, hid, hother⟩
    · obtain ⟨⟨n, hn, hnid⟩, -⟩ := hsources.node_of_source hx
      have hne := (hapart.nodes r (TableChanges.mem_rows.mpr (.inl hr)) n hn).1
      exact hne (hid.symm.trans hnid.symm)
  · rintro ⟨x, hx, hid, hother⟩
    rcases TableChanges.mem_or_written hx with hx | hx
    · exact h.edges r hr ⟨x, hx, hid, hother⟩
    · obtain ⟨⟨e, he, heid⟩, -⟩ := hsources.edge_of_source hx
      have hne := (hapart.edges r (TableChanges.mem_rows.mpr (.inl hr)) e he).1
      exact hne (hid.symm.trans heid.symm)

/-- The sources that its document had are deleted, and no other document's. -/
structure SourcesGone (t : Transaction rules ν) (db : Database ν) : Prop where
  nodes : .deleteNodeSources ∈ t.todo ∨ ∀ r ∈ db.nodeSources,
    t.write.Owns r.workspaceId r.documentId → ¬ t.changes.nodeSources.Spares NodeSource.key r.key
  edges : .deleteEdgeSources ∈ t.todo ∨ ∀ r ∈ db.edgeSources,
    t.write.Owns r.workspaceId r.documentId → ¬ t.changes.edgeSources.Spares EdgeSource.key r.key
  nodesOwn : ∀ r ∈ t.changes.nodeSources.rows, t.write.Owns r.workspaceId r.documentId ∧
    ∀ n ∈ db.nodes, n.id = r.graphNodeId → n.workspaceId = t.write.workspaceId
  edgesOwn : ∀ r ∈ t.changes.edgeSources.rows, t.write.Owns r.workspaceId r.documentId ∧
    ∀ e ∈ db.edges, e.id = r.graphEdgeId → e.workspaceId = t.write.workspaceId

theorem sourcesGone_begin (write : Write rules ν) (db : Database ν) :
    (begin write).SourcesGone db where
  nodes := by cases write <;> exact .inl (by simp [begin, Write.statements])
  edges := by cases write <;> exact .inl (by simp [begin, Write.statements])
  nodesOwn _ h := absurd h List.not_mem_nil
  edgesOwn _ h := absurd h List.not_mem_nil

theorem own_of_unbacked_edge (hwf : db.WellFormed rules) {write : Write rules ν} {id : Nat}
    (hbacked : ¬ write.EdgeBacked db id) {r : EdgeSource} (hr : r ∈ db.edgeSources)
    (hid : r.graphEdgeId = id) :
    write.Owns r.workspaceId r.documentId ∧
      ∀ e ∈ db.edges, e.id = r.graphEdgeId → e.workspaceId = write.workspaceId := by
  have hown : write.Owns r.workspaceId r.documentId :=
    Decidable.of_not_not fun hother => hbacked ⟨r, hr, hid, hother⟩
  refine ⟨hown, fun e he hid' => ?_⟩
  exact (hwf.edge_of_source (List.mem_map_of_mem he) hr hid'.symm).symm.trans hown.1

theorem own_of_unbacked_node (hwf : db.WellFormed rules) {write : Write rules ν} {id : Nat}
    (hbacked : ¬ write.NodeBacked db id) {r : NodeSource ν} (hr : r ∈ db.nodeSources)
    (hid : r.graphNodeId = id) :
    write.Owns r.workspaceId r.documentId ∧
      ∀ n ∈ db.nodes, n.id = r.graphNodeId → n.workspaceId = write.workspaceId := by
  have hown : write.Owns r.workspaceId r.documentId :=
    Decidable.of_not_not fun hother => hbacked ⟨r, hr, hid, hother⟩
  refine ⟨hown, fun n hn hid' => ?_⟩
  exact (hwf.node_of_source (List.mem_map_of_mem hn) hr hid'.symm).symm.trans hown.1

/-- The edge sources that the transaction sees as its own belong to edges of its workspace. -/
theorem SourcesGone.own_of_seen_edgeSource (h : t.SourcesGone db) (hwf : db.WellFormed rules)
    {r : EdgeSource} (hseen : r ∈ (t.changes.apply db).edgeSources)
    (hown : t.write.Owns r.workspaceId r.documentId) :
    ∀ e ∈ db.edges, e.id = r.graphEdgeId → e.workspaceId = t.write.workspaceId := by
  intro e he hid
  rcases TableChanges.mem_or_written hseen with hmem | hmem
  · exact (hwf.edge_of_source (List.mem_map_of_mem he) hmem hid.symm).symm.trans hown.1
  · exact (h.edgesOwn r (TableChanges.mem_rows_of_written hmem)).2 e he hid

theorem SourcesGone.own_of_seen_nodeSource (h : t.SourcesGone db) (hwf : db.WellFormed rules)
    {r : NodeSource ν} (hseen : r ∈ (t.changes.apply db).nodeSources)
    (hown : t.write.Owns r.workspaceId r.documentId) :
    ∀ n ∈ db.nodes, n.id = r.graphNodeId → n.workspaceId = t.write.workspaceId := by
  intro n hn hid
  rcases TableChanges.mem_or_written hseen with hmem | hmem
  · exact (hwf.node_of_source (List.mem_map_of_mem hn) hmem hid.symm).symm.trans hown.1
  · exact (h.nodesOwn r (TableChanges.mem_rows_of_written hmem)).2 n hn hid

/-- The node of a new source is a row the transaction wrote. -/
theorem RowsFit.own_of_newNodeSource (hfit : t.RowsFit db) {r : NodeSource ν}
    (hr : r ∈ Database.newNodeSources rules t.write.workspaceId t.write.documentId t.nodeIds
      t.write.nodes) :
    t.write.Owns r.workspaceId r.documentId ∧
      ∀ n ∈ db.nodes, n.id = r.graphNodeId → n.workspaceId = t.write.workspaceId := by
  obtain ⟨n, -, hlookup, hdoc, hws, -⟩ := Database.mem_newNodeSources.mp hr
  obtain ⟨row, hrow, -, hid⟩ := mem_nodeIds hlookup
  refine ⟨⟨hws, hdoc⟩, fun n hn hnid => ?_⟩
  have hlabel := hfit.nodes.same row (TableChanges.mem_rows_of_written hrow) n hn
    (hnid.trans hid.symm)
  exact (congrArg NodeLabel.workspaceId hlabel).trans (hfit.written_workspace hrow)

theorem RowsFit.own_of_newEdgeSource (hfit : t.RowsFit db) (hwf : db.WellFormed rules)
    {r : EdgeSource} (hr : r ∈ Database.newEdgeSources rules (t.changes.apply db)
      t.write.workspaceId t.write.documentId t.resolved) :
    t.write.Owns r.workspaceId r.documentId ∧
      ∀ e ∈ db.edges, e.id = r.graphEdgeId → e.workspaceId = t.write.workspaceId := by
  obtain ⟨input, -, hinput⟩ := List.mem_filterMap.mp hr
  obtain ⟨row, hfind, rfl⟩ := Option.map_eq_some_iff.mp hinput
  have hkey := List.find?_some hfind
  simp only [beq_iff_eq] at hkey
  have hws : row.workspaceId = t.write.workspaceId := congrArg Prod.fst hkey
  refine ⟨⟨rfl, rfl⟩, fun e he hid => ?_⟩
  rcases TableChanges.mem_or_written (List.mem_of_find?_eq_some hfind) with hmem | hmem
  · have hlabel := hwf.edge_eq_of_id (List.mem_map_of_mem he) (List.mem_map_of_mem hmem) hid
    exact (congrArg EdgeLabel.workspaceId hlabel).trans hws
  · have hlabel := hfit.edges.same row (TableChanges.mem_rows_of_written hmem) e he hid
    exact (congrArg EdgeLabel.workspaceId hlabel).trans hws

theorem SourcesGone.advance (h : t.SourcesGone s.db) (hfit : t.RowsFit s.db)
    (hreflects : s.db.Reflects ledger) (hadvance : Advance s i t t') : t'.SourcesGone s.db := by
  have hwf := hreflects.wellFormed
  cases hadvance with
  | deleteEdgeSources htodo hrunning =>
    refine
      { nodes := h.nodes.imp_left (mem_todo_next htodo (by decide)).mpr
        edges := .inr fun r hr hown hspares => ?_
        nodesOwn := h.nodesOwn
        edgesOwn := fun r hr => ?_ }
    · exact TableChanges.not_spares_delete_filter hr (decide_eq_true hown) hspares
    · rcases TableChanges.mem_rows_delete.mp hr with hr | hr
      · exact h.edgesOwn r hr
      · obtain ⟨hseen, hown⟩ := List.mem_filter.mp hr
        have hown := of_decide_eq_true hown
        exact ⟨hown, h.own_of_seen_edgeSource hwf hseen hown⟩
  | deleteNodeSources htodo hrunning =>
    refine
      { nodes := .inr fun r hr hown hspares => ?_
        edges := h.edges.imp_left (mem_todo_next htodo (by decide)).mpr
        nodesOwn := fun r hr => ?_
        edgesOwn := h.edgesOwn }
    · exact TableChanges.not_spares_delete_filter hr (decide_eq_true hown) hspares
    · rcases TableChanges.mem_rows_delete.mp hr with hr | hr
      · exact h.nodesOwn r hr
      · obtain ⟨hseen, hown⟩ := List.mem_filter.mp hr
        have hown := of_decide_eq_true hown
        exact ⟨hown, h.own_of_seen_nodeSource hwf hseen hown⟩
  | beginDelete htodo hstatement hrunning hrows =>
    refine
      { nodes := h.nodes.imp_left (mem_todo_next htodo ?_).mpr
        edges := h.edges.imp_left (mem_todo_next htodo ?_).mpr
        nodesOwn := h.nodesOwn
        edgesOwn := h.edgesOwn }
    · rcases hstatement with rfl | rfl <;> decide
    · rcases hstatement with rfl | rfl <;> decide
  | beginNodes htodo hrunning | beginEdges htodo hrunning =>
    exact
      { nodes := h.nodes.imp_left (mem_todo_next htodo (by decide)).mpr
        edges := h.edges.imp_left (mem_todo_next htodo (by decide)).mpr
        nodesOwn := h.nodesOwn
        edgesOwn := h.edgesOwn }
  | pass hold hrows => exact ⟨h.nodes, h.edges, h.nodesOwn, h.edgesOwn⟩
  | insertNodeSources htodo hrunning hkeys =>
    refine
      { nodes := ?_
        edges := h.edges.imp_left (mem_todo_next htodo (by decide)).mpr
        nodesOwn := fun r hr => ?_
        edgesOwn := h.edgesOwn }
    · exact h.nodes.imp (mem_todo_next htodo (by decide)).mpr
        fun hgone r hr hown hspares => hgone r hr hown hspares.of_write
    · rcases TableChanges.mem_rows_write.mp hr with hr | hr
      · exact h.nodesOwn r hr
      · exact hfit.own_of_newNodeSource hr
  | insertEdgeSources htodo hrunning hkeys =>
    refine
      { nodes := h.nodes.imp_left (mem_todo_next htodo (by decide)).mpr
        edges := ?_
        nodesOwn := h.nodesOwn
        edgesOwn := fun r hr => ?_ }
    · exact h.edges.imp (mem_todo_next htodo (by decide)).mpr
        fun hgone r hr hown hspares => hgone r hr hown hspares.of_write
    · rcases TableChanges.mem_rows_write.mp hr with hr | hr
      · exact h.edgesOwn r hr
      · exact hfit.own_of_newEdgeSource hwf hr
  | @deleteEdge victims rest e hrunning he hws hfree hbacked =>
    refine
      { nodes := h.nodes
        edges := h.edges.imp_right fun hgone r hr hown hspares => ?_
        nodesOwn := h.nodesOwn
        edgesOwn := fun r hr => ?_ }
    · exact hgone r hr hown hspares.of_delete
    · rcases TableChanges.mem_rows_delete.mp hr with hr | hr
      · exact h.edgesOwn r hr
      · obtain ⟨hr, hid⟩ := List.mem_filter.mp hr
        have hid : e.id = r.graphEdgeId := by simpa using hid
        exact own_of_unbacked_edge hwf hbacked hr hid.symm
  | @deleteNode victims rest n hrunning hn hws hfree hbacked =>
    refine
      { nodes := h.nodes.imp_right fun hgone r hr hown hspares => ?_
        edges := h.edges.imp_right fun hgone r hr hown hspares => ?_
        nodesOwn := fun r hr => ?_
        edgesOwn := fun r hr => ?_ }
    · exact hgone r hr hown hspares.of_delete
    · exact hgone r hr hown hspares.of_delete
    · rcases TableChanges.mem_rows_delete.mp hr with hr | hr
      · exact h.nodesOwn r hr
      · obtain ⟨hr, hid⟩ := List.mem_filter.mp hr
        exact own_of_unbacked_node hwf hbacked hr (by simpa using hid)
    · rcases TableChanges.mem_rows_delete.mp hr with hr | hr
      · exact h.edgesOwn r hr
      · obtain ⟨hr, hany⟩ := List.mem_filter.mp hr
        obtain ⟨e, he, hid⟩ := List.any_eq_true.mp hany
        obtain ⟨he, hend⟩ := List.mem_filter.mp he
        have hunbacked := hreflects.edge_unbacked he (by simpa using hend) hbacked
        exact own_of_unbacked_edge hwf hunbacked hr (beq_iff_eq.mp hid).symm

theorem SourcesGone.upsert (h : t.SourcesGone s.db) (hupsert : Upserts s i t t') :
    t'.SourcesGone ({ s.db with nextId := s.db.nextId + 1 } : Database ν) := by
  cases hupsert with
  | node hrunning hfits hnew hfree => exact ⟨h.nodes, h.edges, h.nodesOwn, h.edgesOwn⟩
  | edge hrunning hfits hnew hfree => exact ⟨h.nodes, h.edges, h.nodesOwn, h.edgesOwn⟩

theorem SourcesGone.other (h : t.SourcesGone db) (hfit : u.RowsFit db) (hsources : u.SourceProgress)
    (hworkspace : u.write.workspaceId = t.write.workspaceId)
    (hdocument : u.write.documentId ≠ t.write.documentId) : t.SourcesGone (u.changes.apply db) := by
  refine
    { nodes := h.nodes.imp_right fun hgone r hr hown => ?_
      edges := h.edges.imp_right fun hgone r hr hown => ?_
      nodesOwn := fun r hr => ⟨(h.nodesOwn r hr).1, fun n hn hid => ?_⟩
      edgesOwn := fun r hr => ⟨(h.edgesOwn r hr).1, fun e he hid => ?_⟩ }
  · rcases TableChanges.mem_or_written hr with hr | hr
    · exact hgone r hr hown
    · exact absurd ((hsources.node_of_source hr).2.2.symm.trans hown.2) hdocument
  · rcases TableChanges.mem_or_written hr with hr | hr
    · exact hgone r hr hown
    · exact absurd ((hsources.edge_of_source hr).2.2.symm.trans hown.2) hdocument
  · rcases TableChanges.mem_or_written hn with hn | hn
    · exact (h.nodesOwn r hr).2 n hn hid
    · exact (hfit.written_workspace hn).trans hworkspace
  · rcases TableChanges.mem_or_written he with he | he
    · exact (h.edgesOwn r hr).2 e he hid
    · exact (hfit.written_edge_workspace he).trans hworkspace

end Sources

section Apart

variable {s : State rules ν} {i j : Nat} {t t' u : Transaction rules ν}

theorem nodeHeld_free {row : GraphNode ν} (h : s.nodeHeld i row = false) (hj : j ≠ i)
    (hu : s.transactions[j]? = some u) (hopen : u.committed = false) :
    ∀ r ∈ u.changes.nodes.rows, r.id ≠ row.id ∧ r.key rules ≠ row.key rules := by
  intro r hr
  have hholds := List.any_eq_false.mp h u (List.mem_eraseIdx_iff_getElem?.mpr ⟨j, hj, hu⟩)
  simp only [holdsNode, hopen, Bool.not_false, Bool.true_and, List.any_eq_true, not_exists,
    Bool.or_eq_true, beq_iff_eq, not_and, not_or] at hholds
  exact hholds r hr

theorem edgeHeld_free {row : GraphEdge} (h : s.edgeHeld i row = false) (hj : j ≠ i)
    (hu : s.transactions[j]? = some u) (hopen : u.committed = false) :
    ∀ r ∈ u.changes.edges.rows, r.id ≠ row.id ∧ r.key rules ≠ row.key rules := by
  intro r hr
  have hholds := List.any_eq_false.mp h u (List.mem_eraseIdx_iff_getElem?.mpr ⟨j, hj, hu⟩)
  simp only [holdsEdge, hopen, Bool.not_false, Bool.true_and, List.any_eq_true, not_exists,
    Bool.or_eq_true, beq_iff_eq, not_and, not_or] at hholds
  exact hholds r hr

/-- An edge that a transaction has written ends in nodes that it holds. -/
theorem RowProgress.edge_apart (hrow : u.RowProgress) (hfit : u.RowsFit s.db) {n : GraphNode ν}
    (hfree : ∀ r ∈ u.changes.nodes.rows, r.id ≠ n.id ∧ r.key rules ≠ n.key rules) {e : GraphEdge}
    (he : e ∈ s.db.edges) (hend : e.sourceNodeId = n.id ∨ e.targetNodeId = n.id) {e' : GraphEdge}
    (he' : e' ∈ u.changes.edges.written) : e.id ≠ e'.id ∧ e.key rules ≠ e'.key rules := by
  obtain ⟨⟨a, ha, haid⟩, b, hb, hbid⟩ := hrow.end_written he'
  have hother : ¬ (e'.sourceNodeId = e.sourceNodeId ∧ e'.targetNodeId = e.targetNodeId) := by
    rintro ⟨hsource, htarget⟩
    rcases hend with hend | hend
    · exact (hfree a (TableChanges.mem_rows_of_written ha)).1 (haid.trans (hsource.trans hend))
    · exact (hfree b (TableChanges.mem_rows_of_written hb)).1 (hbid.trans (htarget.trans hend))
  refine ⟨fun hid => hother ?_, fun hkey => hother ?_⟩
  · have hlabel := hfit.edges.same e' (TableChanges.mem_rows_of_written he') e he hid
    exact ⟨(congrArg EdgeLabel.sourceNodeId hlabel).symm,
      (congrArg EdgeLabel.targetNodeId hlabel).symm⟩
  · simp only [GraphEdge.key, Prod.mk.injEq] at hkey
    exact ⟨hkey.2.1.symm, hkey.2.2.1.symm⟩

theorem Apart.advance (h : t.Apart u) (hj : j ≠ i) (hu : s.transactions[j]? = some u)
    (hopen : u.committed = false) (hrow : u.RowProgress) (hfit : u.RowsFit s.db)
    (hadvance : Advance s i t t') : t'.Apart u := by
  cases hadvance with
  | deleteEdgeSources _ _ | deleteNodeSources _ _ | beginDelete _ _ _ _ | beginNodes _ _
  | insertNodeSources _ _ _ | beginEdges _ _ | insertEdgeSources _ _ _ | pass _ _ =>
    exact ⟨h.nodes, h.edges⟩
  | deleteEdge hrunning he hws hfree hbacked =>
    have hothers := edgeHeld_free hfree hj hu hopen
    exact ⟨h.nodes, h.edges.delete (TableChanges.free_of_unheld hothers)⟩
  | deleteNode hrunning hn hws hfree hbacked =>
    have hothers := nodeHeld_free hfree hj hu hopen
    refine ⟨h.nodes.delete (TableChanges.free_of_unheld hothers),
      h.edges.delete fun r hr r' hr' => ?_⟩
    obtain ⟨he, hend⟩ := List.mem_filter.mp hr
    exact hrow.edge_apart hfit hothers he (by simpa using hend) hr'

/-- Deletions take nothing that another transaction could be held up by writing. -/
theorem Apart.advance_right (h : u.Apart t) (hadvance : Advance s i t t') : u.Apart t' := by
  cases hadvance <;> exact ⟨h.nodes, h.edges⟩

theorem Apart.upsert (h : t.Apart u) (hj : j ≠ i) (hu : s.transactions[j]? = some u)
    (hopen : u.committed = false) (hupsert : Upserts s i t t') : t'.Apart u := by
  cases hupsert with
  | node hrunning hfits hnew hfree =>
    have hothers := nodeHeld_free hfree hj hu hopen
    exact ⟨h.nodes.write (TableChanges.free_of_unheld hothers), h.edges⟩
  | edge hrunning hfits hnew hfree =>
    have hothers := edgeHeld_free hfree hj hu hopen
    exact ⟨h.nodes, h.edges.write (TableChanges.free_of_unheld hothers)⟩

theorem Apart.upsert_right (h : u.Apart t) (hj : j ≠ i) (hu : s.transactions[j]? = some u)
    (hopen : u.committed = false) (hupsert : Upserts s i t t') : u.Apart t' := by
  cases hupsert with
  | node hrunning hfits hnew hfree =>
    refine ⟨h.nodes.write_right fun r hr r' hr' => ?_, h.edges⟩
    rw [List.mem_singleton.mp hr']
    exact nodeHeld_free hfree hj hu hopen r hr
  | edge hrunning hfits hnew hfree =>
    refine ⟨h.nodes, h.edges.write_right fun r hr r' hr' => ?_⟩
    rw [List.mem_singleton.mp hr']
    exact edgeHeld_free hfree hj hu hopen r hr

end Apart

/-- What holds of an open transaction. -/
structure Sound (t : Transaction rules ν) (db : Database ν) : Prop where
  rows : t.RowProgress
  sources : t.SourceProgress
  fit : t.RowsFit db
  unbacked : t.Unbacked db
  gone : t.SourcesGone db

section Sound

variable {s : State rules ν} {i : Nat} {t t' u : Transaction rules ν} {ledger : Ledger rules ν}
  {db : Database ν}

theorem sound_begin (write : Write rules ν) (db : Database ν) : (begin write).Sound db where
  rows := rowProgress_begin write
  sources := sourceProgress_begin write
  fit := rowsFit_begin write db
  unbacked := unbacked_begin write db
  gone := sourcesGone_begin write db

theorem Sound.advance (h : t.Sound s.db) (hreflects : s.db.Reflects ledger)
    (hadvance : Advance s i t t') : t'.Sound s.db where
  rows := h.rows.advance hadvance
  sources := h.sources.advance h.rows (h.fit.edges.apply_keys hreflects.wellFormed.edgeRowKeys)
    hadvance
  fit := h.fit.advance hreflects.wellFormed hadvance
  unbacked := h.unbacked.advance hreflects hadvance
  gone := h.gone.advance h.fit hreflects hadvance

theorem Sound.next (h : t.Sound s.db) :
    t.Sound ({ s.db with nextId := s.db.nextId + 1 } : Database ν) where
  rows := h.rows
  sources := h.sources
  fit := h.fit.next
  unbacked := ⟨h.unbacked.nodes, h.unbacked.edges⟩
  gone := ⟨h.gone.nodes, h.gone.edges, h.gone.nodesOwn, h.gone.edgesOwn⟩

theorem Sound.upsert (h : t.Sound s.db) (hreflects : s.db.Reflects ledger)
    (hupsert : Upserts s i t t') :
    t'.Sound ({ s.db with nextId := s.db.nextId + 1 } : Database ν) where
  rows := h.rows.upsert hupsert
  sources := h.sources.upsert hupsert
  fit := h.fit.upsert hreflects.wellFormed hupsert
  unbacked := by cases hupsert <;> exact ⟨h.unbacked.nodes, h.unbacked.edges⟩
  gone := h.gone.upsert hupsert

/-- Another transaction of the workspace commits. -/
theorem Sound.other (h : t.Sound db) (hu : u.Sound db) (hapart : t.Apart u)
    (hworkspace : u.write.workspaceId = t.write.workspaceId)
    (hdocument : u.write.documentId ≠ t.write.documentId) : t.Sound (u.changes.apply db) where
  rows := h.rows
  sources := h.sources
  fit := h.fit.other hapart
  unbacked := h.unbacked.other hapart hu.sources
  gone := h.gone.other hu.fit hu.sources hworkspace hdocument

end Sound

end Transaction

end Overlap

end GmragApi.Graph

import GmragApi.GraphLedger

/-! Runs of the transactions on the graph tables keep them well formed, and keep what they stand for
in step with the ledger. -/

namespace GmragApi.Graph

/-- The part of a row that an upsert never changes. -/
structure NodeLabel where
  id : Nat
  workspaceId : Nat
  name : List Char

structure EdgeLabel where
  id : Nat
  workspaceId : Nat
  sourceNodeId : Nat
  targetNodeId : Nat
  relationship : List Char

variable {ν : Type} {rules : TextRules}

def GraphNode.label (n : GraphNode ν) : NodeLabel := ⟨n.id, n.workspaceId, n.entityName⟩

def GraphEdge.label (e : GraphEdge) : EdgeLabel :=
  ⟨e.id, e.workspaceId, e.sourceNodeId, e.targetNodeId, e.relationship⟩

def NodeLabel.key (rules : TextRules) (l : NodeLabel) : Nat × List Char :=
  (l.workspaceId, rules.lower l.name)

def EdgeLabel.key (rules : TextRules) (l : EdgeLabel) : Nat × Nat × Nat × List Char :=
  (l.workspaceId, l.sourceNodeId, l.targetNodeId, rules.lower l.relationship)

@[simp] theorem GraphNode.label_key (n : GraphNode ν) : n.label.key rules = n.key rules := rfl

@[simp] theorem GraphEdge.label_key (e : GraphEdge) : e.label.key rules = e.key rules := rfl

theorem GraphNode.update_key (old new : GraphNode ν) : (old.update new).key rules = old.key rules :=
  rfl

theorem GraphEdge.update_key (old new : GraphEdge) : (old.update new).key rules = old.key rules :=
  rfl

theorem NodeSource.update_key (old new : NodeSource ν) : (old.update new).key = old.key := rfl

theorem EdgeSource.update_key (old new : EdgeSource) : (old.update new).key = old.key := rfl

/-- An update takes all of a source but its key. -/
theorem NodeSource.update_of_key {old new : NodeSource ν} (h : old.key = new.key) :
    old.update new = new := by
  obtain ⟨hnode, hdocument⟩ := Prod.mk.inj h
  cases new
  exact NodeSource.mk.injEq .. ▸ ⟨hnode, hdocument, rfl, rfl, rfl, rfl⟩

theorem EdgeSource.update_of_key {old new : EdgeSource} (h : old.key = new.key) :
    old.update new = new := by
  obtain ⟨hedge, hdocument⟩ := Prod.mk.inj h
  cases new
  exact EdgeSource.mk.injEq .. ▸ ⟨hedge, hdocument, rfl, rfl, rfl⟩

theorem GraphNode.update_label (old new : GraphNode ν) : (old.update new).label = old.label := rfl

theorem GraphEdge.update_label (old new : GraphEdge) : (old.update new).label = old.label := rfl

namespace Database

def nodeLabels (db : Database ν) : List NodeLabel := db.nodes.map GraphNode.label

def edgeLabels (db : Database ν) : List EdgeLabel := db.edges.map GraphEdge.label

/-- The row of the id is the one of the key. -/
def HasKey (rules : TextRules) (db : Database ν) (id : Nat) (key : Nat × List Char) : Prop :=
  ∃ l ∈ db.nodeLabels, l.id = id ∧ l.key rules = key

def Tells (rules : TextRules) (db : Database ν) (workspaceId documentId : Nat) (key : List Char)
    (f : EntityFact ν) : Prop :=
  ∃ s ∈ db.nodeSources, s.documentId = documentId ∧
    db.HasKey rules s.graphNodeId (workspaceId, key) ∧ s.fact = f

def Relates (rules : TextRules) (db : Database ν) (workspaceId documentId : Nat)
    (source target relationship : List Char) (f : RelationFact) : Prop :=
  ∃ s ∈ db.edgeSources, s.documentId = documentId ∧
    (∃ e ∈ db.edgeLabels, e.id = s.graphEdgeId ∧ rules.lower e.relationship = relationship ∧
      db.HasKey rules e.sourceNodeId (workspaceId, source) ∧
      db.HasKey rules e.targetNodeId (workspaceId, target)) ∧ s.fact = f

structure WellFormed (rules : TextRules) (db : Database ν) : Prop where
  nodeIds : (db.nodeLabels.map NodeLabel.id).Nodup
  nodeKeys : (db.nodeLabels.map (NodeLabel.key rules)).Nodup
  edgeIds : (db.edgeLabels.map EdgeLabel.id).Nodup
  edgeKeys : (db.edgeLabels.map (EdgeLabel.key rules)).Nodup
  nodeSourceKeys : (db.nodeSources.map NodeSource.key).Nodup
  edgeSourceKeys : (db.edgeSources.map EdgeSource.key).Nodup
  nodeBound : ∀ l ∈ db.nodeLabels, l.id < db.nextId
  edgeBound : ∀ e ∈ db.edgeLabels, e.id < db.nextId
  sourceEnd : ∀ e ∈ db.edgeLabels, ∃ l ∈ db.nodeLabels, l.id = e.sourceNodeId ∧
    l.workspaceId = e.workspaceId
  targetEnd : ∀ e ∈ db.edgeLabels, ∃ l ∈ db.nodeLabels, l.id = e.targetNodeId ∧
    l.workspaceId = e.workspaceId
  nodeOfSource : ∀ s ∈ db.nodeSources, ∃ l ∈ db.nodeLabels, l.id = s.graphNodeId ∧
    l.workspaceId = s.workspaceId
  edgeOfSource : ∀ s ∈ db.edgeSources, ∃ e ∈ db.edgeLabels, e.id = s.graphEdgeId ∧
    e.workspaceId = s.workspaceId

/-- The tables hold what the ledger says. -/
structure Refines (db : Database ν) (ledger : Ledger rules ν) : Prop where
  wellFormed : db.WellFormed rules
  spelling : ∀ workspaceId key name, ledger.spelling workspaceId key = some name ↔
    ∃ l ∈ db.nodeLabels, l.key rules = (workspaceId, key) ∧ l.name = name
  tells : ∀ workspaceId documentId key f, db.Tells rules workspaceId documentId key f ↔
    ledger.Tells workspaceId documentId key f
  relates : ∀ workspaceId documentId source target relationship f,
    db.Relates rules workspaceId documentId source target relationship f ↔
      ledger.Relates workspaceId documentId source target relationship f

variable {db db' : Database ν} {workspaceId documentId : Nat}

section Labels

theorem WellFormed.node_eq_of_id (h : db.WellFormed rules) {l m : NodeLabel}
    (hl : l ∈ db.nodeLabels) (hm : m ∈ db.nodeLabels) (hid : l.id = m.id) : l = m :=
  List.inj_on_of_nodup_map h.nodeIds hl hm hid

theorem WellFormed.node_eq_of_key (h : db.WellFormed rules) {l m : NodeLabel}
    (hl : l ∈ db.nodeLabels) (hm : m ∈ db.nodeLabels) (hkey : l.key rules = m.key rules) : l = m :=
  List.inj_on_of_nodup_map h.nodeKeys hl hm hkey

theorem WellFormed.edge_eq_of_id (h : db.WellFormed rules) {e m : EdgeLabel}
    (he : e ∈ db.edgeLabels) (hm : m ∈ db.edgeLabels) (hid : e.id = m.id) : e = m :=
  List.inj_on_of_nodup_map h.edgeIds he hm hid

theorem WellFormed.edge_eq_of_key (h : db.WellFormed rules) {e m : EdgeLabel}
    (he : e ∈ db.edgeLabels) (hm : m ∈ db.edgeLabels) (hkey : e.key rules = m.key rules) : e = m :=
  List.inj_on_of_nodup_map h.edgeKeys he hm hkey

theorem WellFormed.nodeRowIds (h : db.WellFormed rules) : (db.nodes.map GraphNode.id).Nodup := by
  have hids := h.nodeIds
  rwa [nodeLabels, List.map_map] at hids

theorem WellFormed.edgeRowIds (h : db.WellFormed rules) : (db.edges.map GraphEdge.id).Nodup := by
  have hids := h.edgeIds
  rwa [edgeLabels, List.map_map] at hids

theorem WellFormed.nodeRowKeys (h : db.WellFormed rules) :
    (db.nodes.map (GraphNode.key rules)).Nodup := by
  have hkeys := h.nodeKeys
  rwa [nodeLabels, List.map_map] at hkeys

theorem WellFormed.edgeRowKeys (h : db.WellFormed rules) :
    (db.edges.map (GraphEdge.key rules)).Nodup := by
  have hkeys := h.edgeKeys
  rwa [edgeLabels, List.map_map] at hkeys

/-- A source stands in the workspace of its row, and an edge in that of its ends. -/
theorem WellFormed.node_of_source (h : db.WellFormed rules) {l : NodeLabel}
    (hl : l ∈ db.nodeLabels) {s : NodeSource ν} (hs : s ∈ db.nodeSources)
    (hid : s.graphNodeId = l.id) : s.workspaceId = l.workspaceId := by
  obtain ⟨m, hm, hmid, hws⟩ := h.nodeOfSource s hs
  rw [h.node_eq_of_id hl hm (hid.symm.trans hmid.symm)]
  exact hws.symm

theorem WellFormed.edge_of_source (h : db.WellFormed rules) {e : EdgeLabel}
    (he : e ∈ db.edgeLabels) {s : EdgeSource} (hs : s ∈ db.edgeSources)
    (hid : s.graphEdgeId = e.id) : s.workspaceId = e.workspaceId := by
  obtain ⟨m, hm, hmid, hws⟩ := h.edgeOfSource s hs
  rw [h.edge_eq_of_id he hm (hid.symm.trans hmid.symm)]
  exact hws.symm

theorem WellFormed.end_workspace (h : db.WellFormed rules) {e : EdgeLabel}
    (he : e ∈ db.edgeLabels) {l : NodeLabel} (hl : l ∈ db.nodeLabels)
    (hend : e.sourceNodeId = l.id ∨ e.targetNodeId = l.id) : e.workspaceId = l.workspaceId := by
  rcases hend with hend | hend
  · obtain ⟨a, ha, haid, haws⟩ := h.sourceEnd e he
    rw [h.node_eq_of_id ha hl (haid.trans hend)] at haws
    exact haws.symm
  · obtain ⟨b, hb, hbid, hbws⟩ := h.targetEnd e he
    rw [h.node_eq_of_id hb hl (hbid.trans hend)] at hbws
    exact hbws.symm

theorem WellFormed.key_unique (h : db.WellFormed rules) {id : Nat} {k k' : Nat × List Char}
    (hk : db.HasKey rules id k) (hk' : db.HasKey rules id k') : k = k' := by
  obtain ⟨l, hl, hid, rfl⟩ := hk
  obtain ⟨m, hm, hid', rfl⟩ := hk'
  rw [h.node_eq_of_id hl hm (hid.trans hid'.symm)]

theorem WellFormed.id_unique (h : db.WellFormed rules) {id id' : Nat} {k : Nat × List Char}
    (hk : db.HasKey rules id k) (hk' : db.HasKey rules id' k) : id = id' := by
  obtain ⟨l, hl, rfl, hkey⟩ := hk
  obtain ⟨m, hm, rfl, hkey'⟩ := hk'
  rw [h.node_eq_of_key hl hm (hkey.trans hkey'.symm)]

end Labels

/-- Every row of the first database is one of the second, under its label. -/
structure Within (db db' : Database ν) : Prop where
  nodes : db.nodeLabels ⊆ db'.nodeLabels
  edges : db.edgeLabels ⊆ db'.edgeLabels

section Within

theorem Within.hasKey (h : db.Within db') {id : Nat} {k : Nat × List Char}
    (hk : db.HasKey rules id k) : db'.HasKey rules id k := by
  obtain ⟨l, hl, hlk⟩ := hk
  exact ⟨l, h.nodes hl, hlk⟩

/-- A row that is in the smaller database has its key there. -/
theorem Within.hasKey_iff (h : db.Within db') (hwf : db'.WellFormed rules) {id : Nat}
    (hid : ∃ l ∈ db.nodeLabels, l.id = id) {k : Nat × List Char} :
    db'.HasKey rules id k ↔ db.HasKey rules id k := by
  refine ⟨fun hk => ?_, h.hasKey⟩
  obtain ⟨l, hl, hlid⟩ := hid
  have hown : db.HasKey rules id (l.key rules) := ⟨l, hl, hlid, rfl⟩
  rwa [hwf.key_unique hk (h.hasKey hown)]

theorem Within.tells_iff (h : db.Within db') (hwf : db.WellFormed rules)
    (hwf' : db'.WellFormed rules) (hsources : db'.nodeSources = db.nodeSources)
    (key : List Char) (f : EntityFact ν) :
    db'.Tells rules workspaceId documentId key f ↔ db.Tells rules workspaceId documentId key f := by
  unfold Tells
  rw [hsources]
  refine exists_congr fun s => and_congr_right fun hs => ?_
  obtain ⟨l, hl, hid, -⟩ := hwf.nodeOfSource s hs
  rw [h.hasKey_iff hwf' ⟨l, hl, hid⟩]

theorem Within.relates_iff (h : db.Within db') (hwf : db.WellFormed rules)
    (hwf' : db'.WellFormed rules) (hsources : db'.edgeSources = db.edgeSources)
    (source target relationship : List Char) (f : RelationFact) :
    db'.Relates rules workspaceId documentId source target relationship f ↔
      db.Relates rules workspaceId documentId source target relationship f := by
  unfold Relates
  rw [hsources]
  refine exists_congr fun s => and_congr_right fun hs => and_congr_right fun _ =>
    and_congr_left fun _ => ?_
  obtain ⟨e, he, hid, -⟩ := hwf.edgeOfSource s hs
  obtain ⟨l, hl, hlid, -⟩ := hwf.sourceEnd e he
  obtain ⟨m, hm, hmid, -⟩ := hwf.targetEnd e he
  constructor
  · rintro ⟨e', he', hid', hrel, hsource, htarget⟩
    cases hwf'.edge_eq_of_id he' (h.edges he) (hid'.trans hid.symm)
    exact ⟨e, he, hid, hrel, (h.hasKey_iff hwf' ⟨l, hl, hlid⟩).mp hsource,
      (h.hasKey_iff hwf' ⟨m, hm, hmid⟩).mp htarget⟩
  · rintro ⟨e', he', hid', hrel, hsource, htarget⟩
    exact ⟨e', h.edges he', hid', hrel, h.hasKey hsource, h.hasKey htarget⟩

end Within

/-- Deleting the sources of a document, as `clear_document_output` begins. -/
def dropSources (db : Database ν) (workspaceId documentId : Nat) : Database ν :=
  { db with
    edgeSources := db.edgeSources.filter fun s =>
      !(s.workspaceId == workspaceId && s.documentId == documentId)
    nodeSources := db.nodeSources.filter fun s =>
      !(s.workspaceId == workspaceId && s.documentId == documentId) }

section DropSources

theorem mem_dropSources_nodeSources {s : NodeSource ν} :
    s ∈ (db.dropSources workspaceId documentId).nodeSources ↔
      s ∈ db.nodeSources ∧ ¬ (s.workspaceId = workspaceId ∧ s.documentId = documentId) := by
  simp [dropSources, imp_iff_not_or]

theorem mem_dropSources_edgeSources {s : EdgeSource} :
    s ∈ (db.dropSources workspaceId documentId).edgeSources ↔
      s ∈ db.edgeSources ∧ ¬ (s.workspaceId = workspaceId ∧ s.documentId = documentId) := by
  simp [dropSources, imp_iff_not_or]

theorem WellFormed.dropSources (h : db.WellFormed rules) (workspaceId documentId : Nat) :
    (db.dropSources workspaceId documentId).WellFormed rules :=
  { h with
    nodeSourceKeys := h.nodeSourceKeys.sublist (List.filter_sublist.map _)
    edgeSourceKeys := h.edgeSourceKeys.sublist (List.filter_sublist.map _)
    nodeOfSource := fun s hs => h.nodeOfSource s (mem_dropSources_nodeSources.mp hs).1
    edgeOfSource := fun s hs => h.edgeOfSource s (mem_dropSources_edgeSources.mp hs).1 }

/-- A source stands in the workspace of its row. -/
theorem WellFormed.nodeSource_workspace (h : db.WellFormed rules) {s : NodeSource ν}
    (hs : s ∈ db.nodeSources) {key : List Char}
    (hk : db.HasKey rules s.graphNodeId (workspaceId, key)) : s.workspaceId = workspaceId := by
  obtain ⟨l, hl, hid, hkey⟩ := hk
  exact (h.node_of_source hl hs hid.symm).trans (congrArg Prod.fst hkey)

theorem WellFormed.edge_workspace (h : db.WellFormed rules) {e : EdgeLabel}
    (he : e ∈ db.edgeLabels) {key : List Char}
    (hk : db.HasKey rules e.sourceNodeId (workspaceId, key)) : e.workspaceId = workspaceId := by
  obtain ⟨l, hl, hid, hkey⟩ := hk
  exact (h.end_workspace he hl (.inl hid.symm)).trans (congrArg Prod.fst hkey)

theorem WellFormed.edgeSource_workspace (h : db.WellFormed rules) {s : EdgeSource}
    (hs : s ∈ db.edgeSources) {e : EdgeLabel} (he : e ∈ db.edgeLabels) (hid : e.id = s.graphEdgeId)
    {key : List Char} (hk : db.HasKey rules e.sourceNodeId (workspaceId, key)) :
    s.workspaceId = workspaceId :=
  (h.edge_of_source he hs hid.symm).trans (h.edge_workspace he hk)

theorem WellFormed.tells_dropSources (h : db.WellFormed rules) (w d : Nat) (key : List Char)
    (f : EntityFact ν) :
    (db.dropSources workspaceId documentId).Tells rules w d key f ↔
      db.Tells rules w d key f ∧ ¬ (w = workspaceId ∧ d = documentId) := by
  constructor
  · rintro ⟨s, hs, rfl, hk, hf⟩
    obtain ⟨hs, hother⟩ := mem_dropSources_nodeSources.mp hs
    have hw : s.workspaceId = w := h.nodeSource_workspace hs hk
    exact ⟨⟨s, hs, rfl, hk, hf⟩, hw ▸ hother⟩
  · rintro ⟨⟨s, hs, rfl, hk, hf⟩, hother⟩
    have hw : s.workspaceId = w := h.nodeSource_workspace hs hk
    exact ⟨s, mem_dropSources_nodeSources.mpr ⟨hs, hw.symm ▸ hother⟩, rfl, hk, hf⟩

theorem WellFormed.relates_dropSources (h : db.WellFormed rules) (w d : Nat)
    (source target relationship : List Char) (f : RelationFact) :
    (db.dropSources workspaceId documentId).Relates rules w d source target relationship f ↔
      db.Relates rules w d source target relationship f ∧
        ¬ (w = workspaceId ∧ d = documentId) := by
  constructor
  · rintro ⟨s, hs, rfl, ⟨e, he, hid, hrel, hsource, htarget⟩, hf⟩
    obtain ⟨hs, hother⟩ := mem_dropSources_edgeSources.mp hs
    have hw : s.workspaceId = w := h.edgeSource_workspace hs he hid hsource
    exact ⟨⟨s, hs, rfl, ⟨e, he, hid, hrel, hsource, htarget⟩, hf⟩, hw ▸ hother⟩
  · rintro ⟨⟨s, hs, rfl, ⟨e, he, hid, hrel, hsource, htarget⟩, hf⟩, hother⟩
    have hw : s.workspaceId = w := h.edgeSource_workspace hs he hid hsource
    exact ⟨s, mem_dropSources_edgeSources.mpr ⟨hs, hw.symm ▸ hother⟩, rfl,
      ⟨e, he, hid, hrel, hsource, htarget⟩, hf⟩

theorem Refines.dropSources {ledger : Ledger rules ν} (h : db.Refines ledger)
    (workspaceId documentId : Nat) :
    (db.dropSources workspaceId documentId).Refines
      (ledger.setExtracted workspaceId documentId none) where
  wellFormed := h.wellFormed.dropSources workspaceId documentId
  spelling := h.spelling
  tells w d key f := by
    rw [h.wellFormed.tells_dropSources, h.tells, Ledger.tells_setExtracted_none]
  relates w d source target relationship f := by
    rw [h.wellFormed.relates_dropSources, h.relates, Ledger.relates_setExtracted_none]

end DropSources

section Untracked

theorem mem_edgeLabels_deleteUntracked {e : EdgeLabel} :
    e ∈ (deleteUntrackedGraphItems db workspaceId).edgeLabels ↔
      e ∈ db.edgeLabels ∧
        (e.workspaceId = workspaceId → ∃ s ∈ db.edgeSources, s.graphEdgeId = e.id) := by
  simp only [edgeLabels, deleteUntrackedGraphItems, List.mem_map, List.mem_filter]
  constructor
  · rintro ⟨row, ⟨hrow, hkept⟩, rfl⟩
    refine ⟨⟨row, hrow, rfl⟩, fun hws => ?_⟩
    have hws : row.workspaceId = workspaceId := hws
    simpa [hws, GraphEdge.label] using hkept
  · rintro ⟨⟨row, hrow, rfl⟩, hkept⟩
    refine ⟨row, ⟨hrow, ?_⟩, rfl⟩
    by_cases hws : row.workspaceId = workspaceId
    · simpa [hws, GraphEdge.label] using hkept hws
    · simp [hws]

theorem mem_nodeLabels_deleteUntracked {l : NodeLabel} :
    l ∈ (deleteUntrackedGraphItems db workspaceId).nodeLabels ↔
      l ∈ db.nodeLabels ∧ (l.workspaceId = workspaceId →
        (∃ s ∈ db.nodeSources, s.graphNodeId = l.id) ∨
          ∃ e ∈ (deleteUntrackedGraphItems db workspaceId).edgeLabels,
            e.sourceNodeId = l.id ∨ e.targetNodeId = l.id) := by
  have hends : ∀ id : Nat, (∃ e ∈ (deleteUntrackedGraphItems db workspaceId).edgeLabels,
      e.sourceNodeId = id ∨ e.targetNodeId = id) ↔
        (deleteUntrackedGraphItems db workspaceId).edges.any
          (fun e => e.sourceNodeId == id || e.targetNodeId == id) = true := by
    intro id
    simp [edgeLabels, GraphEdge.label]
  rw [hends]
  simp only [nodeLabels, List.mem_map]
  constructor
  · rintro ⟨row, hrow, rfl⟩
    obtain ⟨hrow, hkept⟩ := List.mem_filter.mp hrow
    refine ⟨⟨row, hrow, rfl⟩, fun hws => ?_⟩
    have hws : row.workspaceId = workspaceId := hws
    rw [hws, beq_self_eq_true, Bool.true_and, Bool.not_and, Bool.not_not, Bool.not_not,
      Bool.or_eq_true, List.any_eq_true] at hkept
    exact hkept.imp_left fun ⟨s, hs, hid⟩ => ⟨s, hs, beq_iff_eq.mp hid⟩
  · rintro ⟨⟨row, hrow, rfl⟩, hkept⟩
    refine ⟨row, List.mem_filter.mpr ⟨hrow, ?_⟩, rfl⟩
    by_cases hws : row.workspaceId = workspaceId
    · rw [hws, beq_self_eq_true, Bool.true_and, Bool.not_and, Bool.not_not, Bool.not_not,
        Bool.or_eq_true, List.any_eq_true]
      exact (hkept hws).imp_left fun ⟨s, hs, hid⟩ => ⟨s, hs, beq_iff_eq.mpr hid⟩
    · simp [hws]

theorem within_deleteUntracked (db : Database ν) (workspaceId : Nat) :
    (deleteUntrackedGraphItems db workspaceId).Within db :=
  ⟨fun _ h => (mem_nodeLabels_deleteUntracked.mp h).1,
    fun _ h => (mem_edgeLabels_deleteUntracked.mp h).1⟩

theorem WellFormed.deleteUntracked (h : db.WellFormed rules) (workspaceId : Nat) :
    (deleteUntrackedGraphItems db workspaceId).WellFormed rules := by
  have hin := within_deleteUntracked db workspaceId
  have hnodes : (deleteUntrackedGraphItems db workspaceId).nodeLabels.Sublist db.nodeLabels :=
    List.filter_sublist.map _
  have hedges : (deleteUntrackedGraphItems db workspaceId).edgeLabels.Sublist db.edgeLabels :=
    List.filter_sublist.map _
  refine
    { nodeIds := h.nodeIds.sublist (hnodes.map _)
      nodeKeys := h.nodeKeys.sublist (hnodes.map _)
      edgeIds := h.edgeIds.sublist (hedges.map _)
      edgeKeys := h.edgeKeys.sublist (hedges.map _)
      nodeSourceKeys := h.nodeSourceKeys
      edgeSourceKeys := h.edgeSourceKeys
      nodeBound := fun l hl => h.nodeBound l (hin.nodes hl)
      edgeBound := fun e he => h.edgeBound e (hin.edges he)
      sourceEnd := fun e he => ?_
      targetEnd := fun e he => ?_
      nodeOfSource := fun s hs => ?_
      edgeOfSource := fun s hs => ?_ }
  · obtain ⟨l, hl, hid, hws⟩ := h.sourceEnd e (hin.edges he)
    exact ⟨l, mem_nodeLabels_deleteUntracked.mpr
      ⟨hl, fun _ => .inr ⟨e, he, .inl hid.symm⟩⟩, hid, hws⟩
  · obtain ⟨l, hl, hid, hws⟩ := h.targetEnd e (hin.edges he)
    exact ⟨l, mem_nodeLabels_deleteUntracked.mpr
      ⟨hl, fun _ => .inr ⟨e, he, .inr hid.symm⟩⟩, hid, hws⟩
  · obtain ⟨l, hl, hid, hws⟩ := h.nodeOfSource s hs
    exact ⟨l, mem_nodeLabels_deleteUntracked.mpr
      ⟨hl, fun _ => .inl ⟨s, hs, hid.symm⟩⟩, hid, hws⟩
  · obtain ⟨e, he, hid, hws⟩ := h.edgeOfSource s hs
    exact ⟨e, mem_edgeLabels_deleteUntracked.mpr ⟨he, fun _ => ⟨s, hs, hid.symm⟩⟩, hid, hws⟩

/-- An edge that stays has a source, whose document tells something of both its ends. -/
theorem Refines.named_of_end {ledger : Ledger rules ν} (h : db.Refines ledger) {e : EdgeLabel}
    (he : e ∈ (deleteUntrackedGraphItems db workspaceId).edgeLabels) {l : NodeLabel}
    (hl : l ∈ db.nodeLabels) (hend : e.sourceNodeId = l.id ∨ e.targetNodeId = l.id)
    (hws : l.workspaceId = workspaceId) :
    ledger.Named workspaceId (rules.lower l.name) := by
  obtain ⟨he, htracked⟩ := mem_edgeLabels_deleteUntracked.mp he
  obtain ⟨a, ha, haid, haws⟩ := h.wellFormed.sourceEnd e he
  obtain ⟨b, hb, hbid, hbws⟩ := h.wellFormed.targetEnd e he
  have hedge : e.workspaceId = workspaceId := by
    rcases hend with hend | hend
    · cases h.wellFormed.node_eq_of_id ha hl (haid.trans hend)
      exact haws.symm.trans hws
    · cases h.wellFormed.node_eq_of_id hb hl (hbid.trans hend)
      exact hbws.symm.trans hws
  obtain ⟨s, hs, hsid⟩ := htracked hedge
  have hrelates : db.Relates rules workspaceId s.documentId (rules.lower a.name)
      (rules.lower b.name) (rules.lower e.relationship) s.fact :=
    ⟨s, hs, rfl, ⟨e, he, hsid.symm, rfl,
      ⟨a, ha, haid, Prod.ext (haws.trans hedge) rfl⟩,
      ⟨b, hb, hbid, Prod.ext (hbws.trans hedge) rfl⟩⟩, rfl⟩
  obtain ⟨batch, hbatch, hbatchRelates⟩ := (h.relates _ _ _ _ _ _).mp hrelates
  obtain ⟨⟨f, hf⟩, g, hg⟩ := hbatchRelates.ends
  rcases hend with hend | hend
  · cases h.wellFormed.node_eq_of_id ha hl (haid.trans hend)
    exact ⟨s.documentId, f, batch, hbatch, hf⟩
  · cases h.wellFormed.node_eq_of_id hb hl (hbid.trans hend)
    exact ⟨s.documentId, g, batch, hbatch, hg⟩

/-- The rows of a workspace that stay are those of the entities that a document names. -/
theorem Refines.mem_deleteUntracked_iff {ledger : Ledger rules ν} (h : db.Refines ledger)
    {l : NodeLabel} (hl : l ∈ db.nodeLabels) :
    l ∈ (deleteUntrackedGraphItems db workspaceId).nodeLabels ↔
      (l.workspaceId = workspaceId → ledger.Named l.workspaceId (rules.lower l.name)) := by
  constructor
  · intro hkept hws
    rw [hws]
    rcases (mem_nodeLabels_deleteUntracked.mp hkept).2 hws with ⟨s, hs, hid⟩ | ⟨e, he, hend⟩
    · exact ⟨s.documentId, s.fact, (h.tells _ _ _ _).mp
        ⟨s, hs, rfl, ⟨l, hl, hid.symm, Prod.ext hws rfl⟩, rfl⟩⟩
    · exact h.named_of_end he hl hend hws
  · intro hnamed
    refine mem_nodeLabels_deleteUntracked.mpr ⟨hl, fun hws => .inl ?_⟩
    obtain ⟨d, f, htells⟩ := hnamed hws
    obtain ⟨s, hs, -, hk, -⟩ := (h.tells _ _ _ _).mpr htells
    exact ⟨s, hs, h.wellFormed.id_unique hk ⟨l, hl, rfl, rfl⟩⟩

theorem Refines.deleteUntracked {ledger : Ledger rules ν} (h : db.Refines ledger)
    (workspaceId : Nat) :
    (deleteUntrackedGraphItems db workspaceId).Refines (ledger.sweep workspaceId) where
  wellFormed := h.wellFormed.deleteUntracked workspaceId
  spelling w key name := by
    rw [Ledger.sweep_spelling_eq_some, h.spelling]
    constructor
    · rintro ⟨hnamed, l, hl, hkey, hname⟩
      obtain ⟨rfl, rfl⟩ := Prod.ext_iff.mp hkey
      exact ⟨l, (h.mem_deleteUntracked_iff hl).mpr hnamed, hkey, hname⟩
    · rintro ⟨l, hl, hkey, hname⟩
      obtain ⟨rfl, rfl⟩ := Prod.ext_iff.mp hkey
      have hold := (mem_nodeLabels_deleteUntracked.mp hl).1
      exact ⟨(h.mem_deleteUntracked_iff hold).mp hl, l, hold, hkey, hname⟩
  tells w d key f :=
    ((within_deleteUntracked db workspaceId).tells_iff (h.wellFormed.deleteUntracked workspaceId)
      h.wellFormed rfl key f).symm.trans (h.tells w d key f)
  relates w d source target relationship f :=
    ((within_deleteUntracked db workspaceId).relates_iff
      (h.wellFormed.deleteUntracked workspaceId) h.wellFormed rfl source target relationship
      f).symm.trans (h.relates w d source target relationship f)

end Untracked

end Database

end GmragApi.Graph

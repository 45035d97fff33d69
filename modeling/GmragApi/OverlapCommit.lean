import GmragApi.OverlapTables

/-! When a transaction commits, the tables take what it wrote as if it had run alone. -/

namespace GmragApi.Graph

variable {ν : Type} {rules : TextRules}

namespace Write

/-- The upsert of the batch gives back the row of the key. -/
def Returns (write : Write rules ν) (key : List Char) : Prop :=
  ∃ m ∈ write.nodes, rules.lower m.name = key

def Tells (write : Write rules ν) (key : List Char) (f : EntityFact ν) : Prop :=
  write.Returns key ∧ ∃ n ∈ write.nodes, normalizeKey rules n.name = key ∧ n.fact = f

def Relates (write : Write rules ν) (source target relationship : List Char)
    (f : RelationFact) : Prop :=
  write.Returns source ∧ write.Returns target ∧
    ∃ e ∈ write.edges, normalizeKey rules e.source = source ∧
      normalizeKey rules e.target = target ∧ rules.lower e.relationship = relationship ∧
      e.fact = f

end Write

namespace Ledger

variable {ledger : Ledger rules ν} {write : Write rules ν} {w d : Nat}

theorem tells_write (key : List Char) (f : EntityFact ν) :
    (ledger.write write).Tells w d key f ↔
      (ledger.Tells w d key f ∧ ¬ write.Owns w d) ∨ (write.Owns w d ∧ write.Tells key f) := by
  cases write with
  | ingest workspaceId documentId batch =>
    have hnone : (((ledger.setExtracted workspaceId documentId none).sweep workspaceId).spell
        workspaceId batch).extracted workspaceId documentId = none := if_pos ⟨rfl, rfl⟩
    refine (tells_setExtracted_some hnone key f).trans (or_congr ?_ Iff.rfl)
    exact tells_setExtracted_none key f
  | delete workspaceId documentId =>
    refine (tells_setExtracted_none key f).trans (Iff.symm (or_iff_left ?_))
    rintro ⟨-, ⟨m, hm, -⟩, -⟩
    exact List.not_mem_nil hm

theorem relates_write (source target relationship : List Char) (f : RelationFact) :
    (ledger.write write).Relates w d source target relationship f ↔
      (ledger.Relates w d source target relationship f ∧ ¬ write.Owns w d) ∨
        (write.Owns w d ∧ write.Relates source target relationship f) := by
  cases write with
  | ingest workspaceId documentId batch =>
    have hnone : (((ledger.setExtracted workspaceId documentId none).sweep workspaceId).spell
        workspaceId batch).extracted workspaceId documentId = none := if_pos ⟨rfl, rfl⟩
    refine (relates_setExtracted_some hnone source target relationship f).trans
      (or_congr ?_ Iff.rfl)
    exact relates_setExtracted_none source target relationship f
  | delete workspaceId documentId =>
    refine (relates_setExtracted_none source target relationship f).trans
      (Iff.symm (or_iff_left ?_))
    rintro ⟨-, ⟨m, hm, -⟩, -⟩
    exact List.not_mem_nil hm

/-- Some other document of the workspace names the entity. -/
def NamedByOther (ledger : Ledger rules ν) (write : Write rules ν) (key : List Char) : Prop :=
  ∃ d f, ledger.Tells write.workspaceId d key f ∧ d ≠ write.documentId

theorem spelled_write (key : List Char) :
    (∃ name, (ledger.write write).spelling w key = some name) ↔
      ((∃ name, ledger.spelling w key = some name) ∧
        (w = write.workspaceId → ledger.NamedByOther write key)) ∨
        (w = write.workspaceId ∧ write.Returns key) := by
  have hnamed : (ledger.setExtracted write.workspaceId write.documentId none).Named
      write.workspaceId key ↔ ledger.NamedByOther write key := by
    simp only [Named, tells_setExtracted_none, NamedByOther, true_and, ne_eq]
  have hswept : (∃ name, ((ledger.setExtracted write.workspaceId write.documentId none).sweep
      write.workspaceId).spelling w key = some name) ↔
        ((∃ name, ledger.spelling w key = some name) ∧
          (w = write.workspaceId → ledger.NamedByOther write key)) := by
    simp only [sweep_spelling_eq_some]
    constructor
    · rintro ⟨name, hkept, hname⟩
      exact ⟨⟨name, hname⟩, fun hw => hnamed.mp (hw ▸ hkept hw)⟩
    · rintro ⟨⟨name, hname⟩, hkept⟩
      exact ⟨name, fun hw => hw ▸ hnamed.mpr (hkept hw), hname⟩
  cases write with
  | ingest workspaceId documentId batch =>
    have hreturns : (∃ name, batch.spelling key = some name) ↔ batch.Returns key := by
      rw [← Option.isSome_iff_exists, GraphWriteBatch.spelling, Option.isSome_map,
        List.find?_isSome]
      simp only [decide_eq_true_eq]
      exact Iff.rfl
    rw [← hswept]
    change (∃ name, (((ledger.setExtracted workspaceId documentId none).sweep workspaceId).spell
      workspaceId batch).spelling w key = some name) ↔ _
    simp only [spell_spelling_eq_some]
    constructor
    · rintro ⟨name, hold | ⟨-, hw, hnew⟩⟩
      · exact .inl ⟨name, hold⟩
      · exact .inr ⟨hw, hreturns.mp ⟨name, hnew⟩⟩
    · rintro (⟨name, hold⟩ | ⟨hw, hkey⟩)
      · exact ⟨name, .inl hold⟩
      · obtain ⟨name, hnew⟩ := hreturns.mpr hkey
        cases hspelling : ((ledger.setExtracted workspaceId documentId none).sweep
            workspaceId).spelling w key with
        | none => exact ⟨name, .inr ⟨rfl, hw, hnew⟩⟩
        | some old => exact ⟨old, .inl rfl⟩
  | delete workspaceId documentId =>
    rw [← hswept]
    refine (or_iff_left ?_).symm
    rintro ⟨-, m, hm, -⟩
    exact List.not_mem_nil hm

end Ledger

namespace Overlap

namespace Transaction

variable {t : Transaction rules ν} {db : Database ν} {ledger : Ledger rules ν}

section Complete

theorem complete_todo (h : t.complete = true) : t.todo = [] ∧ t.NodesDone ∧ t.EdgesDone := by
  simp only [complete, Bool.and_eq_true, List.isEmpty_iff] at h
  have hrows := finished_rows h.2
  exact ⟨h.1, ⟨h.1 ▸ List.not_mem_nil, hrows.1⟩, h.1 ▸ List.not_mem_nil, hrows.2⟩

theorem RowProgress.nodes_complete (h : t.RowProgress) (hcomplete : t.complete = true) :
    t.changes.nodes.written.map (GraphNode.key rules) = t.write.nodes.map t.write.nodeKey := by
  obtain ⟨-, hdone, -⟩ := complete_todo hcomplete
  have hnodes := h.nodes
  rwa [nodesLeft, if_neg hdone.1, hdone.2, List.map_nil, List.append_nil] at hnodes

theorem RowProgress.edges_complete (h : t.RowProgress) (hcomplete : t.complete = true) :
    t.changes.edges.written.map (GraphEdge.key rules) = t.resolved.map t.write.edgeKey := by
  obtain ⟨htodo, -, hdone⟩ := complete_todo hcomplete
  rcases h.edges with ⟨hmem, -⟩ | ⟨-, -, heq⟩
  · exact absurd hmem hdone.1
  · rwa [hdone.2, List.map_nil, List.append_nil] at heq

/-- Each name of the batch has its id. -/
theorem RowProgress.lookup_of_returns (h : t.RowProgress) (hcomplete : t.complete = true)
    {key : List Char} (hkey : t.write.Returns key) : ∃ id, t.nodeIds.lookup key = some id := by
  obtain ⟨m, hm, rfl⟩ := hkey
  have hmem : t.write.nodeKey m ∈ t.changes.nodes.written.map (GraphNode.key rules) :=
    h.nodes_complete hcomplete ▸ List.mem_map_of_mem hm
  obtain ⟨r, hr, heq⟩ := List.mem_map.mp hmem
  refine Option.ne_none_iff_exists'.mp fun hnone => ?_
  have hne := List.lookup_eq_none_iff.mp hnone (rules.lower r.entityName, r.id)
    (List.mem_map_of_mem hr)
  have hlower : rules.lower r.entityName = rules.lower m.name := congrArg Prod.snd heq
  simp [hlower] at hne

theorem RowProgress.returns_of_written (h : t.RowProgress) (hcomplete : t.complete = true)
    {r : GraphNode ν} (hr : r ∈ t.changes.nodes.written) :
    t.write.Returns (rules.lower r.entityName) := by
  have hmem : r.key rules ∈ t.write.nodes.map t.write.nodeKey :=
    h.nodes_complete hcomplete ▸ List.mem_map_of_mem hr
  obtain ⟨m, hm, heq⟩ := List.mem_map.mp hmem
  exact ⟨m, hm, congrArg Prod.snd heq⟩

theorem SourceProgress.nodes_complete (h : t.SourceProgress) (hcomplete : t.complete = true) :
    t.changes.nodeSources.written = Database.newNodeSources rules t.write.workspaceId
      t.write.documentId t.nodeIds t.write.nodes := by
  rcases h.nodes with ⟨hmem, -⟩ | ⟨-, -, heq⟩
  · rw [(complete_todo hcomplete).1] at hmem
    exact absurd hmem List.not_mem_nil
  · exact heq

theorem SourceProgress.edges_complete (h : t.SourceProgress) (hcomplete : t.complete = true)
    {s : EdgeSource} : s ∈ t.changes.edgeSources.written ↔
      ∃ e ∈ t.resolved, ∃ row ∈ t.changes.edges.written, row.key rules = t.write.edgeKey e ∧
        s = ⟨row.id, t.write.documentId, t.write.workspaceId, e.2.2.relationship,
          e.2.2.description⟩ := by
  rcases h.edges with ⟨hmem, -⟩ | ⟨-, -, -, hiff⟩
  · rw [(complete_todo hcomplete).1] at hmem
    exact absurd hmem List.not_mem_nil
  · exact hiff s

end Complete

section Sources

/-- After the commit a document has the sources of its batch, and the others have theirs. -/
theorem Sound.mem_nodeSources (h : t.Sound db) (hwf : db.WellFormed rules)
    (hcomplete : t.complete = true) {r : NodeSource ν} :
    r ∈ (t.changes.apply db).nodeSources ↔
      (r ∈ db.nodeSources ∧ ¬ t.write.Owns r.workspaceId r.documentId) ∨
        r ∈ t.changes.nodeSources.written := by
  refine TableChanges.mem_apply.trans (or_congr_left (and_congr_right fun hr => ?_))
  constructor
  · intro hspares hown
    rcases h.gone.nodes with hmem | hgone
    · rw [(complete_todo hcomplete).1] at hmem
      exact List.not_mem_nil hmem
    · exact hgone r hr hown hspares
  · intro hother x hx heq
    obtain ⟨hown, hnode⟩ := h.gone.nodesOwn x hx
    obtain ⟨l, hl, hid, hws⟩ := hwf.nodeOfSource r hr
    obtain ⟨n, hn, rfl⟩ := List.mem_map.mp hl
    have hws' := hnode n hn (hid.trans (congrArg Prod.fst heq).symm)
    exact hother ⟨hws.symm.trans hws', (congrArg Prod.snd heq).symm.trans hown.2⟩

theorem Sound.mem_edgeSources (h : t.Sound db) (hwf : db.WellFormed rules)
    (hcomplete : t.complete = true) {r : EdgeSource} :
    r ∈ (t.changes.apply db).edgeSources ↔
      (r ∈ db.edgeSources ∧ ¬ t.write.Owns r.workspaceId r.documentId) ∨
        r ∈ t.changes.edgeSources.written := by
  refine TableChanges.mem_apply.trans (or_congr_left (and_congr_right fun hr => ?_))
  constructor
  · intro hspares hown
    rcases h.gone.edges with hmem | hgone
    · rw [(complete_todo hcomplete).1] at hmem
      exact List.not_mem_nil hmem
    · exact hgone r hr hown hspares
  · intro hother x hx heq
    obtain ⟨hown, hedge⟩ := h.gone.edgesOwn x hx
    obtain ⟨l, hl, hid, hws⟩ := hwf.edgeOfSource r hr
    obtain ⟨e, he, rfl⟩ := List.mem_map.mp hl
    have hws' := hedge e he (hid.trans (congrArg Prod.fst heq).symm)
    exact hother ⟨hws.symm.trans hws', (congrArg Prod.snd heq).symm.trans hown.2⟩

end Sources

section Labels

/-- The rows of the workspace that are left are those that another document backs, and those that
the transaction wrote. -/
theorem Sound.mem_nodeLabels (h : t.Sound db) (hsweeps : t.Sweeps db) {l : NodeLabel} :
    l ∈ (t.changes.apply db).nodeLabels ↔
      (l ∈ db.nodeLabels ∧ (l.workspaceId = t.write.workspaceId → t.write.NodeBacked db l.id)) ∨
        ∃ r ∈ t.changes.nodes.written, r.label = l := by
  refine h.fit.nodes.mem_map_apply
    (fun l => l.workspaceId = t.write.workspaceId → t.write.NodeBacked db l.id)
    (fun n hn hspares hws => ?_) fun r hr hkept => ?_
  · refine (hsweeps.nodes n hn hws).resolve_right ?_
    rintro ⟨r, hr, hid⟩
    exact hspares r hr hid
  · have hws := h.fit.nodeWorkspace r (TableChanges.mem_rows.mpr (.inl hr))
    exact h.unbacked.nodes r hr (hkept hws)

theorem Sound.mem_edgeLabels (h : t.Sound db) (hsweeps : t.Sweeps db) {l : EdgeLabel} :
    l ∈ (t.changes.apply db).edgeLabels ↔
      (l ∈ db.edgeLabels ∧ (l.workspaceId = t.write.workspaceId → t.write.EdgeBacked db l.id)) ∨
        ∃ r ∈ t.changes.edges.written, r.label = l := by
  refine h.fit.edges.mem_map_apply
    (fun l => l.workspaceId = t.write.workspaceId → t.write.EdgeBacked db l.id)
    (fun e he hspares hws => ?_) fun r hr hkept => ?_
  · refine (hsweeps.edges e he hws).resolve_right ?_
    rintro ⟨r, hr, hid⟩
    exact hspares r hr hid
  · have hws := h.fit.edgeWorkspace r (TableChanges.mem_rows.mpr (.inl hr))
    exact h.unbacked.edges r hr (hkept hws)

end Labels

/-- A transaction that can commit, and has swept what only its document backs. -/
structure Commits (t : Transaction rules ν) (db : Database ν) (ledger : Ledger rules ν) :
    Prop where
  sound : t.Sound db
  reflects : db.Reflects ledger
  complete : t.complete = true
  sweeps : t.Sweeps db

namespace Commits

theorem node_kept (h : t.Commits db ledger) {r : NodeSource ν} (hr : r ∈ db.nodeSources)
    (hother : ¬ t.write.Owns r.workspaceId r.documentId) {l : NodeLabel} (hl : l ∈ db.nodeLabels)
    (hid : l.id = r.graphNodeId) : l ∈ (t.changes.apply db).nodeLabels :=
  (h.sound.mem_nodeLabels h.sweeps).mpr (.inl ⟨hl, fun _ => ⟨r, hr, hid.symm, hother⟩⟩)

theorem edge_kept (h : t.Commits db ledger) {r : EdgeSource} (hr : r ∈ db.edgeSources)
    (hother : ¬ t.write.Owns r.workspaceId r.documentId) {l : EdgeLabel} (hl : l ∈ db.edgeLabels)
    (hid : l.id = r.graphEdgeId) : l ∈ (t.changes.apply db).edgeLabels :=
  (h.sound.mem_edgeLabels h.sweeps).mpr (.inl ⟨hl, fun _ => ⟨r, hr, hid.symm, hother⟩⟩)

/-- The ends of an edge that is left are left. -/
theorem end_kept (h : t.Commits db ledger) {e : EdgeLabel} (he : e ∈ db.edgeLabels)
    (hkept : e.workspaceId = t.write.workspaceId → t.write.EdgeBacked db e.id) {l : NodeLabel}
    (hl : l ∈ db.nodeLabels) (hend : e.sourceNodeId = l.id ∨ e.targetNodeId = l.id) :
    l ∈ (t.changes.apply db).nodeLabels := by
  refine (h.sound.mem_nodeLabels h.sweeps).mpr (.inl ⟨hl, fun hws => ?_⟩)
  obtain ⟨edge, hedge, rfl⟩ := List.mem_map.mp he
  have hsame := h.reflects.wellFormed.end_workspace he hl hend
  obtain ⟨r, hr, hid, hother⟩ := hkept (hsame.trans hws)
  obtain ⟨r', hr', hid', hdoc, hws'⟩ := h.reflects.source_of_end hedge hr hid hend
  exact ⟨r', hr', hid', by rwa [hdoc, hws']⟩

theorem written_label (h : t.Commits db ledger) {r : GraphNode ν}
    (hr : r ∈ t.changes.nodes.written) : r.label ∈ (t.changes.apply db).nodeLabels :=
  (h.sound.mem_nodeLabels h.sweeps).mpr (.inr ⟨r, hr, rfl⟩)

theorem written_edgeLabel (h : t.Commits db ledger) {r : GraphEdge}
    (hr : r ∈ t.changes.edges.written) : r.label ∈ (t.changes.apply db).edgeLabels :=
  (h.sound.mem_edgeLabels h.sweeps).mpr (.inr ⟨r, hr, rfl⟩)

/-- An end of an edge that is left or written has its row. -/
theorem end_exists (h : t.Commits db ledger) {e : EdgeLabel}
    (he : e ∈ (t.changes.apply db).edgeLabels) {id : Nat}
    (hold : e ∈ db.edgeLabels → ∃ l ∈ db.nodeLabels, l.id = id ∧ l.workspaceId = e.workspaceId)
    (hend : e.sourceNodeId = id ∨ e.targetNodeId = id)
    (hnew : ∀ r ∈ t.changes.edges.written, r.label = e →
      ∃ n ∈ t.changes.nodes.written, n.id = id) :
    ∃ l ∈ (t.changes.apply db).nodeLabels, l.id = id ∧ l.workspaceId = e.workspaceId := by
  rcases (h.sound.mem_edgeLabels h.sweeps).mp he with ⟨he, hkept⟩ | ⟨r, hr, rfl⟩
  · obtain ⟨l, hl, hid, hws⟩ := hold he
    exact ⟨l, h.end_kept he hkept hl (by rwa [hid]), hid, hws⟩
  · obtain ⟨n, hn, hid⟩ := hnew r hr rfl
    refine ⟨n.label, h.written_label hn, hid, ?_⟩
    exact (h.sound.fit.written_workspace hn).trans (h.sound.fit.written_edge_workspace hr).symm

theorem wellFormed (h : t.Commits db ledger) : (t.changes.apply db).WellFormed rules := by
  have hwf := h.reflects.wellFormed
  have hfit := h.sound.fit
  refine
    { nodeIds := by
        rw [Database.nodeLabels, List.map_map]
        exact hfit.nodes.apply_ids hwf.nodeRowIds
      nodeKeys := by
        rw [Database.nodeLabels, List.map_map]
        exact hfit.nodes.apply_keys hwf.nodeRowKeys
      edgeIds := by
        rw [Database.edgeLabels, List.map_map]
        exact hfit.edges.apply_ids hwf.edgeRowIds
      edgeKeys := by
        rw [Database.edgeLabels, List.map_map]
        exact hfit.edges.apply_keys hwf.edgeRowKeys
      nodeSourceKeys := TableChanges.map_apply_nodup hwf.nodeSourceKeys h.sound.sources.nodeKeys
        fun r hr _ _ heq hspares => hspares r (TableChanges.mem_rows_of_written hr) heq.symm
      edgeSourceKeys := TableChanges.map_apply_nodup hwf.edgeSourceKeys h.sound.sources.edgeKeys
        fun r hr _ _ heq hspares => hspares r (TableChanges.mem_rows_of_written hr) heq.symm
      nodeBound := fun l hl => ?_
      edgeBound := fun e he => ?_
      sourceEnd := fun e he => ?_
      targetEnd := fun e he => ?_
      nodeOfSource := fun s hs => ?_
      edgeOfSource := fun s hs => ?_ }
  · rcases (h.sound.mem_nodeLabels h.sweeps).mp hl with ⟨hl, -⟩ | ⟨r, hr, rfl⟩
    · exact hwf.nodeBound l hl
    · exact hfit.nodeBound r (TableChanges.mem_rows_of_written hr)
  · rcases (h.sound.mem_edgeLabels h.sweeps).mp he with ⟨he, -⟩ | ⟨r, hr, rfl⟩
    · exact hwf.edgeBound e he
    · exact hfit.edgeBound r (TableChanges.mem_rows_of_written hr)
  · refine h.end_exists he (hwf.sourceEnd e) (.inl rfl) fun r hr heq => ?_
    rw [← heq]
    exact (h.sound.rows.end_written hr).1
  · refine h.end_exists he (hwf.targetEnd e) (.inr rfl) fun r hr heq => ?_
    rw [← heq]
    exact (h.sound.rows.end_written hr).2
  · rcases (h.sound.mem_nodeSources hwf h.complete).mp hs with ⟨hs, hother⟩ | hs
    · obtain ⟨l, hl, hid, hws⟩ := hwf.nodeOfSource s hs
      exact ⟨l, h.node_kept hs hother hl hid, hid, hws⟩
    · obtain ⟨⟨n, hn, hid⟩, hown⟩ := h.sound.sources.node_of_source hs
      refine ⟨n.label, h.written_label hn, hid, ?_⟩
      exact (hfit.written_workspace hn).trans hown.1.symm
  · rcases (h.sound.mem_edgeSources hwf h.complete).mp hs with ⟨hs, hother⟩ | hs
    · obtain ⟨e, he, hid, hws⟩ := hwf.edgeOfSource s hs
      exact ⟨e, h.edge_kept hs hother he hid, hid, hws⟩
    · obtain ⟨⟨e, he, hid⟩, hown⟩ := h.sound.sources.edge_of_source hs
      refine ⟨e.label, h.written_edgeLabel he, hid, ?_⟩
      exact (hfit.written_edge_workspace he).trans hown.1.symm

/-- Each edge that is left has a source that is left, and each written one has its own. -/
theorem backed (h : t.Commits db ledger) : (t.changes.apply db).EdgesBacked := by
  have hwf := h.reflects.wellFormed
  intro e he
  rcases (h.sound.mem_edgeLabels h.sweeps).mp he with ⟨he, hkept⟩ | ⟨r, hr, rfl⟩
  · have hother : ∃ s ∈ db.edgeSources, s.graphEdgeId = e.id ∧
        ¬ t.write.Owns s.workspaceId s.documentId := by
      by_cases hws : e.workspaceId = t.write.workspaceId
      · exact hkept hws
      · obtain ⟨s, hs, hid⟩ := h.reflects.backed e he
        refine ⟨s, hs, hid, fun hown => hws ?_⟩
        exact (hwf.edge_of_source he hs hid).symm.trans hown.1
    obtain ⟨s, hs, hid, hother⟩ := hother
    exact ⟨s, (h.sound.mem_edgeSources hwf h.complete).mpr (.inl ⟨hs, hother⟩), hid⟩
  · have hkey : r.key rules ∈ t.resolved.map t.write.edgeKey :=
      h.sound.rows.edges_complete h.complete ▸ List.mem_map_of_mem hr
    obtain ⟨input, hinput, heq⟩ := List.mem_map.mp hkey
    refine ⟨⟨r.id, t.write.documentId, t.write.workspaceId, input.2.2.relationship,
      input.2.2.description⟩, (h.sound.mem_edgeSources hwf h.complete).mpr (.inr ?_), rfl⟩
    exact (h.sound.sources.edges_complete h.complete).mpr ⟨input, hinput, r, hr, heq.symm, rfl⟩

theorem backed_iff (h : t.Commits db ledger) {l : NodeLabel} (hl : l ∈ db.nodeLabels)
    {key : List Char} (hkey : l.key rules = (t.write.workspaceId, key)) :
    t.write.NodeBacked db l.id ↔ ledger.NamedByOther t.write key := by
  have hwf := h.reflects.wellFormed
  constructor
  · rintro ⟨s, hs, hid, hother⟩
    have hk : db.HasKey rules s.graphNodeId (t.write.workspaceId, key) := ⟨l, hl, hid.symm, hkey⟩
    have hws := hwf.nodeSource_workspace hs hk
    exact ⟨s.documentId, s.fact, (h.reflects.tells _ _ _ _).mp ⟨s, hs, rfl, hk, rfl⟩,
      fun hdoc => hother ⟨hws, hdoc⟩⟩
  · rintro ⟨d, f, htells, hdoc⟩
    obtain ⟨s, hs, rfl, hk, -⟩ := (h.reflects.tells _ _ _ _).mpr htells
    exact ⟨s, hs, hwf.id_unique hk ⟨l, hl, rfl, hkey⟩, fun hown => hdoc hown.2⟩

theorem nodes (h : t.Commits db ledger) (w : Nat) (key : List Char) :
    (∃ name, (ledger.write t.write).spelling w key = some name) ↔
      ∃ l ∈ (t.changes.apply db).nodeLabels, l.key rules = (w, key) := by
  rw [Ledger.spelled_write, h.reflects.nodes]
  constructor
  · rintro (⟨⟨l, hl, hkey⟩, hnamed⟩ | ⟨rfl, hreturns⟩)
    · refine ⟨l, (h.sound.mem_nodeLabels h.sweeps).mpr (.inl ⟨hl, fun hws => ?_⟩), hkey⟩
      have hw : w = t.write.workspaceId := (congrArg Prod.fst hkey).symm.trans hws
      exact (h.backed_iff hl (hw ▸ hkey)).mpr (hnamed hw)
    · obtain ⟨id, hid⟩ := h.sound.rows.lookup_of_returns h.complete hreturns
      obtain ⟨r, hr, hname, -⟩ := mem_nodeIds hid
      refine ⟨r.label, h.written_label hr, Prod.ext ?_ hname⟩
      exact h.sound.fit.written_workspace hr
  · rintro ⟨l, hl, hkey⟩
    rcases (h.sound.mem_nodeLabels h.sweeps).mp hl with ⟨hl, hkept⟩ | ⟨r, hr, rfl⟩
    · refine .inl ⟨⟨l, hl, hkey⟩, fun hw => ?_⟩
      exact (h.backed_iff hl (hw ▸ hkey)).mp (hkept ((congrArg Prod.fst hkey).trans hw))
    · have hws : r.workspaceId = w := congrArg Prod.fst hkey
      have hname : rules.lower r.entityName = key := congrArg Prod.snd hkey
      refine .inr ⟨?_, hname ▸ h.sound.rows.returns_of_written h.complete hr⟩
      exact hws.symm.trans (h.sound.fit.written_workspace hr)

theorem hasKey_iff (h : t.Commits db ledger) {l : NodeLabel} (hl : l ∈ db.nodeLabels)
    (hl' : l ∈ (t.changes.apply db).nodeLabels) {key : Nat × List Char} :
    (t.changes.apply db).HasKey rules l.id key ↔ db.HasKey rules l.id key := by
  constructor
  · intro hk
    exact h.wellFormed.key_unique hk ⟨l, hl', rfl, rfl⟩ ▸ ⟨l, hl, rfl, rfl⟩
  · intro hk
    exact h.reflects.wellFormed.key_unique hk ⟨l, hl, rfl, rfl⟩ ▸ ⟨l, hl', rfl, rfl⟩

/-- The row of a name of the batch. -/
theorem hasKey_lookup (h : t.Commits db ledger) {key : List Char} {id : Nat}
    (hid : t.nodeIds.lookup key = some id) :
    (t.changes.apply db).HasKey rules id (t.write.workspaceId, key) ∧ t.write.Returns key := by
  obtain ⟨r, hr, rfl, rfl⟩ := mem_nodeIds hid
  refine ⟨⟨r.label, h.written_label hr, rfl, Prod.ext ?_ rfl⟩,
    h.sound.rows.returns_of_written h.complete hr⟩
  exact h.sound.fit.written_workspace hr

theorem tells (h : t.Commits db ledger) (w d : Nat) (key : List Char) (f : EntityFact ν) :
    (t.changes.apply db).Tells rules w d key f ↔ (ledger.write t.write).Tells w d key f := by
  have hwf := h.reflects.wellFormed
  rw [Ledger.tells_write, ← h.reflects.tells]
  constructor
  · rintro ⟨s, hs, rfl, hk, rfl⟩
    rcases (h.sound.mem_nodeSources hwf h.complete).mp hs with ⟨hs, hother⟩ | hs
    · obtain ⟨l, hl, hid, -⟩ := hwf.nodeOfSource s hs
      rw [← hid, h.hasKey_iff hl (h.node_kept hs hother hl hid), hid] at hk
      have hw := hwf.nodeSource_workspace hs hk
      exact .inl ⟨⟨s, hs, rfl, hk, rfl⟩, hw ▸ hother⟩
    · rw [h.sound.sources.nodes_complete h.complete] at hs
      obtain ⟨n, hn, hlookup, hdoc, -, hfact⟩ := Database.mem_newNodeSources.mp hs
      obtain ⟨hk', hreturns⟩ := h.hasKey_lookup hlookup
      cases h.wellFormed.key_unique hk hk'
      exact .inr ⟨⟨rfl, hdoc⟩, hreturns, n, hn, rfl, hfact.symm⟩
  · rintro (⟨⟨s, hs, rfl, hk, rfl⟩, hother⟩ | ⟨⟨rfl, rfl⟩, hreturns, n, hn, rfl, rfl⟩)
    · have hw := hwf.nodeSource_workspace hs hk
      obtain ⟨l, hl, hid, -⟩ := hwf.nodeOfSource s hs
      have hother : ¬ t.write.Owns s.workspaceId s.documentId := hw.symm ▸ hother
      refine ⟨s, (h.sound.mem_nodeSources hwf h.complete).mpr (.inl ⟨hs, hother⟩), rfl, ?_, rfl⟩
      rw [← hid] at hk ⊢
      exact (h.hasKey_iff hl (h.node_kept hs hother hl hid)).mpr hk
    · obtain ⟨id, hid⟩ := h.sound.rows.lookup_of_returns h.complete hreturns
      refine ⟨⟨id, t.write.documentId, t.write.workspaceId, n.entityType, n.description,
        n.embedding⟩, (h.sound.mem_nodeSources hwf h.complete).mpr (.inr ?_), rfl,
        (h.hasKey_lookup hid).1, rfl⟩
      rw [h.sound.sources.nodes_complete h.complete]
      exact Database.mem_newNodeSources.mpr ⟨n, hn, hid, rfl, rfl, rfl⟩

/-- An edge that is left relates the same entities. -/
theorem edge_relates_iff (h : t.Commits db ledger) {s : EdgeSource} (hs : s ∈ db.edgeSources)
    (hother : ¬ t.write.Owns s.workspaceId s.documentId) {w : Nat}
    {source target relationship : List Char} :
    (∃ e ∈ (t.changes.apply db).edgeLabels, e.id = s.graphEdgeId ∧
        rules.lower e.relationship = relationship ∧
        (t.changes.apply db).HasKey rules e.sourceNodeId (w, source) ∧
        (t.changes.apply db).HasKey rules e.targetNodeId (w, target)) ↔
      ∃ e ∈ db.edgeLabels, e.id = s.graphEdgeId ∧ rules.lower e.relationship = relationship ∧
        db.HasKey rules e.sourceNodeId (w, source) ∧
        db.HasKey rules e.targetNodeId (w, target) := by
  have hwf := h.reflects.wellFormed
  obtain ⟨e, he, hid, -⟩ := hwf.edgeOfSource s hs
  have hbacked : e.workspaceId = t.write.workspaceId → t.write.EdgeBacked db e.id :=
    fun _ => ⟨s, hs, hid.symm, hother⟩
  have he' := h.edge_kept hs hother he hid
  obtain ⟨a, ha, haid, -⟩ := hwf.sourceEnd e he
  obtain ⟨b, hb, hbid, -⟩ := hwf.targetEnd e he
  have ha' := h.end_kept he hbacked ha (.inl haid.symm)
  have hb' := h.end_kept he hbacked hb (.inr hbid.symm)
  constructor
  · rintro ⟨x, hx, hxid, hrel, hsource, htarget⟩
    cases h.wellFormed.edge_eq_of_id hx he' (hxid.trans hid.symm)
    rw [← haid, h.hasKey_iff ha ha', haid] at hsource
    rw [← hbid, h.hasKey_iff hb hb', hbid] at htarget
    exact ⟨e, he, hid, hrel, hsource, htarget⟩
  · rintro ⟨x, hx, hxid, hrel, hsource, htarget⟩
    cases hwf.edge_eq_of_id hx he (hxid.trans hid.symm)
    rw [← haid, ← h.hasKey_iff ha ha', haid] at hsource
    rw [← hbid, ← h.hasKey_iff hb hb', hbid] at htarget
    exact ⟨e, he', hid, hrel, hsource, htarget⟩

theorem relates (h : t.Commits db ledger) (w d : Nat) (source target relationship : List Char)
    (f : RelationFact) :
    (t.changes.apply db).Relates rules w d source target relationship f ↔
      (ledger.write t.write).Relates w d source target relationship f := by
  have hwf := h.reflects.wellFormed
  rw [Ledger.relates_write, ← h.reflects.relates]
  constructor
  · rintro ⟨s, hs, rfl, hedge, rfl⟩
    rcases (h.sound.mem_edgeSources hwf h.complete).mp hs with ⟨hs, hother⟩ | hs
    · obtain ⟨e, he, hid, hrel, hsource, htarget⟩ := (h.edge_relates_iff hs hother).mp hedge
      have hw := hwf.edgeSource_workspace hs he hid hsource
      exact .inl ⟨⟨s, hs, rfl, ⟨e, he, hid, hrel, hsource, htarget⟩, rfl⟩, hw ▸ hother⟩
    · obtain ⟨⟨a, b, input⟩, hinput, row, hrow, hkey, rfl⟩ :=
        (h.sound.sources.edges_complete h.complete).mp hs
      obtain ⟨x, hx, hxid, hrel, hsource, htarget⟩ := hedge
      cases h.wellFormed.edge_eq_of_id hx (h.written_edgeLabel hrow) hxid
      obtain ⟨he, ha, hb⟩ := Database.mem_resolveEdges.mp hinput
      simp only [GraphEdge.key, Write.edgeKey, Prod.mk.injEq] at hkey
      obtain ⟨-, hsourceId, htargetId, hlower⟩ := hkey
      obtain ⟨hka, hreturnsA⟩ := h.hasKey_lookup ha
      obtain ⟨hkb, hreturnsB⟩ := h.hasKey_lookup hb
      cases h.wellFormed.key_unique hsource (hsourceId.symm ▸ hka)
      cases h.wellFormed.key_unique htarget (htargetId.symm ▸ hkb)
      exact .inr ⟨⟨rfl, rfl⟩, hreturnsA, hreturnsB, input, he, rfl, rfl, hlower.symm.trans hrel,
        rfl⟩
  · rintro (⟨⟨s, hs, rfl, hedge, rfl⟩, hother⟩ |
      ⟨⟨rfl, rfl⟩, hreturnsA, hreturnsB, input, hinput, rfl, rfl, rfl, rfl⟩)
    · obtain ⟨e, he, hid, hrel, hsource, htarget⟩ := hedge
      have hw := hwf.edgeSource_workspace hs he hid hsource
      have hother : ¬ t.write.Owns s.workspaceId s.documentId := hw.symm ▸ hother
      exact ⟨s, (h.sound.mem_edgeSources hwf h.complete).mpr (.inl ⟨hs, hother⟩), rfl,
        (h.edge_relates_iff hs hother).mpr ⟨e, he, hid, hrel, hsource, htarget⟩, rfl⟩
    · obtain ⟨a, ha⟩ := h.sound.rows.lookup_of_returns h.complete hreturnsA
      obtain ⟨b, hb⟩ := h.sound.rows.lookup_of_returns h.complete hreturnsB
      have hresolved : (a, b, input) ∈ t.resolved :=
        Database.mem_resolveEdges.mpr ⟨hinput, ha, hb⟩
      obtain ⟨row, hrow, hkey⟩ : ∃ row ∈ t.changes.edges.written,
          row.key rules = t.write.edgeKey (a, b, input) :=
        List.mem_map.mp (h.sound.rows.edges_complete h.complete ▸ List.mem_map_of_mem hresolved)
      have hsource := (h.sound.sources.edges_complete h.complete).mpr
        ⟨(a, b, input), hresolved, row, hrow, hkey, rfl⟩
      simp only [GraphEdge.key, Write.edgeKey, Prod.mk.injEq] at hkey
      obtain ⟨-, hsourceId, htargetId, hlower⟩ := hkey
      refine ⟨_, (h.sound.mem_edgeSources hwf h.complete).mpr (.inr hsource), rfl,
        ⟨row.label, h.written_edgeLabel hrow, rfl, hlower, ?_, ?_⟩, rfl⟩
      · exact (show row.label.sourceNodeId = a from hsourceId) ▸ (h.hasKey_lookup ha).1
      · exact (show row.label.targetNodeId = b from htargetId) ▸ (h.hasKey_lookup hb).1

/-- The commit leaves the tables as the ledger has them after the write. -/
theorem reflects_write (h : t.Commits db ledger) :
    (t.changes.apply db).Reflects (ledger.write t.write) where
  wellFormed := h.wellFormed
  backed := h.backed
  nodes := h.nodes
  tells := h.tells
  relates := h.relates

end Commits

end Transaction

end Overlap

end GmragApi.Graph

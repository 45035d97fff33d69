import GmragApi.OverlapMoves

/-! What an open transaction has changed so far, by itself and against the committed tables. -/

namespace GmragApi.Graph

variable {ν : Type} {rules : TextRules}

/-- The statements that insert build on each other in this order. -/
def Statement.rank : Statement → Nat
  | .upsertNodes => 1
  | .insertNodeSources => 2
  | .upsertEdges => 3
  | .insertEdgeSources => 4
  | _ => 0

def Statement.Before (a b : Statement) : Prop := a.rank = 0 ∨ a.rank < b.rank

instance : DecidableRel Statement.Before := fun a b =>
  inferInstanceAs (Decidable (a.rank = 0 ∨ a.rank < b.rank))

def Write.nodeKey (write : Write rules ν) (n : NodeInput ν) : Nat × List Char :=
  (write.workspaceId, rules.lower n.name)

def Write.edgeKey (write : Write rules ν) (e : Nat × Nat × EdgeInput) :
    Nat × Nat × Nat × List Char :=
  (write.workspaceId, e.1, e.2.1, rules.lower e.2.2.relationship)

namespace Overlap

open Transition ProcessPool

namespace Transaction

/-- The nodes of the batch that the transaction has still to upsert. -/
def nodesLeft (t : Transaction rules ν) : List (NodeInput ν) :=
  if .upsertNodes ∈ t.todo then t.write.nodes else t.running.nodeRows

def NodesDone (t : Transaction rules ν) : Prop :=
  .upsertNodes ∉ t.todo ∧ t.running.nodeRows = []

def EdgesDone (t : Transaction rules ν) : Prop :=
  .upsertEdges ∉ t.todo ∧ t.running.edgeRows = []

/-- The statements are taken in order, and the rows written are those that they had to write. -/
structure RowProgress (t : Transaction rules ν) : Prop where
  order : t.todo.Pairwise Statement.Before
  nodeRows : t.running.nodeRows = [] ∨ .upsertNodes ∉ t.todo
  edgeRows : t.running.edgeRows = [] ∨ .upsertEdges ∉ t.todo
  nodes : t.changes.nodes.written.map (GraphNode.key rules) ++ t.nodesLeft.map t.write.nodeKey =
    t.write.nodes.map t.write.nodeKey
  fits : ∀ n ∈ t.write.nodes, n ∈ t.nodesLeft ∨ n.fits = true
  edges : (.upsertEdges ∈ t.todo ∧ t.changes.edges.written = []) ∨
    (.upsertEdges ∉ t.todo ∧ t.NodesDone ∧
      t.changes.edges.written.map (GraphEdge.key rules) ++ t.running.edgeRows.map t.write.edgeKey =
        t.resolved.map t.write.edgeKey)
  edgesFit : .upsertEdges ∈ t.todo ∨
    ∀ e ∈ t.resolved, e ∈ t.running.edgeRows ∨ e.2.2.fits = true

/-- The sources written are those of the rows. -/
structure SourceProgress (t : Transaction rules ν) : Prop where
  nodes : (.insertNodeSources ∈ t.todo ∧ t.changes.nodeSources.written = []) ∨
    (.insertNodeSources ∉ t.todo ∧ t.NodesDone ∧
      t.changes.nodeSources.written = Database.newNodeSources rules t.write.workspaceId
        t.write.documentId t.nodeIds t.write.nodes)
  edges : (.insertEdgeSources ∈ t.todo ∧ t.changes.edgeSources.written = []) ∨
    (.insertEdgeSources ∉ t.todo ∧ t.NodesDone ∧ t.EdgesDone ∧
      ∀ s, s ∈ t.changes.edgeSources.written ↔
      ∃ e ∈ t.resolved, ∃ row ∈ t.changes.edges.written, row.key rules = t.write.edgeKey e ∧
        s = ⟨row.id, t.write.documentId, t.write.workspaceId, e.2.2.relationship,
          e.2.2.description⟩)
  nodeKeys : (t.changes.nodeSources.written.map NodeSource.key).Nodup
  edgeKeys : (t.changes.edgeSources.written.map EdgeSource.key).Nodup

section Progress

variable {s : State rules ν} {i : Nat} {t t' : Transaction rules ν}

theorem statements_before (write : Write rules ν) :
    write.statements.Pairwise Statement.Before := by
  cases write <;> (simp only [Write.statements]; decide)

theorem rowProgress_begin (write : Write rules ν) : (begin write).RowProgress where
  order := statements_before write
  nodeRows := .inl rfl
  edgeRows := .inl rfl
  nodes := by cases write <;> rfl
  fits n hn := by
    cases write with
    | ingest w d batch => exact .inl hn
    | delete w d => exact absurd hn List.not_mem_nil
  edges := by
    cases write with
    | ingest w d batch => exact .inl ⟨by simp [begin, Write.statements], rfl⟩
    | delete w d =>
      exact .inr ⟨by simp [begin, Write.statements], ⟨by simp [begin, Write.statements], rfl⟩, rfl⟩
  edgesFit := by
    cases write with
    | ingest w d batch => exact .inl (by simp [begin, Write.statements])
    | delete w d => exact .inr fun e he => absurd he List.not_mem_nil

theorem sourceProgress_begin (write : Write rules ν) : (begin write).SourceProgress where
  nodes := by
    cases write with
    | ingest w d batch => exact .inl ⟨by simp [begin, Write.statements], rfl⟩
    | delete w d =>
      exact .inr ⟨by simp [begin, Write.statements], ⟨by simp [begin, Write.statements], rfl⟩, rfl⟩
  edges := by
    cases write with
    | ingest w d batch => exact .inl ⟨by simp [begin, Write.statements], rfl⟩
    | delete w d =>
      refine .inr ⟨by simp [begin, Write.statements], ⟨by simp [begin, Write.statements], rfl⟩,
        ⟨by simp [begin, Write.statements], rfl⟩,
        fun s => ⟨fun hs => absurd hs List.not_mem_nil, ?_⟩⟩
      rintro ⟨e, he, -⟩
      exact absurd he List.not_mem_nil
  nodeKeys := List.nodup_nil
  edgeKeys := List.nodup_nil

/-- A statement that comes no later than the one that is next has been taken. -/
theorem RowProgress.not_mem (h : t.RowProgress) {a b : Statement} {todo : List Statement}
    (htodo : t.todo = a :: todo) (ha : 0 < a.rank) (hb : b.rank ≤ a.rank) : b ∉ todo := by
  intro hmem
  have horder := h.order
  rw [htodo] at horder
  rcases (List.pairwise_cons.mp horder).1 b hmem with hzero | hlt
  · omega
  · omega

theorem finished_rows {r : Running ν} (h : r.finished = true) :
    r.nodeRows = [] ∧ r.edgeRows = [] := by
  simp only [Running.finished, Bool.and_eq_true, List.isEmpty_iff] at h
  exact ⟨h.1.2, h.2⟩

section Keep

variable {todo : List Statement} {running : Running ν} {changes : Changes ν}

/-- A step between the upserts. -/
theorem RowProgress.keep (h : t.RowProgress) (horder : todo.Pairwise Statement.Before)
    (hmemNodes : .upsertNodes ∈ todo ↔ .upsertNodes ∈ t.todo)
    (hmemEdges : .upsertEdges ∈ todo ↔ .upsertEdges ∈ t.todo)
    (hold : t.running.nodeRows = [] ∧ t.running.edgeRows = [])
    (hrows : running.nodeRows = [] ∧ running.edgeRows = [])
    (hnodes : changes.nodes.written = t.changes.nodes.written)
    (hedges : changes.edges.written = t.changes.edges.written) :
    ({ t with todo, running, changes } : Transaction rules ν).RowProgress := by
  have hleft : ({ t with todo, running, changes } : Transaction rules ν).nodesLeft =
      t.nodesLeft := by
    simp only [nodesLeft, hmemNodes, hrows.1, hold.1]
  refine
    { order := horder
      nodeRows := .inl hrows.1
      edgeRows := .inl hrows.2
      nodes := ?_
      fits := fun n hn => hleft ▸ h.fits n hn
      edges := ?_
      edgesFit := ?_ }
  · rw [hleft, hnodes]
    exact h.nodes
  · rcases h.edges with ⟨hmem, hnil⟩ | ⟨hmem, hdone, heq⟩
    · exact .inl ⟨hmemEdges.mpr hmem, hedges.trans hnil⟩
    · refine .inr ⟨fun hin => hmem (hmemEdges.mp hin),
        ⟨fun hin => hdone.1 (hmemNodes.mp hin), hrows.1⟩, ?_⟩
      rw [hold.2] at heq
      simp only [hedges, hrows.2, resolved, nodeIds, hnodes]
      exact heq
  · refine h.edgesFit.imp hmemEdges.mpr fun hfit => ?_
    rw [hold.2] at hfit
    simp only [hrows.2, resolved, nodeIds, hnodes]
    exact hfit

theorem SourceProgress.keep_nodes (h : t.SourceProgress)
    (hmem : .insertNodeSources ∈ todo ↔ .insertNodeSources ∈ t.todo)
    (hdone : t.NodesDone → ({ t with todo, running, changes } : Transaction rules ν).NodesDone)
    (hnodes : changes.nodes.written = t.changes.nodes.written)
    (hsources : changes.nodeSources.written = t.changes.nodeSources.written) :
    (.insertNodeSources ∈ todo ∧ changes.nodeSources.written = []) ∨
      (.insertNodeSources ∉ todo ∧
        ({ t with todo, running, changes } : Transaction rules ν).NodesDone ∧
        changes.nodeSources.written = Database.newNodeSources rules t.write.workspaceId
          t.write.documentId ({ t with todo, running, changes } : Transaction rules ν).nodeIds
          t.write.nodes) := by
  rw [hsources, hmem]
  refine h.nodes.imp_right fun ⟨hout, hnodesDone, heq⟩ => ⟨hout, hdone hnodesDone, ?_⟩
  simp only [nodeIds, hnodes]
  exact heq

theorem SourceProgress.keep_edges (h : t.SourceProgress)
    (hmem : .insertEdgeSources ∈ todo ↔ .insertEdgeSources ∈ t.todo)
    (hnodesDone : t.NodesDone → ({ t with todo, running, changes } : Transaction rules ν).NodesDone)
    (hedgesDone : t.EdgesDone → ({ t with todo, running, changes } : Transaction rules ν).EdgesDone)
    (hnodes : changes.nodes.written = t.changes.nodes.written)
    (hedges : changes.edges.written = t.changes.edges.written)
    (hsources : changes.edgeSources.written = t.changes.edgeSources.written) :
    (.insertEdgeSources ∈ todo ∧ changes.edgeSources.written = []) ∨
      (.insertEdgeSources ∉ todo ∧
        ({ t with todo, running, changes } : Transaction rules ν).NodesDone ∧
        ({ t with todo, running, changes } : Transaction rules ν).EdgesDone ∧
        ∀ s, s ∈ changes.edgeSources.written ↔
          ∃ e ∈ ({ t with todo, running, changes } : Transaction rules ν).resolved,
            ∃ row ∈ changes.edges.written, row.key rules = t.write.edgeKey e ∧
              s = ⟨row.id, t.write.documentId, t.write.workspaceId, e.2.2.relationship,
                e.2.2.description⟩) := by
  rw [hsources, hmem]
  refine h.edges.imp_right fun ⟨hout, hnodesEnd, hedgesEnd, hiff⟩ =>
    ⟨hout, hnodesDone hnodesEnd, hedgesDone hedgesEnd, ?_⟩
  simp only [resolved, nodeIds, hnodes, hedges]
  exact hiff

theorem SourceProgress.keep (h : t.SourceProgress) (hsub : todo ⊆ t.todo)
    (hmemNodes : .insertNodeSources ∈ todo ↔ .insertNodeSources ∈ t.todo)
    (hmemEdges : .insertEdgeSources ∈ todo ↔ .insertEdgeSources ∈ t.todo)
    (hrows : running.nodeRows = [] ∧ running.edgeRows = [])
    (hnodes : changes.nodes.written = t.changes.nodes.written)
    (hedges : changes.edges.written = t.changes.edges.written)
    (hnodeSources : changes.nodeSources.written = t.changes.nodeSources.written)
    (hedgeSources : changes.edgeSources.written = t.changes.edgeSources.written) :
    ({ t with todo, running, changes } : Transaction rules ν).SourceProgress where
  nodes := h.keep_nodes hmemNodes (fun hdone => ⟨fun hin => hdone.1 (hsub hin), hrows.1⟩) hnodes
    hnodeSources
  edges := h.keep_edges hmemEdges (fun hdone => ⟨fun hin => hdone.1 (hsub hin), hrows.1⟩)
    (fun hdone => ⟨fun hin => hdone.1 (hsub hin), hrows.2⟩) hnodes hedges hedgeSources
  nodeKeys := hnodeSources ▸ h.nodeKeys
  edgeKeys := hedgeSources ▸ h.edgeKeys

end Keep

theorem mem_todo_next {a b : Statement} {todo : List Statement} (htodo : t.todo = a :: todo)
    (hne : a ≠ b) : b ∈ todo ↔ b ∈ t.todo := by
  rw [htodo, List.mem_cons]
  exact (or_iff_right hne.symm).symm

theorem RowProgress.advance (h : t.RowProgress) (hadvance : Advance s i t t') :
    t'.RowProgress := by
  have hnext : ∀ {a : Statement} {todo : List Statement}, t.todo = a :: todo →
      todo.Pairwise Statement.Before := fun htodo => (List.pairwise_cons.mp (htodo ▸ h.order)).2
  cases hadvance with
  | deleteEdgeSources htodo hrunning | deleteNodeSources htodo hrunning
  | insertNodeSources htodo hrunning _ | insertEdgeSources htodo hrunning _ =>
    exact h.keep (hnext htodo) (mem_todo_next htodo (by decide)) (mem_todo_next htodo (by decide))
      (finished_rows hrunning) ⟨rfl, rfl⟩ rfl rfl
  | beginDelete htodo hstatement hrunning hrows =>
    exact h.keep (hnext htodo)
      (mem_todo_next htodo (by rcases hstatement with rfl | rfl <;> decide))
      (mem_todo_next htodo (by rcases hstatement with rfl | rfl <;> decide))
      (finished_rows hrunning) hrows rfl rfl
  | pass hold hrows => exact h.keep h.order Iff.rfl Iff.rfl hold hrows rfl rfl
  | deleteEdge hrunning _ _ _ _ =>
    exact h.keep h.order Iff.rfl Iff.rfl (by rw [hrunning]; exact ⟨rfl, rfl⟩) ⟨rfl, rfl⟩ rfl rfl
  | deleteNode hrunning _ _ _ _ =>
    exact h.keep h.order Iff.rfl Iff.rfl (by rw [hrunning]; exact ⟨rfl, rfl⟩) ⟨rfl, rfl⟩ rfl rfl
  | beginNodes htodo hrunning =>
    have hout := h.not_mem htodo (b := .upsertNodes) (by decide) le_rfl
    have hin : .upsertNodes ∈ t.todo := htodo ▸ List.mem_cons_self
    have hleft : t.nodesLeft = t.write.nodes := if_pos hin
    refine
      { order := hnext htodo
        nodeRows := .inr hout
        edgeRows := .inl rfl
        nodes := ?_
        fits := fun n hn => .inl ?_
        edges := ?_
        edgesFit := ?_ }
    · have hnodes := h.nodes
      rw [hleft] at hnodes
      simp only [nodesLeft, if_neg hout]
      exact hnodes
    · simp only [nodesLeft, if_neg hout]
      exact hn
    · rcases h.edges with ⟨hmem, hnil⟩ | ⟨-, hdone, -⟩
      · exact .inl ⟨(mem_todo_next htodo (by decide)).mpr hmem, hnil⟩
      · exact absurd hin hdone.1
    · rcases h.edges with ⟨hmem, -⟩ | ⟨-, hdone, -⟩
      · exact .inl ((mem_todo_next htodo (by decide)).mpr hmem)
      · exact absurd hin hdone.1
  | beginEdges htodo hrunning =>
    have hout := h.not_mem htodo (b := .upsertEdges) (by decide) le_rfl
    have houtNodes := h.not_mem htodo (b := .upsertNodes) (by decide) (by decide)
    have hin : .upsertEdges ∈ t.todo := htodo ▸ List.mem_cons_self
    have houtNodes' : .upsertNodes ∉ t.todo := fun hmem =>
      houtNodes ((mem_todo_next htodo (by decide)).mpr hmem)
    have hleft : t.nodesLeft = [] := by
      rw [nodesLeft, if_neg houtNodes']
      exact (finished_rows hrunning).1
    refine
      { order := hnext htodo
        nodeRows := .inl rfl
        edgeRows := .inr hout
        nodes := ?_
        fits := fun n hn => ?_
        edges := .inr ⟨hout, ⟨houtNodes, rfl⟩, ?_⟩
        edgesFit := .inr fun e he => .inl he }
    · have hnodes := h.nodes
      rw [hleft] at hnodes
      simp only [nodesLeft, if_neg houtNodes]
      exact hnodes
    · rcases h.fits n hn with hmem | hfits
      · rw [hleft] at hmem
        exact absurd hmem List.not_mem_nil
      · exact .inr hfits
    · rcases h.edges with ⟨-, hnil⟩ | ⟨hmem, -, -⟩
      · simp only [hnil]
        rfl
      · exact absurd hin hmem

theorem nodeRow_key (db : Database ν) (n : NodeInput ν) :
    (t.nodeRow db n).key rules = t.write.nodeKey n :=
  TableChanges.upserted_key (fun _ => beq_iff_eq) GraphNode.update_key

theorem edgeRow_key (db : Database ν) (e : Nat × Nat × EdgeInput) :
    (t.edgeRow db e).key rules = t.write.edgeKey e :=
  TableChanges.upserted_key (fun _ => beq_iff_eq) GraphEdge.update_key

theorem RowProgress.upsert (h : t.RowProgress) (hupsert : Upserts s i t t') : t'.RowProgress := by
  cases hupsert with
  | @node n rows hrunning hfits hnew hfree =>
    have hrows : t.running.nodeRows = n :: rows := by rw [hrunning]; rfl
    have hout : .upsertNodes ∉ t.todo := h.nodeRows.resolve_left (by simp [hrows])
    have hleft : t.nodesLeft = n :: rows := (if_neg hout).trans hrows
    refine
      { order := h.order
        nodeRows := .inr hout
        edgeRows := .inl rfl
        nodes := ?_
        fits := fun m hm => ?_
        edges := ?_
        edgesFit := ?_ }
    · have hnodes := h.nodes
      rw [hleft, List.map_cons] at hnodes
      simp only [nodesLeft, if_neg hout, TableChanges.write_written, List.map_append,
        List.map_singleton, List.append_assoc, List.singleton_append, nodeRow_key]
      exact hnodes
    · simp only [nodesLeft, if_neg hout]
      rcases h.fits m hm with hmem | hm'
      · rw [hleft] at hmem
        rcases List.mem_cons.mp hmem with rfl | hmem
        · exact .inr hfits
        · exact .inl hmem
      · exact .inr hm'
    · rcases h.edges with hfirst | ⟨-, hdone, -⟩
      · exact .inl hfirst
      · rw [hdone.2] at hrows
        cases hrows
    · rcases h.edges with hfirst | ⟨-, hdone, -⟩
      · exact .inl hfirst.1
      · rw [hdone.2] at hrows
        cases hrows
  | @edge e rows hrunning hfits hnew hfree =>
    have hrows : t.running.edgeRows = e :: rows := by rw [hrunning]; rfl
    have hout : .upsertEdges ∉ t.todo := h.edgeRows.resolve_left (by simp [hrows])
    have hnone : t.running.nodeRows = [] := by rw [hrunning]; rfl
    refine
      { order := h.order
        nodeRows := .inl rfl
        edgeRows := .inr hout
        nodes := ?_
        fits := fun m hm => ?_
        edges := ?_
        edgesFit := ?_ }
    · have hnodes := h.nodes
      simp only [nodesLeft, hnone] at hnodes
      exact hnodes
    · have hfits := h.fits m hm
      simp only [nodesLeft, hnone] at hfits
      exact hfits
    · rcases h.edges with ⟨hmem, -⟩ | ⟨-, hdone, heq⟩
      · exact absurd hmem hout
      · refine .inr ⟨hout, ⟨hdone.1, rfl⟩, ?_⟩
        rw [hrows, List.map_cons] at heq
        simp only [TableChanges.write_written, List.map_append, List.map_singleton,
          List.append_assoc, List.singleton_append, edgeRow_key]
        exact heq
    · refine .inr fun f hf => ?_
      rcases (h.edgesFit.resolve_left hout) f hf with hmem | hf'
      · rw [hrows] at hmem
        rcases List.mem_cons.mp hmem with rfl | hmem
        · exact .inr hfits
        · exact .inl hmem
      · exact .inr hf'

/-- The edges of the tables are found under their keys. -/
theorem mem_newEdgeSources_seen (hrow : t.RowProgress) (hdone : t.EdgesDone)
    (hkeys : ((t.changes.apply s.db).edges.map (GraphEdge.key rules)).Nodup) {r : EdgeSource} :
    r ∈ Database.newEdgeSources rules (t.changes.apply s.db) t.write.workspaceId
        t.write.documentId t.resolved ↔
      ∃ e ∈ t.resolved, ∃ row ∈ t.changes.edges.written, row.key rules = t.write.edgeKey e ∧
        r = ⟨row.id, t.write.documentId, t.write.workspaceId, e.2.2.relationship,
          e.2.2.description⟩ := by
  have hwritten : t.changes.edges.written.map (GraphEdge.key rules) =
      t.resolved.map t.write.edgeKey := by
    rcases hrow.edges with ⟨hmem, -⟩ | ⟨-, -, heq⟩
    · exact absurd hmem hdone.1
    · rwa [hdone.2, List.map_nil, List.append_nil] at heq
  have hsub : ∀ row ∈ t.changes.edges.written, row ∈ (t.changes.apply s.db).edges :=
    fun row hr => TableChanges.mem_apply.mpr (.inr hr)
  simp only [Database.newEdgeSources, List.mem_filterMap, Option.map_eq_some_iff,
    Upsert.find?_beq_iff hkeys]
  refine exists_congr fun e => and_congr_right fun he => ?_
  constructor
  · rintro ⟨row, ⟨hmem, hkey⟩, rfl⟩
    obtain ⟨row', hrow', hkey'⟩ : ∃ row' ∈ t.changes.edges.written,
        row'.key rules = t.write.edgeKey e :=
      List.mem_map.mp (hwritten ▸ List.mem_map_of_mem he)
    have hsame : row = row' :=
      List.inj_on_of_nodup_map hkeys hmem (hsub row' hrow') (hkey.trans hkey'.symm)
    exact ⟨row, hsame ▸ hrow', hkey, rfl⟩
  · rintro ⟨row, hmem, hkey, rfl⟩
    exact ⟨row, ⟨hsub row hmem, hkey⟩, rfl⟩

theorem SourceProgress.advance (h : t.SourceProgress) (hrow : t.RowProgress)
    (hkeys : ((t.changes.apply s.db).edges.map (GraphEdge.key rules)).Nodup)
    (hadvance : Advance s i t t') : t'.SourceProgress := by
  have hsub : ∀ {a : Statement} {todo : List Statement}, t.todo = a :: todo → todo ⊆ t.todo :=
    fun htodo => htodo ▸ List.subset_cons_self _ _
  cases hadvance with
  | deleteEdgeSources htodo hrunning | deleteNodeSources htodo hrunning =>
    exact h.keep (hsub htodo) (mem_todo_next htodo (by decide)) (mem_todo_next htodo (by decide))
      ⟨rfl, rfl⟩ rfl rfl rfl rfl
  | beginDelete htodo hstatement hrunning hrows =>
    exact h.keep (hsub htodo) (mem_todo_next htodo (by rcases hstatement with rfl | rfl <;> decide))
      (mem_todo_next htodo (by rcases hstatement with rfl | rfl <;> decide)) hrows rfl rfl rfl rfl
  | pass hold hrows =>
    exact h.keep (List.Subset.refl _) Iff.rfl Iff.rfl hrows rfl rfl rfl rfl
  | deleteEdge hrunning _ _ _ _ =>
    exact h.keep (List.Subset.refl _) Iff.rfl Iff.rfl ⟨rfl, rfl⟩ rfl rfl rfl rfl
  | deleteNode hrunning _ _ _ _ =>
    exact h.keep (List.Subset.refl _) Iff.rfl Iff.rfl ⟨rfl, rfl⟩ rfl rfl rfl rfl
  | beginNodes htodo hrunning =>
    have hin : .upsertNodes ∈ t.todo := htodo ▸ List.mem_cons_self
    refine ⟨?_, ?_, h.nodeKeys, h.edgeKeys⟩
    · exact h.keep_nodes (mem_todo_next htodo (by decide)) (fun hdone => absurd hin hdone.1) rfl rfl
    · exact h.keep_edges (mem_todo_next htodo (by decide)) (fun hdone => absurd hin hdone.1)
        (fun hdone => ⟨fun hmem => hdone.1 (hsub htodo hmem), rfl⟩) rfl rfl rfl
  | beginEdges htodo hrunning =>
    have hin : .upsertEdges ∈ t.todo := htodo ▸ List.mem_cons_self
    refine ⟨?_, ?_, h.nodeKeys, h.edgeKeys⟩
    · exact h.keep_nodes (mem_todo_next htodo (by decide))
        (fun hdone => ⟨fun hmem => hdone.1 (hsub htodo hmem), rfl⟩) rfl rfl
    · exact h.keep_edges (mem_todo_next htodo (by decide))
        (fun hdone => ⟨fun hmem => hdone.1 (hsub htodo hmem), rfl⟩)
        (fun hdone => absurd hin hdone.1) rfl rfl rfl
  | insertNodeSources htodo hrunning hnodup =>
    have hin : .insertNodeSources ∈ t.todo := htodo ▸ List.mem_cons_self
    have hnil : t.changes.nodeSources.written = [] := by
      rcases h.nodes with ⟨-, hnil⟩ | ⟨hmem, -, -⟩
      · exact hnil
      · exact absurd hin hmem
    have hout := hrow.not_mem htodo (b := .insertNodeSources) (by decide) le_rfl
    have houtNodes := hrow.not_mem htodo (b := .upsertNodes) (by decide) (by decide)
    refine ⟨.inr ⟨hout, ⟨houtNodes, rfl⟩, ?_⟩, ?_, ?_, h.edgeKeys⟩
    · simp only [TableChanges.write_written, hnil, List.nil_append]
      rfl
    · exact h.keep_edges (mem_todo_next htodo (by decide))
        (fun hdone => ⟨fun hmem => hdone.1 (hsub htodo hmem), rfl⟩)
        (fun hdone => ⟨fun hmem => hdone.1 (hsub htodo hmem), rfl⟩) rfl rfl rfl
    · simp only [TableChanges.write_written, hnil, List.nil_append]
      exact hnodup
  | insertEdgeSources htodo hrunning hnodup =>
    have hin : .insertEdgeSources ∈ t.todo := htodo ▸ List.mem_cons_self
    have hnil : t.changes.edgeSources.written = [] := by
      rcases h.edges with ⟨-, hnil⟩ | ⟨hmem, -, -⟩
      · exact hnil
      · exact absurd hin hmem
    have hout := hrow.not_mem htodo (b := .insertEdgeSources) (by decide) le_rfl
    have houtNodes := hrow.not_mem htodo (b := .upsertNodes) (by decide) (by decide)
    have houtEdges := hrow.not_mem htodo (b := .upsertEdges) (by decide) (by decide)
    have hdone : t.EdgesDone := ⟨fun hmem =>
      houtEdges ((mem_todo_next htodo (by decide)).mpr hmem), (finished_rows hrunning).2⟩
    refine ⟨?_, .inr ⟨hout, ⟨houtNodes, rfl⟩, ⟨houtEdges, rfl⟩, fun r => ?_⟩, h.nodeKeys, ?_⟩
    · exact h.keep_nodes (mem_todo_next htodo (by decide))
        (fun hdone => ⟨fun hmem => hdone.1 (hsub htodo hmem), rfl⟩) rfl rfl
    · simp only [TableChanges.write_written, hnil, List.nil_append]
      exact mem_newEdgeSources_seen hrow hdone hkeys
    · simp only [TableChanges.write_written, hnil, List.nil_append]
      exact hnodup

theorem SourceProgress.upsert (h : t.SourceProgress) (hupsert : Upserts s i t t') :
    t'.SourceProgress := by
  cases hupsert with
  | @node n rows hrunning hfits hnew hfree =>
    have hnot : ¬ t.NodesDone := by
      rintro ⟨-, hnil⟩
      simp [hrunning, Running.nodeRows] at hnil
    refine ⟨?_, ?_, h.nodeKeys, h.edgeKeys⟩
    · exact h.nodes.imp_right fun hdone => absurd hdone.2.1 hnot
    · exact h.edges.imp_right fun hdone => absurd hdone.2.1 hnot
  | @edge e rows hrunning hfits hnew hfree =>
    have hnot : ¬ t.EdgesDone := by
      rintro ⟨-, hnil⟩
      simp [hrunning, Running.edgeRows] at hnil
    refine ⟨?_, ?_, h.nodeKeys, h.edgeKeys⟩
    · exact h.nodes.imp_right fun hdone => ⟨hdone.1, ⟨hdone.2.1.1, rfl⟩, hdone.2.2⟩
    · exact h.edges.imp_right fun hdone => absurd hdone.2.2.1 hnot

end Progress

end Transaction

end Overlap

end GmragApi.Graph

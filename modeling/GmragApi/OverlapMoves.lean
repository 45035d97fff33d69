import GmragApi.GraphOverlap
import GmragApi.ProcessPool
import GmragApi.Transition

/-! What one step of overlapping graph transactions can change. -/

namespace GmragApi.Graph

variable {ν : Type} {rules : TextRules}

/-- A document other than the one that is written is a source of the node. -/
def Write.NodeBacked (write : Write rules ν) (db : Database ν) (id : Nat) : Prop :=
  ∃ s ∈ db.nodeSources, s.graphNodeId = id ∧ ¬ write.Owns s.workspaceId s.documentId

def Write.EdgeBacked (write : Write rules ν) (db : Database ν) (id : Nat) : Prop :=
  ∃ s ∈ db.edgeSources, s.graphEdgeId = id ∧ ¬ write.Owns s.workspaceId s.documentId

instance (write : Write rules ν) (db : Database ν) (id : Nat) :
    Decidable (write.NodeBacked db id) := inferInstanceAs (Decidable (∃ s ∈ db.nodeSources, _))

instance (write : Write rules ν) (db : Database ν) (id : Nat) :
    Decidable (write.EdgeBacked db id) := inferInstanceAs (Decidable (∃ s ∈ db.edgeSources, _))

namespace Overlap

open Transition ProcessPool

/-- A `DELETE` comes to no row that another document backs by then. -/
def Transaction.Deletes (t : Transaction rules ν) (db : Database ν) (k : Nat) : Prop :=
  match t.running with
  | .deletingEdges victims => ∀ id ∈ victims[k]?, ¬ t.write.EdgeBacked db id
  | .deletingNodes victims => ∀ id ∈ victims[k]?, ¬ t.write.NodeBacked db id
  | _ => True

/-- A transaction has changed every row of the workspace that no other document backs. -/
structure Transaction.Sweeps (t : Transaction rules ν) (db : Database ν) : Prop where
  nodes : ∀ n ∈ db.nodes, n.workspaceId = t.write.workspaceId →
    t.write.NodeBacked db n.id ∨ ∃ r ∈ t.changes.nodes.rows, r.id = n.id
  edges : ∀ e ∈ db.edges, e.workspaceId = t.write.workspaceId →
    t.write.EdgeBacked db e.id ∨ ∃ r ∈ t.changes.edges.rows, r.id = e.id

/-- The collection of unused rows goes by the sources that are committed when a row is deleted and
when its transaction commits. -/
def CollectsInTime (s : State rules ν) : Move → Prop
  | .deleteRow i k => ∀ t ∈ s.transactions[i]?, t.Deletes s.db k
  | .commit i => ∀ t ∈ s.transactions[i]?, t.Sweeps s.db
  | _ => True

section Decidable

instance (t : Transaction rules ν) (db : Database ν) (k : Nat) : Decidable (t.Deletes db k) := by
  unfold Transaction.Deletes
  split <;> infer_instance

instance (t : Transaction rules ν) (db : Database ν) : Decidable (t.Sweeps db) :=
  decidable_of_iff
    ((∀ n ∈ db.nodes, n.workspaceId = t.write.workspaceId →
      t.write.NodeBacked db n.id ∨ ∃ r ∈ t.changes.nodes.rows, r.id = n.id) ∧
      ∀ e ∈ db.edges, e.workspaceId = t.write.workspaceId →
        t.write.EdgeBacked db e.id ∨ ∃ r ∈ t.changes.edges.rows, r.id = e.id)
    ⟨fun h => ⟨h.1, h.2⟩, fun h => ⟨h.nodes, h.edges⟩⟩

instance (s : State rules ν) (m : Move) : Decidable (CollectsInTime s m) := by
  unfold CollectsInTime
  split <;> infer_instance

end Decidable

/-- The rows that a transaction changes by its next step, short of its commit. -/
inductive Advance (s : State rules ν) (i : Nat) (t : Transaction rules ν) :
    Transaction rules ν → Prop
  | deleteEdgeSources {todo : List Statement} (htodo : t.todo = .deleteEdgeSources :: todo)
      (hrunning : t.running.finished = true) :
      Advance s i t { t with
        todo, running := .idle
        changes.edgeSources := t.changes.edgeSources.delete
          ((t.changes.apply s.db).edgeSources.filter fun r =>
            t.write.Owns r.workspaceId r.documentId) }
  | deleteNodeSources {todo : List Statement} (htodo : t.todo = .deleteNodeSources :: todo)
      (hrunning : t.running.finished = true) :
      Advance s i t { t with
        todo, running := .idle
        changes.nodeSources := t.changes.nodeSources.delete
          ((t.changes.apply s.db).nodeSources.filter fun r =>
            t.write.Owns r.workspaceId r.documentId) }
  | beginDelete {statement : Statement} {todo : List Statement} {running : Running ν}
      (htodo : t.todo = statement :: todo)
      (hstatement : statement = .deleteEdges ∨ statement = .deleteNodes)
      (hrunning : t.running.finished = true)
      (hrows : running.nodeRows = [] ∧ running.edgeRows = []) :
      Advance s i t { t with todo, running }
  | beginNodes {todo : List Statement} (htodo : t.todo = .upsertNodes :: todo)
      (hrunning : t.running.finished = true) :
      Advance s i t { t with todo, running := .upsertingNodes t.write.nodes }
  | insertNodeSources {todo : List Statement} (htodo : t.todo = .insertNodeSources :: todo)
      (hrunning : t.running.finished = true)
      (hkeys : ((Database.newNodeSources rules t.write.workspaceId t.write.documentId t.nodeIds
        t.write.nodes).map NodeSource.key).Nodup) :
      Advance s i t { t with
        todo, running := .idle
        changes.nodeSources := t.changes.nodeSources.write
          (Database.newNodeSources rules t.write.workspaceId t.write.documentId t.nodeIds
            t.write.nodes) }
  | beginEdges {todo : List Statement} (htodo : t.todo = .upsertEdges :: todo)
      (hrunning : t.running.finished = true) :
      Advance s i t { t with todo, running := .upsertingEdges t.resolved }
  | insertEdgeSources {todo : List Statement} (htodo : t.todo = .insertEdgeSources :: todo)
      (hrunning : t.running.finished = true)
      (hkeys : ((Database.newEdgeSources rules (t.changes.apply s.db) t.write.workspaceId
        t.write.documentId t.resolved).map EdgeSource.key).Nodup) :
      Advance s i t { t with
        todo, running := .idle
        changes.edgeSources := t.changes.edgeSources.write
          (Database.newEdgeSources rules (t.changes.apply s.db) t.write.workspaceId
            t.write.documentId t.resolved) }
  | pass {running : Running ν} (hold : t.running.nodeRows = [] ∧ t.running.edgeRows = [])
      (hrows : running.nodeRows = [] ∧ running.edgeRows = []) : Advance s i t { t with running }
  | deleteEdge {victims rest : List Nat} {e : GraphEdge}
      (hrunning : t.running = .deletingEdges victims) (he : e ∈ s.db.edges)
      (hws : e.workspaceId = t.write.workspaceId) (hfree : s.edgeHeld i e = false)
      (hbacked : ¬ t.write.EdgeBacked s.db e.id) :
      Advance s i t { t with
        running := .deletingEdges rest
        changes := t.changes.deleteEdges s.db [e] }
  | deleteNode {victims rest : List Nat} {n : GraphNode ν}
      (hrunning : t.running = .deletingNodes victims) (hn : n ∈ s.db.nodes)
      (hws : n.workspaceId = t.write.workspaceId) (hfree : s.nodeHeld i n = false)
      (hbacked : ¬ t.write.NodeBacked s.db n.id) :
      Advance s i t { t with
        running := .deletingNodes rest
        changes := t.changes.deleteNode s.db n }

/-- The row that an upsert of the transaction leaves. -/
def Transaction.nodeRow (t : Transaction rules ν) (db : Database ν) (n : NodeInput ν) :
    GraphNode ν :=
  t.changes.nodes.upserted GraphNode.id GraphNode.update db.nodes
    (fun row => row.key rules == (t.write.workspaceId, rules.lower n.name))
    ⟨db.nextId, t.write.workspaceId, n.name, n.entityType, n.description, n.embedding⟩

def Transaction.edgeRow (t : Transaction rules ν) (db : Database ν)
    (e : Nat × Nat × EdgeInput) : GraphEdge :=
  t.changes.edges.upserted GraphEdge.id GraphEdge.update db.edges
    (fun row => row.key rules ==
      (t.write.workspaceId, e.1, e.2.1, rules.lower e.2.2.relationship))
    ⟨db.nextId, t.write.workspaceId, e.1, e.2.1, e.2.2.relationship, e.2.2.description⟩

/-- A step of an upsert, which takes a new id whether it needs one or not. -/
inductive Upserts (s : State rules ν) (i : Nat) (t : Transaction rules ν) :
    Transaction rules ν → Prop
  | node {n : NodeInput ν} {rows : List (NodeInput ν)}
      (hrunning : t.running = .upsertingNodes (n :: rows)) (hfits : n.fits = true)
      (hnew : ∀ r ∈ t.changes.nodes.written,
        r.key rules ≠ (t.write.workspaceId, rules.lower n.name))
      (hfree : s.nodeHeld i (t.nodeRow s.db n) = false) :
      Upserts s i t { t with
        running := .upsertingNodes rows
        changes.nodes := t.changes.nodes.write [t.nodeRow s.db n] }
  | edge {e : Nat × Nat × EdgeInput} {rows : List (Nat × Nat × EdgeInput)}
      (hrunning : t.running = .upsertingEdges (e :: rows)) (hfits : e.2.2.fits = true)
      (hnew : ∀ r ∈ t.changes.edges.written,
        r.key rules ≠ (t.write.workspaceId, e.1, e.2.1, rules.lower e.2.2.relationship))
      (hfree : s.edgeHeld i (t.edgeRow s.db e) = false) :
      Upserts s i t { t with
        running := .upsertingEdges rows
        changes.edges := t.changes.edges.write [t.edgeRow s.db e] }

/-- The steps of a run that collects in time. -/
inductive Steps (s : State rules ν) (i : Nat) (t : Transaction rules ν) : State rules ν → Prop
  | advance {t' : Transaction rules ν} (h : Advance s i t t') : Steps s i t (s.put i t')
  | upsert {t' : Transaction rules ν} (h : Upserts s i t t') :
      Steps s i t { s.put i t' with db.nextId := s.db.nextId + 1 }
  | commit (hcomplete : t.complete = true) (hopen : t.committed = false) (hsweeps : t.Sweeps s.db) :
      Steps s i t { s.put i { t with committed := true } with db := t.changes.apply s.db }

section Inversion

variable {s s' : State rules ν} {i : Nat} {t t' : Transaction rules ν}

theorem execute_cases (h : t.execute s.db = some t') : Advance s i t t' := by
  unfold Transaction.execute at h
  cases htodo : t.todo with
  | nil =>
    rw [htodo] at h
    cases h
  | cons statement todo =>
    rw [htodo] at h
    obtain ⟨hrunning, h⟩ := Option.ite_none_right_eq_some.mp h
    cases statement with
    | deleteEdgeSources =>
      cases Option.some.inj h
      exact .deleteEdgeSources htodo hrunning
    | deleteNodeSources =>
      cases Option.some.inj h
      exact .deleteNodeSources htodo hrunning
    | deleteEdges =>
      cases Option.some.inj h
      exact .beginDelete htodo (.inl rfl) hrunning ⟨rfl, rfl⟩
    | deleteNodes =>
      cases Option.some.inj h
      exact .beginDelete htodo (.inr rfl) hrunning ⟨rfl, rfl⟩
    | upsertNodes =>
      cases Option.some.inj h
      exact .beginNodes htodo hrunning
    | insertNodeSources =>
      obtain ⟨hkeys, h⟩ := Option.ite_none_right_eq_some.mp h
      cases Option.some.inj h
      exact .insertNodeSources htodo hrunning hkeys
    | upsertEdges =>
      cases Option.some.inj h
      exact .beginEdges htodo hrunning
    | insertEdgeSources =>
      obtain ⟨hkeys, h⟩ := Option.ite_none_right_eq_some.mp h
      cases Option.some.inj h
      exact .insertEdgeSources htodo hrunning hkeys

theorem deleteRow_cases {k : Nat} (hok : t.Deletes s.db k)
    (h : t.deleteRow s.db (s.nodeHeld i) (s.edgeHeld i) k = some t') : Advance s i t t' := by
  unfold Transaction.deleteRow at h
  cases hrunning : t.running with
  | idle => simp [hrunning] at h
  | upsertingNodes rows => simp [hrunning] at h
  | upsertingEdges rows => simp [hrunning] at h
  | deletingEdges victims =>
    simp only [hrunning] at h
    simp only [Transaction.Deletes, hrunning] at hok
    obtain ⟨id, hid, h⟩ := Option.bind_eq_some_iff.mp h
    cases hfind : s.db.edges.find? fun e => e.id == id && e.workspaceId == t.write.workspaceId with
    | none =>
      simp only [hfind] at h
      cases Option.some.inj h
      exact .pass (by simp [hrunning, Running.nodeRows, Running.edgeRows]) ⟨rfl, rfl⟩
    | some e =>
      simp only [hfind] at h
      obtain ⟨hfree, h⟩ := Option.ite_none_left_eq_some.mp h
      cases Option.some.inj h
      have he := List.find?_some hfind
      simp only [Bool.and_eq_true, beq_iff_eq] at he
      exact .deleteEdge hrunning (List.mem_of_find?_eq_some hfind) he.2 (by simpa using hfree)
        (he.1 ▸ hok id hid)
  | deletingNodes victims =>
    simp only [hrunning] at h
    simp only [Transaction.Deletes, hrunning] at hok
    obtain ⟨id, hid, h⟩ := Option.bind_eq_some_iff.mp h
    cases hfind : s.db.nodes.find? fun n => n.id == id && n.workspaceId == t.write.workspaceId with
    | none =>
      simp only [hfind] at h
      cases Option.some.inj h
      exact .pass (by simp [hrunning, Running.nodeRows, Running.edgeRows]) ⟨rfl, rfl⟩
    | some n =>
      simp only [hfind] at h
      obtain ⟨hfree, h⟩ := Option.ite_none_left_eq_some.mp h
      cases Option.some.inj h
      have hn := List.find?_some hfind
      simp only [Bool.and_eq_true, beq_iff_eq] at hn
      exact .deleteNode hrunning (List.mem_of_find?_eq_some hfind) hn.2 (by simpa using hfree)
        (hn.1 ▸ hok id hid)

theorem upsertRow_cases (h : t.upsertRow s.db (s.nodeHeld i) (s.edgeHeld i) = some t') :
    Upserts s i t t' := by
  unfold Transaction.upsertRow at h
  cases hrunning : t.running with
  | idle => simp [hrunning] at h
  | deletingEdges victims => simp [hrunning] at h
  | deletingNodes victims => simp [hrunning] at h
  | upsertingNodes rows =>
    cases rows with
    | nil => simp [hrunning] at h
    | cons n rows =>
      simp only [hrunning] at h
      obtain ⟨hcond, h⟩ := Option.ite_none_right_eq_some.mp h
      cases Option.some.inj h
      simp only [Bool.and_eq_true, Bool.not_eq_true', List.any_eq_false, beq_iff_eq] at hcond
      exact .node hrunning hcond.1.1 hcond.1.2 hcond.2
  | upsertingEdges rows =>
    cases rows with
    | nil => simp [hrunning] at h
    | cons e rows =>
      simp only [hrunning] at h
      obtain ⟨hcond, h⟩ := Option.ite_none_right_eq_some.mp h
      cases Option.some.inj h
      simp only [Bool.and_eq_true, Bool.not_eq_true', List.any_eq_false, beq_iff_eq] at hcond
      exact .edge hrunning hcond.1.1 hcond.1.2 hcond.2

theorem step_cases {m : Move} (hok : CollectsInTime s m) (h : step s m = some s') :
    ∃ i t, s.transactions[i]? = some t ∧ Steps s i t s' := by
  cases m with
  | execute i =>
    obtain ⟨t, ht, h⟩ := Option.bind_eq_some_iff.mp h
    obtain ⟨t', ht', rfl⟩ := Option.map_eq_some_iff.mp h
    exact ⟨i, t, ht, .advance (execute_cases ht')⟩
  | deleteRow i k =>
    obtain ⟨t, ht, h⟩ := Option.bind_eq_some_iff.mp h
    obtain ⟨t', ht', rfl⟩ := Option.map_eq_some_iff.mp h
    exact ⟨i, t, ht, .advance (deleteRow_cases (hok t ht) ht')⟩
  | upsertRow i =>
    obtain ⟨t, ht, h⟩ := Option.bind_eq_some_iff.mp h
    obtain ⟨t', ht', rfl⟩ := Option.map_eq_some_iff.mp h
    exact ⟨i, t, ht, .upsert (upsertRow_cases ht')⟩
  | commit i =>
    obtain ⟨t, ht, h⟩ := Option.bind_eq_some_iff.mp h
    obtain ⟨hcond, h⟩ := Option.ite_none_right_eq_some.mp h
    cases Option.some.inj h
    simp only [Bool.and_eq_true, Bool.not_eq_true'] at hcond
    exact ⟨i, t, ht, .commit hcond.1 hcond.2 (hok t ht)⟩

end Inversion

end Overlap

end GmragApi.Graph

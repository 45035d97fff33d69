import GmragApi.GraphWrites
import GmragApi.TableChanges

/-! Transactions on the graph tables that overlap under READ COMMITTED. A statement sees the rows
that were committed before it began and those of its own transaction, and it waits for a row that
another open transaction has changed. -/

namespace GmragApi.Graph

variable {ν : Type} {rules : TextRules}

inductive Statement
  | deleteEdgeSources
  | deleteNodeSources
  | deleteEdges
  | deleteNodes
  | upsertNodes
  | insertNodeSources
  | upsertEdges
  | insertEdgeSources
  deriving DecidableEq

namespace Write

def workspaceId : Write rules ν → Nat
  | ingest workspaceId _ _ => workspaceId
  | delete workspaceId _ => workspaceId

def nodes : Write rules ν → List (NodeInput ν)
  | ingest _ _ batch => batch.nodes
  | delete _ _ => []

def edges : Write rules ν → List EdgeInput
  | ingest _ _ batch => batch.edges
  | delete _ _ => []

/-- Those of `delete_document`, or of `clear_document_output` and `bulk_upsert_graph`. -/
def statements : Write rules ν → List Statement
  | ingest _ _ _ =>
    [.deleteEdgeSources, .deleteNodeSources, .deleteEdges, .deleteNodes, .deleteEdges, .deleteNodes,
      .upsertNodes, .insertNodeSources, .upsertEdges, .insertEdgeSources]
  | delete _ _ => [.deleteEdgeSources, .deleteNodeSources, .deleteEdges, .deleteNodes]

/-- `WHERE workspace_id = $1 AND document_id = $2`. -/
def Owns (write : Write rules ν) (workspaceId documentId : Nat) : Prop :=
  workspaceId = write.workspaceId ∧ documentId = write.documentId

instance (write : Write rules ν) (workspaceId documentId : Nat) :
    Decidable (write.Owns workspaceId documentId) := inferInstanceAs (Decidable (_ ∧ _))

end Write

namespace Overlap

structure Changes (ν : Type) where
  nodes : TableChanges (GraphNode ν)
  edges : TableChanges GraphEdge
  nodeSources : TableChanges (NodeSource ν)
  edgeSources : TableChanges EdgeSource

namespace Changes

def none : Changes ν := ⟨.empty, .empty, .empty, .empty⟩

def apply (c : Changes ν) (db : Database ν) : Database ν where
  nodes := c.nodes.apply GraphNode.id db.nodes
  edges := c.edges.apply GraphEdge.id db.edges
  nodeSources := c.nodeSources.apply NodeSource.key db.nodeSources
  edgeSources := c.edgeSources.apply EdgeSource.key db.edgeSources
  nextId := db.nextId

/-- Deleting edges cascades to their sources. -/
def deleteEdges (c : Changes ν) (db : Database ν) (gone : List GraphEdge) : Changes ν :=
  { c with
    edges := c.edges.delete gone
    edgeSources := c.edgeSources.delete
      (db.edgeSources.filter fun s => gone.any (·.id == s.graphEdgeId)) }

/-- Deleting a node cascades to its edges and to its sources. -/
def deleteNode (c : Changes ν) (db : Database ν) (n : GraphNode ν) : Changes ν :=
  let c := c.deleteEdges db
    (db.edges.filter fun e => e.sourceNodeId == n.id || e.targetNodeId == n.id)
  { c with
    nodes := c.nodes.delete [n]
    nodeSources := c.nodeSources.delete (db.nodeSources.filter (·.graphNodeId == n.id)) }

end Changes

/-- The statement that a transaction is in, with the rows that it has still to come to. -/
inductive Running (ν : Type)
  | idle
  | deletingEdges (victims : List Nat)
  | deletingNodes (victims : List Nat)
  | upsertingNodes (rows : List (NodeInput ν))
  | upsertingEdges (rows : List (Nat × Nat × EdgeInput))

namespace Running

def nodeRows : Running ν → List (NodeInput ν)
  | upsertingNodes rows => rows
  | _ => []

def edgeRows : Running ν → List (Nat × Nat × EdgeInput)
  | upsertingEdges rows => rows
  | _ => []

def victims : Running ν → List Nat
  | deletingEdges victims => victims
  | deletingNodes victims => victims
  | _ => []

def finished (r : Running ν) : Bool :=
  r.victims.isEmpty && r.nodeRows.isEmpty && r.edgeRows.isEmpty

end Running

structure Transaction (rules : TextRules) (ν : Type) where
  write : Write rules ν
  todo : List Statement
  running : Running ν
  changes : Changes ν
  committed : Bool

namespace Transaction

def begin (write : Write rules ν) : Transaction rules ν :=
  ⟨write, write.statements, .idle, .none, false⟩

/-- `RETURNING id, lower(entity_name)`. -/
def nodeIds (t : Transaction rules ν) : NodeIds :=
  t.changes.nodes.written.map fun n => (rules.lower n.entityName, n.id)

def resolved (t : Transaction rules ν) : List (Nat × Nat × EdgeInput) :=
  resolveEdges rules t.nodeIds t.write.edges

/-- The `NOT EXISTS` of a `DELETE` is answered for all rows when the statement begins; a source that
is inserted takes the place of the one with its key. -/
def perform (t : Transaction rules ν) (seen : Database ν) :
    Statement → Option (Transaction rules ν)
  | .deleteEdgeSources =>
    let own := seen.edgeSources.filter fun s => t.write.Owns s.workspaceId s.documentId
    some { t with changes.edgeSources := t.changes.edgeSources.delete own }
  | .deleteNodeSources =>
    let own := seen.nodeSources.filter fun s => t.write.Owns s.workspaceId s.documentId
    some { t with changes.nodeSources := t.changes.nodeSources.delete own }
  | .deleteEdges =>
    let untracked := seen.edges.filter fun e =>
      e.workspaceId == t.write.workspaceId && !seen.edgeSources.any (·.graphEdgeId == e.id)
    some { t with running := .deletingEdges (untracked.map GraphEdge.id) }
  | .deleteNodes =>
    let untracked := seen.nodes.filter fun n =>
      n.workspaceId == t.write.workspaceId && !seen.nodeSources.any (·.graphNodeId == n.id) &&
        !seen.edges.any fun e => e.sourceNodeId == n.id || e.targetNodeId == n.id
    some { t with running := .deletingNodes (untracked.map GraphNode.id) }
  | .upsertNodes => some { t with running := .upsertingNodes t.write.nodes }
  | .insertNodeSources =>
    let rows := Database.newNodeSources rules t.write.workspaceId t.write.documentId t.nodeIds
      t.write.nodes
    if (rows.map NodeSource.key).Nodup then
      some { t with changes.nodeSources := t.changes.nodeSources.write rows }
    else none
  | .upsertEdges => some { t with running := .upsertingEdges t.resolved }
  | .insertEdgeSources =>
    let rows := Database.newEdgeSources rules seen t.write.workspaceId t.write.documentId t.resolved
    if (rows.map EdgeSource.key).Nodup then
      some { t with changes.edgeSources := t.changes.edgeSources.write rows }
    else none

/-- The next statement begins when the one before it has come to all of its rows. -/
def execute (t : Transaction rules ν) (db : Database ν) : Option (Transaction rules ν) :=
  match t.todo with
  | [] => none
  | statement :: todo =>
    if t.running.finished then
      { t with todo, running := .idle }.perform (t.changes.apply db) statement
    else none

/-- The version of the row that is committed now is checked once more, but not its sources. -/
def deleteRow (t : Transaction rules ν) (db : Database ν) (nodeHeld : GraphNode ν → Bool)
    (edgeHeld : GraphEdge → Bool) (k : Nat) : Option (Transaction rules ν) :=
  match t.running with
  | .deletingEdges victims =>
    victims[k]?.bind fun id =>
      let rest := { t with running := .deletingEdges (victims.eraseIdx k) }
      match db.edges.find? fun e => e.id == id && e.workspaceId == t.write.workspaceId with
      | none => some rest
      | some e =>
        if edgeHeld e then none else some { rest with changes := t.changes.deleteEdges db [e] }
  | .deletingNodes victims =>
    victims[k]?.bind fun id =>
      let rest := { t with running := .deletingNodes (victims.eraseIdx k) }
      match db.nodes.find? fun n => n.id == id && n.workspaceId == t.write.workspaceId with
      | none => some rest
      | some n =>
        if nodeHeld n then none else some { rest with changes := t.changes.deleteNode db n }
  | _ => none

/-- A statement fails at a row that does not fit, or whose key it has written before. -/
def upsertRow (t : Transaction rules ν) (db : Database ν) (nodeHeld : GraphNode ν → Bool)
    (edgeHeld : GraphEdge → Bool) : Option (Transaction rules ν) :=
  match t.running with
  | .upsertingNodes (n :: rows) =>
    let proposed : GraphNode ν :=
      ⟨db.nextId, t.write.workspaceId, n.name, n.entityType, n.description, n.embedding⟩
    let has := fun row : GraphNode ν => row.key rules == proposed.key rules
    let row := t.changes.nodes.upserted GraphNode.id GraphNode.update db.nodes has proposed
    if n.fits && !t.changes.nodes.written.any has && !nodeHeld row then
      some { t with
        running := .upsertingNodes rows
        changes.nodes := t.changes.nodes.write [row] }
    else none
  | .upsertingEdges (e :: rows) =>
    let proposed : GraphEdge :=
      ⟨db.nextId, t.write.workspaceId, e.1, e.2.1, e.2.2.relationship, e.2.2.description⟩
    let has := fun row : GraphEdge => row.key rules == proposed.key rules
    let row := t.changes.edges.upserted GraphEdge.id GraphEdge.update db.edges has proposed
    if e.2.2.fits && !t.changes.edges.written.any has && !edgeHeld row then
      some { t with
        running := .upsertingEdges rows
        changes.edges := t.changes.edges.write [row] }
    else none
  | _ => none

def complete (t : Transaction rules ν) : Bool := t.todo.isEmpty && t.running.finished

/-- Until it commits a transaction holds the rows that it has changed, and their keys. -/
def holdsNode (t : Transaction rules ν) (row : GraphNode ν) : Bool :=
  !t.committed && t.changes.nodes.rows.any fun r =>
    r.id == row.id || r.key rules == row.key rules

def holdsEdge (t : Transaction rules ν) (row : GraphEdge) : Bool :=
  !t.committed && t.changes.edges.rows.any fun r =>
    r.id == row.id || r.key rules == row.key rules

end Transaction

/-- The committed tables, and the transactions by their positions. -/
structure State (rules : TextRules) (ν : Type) where
  db : Database ν
  transactions : List (Transaction rules ν)

def start (db : Database ν) (writes : List (Write rules ν)) : State rules ν :=
  ⟨db, writes.map Transaction.begin⟩

/-- Another transaction holds the row. -/
def State.nodeHeld (s : State rules ν) (i : Nat) (row : GraphNode ν) : Bool :=
  (s.transactions.eraseIdx i).any (·.holdsNode row)

def State.edgeHeld (s : State rules ν) (i : Nat) (row : GraphEdge) : Bool :=
  (s.transactions.eraseIdx i).any (·.holdsEdge row)

def State.put (s : State rules ν) (i : Nat) (t : Transaction rules ν) : State rules ν :=
  { s with transactions := s.transactions.set i t }

inductive Move
  | execute (i : Nat)
  | deleteRow (i k : Nat)
  | upsertRow (i : Nat)
  | commit (i : Nat)

def step (s : State rules ν) : Move → Option (State rules ν)
  | .execute i => s.transactions[i]?.bind fun t => (t.execute s.db).map (s.put i)
  | .deleteRow i k =>
    s.transactions[i]?.bind fun t =>
      (t.deleteRow s.db (s.nodeHeld i) (s.edgeHeld i) k).map (s.put i)
  | .upsertRow i =>
    s.transactions[i]?.bind fun t =>
      (t.upsertRow s.db (s.nodeHeld i) (s.edgeHeld i)).map fun t =>
        { s.put i t with db.nextId := s.db.nextId + 1 }
  | .commit i =>
    s.transactions[i]?.bind fun t =>
      if t.complete && !t.committed then
        some { s.put i { t with committed := true } with db := t.changes.apply s.db }
      else none

/-- The writes that have committed. -/
def State.done (s : State rules ν) : List (Write rules ν) :=
  (s.transactions.filter (·.committed)).map Transaction.write

end Overlap

end GmragApi.Graph

import GmragApi.GraphBatch
import GmragApi.SqlText
import GmragApi.Transition
import GmragApi.Upsert
import Mathlib.Data.List.MinMax
import Mathlib.Data.List.Sort

/-! The graph tables: shared rows for entities and relationships, one source row beside them for
each document, the transactions that write them and the queries of the chat and of the graph
view. -/

namespace GmragApi.Graph

open Sql

structure GraphNode (ν : Type) where
  id : Nat
  workspaceId : Nat
  entityName : List Char
  entityType : Option (List Char)
  description : Option (List Char)
  embedding : Option ν
  deriving DecidableEq

structure GraphEdge where
  id : Nat
  workspaceId : Nat
  sourceNodeId : Nat
  targetNodeId : Nat
  relationship : List Char
  description : Option (List Char)
  deriving DecidableEq

structure NodeSource (ν : Type) where
  graphNodeId : Nat
  documentId : Nat
  workspaceId : Nat
  entityType : Option (List Char)
  description : Option (List Char)
  embedding : Option ν
  deriving DecidableEq

structure EdgeSource where
  graphEdgeId : Nat
  documentId : Nat
  workspaceId : Nat
  relationship : List Char
  description : Option (List Char)
  deriving DecidableEq

/-- Every row that is inserted takes an id that no row has had. -/
structure Database (ν : Type) where
  nodes : List (GraphNode ν)
  edges : List GraphEdge
  nodeSources : List (NodeSource ν)
  edgeSources : List EdgeSource
  nextId : Nat

variable {ν : Type}

def Database.empty : Database ν := ⟨[], [], [], [], 0⟩

/-- The unique index on `(workspace_id, lower(entity_name))`. -/
def GraphNode.key (rules : TextRules) (n : GraphNode ν) : Nat × List Char :=
  (n.workspaceId, rules.lower n.entityName)

/-- The unique index on `(workspace_id, source_node_id, target_node_id, lower(relationship))`. -/
def GraphEdge.key (rules : TextRules) (e : GraphEdge) : Nat × Nat × Nat × List Char :=
  (e.workspaceId, e.sourceNodeId, e.targetNodeId, rules.lower e.relationship)

def NodeSource.key (s : NodeSource ν) : Nat × Nat := (s.graphNodeId, s.documentId)

def EdgeSource.key (s : EdgeSource) : Nat × Nat := (s.graphEdgeId, s.documentId)

/-- `DO UPDATE` of `graph_nodes`: the name of the row stays. -/
def GraphNode.update (old new : GraphNode ν) : GraphNode ν :=
  { old with
    entityType := new.entityType.or old.entityType
    description := new.description.or old.description
    embedding :=
      if new.embedding.isNone then old.embedding
      else if old.embedding.isNone then new.embedding
      else if new.description.isSome then new.embedding
      else old.embedding }

def GraphEdge.update (old new : GraphEdge) : GraphEdge :=
  { old with description := new.description.or old.description }

def NodeSource.update (old new : NodeSource ν) : NodeSource ν :=
  { old with
    workspaceId := new.workspaceId
    entityType := new.entityType
    description := new.description
    embedding := new.embedding }

def EdgeSource.update (old new : EdgeSource) : EdgeSource :=
  { old with
    workspaceId := new.workspaceId
    relationship := new.relationship
    description := new.description }

/-- Rows of a workspace without a source go, a node only if no edge ends in it. -/
def deleteUntrackedGraphItems (db : Database ν) (workspaceId : Nat) : Database ν :=
  let edges := db.edges.filter fun e =>
    !(e.workspaceId == workspaceId && !db.edgeSources.any (·.graphEdgeId == e.id))
  { db with
    edges := edges
    nodes := db.nodes.filter fun n =>
      !(n.workspaceId == workspaceId && !db.nodeSources.any (·.graphNodeId == n.id) &&
        !edges.any fun e => e.sourceNodeId == n.id || e.targetNodeId == n.id) }

def clearDocumentOutput (db : Database ν) (workspaceId documentId : Nat) : Database ν :=
  deleteUntrackedGraphItems
    { db with
      edgeSources := db.edgeSources.filter fun s =>
        !(s.workspaceId == workspaceId && s.documentId == documentId)
      nodeSources := db.nodeSources.filter fun s =>
        !(s.workspaceId == workspaceId && s.documentId == documentId) }
    workspaceId

section Tables

def graphNodesEntityName : Column := (Column.varchar 255).required
def graphNodesEntityType : Column := Column.varchar 100
def graphNodesDescription : Column := Column.text
def graphNodeSourcesEntityType : Column := Column.varchar 100
def graphNodeSourcesDescription : Column := Column.text
def graphEdgesRelationship : Column := Column.text.required
def graphEdgesDescription : Column := Column.text
def graphEdgeSourcesRelationship : Column := Column.text
def graphEdgeSourcesDescription : Column := Column.text

end Tables

/-- The columns of `graph_nodes` take the row, and then those of its source do. The texts of
`from_extractions` end in no blank, so that none of them is cut. -/
def NodeInput.fits (n : NodeInput ν) : Bool :=
  graphNodesEntityName.accepts (some n.name) &&
    graphNodesEntityType.accepts n.entityType &&
    graphNodesDescription.accepts n.description

/-- The columns of `graph_edges` take the row, and then those of its source do. -/
def EdgeInput.fits (e : EdgeInput) : Bool :=
  graphEdgesRelationship.accepts (some e.relationship) &&
    graphEdgesDescription.accepts e.description

/-- The ids come back under the keys of their rows. -/
abbrev NodeIds := List (List Char × Nat)

def proposedNodes (db : Database ν) (workspaceId : Nat) (nodes : List (NodeInput ν)) :
    List (GraphNode ν) :=
  nodes.mapIdx fun i n =>
    ⟨db.nextId + i, workspaceId, n.name, n.entityType, n.description, n.embedding⟩

def bulkUpsertGraphNodes (rules : TextRules) (db : Database ν) (workspaceId : Nat)
    (nodes : List (NodeInput ν)) : Option (Database ν × NodeIds) :=
  if nodes.all NodeInput.fits then
    (Upsert.statement (GraphNode.key rules) GraphNode.update db.nodes
      (proposedNodes db workspaceId nodes)).map fun table =>
        ({ db with nodes := table, nextId := db.nextId + nodes.length },
          nodes.filterMap fun n =>
            (table.find? fun row => row.key rules == (workspaceId, rules.lower n.name)).map
              fun row => (rules.lower row.entityName, row.id))
  else none

def insertGraphNodeSources (rules : TextRules) (db : Database ν) (workspaceId documentId : Nat)
    (nodeIds : NodeIds) (nodes : List (NodeInput ν)) : Option (Database ν) :=
  let rows := nodes.filterMap fun n =>
    (nodeIds.lookup (normalizeKey rules n.name)).map fun id =>
      (⟨id, documentId, workspaceId, n.entityType, n.description, n.embedding⟩ : NodeSource ν)
  (Upsert.statement NodeSource.key NodeSource.update db.nodeSources rows).map fun table =>
    { db with nodeSources := table }

/-- The edges whose two ends have an id. -/
def resolveEdges (rules : TextRules) (nodeIds : NodeIds) (edges : List EdgeInput) :
    List (Nat × Nat × EdgeInput) :=
  edges.filterMap fun e =>
    (nodeIds.lookup (normalizeKey rules e.source)).bind fun sourceId =>
      (nodeIds.lookup (normalizeKey rules e.target)).map fun targetId => (sourceId, targetId, e)

def proposedEdges (db : Database ν) (workspaceId : Nat) (edges : List (Nat × Nat × EdgeInput)) :
    List GraphEdge :=
  edges.mapIdx fun i e =>
    ⟨db.nextId + i, workspaceId, e.1, e.2.1, e.2.2.relationship, e.2.2.description⟩

def bulkUpsertGraphEdges (rules : TextRules) (db : Database ν) (workspaceId : Nat)
    (edges : List (Nat × Nat × EdgeInput)) : Option (Database ν) :=
  if edges.all fun e => e.2.2.fits then
    (Upsert.statement (GraphEdge.key rules) GraphEdge.update db.edges
      (proposedEdges db workspaceId edges)).map fun table =>
        { db with edges := table, nextId := db.nextId + edges.length }
  else none

def insertGraphEdgeSources (rules : TextRules) (db : Database ν) (workspaceId documentId : Nat)
    (edges : List (Nat × Nat × EdgeInput)) : Option (Database ν) :=
  let rows := edges.filterMap fun e =>
    (db.edges.find? fun row =>
      row.key rules == (workspaceId, e.1, e.2.1, rules.lower e.2.2.relationship)).map fun row =>
        (⟨row.id, documentId, workspaceId, e.2.2.relationship, e.2.2.description⟩ : EdgeSource)
  (Upsert.statement EdgeSource.key EdgeSource.update db.edgeSources rows).map fun table =>
    { db with edgeSources := table }

def bulkUpsertGraph {rules : TextRules} (db : Database ν) (workspaceId documentId : Nat)
    (batch : GraphWriteBatch rules ν) : Option (Database ν) :=
  (bulkUpsertGraphNodes rules (deleteUntrackedGraphItems db workspaceId) workspaceId
    batch.nodes).bind fun (db, nodeIds) =>
    (insertGraphNodeSources rules db workspaceId documentId nodeIds batch.nodes).bind fun db =>
      let edges := resolveEdges rules nodeIds batch.edges
      (bulkUpsertGraphEdges rules db workspaceId edges).bind fun db =>
        insertGraphEdgeSources rules db workspaceId documentId edges

/-- A committed transaction on the graph tables: the one of an ingestion run, or a deletion. -/
inductive Write (rules : TextRules) (ν : Type)
  | ingest (workspaceId documentId : Nat) (batch : GraphWriteBatch rules ν)
  | delete (workspaceId documentId : Nat)

def Write.documentId {rules : TextRules} : Write rules ν → Nat
  | ingest _ documentId _ => documentId
  | delete _ documentId => documentId

def step {rules : TextRules} (db : Database ν) : Write rules ν → Option (Database ν)
  | .ingest workspaceId documentId batch =>
    bulkUpsertGraph (clearDocumentOutput db workspaceId documentId) workspaceId documentId batch
  | .delete workspaceId documentId => some (clearDocumentOutput db workspaceId documentId)

/-- The source of the first visible document that names the entity. -/
def nodeProvenance (db : Database ν) (workspaceId : Nat) (visible : List Nat) (id : Nat) :
    Option (NodeSource ν) :=
  (db.nodeSources.filter fun s =>
    s.graphNodeId == id && s.workspaceId == workspaceId && visible.contains s.documentId).argmin
      NodeSource.documentId

def edgeProvenance (db : Database ν) (workspaceId : Nat) (visible : List Nat) (id : Nat) :
    Option EdgeSource :=
  (db.edgeSources.filter fun s =>
    s.graphEdgeId == id && s.workspaceId == workspaceId && visible.contains s.documentId).argmin
      EdgeSource.documentId

structure GraphNodeRow where
  id : Nat
  entityName : List Char
  entityType : Option (List Char)
  description : Option (List Char)
  deriving DecidableEq

structure GraphEdgeRow where
  id : Nat
  sourceName : List Char
  targetName : List Char
  relationship : List Char
  description : Option (List Char)
  deriving DecidableEq

structure GraphLinkResponse where
  id : Nat
  source : Nat
  target : Nat
  relationship : List Char
  description : Option (List Char)
  deriving DecidableEq

structure GraphContext where
  nodes : List GraphNodeRow
  edges : List GraphEdgeRow
  deriving DecidableEq

structure GraphResponse where
  nodes : List GraphNodeRow
  links : List GraphLinkResponse
  deriving DecidableEq

/-- The nodes of a workspace that a visible document names, with what its source says. -/
def visibleNodes (db : Database ν) (workspaceId : Nat) (visible : List Nat) :
    List (GraphNodeRow × Option ν) :=
  db.nodes.filterMap fun n =>
    if n.workspaceId = workspaceId then
      (nodeProvenance db workspaceId visible n.id).map fun s =>
        (⟨n.id, n.entityName, s.entityType, s.description⟩, s.embedding)
    else none

def orderByName (rules : TextRules) (rows : List GraphNodeRow) : List GraphNodeRow :=
  rows.mergeSort fun a b => rules.le a.entityName b.entityName

def fetchWorkspaceGraph (rules : TextRules) (db : Database ν) (workspaceId : Nat)
    (visible : List Nat) : GraphResponse :=
  if visible.isEmpty then ⟨[], []⟩
  else
    { nodes := orderByName rules ((visibleNodes db workspaceId visible).map Prod.fst)
      links :=
        (db.edges.filterMap fun e =>
          if e.workspaceId = workspaceId then
            (edgeProvenance db workspaceId visible e.id).map fun s =>
              (⟨e.id, e.sourceNodeId, e.targetNodeId, s.relationship, s.description⟩ :
                GraphLinkResponse)
          else none).mergeSort fun a b => decide (a.id ≤ b.id) }

def ilike (rules : TextRules) (text pattern : List Char) : Bool :=
  like (rules.lower pattern) (rules.lower text)

def searchPattern (userMessage : List Char) : List Char := '%' :: trim userMessage ++ ['%']

/-- The visible nodes that have a vector, each with its distance. -/
def embeddedNodes {δ : Type} (db : Database ν) (workspaceId : Nat) (visible : List Nat)
    (distance : ν → δ) : List (GraphNodeRow × δ) :=
  (visibleNodes db workspaceId visible).filterMap fun row =>
    row.2.map fun embedding => (row.1, distance embedding)

def matchingNodes (rules : TextRules) (db : Database ν) (workspaceId : Nat) (visible : List Nat)
    (pattern : List Char) : List GraphNodeRow :=
  ((visibleNodes db workspaceId visible).map Prod.fst).filter fun row =>
    ilike rules row.entityName pattern || ilike rules (row.description.getD []) pattern

def nodeLimit : Nat := 5

/-- The edges of the query that end in one of the nodes, with the names of their ends. -/
def contextEdges (db : Database ν) (workspaceId : Nat) (visible : List Nat)
    (nodeIds : List Nat) : List GraphEdgeRow :=
  let node? (id : Nat) := db.nodes.find? fun n => n.id == id && n.workspaceId == workspaceId
  (db.edges.mergeSort fun a b => decide (a.id ≤ b.id)).filterMap fun e =>
    if e.workspaceId = workspaceId ∧ (e.sourceNodeId ∈ nodeIds ∨ e.targetNodeId ∈ nodeIds) then
      (node? e.sourceNodeId).bind fun source =>
        (node? e.targetNodeId).bind fun target =>
          (edgeProvenance db workspaceId visible e.id).map fun s =>
            ⟨e.id, source.entityName, target.entityName, s.relationship, s.description⟩
    else none

def graphContextOf (db : Database ν) (workspaceId : Nat) (visible : List Nat)
    (nodes : List GraphNodeRow) : GraphContext :=
  if nodes.isEmpty then ⟨[], []⟩
  else ⟨nodes, contextEdges db workspaceId visible (nodes.map GraphNodeRow.id)⟩

/-- `ranked` is the order in which the vector search returns its rows: by distance, and in any
order where distances are equal. -/
def fetchGraphContext {δ : Type} [LinearOrder δ] (rules : TextRules) (db : Database ν)
    (workspaceId : Nat) (distance : ν → δ) (userMessage : List Char) (visible : List Nat)
    (ranked : List (GraphNodeRow × δ)) : Option GraphContext :=
  if visible.isEmpty then some ⟨[], []⟩
  else if ranked.Perm (embeddedNodes db workspaceId visible distance) ∧
      ranked.Pairwise (fun a b => a.2 ≤ b.2) then
    let nodes := (ranked.take nodeLimit).map Prod.fst
    some (graphContextOf db workspaceId visible
      (if nodes.isEmpty then
        (orderByName rules
          (matchingNodes rules db workspaceId visible (searchPattern userMessage))).take nodeLimit
      else nodes))
  else none

end GmragApi.Graph

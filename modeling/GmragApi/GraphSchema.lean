import GmragApi.BatchRecording
import GmragApi.GraphDisclosure
import GmragApi.GraphParsing

/-! Which extractions give a batch that the text columns of the graph tables take: a text is cut to
no length and freed of no character on its way from the answer of the model to the statements of the
transaction. -/

namespace GmragApi.Graph

open Gather Sql

variable {ν : Type} {rules : TextRules}

/-- The row of the node and the row of its source. -/
def NodeInput.meetsSchema (n : NodeInput ν) : Bool :=
  n.fits && graphNodeSourcesEntityType.accepts n.entityType &&
    graphNodeSourcesDescription.accepts n.description

def EdgeInput.meetsSchema (e : EdgeInput) : Bool :=
  e.fits && graphEdgeSourcesRelationship.accepts (some e.relationship) &&
    graphEdgeSourcesDescription.accepts e.description

def GraphWriteBatch.meetsSchema (batch : GraphWriteBatch rules ν) : Bool :=
  batch.nodes.all NodeInput.meetsSchema && batch.edges.all EdgeInput.meetsSchema

/-- The first spelling of an entity, and the first type and description of it. -/
def entityFits (mentions : List Mention) : Bool :=
  (mentions.head?.all fun first => fitsIn 255 (trim first.name)) &&
    (keptType mentions).all (fitsIn 100) && (keptDescription mentions).all clean

/-- The relationship and the description of the first edge of its kind. -/
def relationFits (relations : List EdgeInput) : Bool :=
  relations.head?.all fun first =>
    clean (trim first.relationship) && (normalizeOptional first.description).all clean

def ExtractionFits (rules : TextRules) (elements : List GraphElement) : Prop :=
  (∀ mention ∈ mentionsOf rules elements,
    entityFits (eventsAt (mentionsOf rules elements) mention.1) = true) ∧
  ∀ relation ∈ relationsOf rules elements,
    relationFits (eventsAt (relationsOf rules elements) relation.1) = true

instance (rules : TextRules) (elements : List GraphElement) :
    Decidable (ExtractionFits rules elements) :=
  inferInstanceAs (Decidable (_ ∧ _))

theorem keptType_neat {mentions : List Mention} {text : List Char}
    (h : keptType mentions = some text) : trim text = text := by
  obtain ⟨mention, -, hmention⟩ := List.exists_of_findSome?_eq_some h
  exact (neat_of_normalizeOptional hmention).2

theorem node_meetsSchema (ν : Type) (first : Mention) (rest : List Mention) :
    (⟨trim first.name, keptType (first :: rest), keptDescription (first :: rest), none⟩ :
      NodeInput ν).meetsSchema = entityFits (first :: rest) := by
  have hname : graphNodesEntityName.accepts (some (trim first.name)) =
      fitsIn 255 (trim first.name) := accepts_varchar (trim_trim first.name) 255 true
  have htype : (Column.varchar 100).accepts (keptType (first :: rest)) =
      (keptType (first :: rest)).all (fitsIn 100) :=
    accepts_optional rfl fun text htext => accepts_varchar (keptType_neat htext) 100 false
  have hdescription : Column.text.accepts (keptDescription (first :: rest)) =
      (keptDescription (first :: rest)).all clean :=
    accepts_optional rfl fun text _ => accepts_text text false
  simp only [NodeInput.meetsSchema, NodeInput.fits, graphNodesEntityType, graphNodesDescription,
    graphNodeSourcesEntityType, graphNodeSourcesDescription, hname, htype, hdescription,
    entityFits, List.head?_cons, Option.all_some]
  cases fitsIn 255 (trim first.name) <;> cases (keptType (first :: rest)).all (fitsIn 100) <;>
    cases (keptDescription (first :: rest)).all clean <;> rfl

theorem edge_meetsSchema (first : EdgeInput) (rest : List EdgeInput) :
    first.normalize.meetsSchema = relationFits (first :: rest) := by
  have hrelationship : ∀ notNull, Column.accepts ⟨none, notNull⟩ (some (trim first.relationship)) =
      clean (trim first.relationship) := accepts_text (trim first.relationship)
  have hdescription : Column.text.accepts (normalizeOptional first.description) =
      (normalizeOptional first.description).all clean :=
    accepts_optional rfl fun text _ => accepts_text text false
  simp only [EdgeInput.meetsSchema, EdgeInput.fits, EdgeInput.normalize, graphEdgesRelationship,
    graphEdgesDescription, graphEdgeSourcesRelationship, graphEdgeSourcesDescription,
    Column.required, hdescription]
  simp only [Column.text] at hrelationship ⊢
  rw [hrelationship, hrelationship]
  simp only [relationFits, List.head?_cons, Option.all_some]
  cases clean (trim first.relationship) <;>
    cases (normalizeOptional first.description).all clean <;> rfl

/-- Whether the columns take the batch is decided by what is said first of each entity and of
each relation. -/
theorem fromExtractions_meetsSchema_iff (extractions : List (Int × List GraphElement)) :
    (fromExtractions rules ν extractions).meetsSchema = true ↔
      ExtractionFits rules (extractions.flatMap Prod.snd) := by
  rw [GraphWriteBatch.meetsSchema, Bool.and_eq_true, List.all_eq_true, List.all_eq_true]
  refine and_congr ?_ ?_
  · rw [forall_eventsAt_iff (P := fun mentions => entityFits mentions = true)]
    constructor
    · intro h key first rest hevents
      rw [← node_meetsSchema ν]
      exact h _ ((mem_nodes_iff extractions _).mpr ⟨key, first, rest, hevents, rfl⟩)
    · intro h n hn
      obtain ⟨key, first, rest, hevents, rfl⟩ := (mem_nodes_iff extractions n).mp hn
      rw [node_meetsSchema ν]
      exact h key first rest hevents
  · rw [forall_eventsAt_iff (P := fun relations => relationFits relations = true)]
    constructor
    · intro h key first rest hevents
      rw [← edge_meetsSchema]
      refine h _ ((mem_edges_iff extractions _).mpr ⟨key, first, ?_, rfl⟩)
      rw [hevents, List.head?_cons]
    · intro h e he
      obtain ⟨key, first, hfirst, rfl⟩ := (mem_edges_iff extractions e).mp he
      obtain ⟨rest, hevents⟩ := List.head?_eq_some_iff.mp hfirst
      rw [edge_meetsSchema first rest]
      exact h key first rest hevents

/-- Of any answers of the model, those that give a batch the schema takes. -/
theorem answers_meet_schema_iff (fromStr : List Char → Option Json)
    (answers : List (Int × List Char)) :
    (fromExtractions rules ν (graphResults fromStr answers)).meetsSchema = true ↔
      ExtractionFits rules ((graphResults fromStr answers).flatMap Prod.snd) :=
  fromExtractions_meetsSchema_iff (graphResults fromStr answers)

section Saved

variable {batch saved : GraphWriteBatch rules ν} {db : Database ν}

/-- The columns of a source row take what those of its row take. -/
theorem NodeInput.meetsSchema_eq_fits (n : NodeInput ν) : n.meetsSchema = n.fits := by
  have hcolumns : n.fits = true → graphNodeSourcesEntityType.accepts n.entityType = true ∧
      graphNodeSourcesDescription.accepts n.description = true := by
    intro h
    simp only [NodeInput.fits, Bool.and_eq_true] at h
    exact ⟨h.1.2, h.2⟩
  rw [Bool.eq_iff_iff, NodeInput.meetsSchema, Bool.and_eq_true, Bool.and_eq_true]
  exact ⟨fun h => h.1.1, fun h => ⟨⟨h, (hcolumns h).1⟩, (hcolumns h).2⟩⟩

theorem EdgeInput.meetsSchema_eq_fits (e : EdgeInput) : e.meetsSchema = e.fits := by
  have hcolumns : e.fits = true → graphEdgeSourcesRelationship.accepts (some e.relationship) = true ∧
      graphEdgeSourcesDescription.accepts e.description = true := by
    intro h
    simp only [EdgeInput.fits, Bool.and_eq_true] at h
    exact ⟨(accepts_text e.relationship false).trans
      ((accepts_text e.relationship true).symm.trans h.1), h.2⟩
  rw [Bool.eq_iff_iff, EdgeInput.meetsSchema, Bool.and_eq_true, Bool.and_eq_true]
  exact ⟨fun h => h.1.1, fun h => ⟨⟨h, (hcolumns h).1⟩, (hcolumns h).2⟩⟩

theorem GraphWriteBatch.meetsSchema_iff : batch.meetsSchema = true ↔
    batch.nodes.all NodeInput.fits = true ∧ batch.edges.all EdgeInput.fits = true := by
  rw [GraphWriteBatch.meetsSchema, Bool.and_eq_true]
  simp only [List.all_eq_true, NodeInput.meetsSchema_eq_fits, EdgeInput.meetsSchema_eq_fits]

/-- The order of a batch does not matter to the columns. -/
theorem meetsSchema_ordered (extractions : List (Int × List GraphElement)) :
    (GraphWriteBatch.fromExtractionsOrdered rules ν extractions).meetsSchema =
      (fromExtractions rules ν extractions).meetsSchema := by
  rw [GraphWriteBatch.meetsSchema, GraphWriteBatch.meetsSchema,
    (fromExtractions_nodes_perm rules extractions).all_eq,
    (fromExtractions_edges_perm rules extractions).all_eq]

/-- An ingestion is saved just when the columns take its rows and `lower` keeps them apart. -/
theorem step_ingest_isSome_iff (hbatch : batch.Built) (hwf : db.WellFormed rules)
    (workspaceId documentId : Nat) :
    (step db (.ingest workspaceId documentId batch)).isSome ↔
      (batch.nodes.all NodeInput.fits = true ∧ batch.lowerNames.Nodup) ∧
        batch.found.all EdgeInput.fits = true ∧ batch.RelationshipsApart :=
  Database.bulkUpsertGraph_isSome_iff
    ((hwf.dropSources workspaceId documentId).deleteUntracked workspaceId) hbatch.keys_nodup

/-- Answers that fit the columns are saved on every graph, as long as `lower` keeps apart what
`to_lowercase` does. -/
theorem fitting_answers_saved (fromStr : List Char → Option Json)
    (answers : List (Int × List Char))
    (hfits : ExtractionFits rules ((graphResults fromStr answers).flatMap Prod.snd))
    (hbatch : batch =
      GraphWriteBatch.fromExtractionsOrdered rules ν (graphResults fromStr answers))
    (hnames : batch.lowerNames.Nodup) (hapart : batch.RelationshipsApart)
    (hwf : db.WellFormed rules) (workspaceId documentId : Nat) :
    ∃ db', step db (.ingest workspaceId documentId batch) = some db' := by
  have hmeets : batch.meetsSchema = true := by
    rw [hbatch, meetsSchema_ordered]
    exact (fromExtractions_meetsSchema_iff _).mpr hfits
  obtain ⟨hnodes, hedges⟩ := GraphWriteBatch.meetsSchema_iff.mp hmeets
  have hfound : batch.found.all EdgeInput.fits = true :=
    List.all_eq_true.mpr fun e he => List.all_eq_true.mp hedges e (List.mem_of_mem_filter he)
  exact Option.isSome_iff_exists.mp
    ((step_ingest_isSome_iff ⟨_, .inl hbatch⟩ hwf workspaceId documentId).mpr
      ⟨⟨hnodes, hnames⟩, hfound, hapart⟩)

end Saved

section Refused

variable {batch saved : GraphWriteBatch rules ν}

/-- The vectors change no text. -/
theorem attachNodeEmbeddings_unfit {vectors : List ν}
    (hsaved : attachNodeEmbeddings batch vectors = some saved)
    (h : batch.nodes.all NodeInput.fits = false) : saved.nodes.all NodeInput.fits = false := by
  unfold attachNodeEmbeddings at hsaved
  split at hsaved
  next hlength =>
    cases hsaved
    obtain ⟨n, hn, hunfit⟩ := List.all_eq_false.mp h
    obtain ⟨i, hi, rfl⟩ := List.getElem_of_mem hn
    refine List.all_eq_false.mpr ⟨{ batch.nodes[i] with embedding := some vectors[i] }, ?_, hunfit⟩
    exact List.mem_iff_getElem.mpr ⟨i, by simp [hlength, hi], by simp⟩
  next => cases hsaved

/-- A batch with a node that its columns refuse is refused whatever the tables hold. -/
theorem step_ingest_of_unfit (h : batch.nodes.all NodeInput.fits = false) (db : Database ν)
    (workspaceId documentId : Nat) : step db (.ingest workspaceId documentId batch) = none := by
  have hnodes : ∀ db : Database ν, bulkUpsertGraphNodes rules db workspaceId batch.nodes = none :=
    fun db => if_neg (by rw [h]; exact Bool.false_ne_true)
  simp only [step, bulkUpsertGraph, hnodes, Option.bind_none]

end Refused

section LongName

def longName : List Char := List.replicate 256 'a'

/-- The text of an array that holds one node, the one with the long name. -/
def longNameAnswer : List Char :=
  "[\x7b\"type\":\"node\",\"name\":\"".toList ++ longName ++ "\"\x7d]".toList

def readLongName (text : List Char) : Option Json :=
  if text = longNameAnswer then
    some (.array [.object [("name".toList, .string longName), ("type".toList, .string "node".toList)]])
  else none

theorem graphResults_longName :
    graphResults readLongName [(0, longNameAnswer)] = [(0, [.node longName none none])] := by
  have hpayload : extractJsonPayload longNameAnswer = longNameAnswer := by decide +kernel
  have helement : (rawGraphElementsFromValue (.array [.object [("name".toList, .string longName),
      ("type".toList, .string "node".toList)]])).filterMap normalizeGraphElement =
        [.node longName none none] := by
    rw [rawGraphElementsFromValue]
    decide +kernel
  simp only [graphResults, parseGraphElements, hpayload, readLongName, if_pos, Option.map_some,
    helement, List.filterMap_cons, List.filterMap_nil]

/-- One name of 256 characters, and the transaction of the document never commits. -/
theorem long_name_never_saves :
    (fromExtractions asciiRules Nat (graphResults readLongName [(0, longNameAnswer)])).meetsSchema =
        false ∧
      ∀ vectors saved,
        attachNodeEmbeddings
            (fromExtractions asciiRules Nat (graphResults readLongName [(0, longNameAnswer)]))
            vectors = some saved →
          ∀ db workspaceId documentId, step db (.ingest workspaceId documentId saved) = none := by
  rw [graphResults_longName]
  refine ⟨by decide +kernel, fun vectors saved hsaved db workspaceId documentId => ?_⟩
  exact step_ingest_of_unfit (attachNodeEmbeddings_unfit hsaved (by decide +kernel)) db workspaceId
    documentId

end LongName

end GmragApi.Graph

import GmragApi.GraphMerge
import Mathlib.Data.List.Sort

/-! The batch that `from_extractions` makes of all the elements, in the order of its two maps, and
the texts and vectors that go with its nodes. -/

namespace GmragApi.Graph

open Gather

variable {ν : Type} {rules : TextRules}

/-- `Ord` of `String`: the bytes of UTF-8 stand in the order of the code points. -/
def textLe : List Char → List Char → Bool
  | [], _ => true
  | _ :: _, [] => false
  | a :: as, b :: bs => if a = b then textLe as bs else decide (a.toNat < b.toNat)

/-- The order of the three texts of an edge key, the first that differs deciding. -/
def edgeKeyLe (a b : EdgeKey) : Bool :=
  if a.1 ≠ b.1 then textLe a.1 b.1
  else if a.2.1 ≠ b.2.1 then textLe a.2.1 b.2.1
  else textLe a.2.2 b.2.2

/-- `into_values` of a `BTreeMap`: the values in the order of their keys. -/
def intoValues {κ α : Type} (le : κ → κ → Bool) (entries : List (κ × α)) : List α :=
  (entries.mergeSort fun a b => le a.1 b.1).map Prod.snd

theorem intoValues_perm {κ α : Type} (le : κ → κ → Bool) (entries : List (κ × α)) :
    (intoValues le entries).Perm (entries.map Prod.snd) :=
  (List.mergeSort_perm entries _).map Prod.snd

theorem intoValues_nil {κ α : Type} (le : κ → κ → Bool) : intoValues le ([] : List (κ × α)) = [] := by
  unfold intoValues
  rw [List.mergeSort_nil, List.map_nil]

theorem intoValues_singleton {κ α : Type} (le : κ → κ → Bool) (entry : κ × α) :
    intoValues le [entry] = [entry.2] := by
  unfold intoValues
  rw [List.mergeSort_singleton, List.map_singleton]

/-- `from_extractions` with the nodes and edges as the two maps give them out. -/
def GraphWriteBatch.fromExtractionsOrdered (rules : TextRules) (ν : Type)
    (extractions : List (Int × List GraphElement)) : GraphWriteBatch rules ν where
  nodes := intoValues textLe (draftOf rules ν extractions).nodes
  edges := intoValues edgeKeyLe (draftOf rules ν extractions).edges
  linked := by
    intro e he
    have hedge := (intoValues_perm _ _).mem_iff.mp he
    have hmem := fun n =>
      (intoValues_perm textLe (draftOf rules ν extractions).nodes).mem_iff (a := n)
    obtain ⟨⟨n, hn, hsource⟩, m, hm, htarget⟩ :=
      (Graph.fromExtractions rules ν extractions).linked e hedge
    exact ⟨⟨n, (hmem n).mpr hn, hsource⟩, m, (hmem m).mpr hm, htarget⟩

def nodeTextForEmbedding (name : List Char) (description : Option (List Char)) : List Char :=
  let name := trim name
  match (description.map trim).filter fun value => !value.isEmpty with
  | some description => name ++ '\n' :: description
  | none => name

def nodeTextsForEmbedding (batch : GraphWriteBatch rules ν) : List (List Char) :=
  batch.nodes.map fun node => nodeTextForEmbedding node.name node.description

def NodeInput.key (rules : TextRules) (n : NodeInput ν) : List Char := normalizeKey rules n.name

def EdgeInput.key (rules : TextRules) (e : EdgeInput) : EdgeKey :=
  (normalizeKey rules e.source, normalizeKey rules e.target, normalizeKey rules e.relationship)

/-- What a node element with the key gives for a field, if it is not blank. -/
def GraphElement.given (rules : TextRules) (field : Mention → Option (List Char))
    (key : List Char) : GraphElement → Option (List Char)
  | .node name entityType description =>
    if normalizeKey rules name = key then
      normalizeOptional (field ⟨name, entityType, description⟩)
    else none
  | .edge .. => none

/-- The element is a node with the key, and the key is not blank. -/
def GraphElement.NamesNode (rules : TextRules) (key : List Char) : GraphElement → Prop
  | .node name _ _ => normalizeKey rules name = key ∧ key ≠ []
  | .edge .. => False

/-- The element is an edge with the key, none of its three parts blank. -/
def GraphElement.NamesEdge (rules : TextRules) (key : EdgeKey) : GraphElement → Prop
  | .node .. => False
  | .edge relationship source target _ =>
    EdgeInput.key rules ⟨source, target, relationship, none⟩ = key ∧
      key.1 ≠ [] ∧ key.2.1 ≠ [] ∧ key.2.2 ≠ []

/-- What the batch of the elements is to be. -/
structure Constructed (rules : TextRules) (elements : List GraphElement)
    (batch : GraphWriteBatch rules ν) : Prop where
  nodeKeys : (batch.nodes.map (NodeInput.key rules)).Nodup
  edgeKeys : (batch.edges.map (EdgeInput.key rules)).Nodup
  ends : ∀ e ∈ batch.edges, (∃ n ∈ batch.nodes, n.key rules = (e.key rules).1) ∧
    ∃ n ∈ batch.nodes, n.key rules = (e.key rules).2.1
  nodes : ∀ key, (∃ n ∈ batch.nodes, n.key rules = key) ↔
    (∃ element ∈ elements, element.NamesNode rules key) ∨
      ∃ e ∈ batch.edges, (e.key rules).1 = key ∨ (e.key rules).2.1 = key
  edges : ∀ key, (∃ e ∈ batch.edges, e.key rules = key) ↔
    ∃ element ∈ elements, element.NamesEdge rules key
  types : ∀ n ∈ batch.nodes,
    n.entityType = elements.findSome? (GraphElement.given rules Mention.entityType (n.key rules))
  descriptions : ∀ n ∈ batch.nodes,
    n.description =
      elements.findSome? (GraphElement.given rules Mention.description (n.key rules))

section Construction

variable (rules) (extractions : List (Int × List GraphElement))

theorem fromExtractions_nodes_perm :
    (GraphWriteBatch.fromExtractionsOrdered rules ν extractions).nodes.Perm
      (Graph.fromExtractions rules ν extractions).nodes :=
  intoValues_perm _ _

theorem fromExtractions_edges_perm :
    (GraphWriteBatch.fromExtractionsOrdered rules ν extractions).edges.Perm
      (Graph.fromExtractions rules ν extractions).edges :=
  intoValues_perm _ _

variable {rules extractions}

theorem mem_keyed {key : List Char} {mention mention' : Mention} :
    (key, mention') ∈ mention.keyed rules ↔
      mention' = mention ∧ normalizeKey rules mention.name = key ∧ key ≠ [] := by
  unfold Mention.keyed
  dsimp only
  split
  next hempty =>
    rw [List.isEmpty_iff] at hempty
    refine iff_of_false List.not_mem_nil fun ⟨_, hkey, hne⟩ => hne (hkey.symm.trans hempty)
  next hne =>
    rw [List.isEmpty_iff] at hne
    rw [List.mem_singleton, Prod.mk.injEq]
    constructor
    · rintro ⟨rfl, rfl⟩
      exact ⟨rfl, rfl, hne⟩
    · rintro ⟨rfl, rfl, -⟩
      exact ⟨rfl, rfl⟩

theorem mem_relations {key : EdgeKey} {e : EdgeInput} {element : GraphElement} :
    (key, e) ∈ element.relations rules ↔
      element.NamesEdge rules key ∧
        element = .edge e.relationship e.source e.target e.description := by
  cases element with
  | node name entityType description =>
    exact iff_of_false List.not_mem_nil fun h => h.1
  | edge relationship source target description =>
    simp only [GraphElement.relations, GraphElement.NamesEdge, EdgeInput.key]
    split
    next hblank =>
      simp only [Bool.or_eq_true, List.isEmpty_iff] at hblank
      refine iff_of_false List.not_mem_nil ?_
      rintro ⟨⟨rfl, hsource, htarget, hrelationship⟩, -⟩
      rcases hblank with (h | h) | h
      · exact hsource h
      · exact htarget h
      · exact hrelationship h
    next hkept =>
      simp only [Bool.or_eq_true, List.isEmpty_iff, not_or] at hkept
      obtain ⟨⟨hsource, htarget⟩, hrelationship⟩ := hkept
      rw [List.mem_singleton, Prod.mk.injEq]
      constructor
      · rintro ⟨rfl, rfl⟩
        exact ⟨⟨rfl, hsource, htarget, hrelationship⟩, rfl⟩
      · rintro ⟨⟨rfl, -⟩, heq⟩
        cases heq
        exact ⟨rfl, rfl⟩

theorem edge_mentions (relationship source target : List Char) (description : Option (List Char))
    {key : List Char} {mention : Mention} :
    (key, mention) ∈ (GraphElement.edge relationship source target description).mentions rules ↔
      (∃ k, (GraphElement.edge relationship source target description).NamesEdge rules k) ∧
        ((mention = ⟨source, none, none⟩ ∧ normalizeKey rules source = key) ∨
          (mention = ⟨target, none, none⟩ ∧ normalizeKey rules target = key)) ∧ key ≠ [] := by
  constructor
  · intro h
    obtain ⟨⟨k, e⟩, hrelation, hmention⟩ := List.mem_flatMap.mp h
    obtain ⟨hnames, heq⟩ := mem_relations.mp hrelation
    cases heq
    refine ⟨⟨k, hnames⟩, ?_⟩
    rcases List.mem_append.mp hmention with hmention | hmention
    · obtain ⟨hmention, hkey, hne⟩ := mem_keyed.mp hmention
      exact ⟨.inl ⟨hmention, hkey⟩, hne⟩
    · obtain ⟨hmention, hkey, hne⟩ := mem_keyed.mp hmention
      exact ⟨.inr ⟨hmention, hkey⟩, hne⟩
  · rintro ⟨⟨k, hnames⟩, hmention, hne⟩
    refine List.mem_flatMap.mpr ⟨(k, ⟨source, target, relationship, description⟩),
      mem_relations.mpr ⟨hnames, rfl⟩, List.mem_append.mpr ?_⟩
    rcases hmention with ⟨rfl, hkey⟩ | ⟨rfl, hkey⟩
    · exact .inl (mem_keyed.mpr ⟨rfl, hkey, hne⟩)
    · exact .inr (mem_keyed.mpr ⟨rfl, hkey, hne⟩)

/-- Every mention stands under the key of its name. -/
theorem mention_key {elements : List GraphElement} {key : List Char} {mention : Mention}
    (h : (key, mention) ∈ mentionsOf rules elements) :
    normalizeKey rules mention.name = key ∧ key ≠ [] := by
  obtain ⟨element, -, h⟩ := List.mem_flatMap.mp h
  cases element with
  | node name entityType description =>
    obtain ⟨rfl, hkey⟩ := mem_keyed.mp h
    exact hkey
  | edge relationship source target description =>
    obtain ⟨-, ⟨rfl, hkey⟩ | ⟨rfl, hkey⟩, hne⟩ := (edge_mentions ..).mp h
    · exact ⟨hkey, hne⟩
    · exact ⟨hkey, hne⟩

theorem exists_mention_iff {elements : List GraphElement} {key : List Char} :
    (∃ mention, (key, mention) ∈ mentionsOf rules elements) ↔
      (∃ element ∈ elements, element.NamesNode rules key) ∨
        ∃ element ∈ elements, ∃ k, element.NamesEdge rules k ∧ (k.1 = key ∨ k.2.1 = key) := by
  have helement : ∀ element : GraphElement, (∃ mention, (key, mention) ∈ element.mentions rules) ↔
      element.NamesNode rules key ∨
        ∃ k, element.NamesEdge rules k ∧ (k.1 = key ∨ k.2.1 = key) := by
    intro element
    cases element with
    | node name entityType description =>
      have hno : ¬ ∃ k, (GraphElement.node name entityType description).NamesEdge rules k ∧
          (k.1 = key ∨ k.2.1 = key) := fun ⟨_, h, _⟩ => h
      rw [or_iff_left hno]
      simp only [GraphElement.mentions, mem_keyed, exists_eq_left, GraphElement.NamesNode]
    | edge relationship source target description =>
      simp only [edge_mentions, GraphElement.NamesNode, false_or]
      constructor
      · rintro ⟨mention, ⟨k, hk⟩, hend, hne⟩
        obtain ⟨rfl, -⟩ := id hk
        rcases hend with ⟨-, hkey⟩ | ⟨-, hkey⟩
        · exact ⟨_, hk, .inl hkey⟩
        · exact ⟨_, hk, .inr hkey⟩
      · rintro ⟨k, hk, hend⟩
        obtain ⟨rfl, hsource, htarget, -⟩ := id hk
        rcases hend with rfl | rfl
        · exact ⟨_, ⟨_, hk⟩, .inl ⟨rfl, rfl⟩, hsource⟩
        · exact ⟨_, ⟨_, hk⟩, .inr ⟨rfl, rfl⟩, htarget⟩
  simp only [mentionsOf, List.mem_flatMap]
  constructor
  · rintro ⟨mention, element, hmem, hmention⟩
    rcases (helement element).mp ⟨mention, hmention⟩ with h | h
    · exact .inl ⟨element, hmem, h⟩
    · exact .inr ⟨element, hmem, h⟩
  · rintro (⟨element, hmem, h⟩ | ⟨element, hmem, h⟩)
    · obtain ⟨mention, hmention⟩ := (helement element).mpr (.inl h)
      exact ⟨mention, element, hmem, hmention⟩
    · obtain ⟨mention, hmention⟩ := (helement element).mpr (.inr h)
      exact ⟨mention, element, hmem, hmention⟩

theorem findSome?_mentions (field : Mention → Option (List Char)) (element : GraphElement)
    (hedge : ∀ name, field ⟨name, none, none⟩ = none) {key : List Char} (hne : key ≠ []) :
    (eventsAt (element.mentions rules) key).findSome?
        (fun mention => normalizeOptional (field mention)) = element.given rules field key := by
  cases element with
  | node name entityType description =>
    simp only [GraphElement.mentions, Mention.keyed, GraphElement.given]
    by_cases hkey : normalizeKey rules name = key
    · rw [if_neg (by rw [hkey, List.isEmpty_iff]; exact hne), if_pos hkey]
      simp [eventsAt, hkey]
    · rw [if_neg hkey]
      split <;> simp [eventsAt, hkey]
  | edge relationship source target description =>
    rw [GraphElement.given, List.findSome?_eq_none_iff]
    intro mention hmention
    obtain ⟨-, ⟨rfl, -⟩ | ⟨rfl, -⟩, -⟩ := (edge_mentions ..).mp (mem_eventsAt.mp hmention)
    · rw [hedge]
      rfl
    · rw [hedge]
      rfl

/-- A field of the node of a key is the first that is given for it, and only node elements give
one. -/
theorem findSome?_eventsAt (rules : TextRules) (field : Mention → Option (List Char))
    (elements : List GraphElement) (hedge : ∀ name, field ⟨name, none, none⟩ = none) {key : List Char} (hne : key ≠ []) :
    (eventsAt (mentionsOf rules elements) key).findSome?
        (fun mention => normalizeOptional (field mention)) =
      elements.findSome? (GraphElement.given rules field key) := by
  induction elements with
  | nil => rfl
  | cons element elements ih =>
    have hsplit : eventsAt (mentionsOf rules (element :: elements)) key =
        eventsAt (element.mentions rules) key ++ eventsAt (mentionsOf rules elements) key := by
      simp [mentionsOf, eventsAt]
    rw [hsplit, List.findSome?_append, List.findSome?_cons, ih,
      findSome?_mentions field element hedge hne]
    cases element.given rules field key <;> rfl

/-- A node of the batch and the mentions of its key. -/
theorem mem_nodes_key_iff {n : NodeInput ν} :
    n ∈ (Graph.fromExtractions rules ν extractions).nodes ↔
      ∃ first rest, eventsAt (mentionsOf rules (extractions.flatMap Prod.snd)) (n.key rules) =
          first :: rest ∧
        n = ⟨trim first.name, keptType (first :: rest), keptDescription (first :: rest), none⟩ := by
  rw [mem_nodes_iff]
  constructor
  · rintro ⟨key, first, rest, hevents, rfl⟩
    have hfirst := mention_key (mem_eventsAt.mp (hevents ▸ List.mem_cons_self))
    refine ⟨first, rest, ?_, rfl⟩
    rw [NodeInput.key, normalizeKey_trim, hfirst.1, hevents]
  · rintro ⟨first, rest, hevents, hn⟩
    exact ⟨_, first, rest, hevents, hn⟩

theorem exists_node_iff {key : List Char} :
    (∃ n ∈ (Graph.fromExtractions rules ν extractions).nodes, n.key rules = key) ↔
      ∃ mention, (key, mention) ∈ mentionsOf rules (extractions.flatMap Prod.snd) := by
  constructor
  · rintro ⟨n, hn, rfl⟩
    obtain ⟨first, rest, hevents, -⟩ := mem_nodes_key_iff.mp hn
    exact ⟨first, mem_eventsAt.mp (hevents ▸ List.mem_cons_self)⟩
  · rintro ⟨mention, hmention⟩
    have hmem := mem_eventsAt.mpr hmention
    cases hevents : eventsAt (mentionsOf rules (extractions.flatMap Prod.snd)) key with
    | nil => exact absurd (hevents ▸ hmem) List.not_mem_nil
    | cons first rest =>
      have hfirst := mention_key (mem_eventsAt.mp (hevents ▸ List.mem_cons_self))
      refine ⟨_, (mem_nodes_iff extractions _).mpr ⟨key, first, rest, hevents, rfl⟩, ?_⟩
      rw [NodeInput.key, normalizeKey_trim, hfirst.1]

theorem EdgeInput.normalize_key (e : EdgeInput) : e.normalize.key rules = e.key rules := by
  simp only [EdgeInput.key, EdgeInput.normalize, normalizeKey_trim]

/-- An entry of the edge map is the first relation of its key. -/
theorem mem_draft_edges {key : EdgeKey} {e : EdgeInput} :
    (key, e) ∈ (draftOf rules ν extractions).edges ↔
      ∃ first, (eventsAt (relationsOf rules (extractions.flatMap Prod.snd)) key).head? =
        some first ∧ first.normalize = e := by
  rw [draftOf_eq, mem_gather_iff, total_of_keep fun _ _ => rfl, Option.map_eq_some_iff]

theorem relation_key {key : EdgeKey} {e : EdgeInput}
    (h : (key, e) ∈ relationsOf rules (extractions.flatMap Prod.snd)) :
    e.key rules = key ∧ ∃ element ∈ extractions.flatMap Prod.snd, element.NamesEdge rules key := by
  obtain ⟨element, hmem, hrelation⟩ := List.mem_flatMap.mp h
  obtain ⟨hnames, rfl⟩ := mem_relations.mp hrelation
  exact ⟨hnames.1, _, hmem, hnames⟩

theorem draft_edges_key {entry : EdgeKey × EdgeInput}
    (h : entry ∈ (draftOf rules ν extractions).edges) : entry.2.key rules = entry.1 := by
  obtain ⟨first, hfirst, heq⟩ := mem_draft_edges.mp h
  have hmem := mem_eventsAt.mp (List.mem_of_head? hfirst)
  rw [← heq, EdgeInput.normalize_key, (relation_key hmem).1]

theorem exists_edge_iff {key : EdgeKey} :
    (∃ e ∈ (Graph.fromExtractions rules ν extractions).edges, e.key rules = key) ↔
      ∃ element ∈ extractions.flatMap Prod.snd, element.NamesEdge rules key := by
  constructor
  · rintro ⟨e, he, rfl⟩
    obtain ⟨entry, hentry, rfl⟩ := List.mem_map.mp he
    obtain ⟨first, hfirst, -⟩ := mem_draft_edges.mp hentry
    rw [draft_edges_key hentry]
    exact (relation_key (mem_eventsAt.mp (List.mem_of_head? hfirst))).2
  · rintro ⟨element, hmem, hnames⟩
    cases element with
    | node name entityType description => exact hnames.elim
    | edge relationship source target description =>
      have hrelation : (key, (⟨source, target, relationship, description⟩ : EdgeInput)) ∈
          relationsOf rules (extractions.flatMap Prod.snd) :=
        List.mem_flatMap.mpr ⟨_, hmem, mem_relations.mpr ⟨hnames, rfl⟩⟩
      cases hevents : eventsAt (relationsOf rules (extractions.flatMap Prod.snd)) key with
      | nil => exact absurd (hevents ▸ mem_eventsAt.mpr hrelation) List.not_mem_nil
      | cons first rest =>
        have hentry : (key, first.normalize) ∈ (draftOf rules ν extractions).edges :=
          mem_draft_edges.mpr ⟨first, by rw [hevents]; rfl, rfl⟩
        exact ⟨first.normalize, List.mem_map_of_mem hentry, draft_edges_key hentry⟩

theorem nodes_key_nodup :
    ((Graph.fromExtractions rules ν extractions).nodes.map (NodeInput.key rules)).Nodup := by
  have hkeys : (Graph.fromExtractions rules ν extractions).nodes.map (NodeInput.key rules) =
      (draftOf rules ν extractions).nodes.map Prod.fst := by
    have hlinked : (draftOf rules ν extractions).Linked rules := draftOf_linked rules extractions
    rw [Graph.fromExtractions, List.map_map]
    exact List.map_congr_left fun entry hentry => (hlinked.keys entry hentry).symm
  rw [hkeys, draftOf_eq]
  exact gather_keys_nodup ..

theorem edges_key_nodup :
    ((Graph.fromExtractions rules ν extractions).edges.map (EdgeInput.key rules)).Nodup := by
  have hkeys : (Graph.fromExtractions rules ν extractions).edges.map (EdgeInput.key rules) =
      (draftOf rules ν extractions).edges.map Prod.fst := by
    rw [Graph.fromExtractions, List.map_map]
    exact List.map_congr_left fun entry hentry => draft_edges_key hentry
  rw [hkeys, draftOf_eq]
  exact gather_keys_nodup ..

theorem constructed (rules : TextRules) (ν : Type) (extractions : List (Int × List GraphElement)) :
    Constructed rules (extractions.flatMap Prod.snd)
      (GraphWriteBatch.fromExtractionsOrdered rules ν extractions) := by
  have hnodes := fun n : NodeInput ν =>
    (fromExtractions_nodes_perm rules extractions).mem_iff (a := n)
  have hedges := fun e : EdgeInput =>
    (fromExtractions_edges_perm (ν := ν) rules extractions).mem_iff (a := e)
  have hfield : ∀ n ∈ (GraphWriteBatch.fromExtractionsOrdered rules ν extractions).nodes,
      ∃ first rest, eventsAt (mentionsOf rules (extractions.flatMap Prod.snd)) (n.key rules) =
          first :: rest ∧ n.key rules ≠ [] ∧
        n = ⟨trim first.name, keptType (first :: rest), keptDescription (first :: rest), none⟩ := by
    intro n hn
    obtain ⟨first, rest, hevents, heq⟩ := mem_nodes_key_iff.mp ((hnodes n).mp hn)
    have hfirst := mention_key (mem_eventsAt.mp (hevents ▸ List.mem_cons_self))
    exact ⟨first, rest, hevents, hfirst.2, heq⟩
  refine
    { nodeKeys := ((fromExtractions_nodes_perm rules extractions).map _).nodup_iff.mpr
        nodes_key_nodup
      edgeKeys := ((fromExtractions_edges_perm rules extractions).map _).nodup_iff.mpr
        edges_key_nodup
      ends := (GraphWriteBatch.fromExtractionsOrdered rules ν extractions).linked
      nodes := fun key => ?_
      edges := fun key => ?_
      types := fun n hn => ?_
      descriptions := fun n hn => ?_ }
  · simp only [hnodes, hedges]
    rw [exists_node_iff, exists_mention_iff]
    refine or_congr_right ?_
    constructor
    · rintro ⟨element, hmem, k, hnames, hend⟩
      obtain ⟨e, he, rfl⟩ := (exists_edge_iff (ν := ν)).mpr ⟨element, hmem, hnames⟩
      exact ⟨e, he, hend⟩
    · rintro ⟨e, he, hend⟩
      obtain ⟨element, hmem, hnames⟩ := exists_edge_iff.mp ⟨e, he, rfl⟩
      exact ⟨element, hmem, _, hnames, hend⟩
  · simp only [hedges]
    exact exists_edge_iff
  · obtain ⟨first, rest, hevents, hne, heq⟩ := hfield n hn
    have htype := findSome?_eventsAt rules Mention.entityType (extractions.flatMap Prod.snd)
      (fun _ => rfl) hne
    rw [← htype, hevents, heq]
    rfl
  · obtain ⟨first, rest, hevents, hne, heq⟩ := hfield n hn
    have hdescription := findSome?_eventsAt rules Mention.description (extractions.flatMap Prod.snd)
      (fun _ => rfl) hne
    rw [← hdescription, hevents, heq]
    rfl

end Construction

/-- The batch of one bare node element. -/
theorem fromExtractions_single (rules : TextRules) (ν : Type) (index : Int) (name : List Char)
    (hkey : normalizeKey rules name ≠ []) :
    (GraphWriteBatch.fromExtractionsOrdered rules ν [(index, [.node name none none])]).nodes =
        [⟨trim name, none, none, none⟩] ∧
      (GraphWriteBatch.fromExtractionsOrdered rules ν [(index, [.node name none none])]).edges =
        [] := by
  have hdraft : draftOf rules ν [(index, [.node name none none])] =
      ⟨[(normalizeKey rules name, ⟨trim name, none, none, none⟩)], []⟩ := by
    have hblank : ¬ (normalizeKey rules name).isEmpty = true := by
      rw [List.isEmpty_iff]
      exact hkey
    have hmerge : mergeNode rules ([] : List (List Char × NodeInput ν)) name none none =
        [(normalizeKey rules name, ⟨trim name, none, none, none⟩)] := by
      simp [mergeNode, hblank, NodeInput.fill, normalizeOptional]
    exact congrArg (fun nodes => (⟨nodes, []⟩ : Draft ν)) hmerge
  constructor
  · exact (congrArg (fun draft : Draft ν => intoValues textLe draft.nodes) hdraft).trans
      (intoValues_singleton ..)
  · exact (congrArg (fun draft : Draft ν => intoValues edgeKeyLe draft.edges) hdraft).trans
      (intoValues_nil _)

/-- The batch with its vectors: each node has the one that stands where its text does. -/
structure InOrder (batch : GraphWriteBatch rules ν) (embeddings : List ν)
    (attached : GraphWriteBatch rules ν) : Prop where
  edges : attached.edges = batch.edges
  count : attached.nodes.length = batch.nodes.length
  texts : (nodeTextsForEmbedding batch).length = batch.nodes.length
  nodes : ∀ (i : Nat) (n : NodeInput ν), batch.nodes[i]? = some n →
    (nodeTextsForEmbedding batch)[i]? = some (nodeTextForEmbedding n.name n.description) ∧
      attached.nodes[i]? = some { n with embedding := embeddings[i]? }

theorem attached_inOrder {batch attached : GraphWriteBatch rules ν} {embeddings : List ν}
    (h : attachNodeEmbeddings batch embeddings = some attached) :
    InOrder batch embeddings attached := by
  unfold attachNodeEmbeddings at h
  split at h
  next hlength =>
    cases Option.some.inj h
    refine ⟨rfl, by simp [hlength], by simp [nodeTextsForEmbedding], fun i n hn => ?_⟩
    obtain ⟨hi, rfl⟩ := List.getElem?_eq_some_iff.mp hn
    have hvector : i < embeddings.length := by omega
    constructor
    · simp [nodeTextsForEmbedding, hi]
    · simp [hi, hvector]
  next => cases h

theorem attachNodeEmbeddings_isSome (batch : GraphWriteBatch rules ν) (embeddings : List ν) :
    (attachNodeEmbeddings batch embeddings).isSome ↔ embeddings.length = batch.nodes.length := by
  unfold attachNodeEmbeddings
  split
  next hlength => simp [hlength]
  next hlength => simp [hlength]

/-- `from_extractions`, and the texts and vectors of its nodes. -/
theorem batch_construction (rules : TextRules) (ν : Type)
    (extractions : List (Int × List GraphElement)) :
    let batch := GraphWriteBatch.fromExtractionsOrdered rules ν extractions
    Constructed rules (extractions.flatMap Prod.snd) batch ∧
      (∀ embeddings, (attachNodeEmbeddings batch embeddings).isSome ↔
        embeddings.length = batch.nodes.length) ∧
      ∀ embeddings, ∀ attached ∈ attachNodeEmbeddings batch embeddings,
        InOrder batch embeddings attached :=
  ⟨constructed rules ν extractions, fun embeddings => attachNodeEmbeddings_isSome _ embeddings,
    fun _ _ h => attached_inOrder h⟩

end GmragApi.Graph

import GmragApi.GraphBatch
import GmragApi.Gather

/-! What `from_extractions` keeps of each entity and of each relation: the first spelling, the
first type and the first description that is not blank. -/

namespace GmragApi.Graph

open Gather

variable {ν : Type} (rules : TextRules)

/-- One place where an element names an entity. -/
structure Mention where
  name : List Char
  entityType : Option (List Char)
  description : Option (List Char)
  deriving DecidableEq

/-- A mention without a name counts for nothing. -/
def Mention.keyed (mention : Mention) : List (List Char × Mention) :=
  let key := normalizeKey rules mention.name
  if key.isEmpty then [] else [(key, mention)]

abbrev EdgeKey := List Char × List Char × List Char

/-- An edge, unless one of its three names is blank. -/
def GraphElement.relations : GraphElement → List (EdgeKey × EdgeInput)
  | .node .. => []
  | .edge relationship source target description =>
    let key := (normalizeKey rules source, normalizeKey rules target,
      normalizeKey rules relationship)
    if key.1.isEmpty || key.2.1.isEmpty || key.2.2.isEmpty then []
    else [(key, ⟨source, target, relationship, description⟩)]

def GraphElement.mentions : GraphElement → List (List Char × Mention)
  | .node name entityType description => Mention.keyed rules ⟨name, entityType, description⟩
  | .edge relationship source target description =>
    (GraphElement.relations rules (.edge relationship source target description)).flatMap
      fun relation => Mention.keyed rules ⟨relation.2.source, none, none⟩ ++
        Mention.keyed rules ⟨relation.2.target, none, none⟩

def mentionsOf (elements : List GraphElement) : List (List Char × Mention) :=
  elements.flatMap (GraphElement.mentions rules)

def relationsOf (elements : List GraphElement) : List (EdgeKey × EdgeInput) :=
  elements.flatMap (GraphElement.relations rules)

def Mention.start (mention : Mention) : NodeInput ν := ⟨trim mention.name, none, none, none⟩

def NodeInput.takeMention (n : NodeInput ν) (mention : Mention) : NodeInput ν :=
  n.fill mention.entityType mention.description

def EdgeInput.normalize (e : EdgeInput) : EdgeInput :=
  ⟨trim e.source, trim e.target, trim e.relationship, normalizeOptional e.description⟩

/-- The first type that is not blank. -/
def keptType (mentions : List Mention) : Option (List Char) :=
  mentions.findSome? fun mention => normalizeOptional mention.entityType

def keptDescription (mentions : List Mention) : Option (List Char) :=
  mentions.findSome? fun mention => normalizeOptional mention.description

variable {rules}

theorem mergeNode_eq_foldl (rules : TextRules) (nodes : List (List Char × NodeInput ν))
    (mention : Mention) :
    mergeNode rules nodes mention.name mention.entityType mention.description =
      (mention.keyed rules).foldl (put Mention.start NodeInput.takeMention) nodes := by
  unfold mergeNode Mention.keyed
  dsimp only
  split
  · rfl
  · rfl

theorem draft_add_eq (draft : Draft ν) (element : GraphElement) :
    draft.add rules element =
      ⟨(element.mentions rules).foldl (put Mention.start NodeInput.takeMention) draft.nodes,
        (element.relations rules).foldl (put EdgeInput.normalize fun kept _ => kept)
          draft.edges⟩ := by
  cases element with
  | node name entityType description =>
    have hnodes := mergeNode_eq_foldl rules draft.nodes ⟨name, entityType, description⟩
    simp only [Draft.add, GraphElement.mentions, GraphElement.relations, List.foldl_nil]
    rw [← hnodes]
  | edge relationship source target description =>
    have hsource := mergeNode_eq_foldl rules draft.nodes ⟨source, none, none⟩
    have htarget := mergeNode_eq_foldl rules
      (mergeNode rules draft.nodes source none none) ⟨target, none, none⟩
    simp only [Draft.add, GraphElement.mentions, GraphElement.relations]
    split
    · rfl
    · simp only [List.flatMap_singleton, List.foldl_append, List.foldl_cons, List.foldl_nil]
      rw [← hsource, ← htarget]
      rw [put_of_keep fun _ _ => rfl]
      rfl

theorem draftOf_eq (extractions : List (Int × List GraphElement)) :
    draftOf rules ν extractions =
      ⟨gather Mention.start NodeInput.takeMention
          (mentionsOf rules (extractions.flatMap Prod.snd)),
        gather EdgeInput.normalize (fun kept _ => kept)
          (relationsOf rules (extractions.flatMap Prod.snd))⟩ := by
  have hrun : ∀ (elements : List GraphElement) (draft : Draft ν),
      elements.foldl (Draft.add rules) draft =
        ⟨(mentionsOf rules elements).foldl (put Mention.start NodeInput.takeMention) draft.nodes,
          (relationsOf rules elements).foldl (put EdgeInput.normalize fun kept _ => kept)
            draft.edges⟩ := by
    intro elements
    induction elements with
    | nil => exact fun draft => rfl
    | cons element elements ih =>
      intro draft
      rw [List.foldl_cons, ih, draft_add_eq]
      simp only [mentionsOf, relationsOf, List.flatMap_cons, List.foldl_append]
  exact hrun _ ⟨[], []⟩

theorem foldl_takeMention (mentions : List Mention) (n : NodeInput ν) :
    mentions.foldl NodeInput.takeMention n =
      { n with
        entityType := n.entityType.or (keptType mentions)
        description := n.description.or (keptDescription mentions) } := by
  induction mentions generalizing n with
  | nil => simp [keptType, keptDescription]
  | cons mention mentions ih =>
    have hfirst : ∀ (field : Option (List Char)) (f : Mention → Option (List Char)),
        (field.or (f mention)).or (mentions.findSome? f) =
          field.or ((mention :: mentions).findSome? f) := by
      intro field f
      rw [Option.or_assoc, List.findSome?_cons]
      cases f mention <;> rfl
    rw [List.foldl_cons, ih]
    simp only [NodeInput.takeMention, NodeInput.fill, keptType, keptDescription]
    rw [hfirst n.entityType fun mention => normalizeOptional mention.entityType,
      hfirst n.description fun mention => normalizeOptional mention.description]

/-- The nodes of the batch, one for each entity that is mentioned. -/
theorem mem_nodes_iff (extractions : List (Int × List GraphElement)) (n : NodeInput ν) :
    n ∈ (fromExtractions rules ν extractions).nodes ↔
      ∃ key first rest,
        eventsAt (mentionsOf rules (extractions.flatMap Prod.snd)) key = first :: rest ∧
          n = ⟨trim first.name, keptType (first :: rest), keptDescription (first :: rest),
            none⟩ := by
  have hentry : n ∈ (fromExtractions rules ν extractions).nodes ↔
      ∃ key, total Mention.start NodeInput.takeMention
        (eventsAt (mentionsOf rules (extractions.flatMap Prod.snd)) key) = some n := by
    simp only [fromExtractions, draftOf_eq, List.mem_map, Prod.exists, exists_eq_right,
      mem_gather_iff]
  rw [hentry]
  refine exists_congr fun key => ?_
  cases hevents : eventsAt (mentionsOf rules (extractions.flatMap Prod.snd)) key with
  | nil => simp [total]
  | cons first rest =>
    rw [total, foldl_takeMention, Option.some_inj]
    constructor
    · rintro rfl
      exact ⟨first, rest, rfl, by simp [Mention.start]⟩
    · rintro ⟨first', rest', heq, rfl⟩
      cases heq
      simp [Mention.start]

/-- The edges of the batch, each the first one with its ends and its relationship. -/
theorem mem_edges_iff (extractions : List (Int × List GraphElement)) (e : EdgeInput) :
    e ∈ (fromExtractions rules ν extractions).edges ↔
      ∃ key first,
        (eventsAt (relationsOf rules (extractions.flatMap Prod.snd)) key).head? = some first ∧
          e = first.normalize := by
  have hentry : e ∈ (fromExtractions rules ν extractions).edges ↔
      ∃ key, total EdgeInput.normalize (fun kept _ => kept)
        (eventsAt (relationsOf rules (extractions.flatMap Prod.snd)) key) = some e := by
    simp only [fromExtractions, draftOf_eq, List.mem_map]
    constructor
    · rintro ⟨entry, hmem, rfl⟩
      exact ⟨entry.1, (mem_gather_iff _ _ _).mp hmem⟩
    · rintro ⟨key, htotal⟩
      exact ⟨(key, e), (mem_gather_iff _ _ _).mpr htotal, rfl⟩
  rw [hentry]
  refine exists_congr fun key => ?_
  rw [total_of_keep fun _ _ => rfl, Option.map_eq_some_iff]
  exact exists_congr fun first => and_congr_right fun _ => eq_comm

end GmragApi.Graph

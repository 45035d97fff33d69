import GmragApi.Text

/-! What the graph extraction of one document comes to: the elements of its chunks are merged by
name, and every edge has its two end nodes in the batch. -/

namespace GmragApi.Graph

/-- Texts as the two sides read them: `str::to_lowercase`, and `lower` and the order of the
collation in the database. -/
structure TextRules where
  toLowercase : List Char → List Char
  lower : List Char → List Char
  le : List Char → List Char → Bool
  le_total : ∀ a b, le a b || le b a
  le_trans : ∀ a b c, le a b → le b c → le a c
  le_antisymm : ∀ a b, le a b → le b a → a = b

def normalizeKey (rules : TextRules) (value : List Char) : List Char :=
  rules.toLowercase (trim value)

def normalizeOptional (value : Option (List Char)) : Option (List Char) :=
  (value.map trim).filter fun value => !value.isEmpty

inductive GraphElement
  | node (name : List Char) (entityType description : Option (List Char))
  | edge (relationship source target : List Char) (description : Option (List Char))
  deriving DecidableEq

/-- `ν` are the embedding vectors. -/
structure NodeInput (ν : Type) where
  name : List Char
  entityType : Option (List Char)
  description : Option (List Char)
  embedding : Option ν
  deriving DecidableEq

structure EdgeInput where
  source : List Char
  target : List Char
  relationship : List Char
  description : Option (List Char)
  deriving DecidableEq

variable {ν : Type}

/-- A field that has no value yet takes the new one. -/
def NodeInput.fill (n : NodeInput ν) (entityType description : Option (List Char)) : NodeInput ν :=
  { n with
    entityType := n.entityType.or (normalizeOptional entityType)
    description := n.description.or (normalizeOptional description) }

/-- The two maps of `from_extractions`, by their keys. -/
structure Draft (ν : Type) where
  nodes : List (List Char × NodeInput ν)
  edges : List ((List Char × List Char × List Char) × EdgeInput)

def mergeNode (rules : TextRules) (nodes : List (List Char × NodeInput ν)) (name : List Char)
    (entityType description : Option (List Char)) : List (List Char × NodeInput ν) :=
  let key := normalizeKey rules name
  if key.isEmpty then nodes
  else if nodes.any (·.1 == key) then
    nodes.map fun entry =>
      if entry.1 == key then (entry.1, entry.2.fill entityType description) else entry
  else nodes ++ [(key, NodeInput.fill ⟨trim name, none, none, none⟩ entityType description)]

def Draft.add (rules : TextRules) (draft : Draft ν) : GraphElement → Draft ν
  | .node name entityType description =>
    { draft with nodes := mergeNode rules draft.nodes name entityType description }
  | .edge relationship source target description =>
    let sourceKey := normalizeKey rules source
    let targetKey := normalizeKey rules target
    let relationshipKey := normalizeKey rules relationship
    if sourceKey.isEmpty || targetKey.isEmpty || relationshipKey.isEmpty then draft
    else
      let key := (sourceKey, targetKey, relationshipKey)
      { nodes := mergeNode rules (mergeNode rules draft.nodes source none none) target none none
        edges :=
          if draft.edges.any (·.1 == key) then draft.edges
          else draft.edges ++
            [(key, ⟨trim source, trim target, trim relationship, normalizeOptional description⟩)] }

/-- Some node of the batch has the key of the name. -/
def Names (rules : TextRules) (nodes : List (NodeInput ν)) (name : List Char) : Prop :=
  ∃ n ∈ nodes, normalizeKey rules n.name = normalizeKey rules name

structure GraphWriteBatch (rules : TextRules) (ν : Type) where
  nodes : List (NodeInput ν)
  edges : List EdgeInput
  linked : ∀ e ∈ edges, Names rules nodes e.source ∧ Names rules nodes e.target

section Linked

variable {rules : TextRules}

theorem normalizeKey_trim (value : List Char) :
    normalizeKey rules (trim value) = normalizeKey rules value := by
  rw [normalizeKey, trim_trim, normalizeKey]

/-- Every node stands under the key of its name, and every edge has its end nodes. -/
structure Draft.Linked (rules : TextRules) (draft : Draft ν) : Prop where
  keys : ∀ entry ∈ draft.nodes, entry.1 = normalizeKey rules entry.2.name
  ends : ∀ entry ∈ draft.edges,
    (∃ n ∈ draft.nodes, n.1 = normalizeKey rules entry.2.source) ∧
      ∃ n ∈ draft.nodes, n.1 = normalizeKey rules entry.2.target

section Merge

variable {nodes : List (List Char × NodeInput ν)} (name : List Char)
  (entityType description : Option (List Char))

/-- A key that is in the map stays in it. -/
theorem mergeNode_kept {key : List Char} (h : ∃ n ∈ nodes, n.1 = key) :
    ∃ n ∈ mergeNode rules nodes name entityType description, n.1 = key := by
  obtain ⟨entry, h, rfl⟩ := h
  simp only [mergeNode]
  split
  · exact ⟨entry, h, rfl⟩
  · split
    · refine ⟨_, List.mem_map_of_mem h, ?_⟩
      split <;> rfl
    · exact ⟨entry, List.mem_append_left _ h, rfl⟩

theorem mergeNode_self (hkey : ¬ (normalizeKey rules name).isEmpty = true) :
    ∃ n ∈ mergeNode rules nodes name entityType description, n.1 = normalizeKey rules name := by
  simp only [mergeNode, if_neg hkey]
  split
  next hany =>
    obtain ⟨entry, hentry, heq⟩ := List.any_eq_true.mp hany
    refine ⟨_, List.mem_map_of_mem hentry, ?_⟩
    rw [if_pos heq]
    exact beq_iff_eq.mp heq
  next => exact ⟨_, List.mem_append_right _ List.mem_cons_self, rfl⟩

theorem mergeNode_keys (h : ∀ entry ∈ nodes, entry.1 = normalizeKey rules entry.2.name) :
    ∀ entry ∈ mergeNode rules nodes name entityType description,
      entry.1 = normalizeKey rules entry.2.name := by
  intro entry hentry
  simp only [mergeNode] at hentry
  split at hentry
  · exact h entry hentry
  · split at hentry
    · obtain ⟨old, hold, rfl⟩ := List.mem_map.mp hentry
      split <;> exact h old hold
    · rcases List.mem_append.mp hentry with hentry | hentry
      · exact h entry hentry
      · rw [List.mem_singleton.mp hentry]
        exact (normalizeKey_trim name).symm

end Merge

/-- The map still has the end nodes of the edges. -/
theorem Draft.Linked.merge {draft : Draft ν} (h : draft.Linked rules) (name : List Char)
    (entityType description : Option (List Char)) :
    ({ draft with nodes := mergeNode rules draft.nodes name entityType description } :
      Draft ν).Linked rules := by
  refine ⟨mergeNode_keys name entityType description h.keys, fun entry hentry => ?_⟩
  obtain ⟨hsource, htarget⟩ := h.ends entry hentry
  exact ⟨mergeNode_kept name entityType description hsource,
    mergeNode_kept name entityType description htarget⟩

theorem Draft.Linked.add {draft : Draft ν} (h : draft.Linked rules) (element : GraphElement) :
    (draft.add rules element).Linked rules := by
  cases element with
  | node name entityType description => exact h.merge name entityType description
  | edge relationship source target description =>
    simp only [Draft.add]
    split
    next => exact h
    next hkeys =>
      simp only [Bool.or_eq_true, not_or] at hkeys
      obtain ⟨⟨hsource, htarget⟩, -⟩ := hkeys
      have hmerged := (h.merge source none none).merge target none none
      refine ⟨hmerged.keys, fun entry hentry => ?_⟩
      split at hentry
      · exact hmerged.ends entry hentry
      · rcases List.mem_append.mp hentry with hentry | hentry
        · exact hmerged.ends entry hentry
        · rw [List.mem_singleton.mp hentry, normalizeKey_trim, normalizeKey_trim]
          exact ⟨mergeNode_kept target none none (mergeNode_self source none none hsource),
            mergeNode_self target none none htarget⟩

theorem Draft.Linked.foldl {draft : Draft ν} (h : draft.Linked rules)
    (elements : List GraphElement) : (elements.foldl (Draft.add rules) draft).Linked rules := by
  induction elements generalizing draft with
  | nil => exact h
  | cons element elements ih => exact ih (h.add element)

theorem Draft.Linked.names {draft : Draft ν} (h : draft.Linked rules) {name : List Char}
    (hname : ∃ n ∈ draft.nodes, n.1 = normalizeKey rules name) :
    Names rules (draft.nodes.map Prod.snd) name := by
  obtain ⟨n, hn, hkey⟩ := hname
  exact ⟨n.2, List.mem_map_of_mem hn, (h.keys n hn).symm.trans hkey⟩

end Linked

def draftOf (rules : TextRules) (ν : Type) (extractions : List (Int × List GraphElement)) :
    Draft ν :=
  (extractions.flatMap Prod.snd).foldl (Draft.add rules) ⟨[], []⟩

theorem draftOf_linked (rules : TextRules) (extractions : List (Int × List GraphElement)) :
    (draftOf rules ν extractions).Linked rules :=
  Draft.Linked.foldl ⟨fun _ h => absurd h List.not_mem_nil, fun _ h => absurd h List.not_mem_nil⟩ _

/-- `from_extractions`; the chunks come in the order of their indexes. -/
def fromExtractions (rules : TextRules) (ν : Type) (extractions : List (Int × List GraphElement)) :
    GraphWriteBatch rules ν where
  nodes := (draftOf rules ν extractions).nodes.map Prod.snd
  edges := (draftOf rules ν extractions).edges.map Prod.snd
  linked := by
    intro e he
    obtain ⟨entry, hentry, rfl⟩ := List.mem_map.mp he
    have hlinked : (draftOf rules ν extractions).Linked rules := draftOf_linked rules extractions
    obtain ⟨hsource, htarget⟩ := hlinked.ends entry hentry
    exact ⟨hlinked.names hsource, hlinked.names htarget⟩

/-- Vectors leave the names of the nodes as they are. -/
theorem names_zipWith {rules : TextRules} {nodes : List (NodeInput ν)} {embeddings : List ν}
    (hlength : embeddings.length = nodes.length) {name : List Char}
    (h : Names rules nodes name) :
    Names rules (nodes.zipWith (fun n v => { n with embedding := some v }) embeddings) name := by
  obtain ⟨n, hn, hkey⟩ := h
  obtain ⟨i, hi, rfl⟩ := List.getElem_of_mem hn
  refine ⟨{ nodes[i] with embedding := some embeddings[i] }, ?_, hkey⟩
  exact List.mem_iff_getElem.mpr ⟨i, by simp [hlength, hi], by simp⟩

/-- One vector for each node, in their order. -/
def attachNodeEmbeddings {rules : TextRules} (batch : GraphWriteBatch rules ν)
    (embeddings : List ν) : Option (GraphWriteBatch rules ν) :=
  if h : embeddings.length = batch.nodes.length then
    some
      { nodes := batch.nodes.zipWith (fun n v => { n with embedding := some v }) embeddings
        edges := batch.edges
        linked := fun e he =>
          ⟨names_zipWith h (batch.linked e he).1, names_zipWith h (batch.linked e he).2⟩ }
  else none

end GmragApi.Graph

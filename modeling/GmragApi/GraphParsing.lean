import GmragApi.GraphBatch
import GmragApi.Json

/-! What the graph model answers for a chunk, from its text to the elements of the graph. -/

namespace GmragApi.Graph

structure RawGraphElement where
  elementType : Option (List Char)
  name : Option (List Char)
  relationship : Option (List Char)
  description : Option (List Char)
  entityType : Option (List Char)
  source : Option (List Char)
  target : Option (List Char)
  deriving DecidableEq

/-- The members of an object, in the order of its map. -/
abbrev JsonMap := List (List Char × Json)

/-- An `Option` field, under its name or an alias of it; two members for one field are an error. -/
def aliasedText (names : List (List Char)) (map : JsonMap) : Option (Option (List Char)) :=
  match map.filter fun entry => names.contains entry.1 with
  | [] => some none
  | [entry] => Json.optional Json.asString (some entry.2)
  | _ => none

def optionalText (value : Json) : Option (Option (List Char)) :=
  Json.optional Json.asString (some value)

/-- `serde_json::from_value`; an array is read by position and needs every field. -/
def RawGraphElement.fromValue : Json → Option RawGraphElement
  | .object map => do
    let elementType ← aliasedText ["type".toList, "element_type".toList, "kind".toList] map
    let name ← aliasedText
      ["name".toList, "label".toList, "entity".toList, "entity_name".toList] map
    let relationship ← aliasedText
      ["relationship".toList, "relation".toList, "predicate".toList] map
    let description ← aliasedText ["description".toList, "details".toList] map
    let entityType ← aliasedText
      ["entity_type".toList, "entityType".toList, "category".toList] map
    let source ← aliasedText ["source".toList, "from".toList, "source_node".toList] map
    let target ← aliasedText ["target".toList, "to".toList, "target_node".toList] map
    return ⟨elementType, name, relationship, description, entityType, source, target⟩
  | .array [elementType, name, relationship, description, entityType, source, target] => do
    return ⟨← optionalText elementType, ← optionalText name, ← optionalText relationship,
      ← optionalText description, ← optionalText entityType, ← optionalText source,
      ← optionalText target⟩
  | _ => none

def rawGraphElementFromValue (value : Json) (defaultType : Option (List Char)) :
    Option RawGraphElement :=
  (RawGraphElement.fromValue value).map fun element =>
    { element with elementType := element.elementType.or defaultType }

def rawGraphArray (value : Json) (defaultType : List Char) : List RawGraphElement :=
  match value with
  | .array items => items.filterMap fun item => rawGraphElementFromValue item (some defaultType)
  | item => (rawGraphElementFromValue item (some defaultType)).toList

/-- The member with the name, else the first one whose name differs in case only, and the map
without it. -/
def removeCaseInsensitive (map : JsonMap) (key : List Char) : Option (Json × JsonMap) :=
  ((map.find? fun entry => entry.1 == key).or
    (map.find? fun entry => toAsciiLowercase entry.1 == toAsciiLowercase key)).map
    fun matched => (matched.2, map.filter fun entry => entry.1 != matched.1)

theorem sizeOf_removed {map rest : JsonMap} {key : List Char} {value : Json}
    (h : removeCaseInsensitive map key = some (value, rest)) :
    sizeOf value < sizeOf (Json.object map) := by
  obtain ⟨matched, hmatched, heq⟩ := Option.map_eq_some_iff.mp h
  have hmem : matched ∈ map := by
    rcases Option.or_eq_some_iff.mp hmatched with hfound | ⟨-, hfound⟩
    · exact List.mem_of_find?_eq_some hfound
    · exact List.mem_of_find?_eq_some hfound
  have hvalue : matched.2 = value := congrArg Prod.fst heq
  have hsize := List.sizeOf_lt_of_mem hmem
  have hpair : sizeOf matched = 1 + sizeOf matched.1 + sizeOf matched.2 := by
    cases matched
    rfl
  rw [Json.object.sizeOf_spec, ← hvalue]
  omega

/-- The elements under one name, and the map that is left. -/
def takeRawGraphArray (map : JsonMap) (key defaultType : List Char) :
    List RawGraphElement × JsonMap :=
  match removeCaseInsensitive map key with
  | some (value, rest) => (rawGraphArray value defaultType, rest)
  | none => ([], map)

def rawGraphElementsFromValue : Json → List RawGraphElement
  | .array items => items.filterMap fun item => rawGraphElementFromValue item none
  | .object map =>
    let graph :=
      match _h : removeCaseInsensitive map "graph".toList with
      | some (value, rest) => (rawGraphElementsFromValue value, rest)
      | none => ([], map)
    let nodes := takeRawGraphArray graph.2 "nodes".toList "node".toList
    let edges := takeRawGraphArray nodes.2 "edges".toList "edge".toList
    let relationships := takeRawGraphArray edges.2 "relationships".toList "edge".toList
    let elements := graph.1 ++ nodes.1 ++ edges.1 ++ relationships.1
    if elements.isEmpty then
      (rawGraphElementFromValue (.object relationships.2) none).toList
    else elements
  | _ => []
termination_by value => sizeOf value
decreasing_by exact sizeOf_removed _h

def normalizeGraphElement (raw : RawGraphElement) : Option GraphElement :=
  let elementType := raw.elementType.map fun type => toAsciiLowercase (trim type)
  if elementType = some "node".toList then do
    let name := trim (← raw.name)
    if name.isEmpty then none
    else some (.node name (normalizeOptional raw.entityType) (normalizeOptional raw.description))
  else if elementType = some "edge".toList then do
    let relationship ← normalizeOptional (raw.relationship.or raw.name)
    let source := trim (← raw.source)
    let target := trim (← raw.target)
    if source.isEmpty || target.isEmpty then none
    else some (.edge relationship source target (normalizeOptional raw.description))
  else none

def fence : List Char := "```".toList

def stripCodeFence (value : List Char) : List Char :=
  if fence.isPrefixOf value then
    match (value.drop fence.length).dropWhile fun c => c != '\n' with
    | [] => value
    | _ :: body =>
      let withoutOpeningFence := trim body
      if fence.isSuffixOf withoutOpeningFence then
        trim (withoutOpeningFence.take (withoutOpeningFence.length - fence.length))
      else withoutOpeningFence
  else value

def enclosed (first last : Char) (value : List Char) : Bool :=
  value.head? == some first && value.getLast? == some last

def extractJsonPayload (raw : List Char) : List Char :=
  let trimmed := stripCodeFence (trim raw)
  if enclosed '[' ']' trimmed || enclosed '{' '}' trimmed then trimmed
  else
    match trimmed.dropWhile fun c => c != '[' && c != '{' with
    | [] => trimmed
    | start :: rest =>
      let endChar := if start == '{' then '}' else ']'
      -- The last such character of the text counts only if it stands after the first bracket.
      match (rest.reverse.dropWhile fun c => c != endChar).reverse with
      | [] => trimmed
      | inner => start :: inner

/-- `fromStr` is `serde_json::from_str`. -/
def parseGraphElements (fromStr : List Char → Option Json) (raw : List Char) :
    Option (List GraphElement) :=
  (fromStr (extractJsonPayload raw)).map fun value =>
    (rawGraphElementsFromValue value).filterMap normalizeGraphElement

/-- The answers of the chunks; one that does not parse is skipped. -/
def graphResults (fromStr : List Char → Option Json) (answers : List (Int × List Char)) :
    List (Int × List GraphElement) :=
  answers.filterMap fun answer =>
    (parseGraphElements fromStr answer.2).map fun elements => (answer.1, elements)

/-- A text that is neither blank nor padded. -/
def Neat (text : List Char) : Prop := text ≠ [] ∧ trim text = text

/-- The texts an element holds. -/
def GraphElement.texts : GraphElement → List (List Char)
  | .node name entityType description => name :: (entityType.toList ++ description.toList)
  | .edge relationship source target description =>
    relationship :: source :: target :: description.toList

theorem neat_trim {text : List Char} (h : ¬ (trim text).isEmpty = true) : Neat (trim text) :=
  ⟨by simpa using h, trim_trim text⟩

theorem neat_of_normalizeOptional {value : Option (List Char)} {text : List Char}
    (h : normalizeOptional value = some text) : Neat text := by
  obtain ⟨hmap, hfilled⟩ := Option.filter_eq_some_iff.mp h
  obtain ⟨padded, -, rfl⟩ := Option.map_eq_some_iff.mp hmap
  exact neat_trim (by simpa using hfilled)

theorem neat_of_mem_normalizeOptional {value : Option (List Char)} {text : List Char}
    (h : text ∈ (normalizeOptional value).toList) : Neat text :=
  neat_of_normalizeOptional (Option.mem_toList.mp h)

theorem normalizeGraphElement_neat {raw : RawGraphElement} {element : GraphElement}
    (h : normalizeGraphElement raw = some element) : ∀ text ∈ element.texts, Neat text := by
  simp only [normalizeGraphElement] at h
  split at h
  · obtain ⟨name, -, h⟩ := Option.bind_eq_some_iff.mp h
    split at h
    next => cases h
    next hname =>
      cases h
      intro text htext
      rcases List.mem_cons.mp htext with rfl | htext
      · exact neat_trim hname
      · rcases List.mem_append.mp htext with htext | htext
        · exact neat_of_mem_normalizeOptional htext
        · exact neat_of_mem_normalizeOptional htext
  · split at h
    next =>
      obtain ⟨relationship, hrelationship, h⟩ := Option.bind_eq_some_iff.mp h
      obtain ⟨source, -, h⟩ := Option.bind_eq_some_iff.mp h
      obtain ⟨target, -, h⟩ := Option.bind_eq_some_iff.mp h
      split at h
      next => cases h
      next hends =>
        rw [Bool.or_eq_true, not_or] at hends
        cases h
        intro text htext
        simp only [GraphElement.texts, List.mem_cons] at htext
        rcases htext with rfl | rfl | rfl | htext
        · exact neat_of_normalizeOptional hrelationship
        · exact neat_trim hends.1
        · exact neat_trim hends.2
        · exact neat_of_mem_normalizeOptional htext
    next => cases h

/-- Whatever the model answers, no element is parsed with a blank or padded text. -/
theorem graphResults_neat {fromStr : List Char → Option Json} {answers : List (Int × List Char)}
    {element : GraphElement}
    (h : element ∈ (graphResults fromStr answers).flatMap Prod.snd) :
    ∀ text ∈ element.texts, Neat text := by
  obtain ⟨result, hresult, helement⟩ := List.mem_flatMap.mp h
  obtain ⟨answer, -, hparsed⟩ := List.mem_filterMap.mp hresult
  obtain ⟨elements, helements, rfl⟩ := Option.map_eq_some_iff.mp hparsed
  obtain ⟨value, -, rfl⟩ := Option.map_eq_some_iff.mp helements
  obtain ⟨raw, -, hraw⟩ := List.mem_filterMap.mp helement
  exact normalizeGraphElement_neat hraw

end GmragApi.Graph

import GmragApi.Uuid

namespace GmragApi

inductive Json
  | null
  | bool (b : Bool)
  | number (n : Int)
  | string (s : List Char)
  | array (items : List Json)
  | object (entries : List (List Char × Json))

namespace Json

/-- What a derived struct visitor hands to each field: by name from an object, by position from
an array that has no item too many. -/
def structFields (names : List (List Char)) : Json → Option (List (Option Json))
  | object entries => some (names.map fun name => entries.lookup name)
  | array items =>
    if items.length ≤ names.length then some ((List.range names.length).map fun i => items[i]?)
    else none
  | _ => none

def asString : Json → Option (List Char)
  | string s => some s
  | _ => none

/-- `Value::get` with a name. -/
def get (name : List Char) : Json → Option Json
  | object entries => entries.lookup name
  | _ => none

def asUuid (text : UuidText) (j : Json) : Option Uuid := j.asString.bind text.parseStr

def asUuids (text : UuidText) : Json → Option (List Uuid)
  | array items => items.mapM (asUuid text)
  | _ => none

/-- A field that has to be there. -/
def required {α : Type} (read : Json → Option α) (field : Option Json) : Option α :=
  field.bind read

/-- An `Option` field: absent and `null` both read as `None`. -/
def optional {α : Type} (read : Json → Option α) : Option Json → Option (Option α)
  | none => some none
  | some null => some none
  | some j => (read j).map some

end Json

end GmragApi

import GmragApi.Json
import GmragApi.Text
import GmragApi.TextSlice

/-! What an audit event keeps of the metadata it is given and of the errors it names. -/

namespace GmragApi.Audit

def sensitiveKeys : List (List Char) :=
  ["content".toList, "chunk_text".toList, "original_text".toList, "extracted_text".toList,
    "prompt".toList, "api_key".toList, "secret".toList, "credential".toList, "access_key".toList,
    "token".toList, "object_bytes".toList, "pdf_bytes".toList]

def isSensitiveMetadataKey (key : List Char) : Bool :=
  sensitiveKeys.any fun needle => containsText (toAsciiLowercase key) needle

def maxTextLen : Nat := 512

/-- The limit is in bytes, and what is kept in characters. -/
def truncateString (value : List Char) (maxLen : Nat) : List Char :=
  if TextSlice.size value ≤ maxLen then value else value.take maxLen ++ "...".toList

def redacted : Json := .string "[REDACTED]".toList

mutual

def sanitizeMetadataValue : Json → Json
  | .object entries => .object (sanitizeEntries entries)
  | .array items => .array (sanitizeItems items)
  | .string content => .string (truncateString content maxTextLen)
  | .null => .null
  | .bool b => .bool b
  | .number n => .number n

def sanitizeEntries : List (List Char × Json) → List (List Char × Json)
  | [] => []
  | (key, nested) :: rest =>
    (key, if isSensitiveMetadataKey key then redacted else sanitizeMetadataValue nested) ::
      sanitizeEntries rest

def sanitizeItems : List Json → List Json
  | [] => []
  | item :: rest => sanitizeMetadataValue item :: sanitizeItems rest

end

def sanitizeMetadata (metadata : Json) : Json := sanitizeMetadataValue metadata

/-- One step down into a value. -/
inductive PathStep
  | key (name : List Char)
  | index (i : Nat)
  deriving DecidableEq

/-- What stands in a value at the end of a path. -/
def valueAt : Json → List PathStep → Option Json
  | j, [] => some j
  | .object entries, .key name :: rest => (entries.lookup name).bind fun nested => valueAt nested rest
  | .array items, .index i :: rest => (items[i]?).bind fun item => valueAt item rest
  | _, _ :: _ => none

/-- The path goes through no sensitive key. -/
def OpenPath (path : List PathStep) : Prop :=
  ∀ name, .key name ∈ path → isSensitiveMetadataKey name = false

section Paths

variable {j : Json} {path rest : List PathStep} {name : List Char}

theorem lookup_sanitizeEntries (entries : List (List Char × Json)) (name : List Char) :
    (sanitizeEntries entries).lookup name = (entries.lookup name).map fun nested =>
      if isSensitiveMetadataKey name then redacted else sanitizeMetadataValue nested := by
  induction entries with
  | nil => rfl
  | cons entry entries ih =>
    obtain ⟨key, nested⟩ := entry
    rw [sanitizeEntries, List.lookup_cons, List.lookup_cons]
    cases heq : name == key with
    | true =>
      obtain rfl := beq_iff_eq.mp heq
      rfl
    | false => exact ih

theorem getElem?_sanitizeItems (items : List Json) (i : Nat) :
    (sanitizeItems items)[i]? = (items[i]?).map sanitizeMetadataValue := by
  induction items generalizing i with
  | nil => rfl
  | cons item items ih =>
    cases i with
    | zero => rfl
    | succ i => exact ih i

/-- Below a key, the sanitized value is that of the key, or its redaction. -/
theorem valueAt_key :
    valueAt (sanitizeMetadataValue j) (.key name :: rest) =
      (valueAt j [.key name]).bind fun nested =>
        valueAt (if isSensitiveMetadataKey name then redacted else sanitizeMetadataValue nested)
          rest := by
  cases j with
  | object entries =>
    have hvalue : valueAt (.object entries) [.key name] = entries.lookup name := by
      cases hlookup : entries.lookup name <;> simp [valueAt, hlookup]
    rw [sanitizeMetadataValue, valueAt, lookup_sanitizeEntries, Option.bind_map, hvalue]
    rfl
  | _ => rfl

theorem valueAt_index {i : Nat} :
    valueAt (sanitizeMetadataValue j) (.index i :: rest) =
      (valueAt j [.index i]).bind fun item => valueAt (sanitizeMetadataValue item) rest := by
  cases j with
  | array items =>
    have hvalue : valueAt (.array items) [.index i] = items[i]? := by
      cases hitem : items[i]? <;> simp [valueAt, hitem]
    rw [sanitizeMetadataValue, valueAt, getElem?_sanitizeItems, Option.bind_map, hvalue]
    rfl
  | _ => rfl

theorem valueAt_cons (j : Json) (step : PathStep) (rest : List PathStep) :
    valueAt j (step :: rest) = (valueAt j [step]).bind fun nested => valueAt nested rest := by
  cases j with
  | object entries =>
    cases step with
    | key name => cases hlookup : entries.lookup name <;> simp [valueAt, hlookup]
    | index i => rfl
  | array items =>
    cases step with
    | key name => rfl
    | index i => cases hitem : items[i]? <;> simp [valueAt, hitem]
  | _ => cases step <;> rfl

theorem valueAt_append (j : Json) (path rest : List PathStep) :
    valueAt j (path ++ rest) = (valueAt j path).bind fun nested => valueAt nested rest := by
  induction path generalizing j with
  | nil => rfl
  | cons step path ih =>
    rw [List.cons_append, valueAt_cons, valueAt_cons j step path, Option.bind_assoc]
    exact congrArg _ (funext fun nested => ih nested)

/-- Along an open path, the value is sanitized where it stands. -/
theorem valueAt_open (hopen : OpenPath path) (rest : List PathStep) :
    valueAt (sanitizeMetadataValue j) (path ++ rest) =
      (valueAt j path).bind fun nested => valueAt (sanitizeMetadataValue nested) rest := by
  induction path generalizing j with
  | nil => rfl
  | cons step path ih =>
    have hrest : OpenPath path := fun name hname => hopen name (List.mem_cons_of_mem _ hname)
    rw [valueAt_cons j, Option.bind_assoc, List.cons_append]
    cases step with
    | key name =>
      have hname := hopen name List.mem_cons_self
      rw [valueAt_key]
      refine congrArg _ (funext fun nested => ?_)
      rw [hname, if_neg (by decide)]
      exact ih hrest
    | index i =>
      rw [valueAt_index]
      exact congrArg _ (funext fun item => ih hrest)

theorem truncateString_length (value : List Char) (maxLen : Nat) :
    (truncateString value maxLen).length ≤ maxLen + 3 := by
  unfold truncateString
  split
  next hfits =>
    have hlength := TextSlice.length_le_size value
    omega
  next =>
    have htake := List.length_take_le maxLen value
    rw [List.length_append]
    exact Nat.add_le_add_right htake 3

theorem sanitized_string {s : List Char} (h : sanitizeMetadataValue j = .string s) :
    s.length ≤ maxTextLen + 3 := by
  cases j with
  | string content =>
    cases h
    exact truncateString_length content maxTextLen
  | _ => cases h

/-- A path is open, or its first sensitive key cuts it. -/
theorem openPath_or_cut (path : List PathStep) :
    OpenPath path ∨ ∃ before name rest, OpenPath before ∧ isSensitiveMetadataKey name = true ∧
      path = before ++ .key name :: rest := by
  induction path with
  | nil => exact .inl fun name hname => absurd hname List.not_mem_nil
  | cons step path ih =>
    have hcons : ∀ {before : List PathStep}, (∀ name, step = .key name →
        isSensitiveMetadataKey name = false) → OpenPath before → OpenPath (step :: before) := by
      intro before hstep hbefore name hname
      rcases List.mem_cons.mp hname with heq | hname
      · exact hstep name heq.symm
      · exact hbefore name hname
    by_cases hstep : ∀ name, step = .key name → isSensitiveMetadataKey name = false
    · rcases ih with hopen | ⟨before, name, rest, hbefore, hname, rfl⟩
      · exact .inl (hcons hstep hopen)
      · exact .inr ⟨step :: before, name, rest, hcons hstep hbefore, hname, rfl⟩
    · simp only [not_forall, Bool.not_eq_false] at hstep
      obtain ⟨name, rfl, hname⟩ := hstep
      exact .inr ⟨[], name, path, fun name hname => absurd hname List.not_mem_nil, hname, rfl⟩

/-- What can be read at any path of the metadata that is stored: the value that was given, itself
sanitized, where no key on the way is sensitive; only the redaction at a sensitive key, and nothing
below one. No text of it is longer than the limit. -/
theorem stored_metadata_at (metadata : Json) (path : List PathStep) :
    (OpenPath path → valueAt (sanitizeMetadata metadata) path =
      (valueAt metadata path).map sanitizeMetadata) ∧
    (∀ before name rest, OpenPath before → isSensitiveMetadataKey name = true →
      path = before ++ .key name :: rest → valueAt (sanitizeMetadata metadata) path =
        if rest = [] then (valueAt metadata path).map fun _ => redacted else none) ∧
    ∀ s, valueAt (sanitizeMetadata metadata) path = some (.string s) →
      s.length ≤ maxTextLen + 3 := by
  have hplain : OpenPath path → valueAt (sanitizeMetadata metadata) path =
      (valueAt metadata path).map sanitizeMetadata := by
    intro hopen
    have hvalue := valueAt_open (j := metadata) hopen []
    rw [List.append_nil] at hvalue
    refine hvalue.trans ?_
    cases valueAt metadata path <;> rfl
  have hcut : ∀ before name rest, OpenPath before → isSensitiveMetadataKey name = true →
      path = before ++ .key name :: rest → valueAt (sanitizeMetadata metadata) path =
        if rest = [] then (valueAt metadata path).map fun _ => redacted else none := by
    rintro before name rest hopen hname rfl
    have hvalue := valueAt_open (j := metadata) hopen (.key name :: rest)
    rw [sanitizeMetadata, hvalue, valueAt_append]
    simp only [valueAt_key, hname, if_true]
    cases rest with
    | nil =>
      rw [if_pos rfl, Option.map_bind]
      refine congrArg _ (funext fun nested => ?_)
      rw [Function.comp_apply]
      cases valueAt nested [.key name] <;> rfl
    | cons step rest =>
      rw [if_neg (List.cons_ne_nil step rest)]
      have hbelow : valueAt redacted (step :: rest) = none := by cases step <;> rfl
      simp [hbelow]
  refine ⟨hplain, hcut, fun s hs => ?_⟩
  rcases openPath_or_cut path with hopen | ⟨before, name, rest, hopen, hname, hpath⟩
  · rw [hplain hopen] at hs
    obtain ⟨value, -, hvalue⟩ := Option.map_eq_some_iff.mp hs
    exact sanitized_string hvalue
  · rw [hcut before name rest hopen hname hpath] at hs
    split at hs
    · obtain ⟨-, -, hredacted⟩ := Option.map_eq_some_iff.mp hs
      cases hredacted
      decide
    · cases hs

end Paths

section Sample

def promptMetadata : Json :=
  .object [("status".toList, .string "ok".toList),
    ("nested".toList, .array [.object [("Prompt_Text".toList, .object [(['a'], .bool true)])]])]

def promptPath : List PathStep := [.key "nested".toList, .index 0, .key "Prompt_Text".toList]

/-- The prompt is gone, with all that was below it. -/
theorem stored_metadata_at_prompt :
    valueAt (sanitizeMetadata promptMetadata) (promptPath ++ [.key ['a']]) = none := by
  have hopen : OpenPath [.key "nested".toList, .index 0] := by
    intro name hname
    simp only [List.mem_cons, PathStep.key.injEq, reduceCtorEq, List.not_mem_nil, or_false] at hname
    subst hname
    decide
  have hat := stored_metadata_at promptMetadata (promptPath ++ [.key ['a']])
  exact hat.2.1 _ "Prompt_Text".toList [.key ['a']] hopen (by decide) rfl

end Sample

end GmragApi.Audit

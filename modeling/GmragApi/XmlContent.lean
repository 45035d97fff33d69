import Mathlib.Data.Multiset.MapFold
import Mathlib.Data.List.Infix
import GmragApi.HeaderParameters

/-! XML documents as they are written, and the information set each of them stands for. -/

namespace Xml

open HeaderParameters (hexValue)

/-- The production `Char` of XML 1.0. -/
def isChar (c : Char) : Bool :=
  let n := c.toNat
  n == 0x9 || n == 0xA || n == 0xD || (0x20 ≤ n && n ≤ 0xD7FF) || (0xE000 ≤ n && n ≤ 0xFFFD) ||
    0x10000 ≤ n

/-- The production `NameStartChar` of XML 1.0. -/
def isNameStart (c : Char) : Bool :=
  let n := c.toNat
  c == ':' || c == '_' || c.isAlpha || (0xC0 ≤ n && n ≤ 0xD6) || (0xD8 ≤ n && n ≤ 0xF6) ||
    (0xF8 ≤ n && n ≤ 0x2FF) || (0x370 ≤ n && n ≤ 0x37D) || (0x37F ≤ n && n ≤ 0x1FFF) ||
    (0x200C ≤ n && n ≤ 0x200D) || (0x2070 ≤ n && n ≤ 0x218F) || (0x2C00 ≤ n && n ≤ 0x2FEF) ||
    (0x3001 ≤ n && n ≤ 0xD7FF) || (0xF900 ≤ n && n ≤ 0xFDCF) || (0xFDF0 ≤ n && n ≤ 0xFFFD) ||
    (0x10000 ≤ n && n ≤ 0xEFFFF)

def isNameChar (c : Char) : Bool :=
  let n := c.toNat
  isNameStart c || c == '-' || c == '.' || c.isDigit || n == 0xB7 || (0x300 ≤ n && n ≤ 0x36F) ||
    (0x203F ≤ n && n ≤ 0x2040)

def isName (name : List Char) : Bool := name.head?.any isNameStart && name.all isNameChar

/-- Line ends are read as one `\n`; `afterReturn` says that the character before was a `\r`. -/
def endLines (afterReturn : Bool) : List Char → List Char
  | [] => []
  | c :: rest =>
    if c = '\r' then '\n' :: endLines true rest
    else if c = '\n' ∧ afterReturn then endLines false rest
    else c :: endLines false rest

def normalizeEol (s : List Char) : List Char := endLines false s

section References

def charOf? (n : Nat) : Option Char :=
  if n.isValidChar ∧ isChar (Char.ofNat n) then some (Char.ofNat n) else none

def decimal? (digits : List Char) : Option Nat :=
  if digits ≠ [] ∧ digits.all Char.isDigit then some (Nat.ofDigitChars 10 digits 0) else none

def hexadecimal? (digits : List Char) : Option Nat :=
  if digits = [] then none
  else digits.foldlM (fun n c => (hexValue c).map (16 * n + ·)) 0

def predefined (name : List Char) : Option Char :=
  if name = "lt".toList then some '<'
  else if name = "gt".toList then some '>'
  else if name = "amp".toList then some '&'
  else if name = "apos".toList then some '\''
  else if name = "quot".toList then some '"'
  else none

/-- The character of a reference that needs no declaration, from what is between `&` and `;`. -/
def character? (body : List Char) : Option Char :=
  if body.head? = some '#' then
    if body.tail.head? = some 'x' then (hexadecimal? body.tail.tail).bind charOf?
    else (decimal? body.tail).bind charOf?
  else predefined body

def decimalReference (c : Char) : List Char := '#' :: Nat.toDigits 10 c.toNat

theorem charOf?_toNat {c : Char} (h : isChar c = true) : charOf? c.toNat = some c := by
  have hvalid : c.toNat.isValidChar := c.valid
  rw [charOf?, Char.ofNat_toNat, if_pos ⟨hvalid, h⟩]

theorem charOf?_isChar {n : Nat} {c : Char} (h : charOf? n = some c) : isChar c = true := by
  unfold charOf? at h
  split at h
  next hn =>
    cases Option.some.inj h
    exact hn.2
  next => cases h

theorem predefined_isChar {name : List Char} {c : Char} (h : predefined name = some c) :
    isChar c = true := by
  unfold predefined at h
  repeat' split at h
  all_goals first | (cases Option.some.inj h; decide) | cases h

theorem character?_isChar {body : List Char} {c : Char} (h : character? body = some c) :
    isChar c = true := by
  unfold character? at h
  split at h
  · split at h
    all_goals
      obtain ⟨n, -, hn⟩ := Option.bind_eq_some_iff.mp h
      exact charOf?_isChar hn
  · exact predefined_isChar h

theorem decimal?_toDigits (n : Nat) : decimal? (Nat.toDigits 10 n) = some n := by
  have hdigits : (Nat.toDigits 10 n).all Char.isDigit = true :=
    List.all_eq_true.mpr fun c hc => Nat.isDigit_of_mem_toDigits (by omega) le_rfl hc
  rw [decimal?, if_pos ⟨Nat.toDigits_ne_nil, hdigits⟩, Nat.ofDigitChars_ten_toDigits]

theorem character?_decimalReference {c : Char} (h : isChar c = true) :
    character? (decimalReference c) = some c := by
  have hdecimal : (Nat.toDigits 10 c.toNat).head? ≠ some 'x' := by
    intro hx
    have hdigit := Nat.isDigit_of_mem_toDigits (by omega) le_rfl (List.mem_of_head? hx)
    cases hdigit
  rw [character?, decimalReference, List.head?_cons, if_pos rfl, List.tail_cons,
    if_neg hdecimal, decimal?_toDigits, Option.bind_some, charOf?_toNat h]

end References

/-- The declared entities of a document whose replacement is character data. -/
structure Entities where
  value : List Char → Option (List Char)
  chars : ∀ name v, value name = some v → v.all isChar = true

/-- What the reference between `&` and `;` stands for. -/
def Entities.resolve (entities : Entities) (body : List Char) : Option (List Char) :=
  match character? body with
  | some c => some [c]
  | none => if isName body then entities.value body else none

/-- A comment or a processing instruction. -/
inductive Markup where
  | comment (text : List Char)
  | instruction (target data : List Char)

/-- An element's name and its attributes, which are in no order. -/
structure Tag where
  name : List Char
  attributes : Multiset (List Char × List Char)

def Tag.WellFormed (tag : Tag) : Prop :=
  isName tag.name = true ∧ (tag.attributes.map Prod.fst).Nodup

/-- Content as it is written, one piece after the other: `element` is written with a start tag and
an end tag, `empty` with one empty element tag. -/
inductive Content where
  | nil
  | element (tag : Tag) (inner rest : Content)
  | empty (tag : Tag) (rest : Content)
  | text (written : List Char) (rest : Content)
  | cdata (written : List Char) (rest : Content)
  | reference (body : List Char) (rest : Content)
  | other (markup : Markup) (rest : Content)

/-- The information items of a content; each character is one of them. -/
inductive Items where
  | nil
  | element (tag : Tag) (inner rest : Items)
  | char (c : Char) (rest : Items)
  | other (markup : Markup) (rest : Items)

def Items.ofChars (cs : List Char) (rest : Items) : Items := cs.foldr Items.char rest

def Items.isNil : Items → Bool
  | .nil => true
  | _ => false

namespace Content

def isText : Content → Bool
  | .text .. => true
  | _ => false

/-- Character data between markup: neither `<` nor `&`, and not the end of a CDATA section. -/
def IsCharData (written : List Char) : Prop :=
  written ≠ [] ∧ written.all isChar = true ∧ '<' ∉ written ∧ '&' ∉ written ∧
    ¬ "]]>".toList <:+: written

def WellFormed (entities : Entities) : Content → Prop
  | .nil => True
  | .element tag inner rest => tag.WellFormed ∧ inner.WellFormed entities ∧ rest.WellFormed entities
  | .empty tag rest => tag.WellFormed ∧ rest.WellFormed entities
  | .text written rest => IsCharData written ∧ rest.isText = false ∧ rest.WellFormed entities
  | .cdata written rest =>
    (written.all isChar = true ∧ ¬ "]]>".toList <:+: written) ∧ rest.WellFormed entities
  | .reference body rest => (entities.resolve body).isSome = true ∧ rest.WellFormed entities
  | .other _ rest => rest.WellFormed entities

def infoset (entities : Entities) : Content → Items
  | .nil => .nil
  | .element tag inner rest => .element tag (inner.infoset entities) (rest.infoset entities)
  | .empty tag rest => .element tag .nil (rest.infoset entities)
  | .text written rest => .ofChars (normalizeEol written) (rest.infoset entities)
  | .cdata written rest => .ofChars (normalizeEol written) (rest.infoset entities)
  | .reference body rest => .ofChars ((entities.resolve body).getD []) (rest.infoset entities)
  | .other markup rest => .other markup (rest.infoset entities)

end Content

namespace Items

/-- The items a well-formed content can stand for. -/
def WellFormed : Items → Prop
  | .nil => True
  | .element tag inner rest => tag.WellFormed ∧ inner.WellFormed ∧ rest.WellFormed
  | .char c rest => isChar c = true ∧ rest.WellFormed
  | .other _ rest => rest.WellFormed

/-- The items written with character references, but in CDATA sections the characters of `hidden`,
and with an empty element tag for each element that has no children. -/
def spelled (hidden : Char → Bool) : Items → Content
  | .nil => .nil
  | .element tag inner rest =>
    if inner.isNil then .empty tag (rest.spelled hidden)
    else .element tag (inner.spelled hidden) (rest.spelled hidden)
  | .char c rest =>
    if hidden c then .cdata [c] (rest.spelled hidden)
    else .reference (decimalReference c) (rest.spelled hidden)
  | .other markup rest => .other markup (rest.spelled hidden)

end Items

section Spelling

theorem endLines_isChar (afterReturn : Bool) {s : List Char} (h : s.all isChar = true) :
    (endLines afterReturn s).all isChar = true := by
  induction s generalizing afterReturn with
  | nil => rfl
  | cons c rest ih =>
    rw [List.all_cons, Bool.and_eq_true] at h
    unfold endLines
    split
    · rw [List.all_cons, ih true h.2]
      rfl
    · split
      · exact ih false h.2
      · rw [List.all_cons, h.1, ih false h.2]
        rfl

theorem normalizeEol_singleton {c : Char} (h : c ≠ '\r') : normalizeEol [c] = [c] := by
  simp [normalizeEol, endLines, h]

theorem resolve_isChar {entities : Entities} {body v : List Char}
    (h : entities.resolve body = some v) : v.all isChar = true := by
  unfold Entities.resolve at h
  split at h
  next c hc =>
    cases Option.some.inj h
    rw [List.all_cons, character?_isChar hc]
    rfl
  next =>
    split at h
    · exact entities.chars body v h
    · cases h

theorem resolve_decimalReference (entities : Entities) {c : Char} (h : isChar c = true) :
    entities.resolve (decimalReference c) = some [c] := by
  rw [Entities.resolve, character?_decimalReference h]

theorem Items.wellFormed_ofChars {cs : List Char} {rest : Items} (hcs : cs.all isChar = true)
    (hrest : rest.WellFormed) : (Items.ofChars cs rest).WellFormed := by
  induction cs with
  | nil => exact hrest
  | cons c cs ih =>
    rw [List.all_cons, Bool.and_eq_true] at hcs
    exact ⟨hcs.1, ih hcs.2⟩

variable {entities : Entities}

theorem Content.wellFormed_infoset {content : Content} (h : content.WellFormed entities) :
    (content.infoset entities).WellFormed := by
  induction content with
  | nil => exact h
  | element tag inner rest ihi ihr => exact ⟨h.1, ihi h.2.1, ihr h.2.2⟩
  | empty tag rest ih => exact ⟨h.1, trivial, ih h.2⟩
  | text written rest ih =>
    exact Items.wellFormed_ofChars (endLines_isChar false h.1.2.1) (ih h.2.2)
  | cdata written rest ih =>
    exact Items.wellFormed_ofChars (endLines_isChar false h.1.1) (ih h.2)
  | reference body rest ih =>
    obtain ⟨v, hv⟩ := Option.isSome_iff_exists.mp h.1
    rw [Content.infoset, hv]
    exact Items.wellFormed_ofChars (resolve_isChar hv) (ih h.2)
  | other markup rest ih => exact ih h

theorem Items.isNil_iff {items : Items} : items.isNil = true ↔ items = .nil := by
  cases items <;> simp [Items.isNil]

variable {hidden : Char → Bool}

theorem Items.spelled_wellFormed {items : Items} (h : items.WellFormed) :
    (items.spelled hidden).WellFormed entities := by
  induction items with
  | nil => exact h
  | element tag inner rest ihi ihr =>
    unfold Items.spelled
    split
    · exact ⟨h.1, ihr h.2.2⟩
    · exact ⟨h.1, ihi h.2.1, ihr h.2.2⟩
  | char c rest ih =>
    have hc : [c].all isChar = true := by rw [List.all_cons, h.1]; rfl
    have hend : ¬ "]]>".toList <:+: [c] := fun hin => by
      have hlength := hin.length_le
      simp at hlength
    unfold Items.spelled
    split
    · exact ⟨⟨hc, hend⟩, ih h.2⟩
    · refine ⟨?_, ih h.2⟩
      rw [resolve_decimalReference entities h.1]
      rfl
  | other markup rest ih => exact ih h

/-- However items are spelled, they stay the items. -/
theorem Items.infoset_spelled (hhidden : hidden '\r' = false) {items : Items}
    (h : items.WellFormed) : (items.spelled hidden).infoset entities = items := by
  induction items with
  | nil => rfl
  | element tag inner rest ihi ihr =>
    unfold Items.spelled
    split
    next hnil =>
      rw [Content.infoset, ihr h.2.2, Items.isNil_iff.mp hnil]
    next => rw [Content.infoset, ihi h.2.1, ihr h.2.2]
  | char c rest ih =>
    unfold Items.spelled
    split
    next hc =>
      have hreturn : c ≠ '\r' := by
        rintro rfl
        rw [hhidden] at hc
        cases hc
      rw [Content.infoset, ih h.2, normalizeEol_singleton hreturn]
      rfl
    next =>
      rw [Content.infoset, ih h.2, resolve_decimalReference entities h.1]
      rfl
  | other markup rest ih => rw [Items.spelled, Content.infoset, ih h]

end Spelling

/-- What may stand before and after the root element. -/
inductive Misc where
  | blank (written : List Char)
  | declaration
  | doctype (name : List Char)
  | markup (markup : Markup)

def Misc.isItem : Misc → Bool
  | .doctype _ => true
  | .markup _ => true
  | _ => false

/-- A document with its root element, which is written as an empty element tag when it has no
`body`. -/
structure Document where
  entities : Entities
  prolog : List Misc
  root : Tag
  body : Option Content
  epilog : List Misc

structure InformationSet where
  prolog : List Misc
  root : Items
  epilog : List Misc

namespace Document

def content (d : Document) : Content :=
  match d.body with
  | none => .empty d.root .nil
  | some inner => .element d.root inner .nil

def WellFormed (d : Document) : Prop :=
  d.content.WellFormed d.entities ∧
    ∀ written, .blank written ∈ d.prolog ++ d.epilog →
      ∀ c ∈ written, c ∈ ['\t', '\n', '\r', ' ']

def infoset (d : Document) : InformationSet where
  prolog := d.prolog.filter Misc.isItem
  root := d.content.infoset d.entities
  epilog := d.epilog.filter Misc.isItem

/-- The items inside the root element. -/
def items (d : Document) : Items :=
  match d.body with
  | none => .nil
  | some inner => inner.infoset d.entities

/-- The document with the items inside its root written as `Items.spelled` does. -/
def respelled (hidden : Char → Bool) (d : Document) : Document :=
  { d with body := if d.items.isNil then none else some (d.items.spelled hidden) }

theorem content_infoset (d : Document) :
    d.content.infoset d.entities = .element d.root d.items .nil := by
  obtain ⟨entities, prolog, root, body, epilog⟩ := d
  cases body <;> rfl

variable {hidden : Char → Bool}

theorem respelled_content (d : Document) :
    (d.respelled hidden).content = (d.content.infoset d.entities).spelled hidden := by
  rw [content_infoset, Items.spelled]
  by_cases hnil : d.items.isNil = true
  · have hbody : (d.respelled hidden).body = none := if_pos hnil
    rw [if_pos hnil, content, hbody]
    rfl
  · have hbody : (d.respelled hidden).body = some (d.items.spelled hidden) := if_neg hnil
    rw [if_neg hnil, content, hbody]
    rfl

theorem respelled_wellFormed {d : Document} (h : d.WellFormed) :
    (d.respelled hidden).WellFormed := by
  refine ⟨?_, h.2⟩
  rw [respelled_content]
  exact Items.spelled_wellFormed (Content.wellFormed_infoset h.1)

theorem respelled_infoset (hhidden : hidden '\r' = false) {d : Document} (h : d.WellFormed) :
    (d.respelled hidden).infoset = d.infoset := by
  have hroot : (d.respelled hidden).content.infoset d.entities = d.content.infoset d.entities := by
    rw [respelled_content]
    exact Items.infoset_spelled hhidden (Content.wellFormed_infoset h.1)
  exact congrArg (fun root => (⟨_, root, _⟩ : InformationSet)) hroot

end Document

end Xml

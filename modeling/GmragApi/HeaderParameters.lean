import Mathlib.Data.List.Basic
import Mathlib.Data.List.TakeWhile

/-! Header values of a type and its parameters: tokens, quoted strings, and extended values, whose
octets are percent-encoded. -/

namespace HeaderParameters

def isControl (c : Char) : Bool := c.toNat < 0x20 || c.toNat == 0x7F

def isTokenChar (c : Char) : Bool :=
  c.isAlphanum || c.toNat == 0x27 || c.toNat == 0x60 ||
    ['!', '#', '$', '%', '&', '*', '+', '-', '.', '^', '_', '|', '~'].contains c

/-- `attr-char`: what an extended value holds without encoding it. -/
def isAttrChar (c : Char) : Bool :=
  c.isAlphanum || c.toNat == 0x60 ||
    ['!', '#', '$', '&', '+', '-', '.', '^', '_', '|', '~'].contains c

/-- `qdtext`: what a quoted string holds without escaping it. -/
def isQuotedText (c : Char) : Bool := c == '\t' || !isControl c && c != '"' && c != '\\'

def isBlank (c : Char) : Bool := c == ' ' || c == '\t'

inductive Parameter
  | plain (name value : List Char)
  | extended (name charset language : List Char) (octets : List UInt8)
  deriving DecidableEq

/-- The text of a quoted string, and what follows the closing quote. -/
def quoted : List Char → Option (List Char × List Char)
  | [] => none
  | '"' :: s => some ([], s)
  | '\\' :: c :: s =>
    if c != '\t' && isControl c then none else (quoted s).map fun r => (c :: r.1, r.2)
  | c :: s => if isQuotedText c then (quoted s).map fun r => (c :: r.1, r.2) else none

def hexValue (c : Char) : Option Nat :=
  let n := c.toNat
  if 0x30 ≤ n ∧ n ≤ 0x39 then some (n - 0x30)
  else if 0x41 ≤ n ∧ n ≤ 0x46 then some (n - 0x41 + 10)
  else if 0x61 ≤ n ∧ n ≤ 0x66 then some (n - 0x61 + 10)
  else none

/-- The octets of an extended value. -/
def percentDecode : List Char → Option (List UInt8)
  | [] => some []
  | '%' :: a :: b :: s => do
    let high ← hexValue a
    let low ← hexValue b
    let rest ← percentDecode s
    return UInt8.ofNat (high * 16 + low) :: rest
  | c :: s => if isAttrChar c then (percentDecode s).map (UInt8.ofNat c.toNat :: ·) else none

/-- `charset'language'octets`, up to the next parameter. -/
def extendedValue (name s : List Char) : Option (Parameter × List Char) :=
  let value := s.takeWhile fun c => c != ';' && !isBlank c
  let rest := s.dropWhile fun c => c != ';' && !isBlank c
  match value.splitOn (Char.ofNat 0x27) with
  | [charset, language, octets] =>
    if charset.isEmpty then none
    else (percentDecode octets).map fun octets => (.extended name charset language octets, rest)
  | _ => none

def parameter (s : List Char) : Option (Parameter × List Char) :=
  let name := s.takeWhile isTokenChar
  match s.dropWhile isTokenChar with
  | [] => none
  | c :: value =>
    if c != '=' || name.isEmpty then none
    else if name.getLast? = some '*' then extendedValue name value
    else if value.head? = some '"' then
      (quoted value.tail).map fun r => (.plain name r.1, r.2)
    else
      let token := value.takeWhile isTokenChar
      if token.isEmpty then none else some (.plain name token, value.dropWhile isTokenChar)

/-- `*( OWS ";" OWS parameter ) OWS`; `none` also when the fuel is used up. -/
def parameters : Nat → List Char → Option (List Parameter)
  | 0, _ => none
  | fuel + 1, s =>
    match s.dropWhile isBlank with
    | [] => some []
    | c :: s =>
      if c != ';' then none
      else
        match parameter (s.dropWhile isBlank) with
        | none => none
        | some (p, rest) => (parameters fuel rest).map (p :: ·)

/-- Every parameter takes at least a character, so that the length of the value is fuel enough. -/
def parse (s : List Char) : Option (List Char × List Parameter) :=
  let kind := s.takeWhile isTokenChar
  if kind.isEmpty then none
  else (parameters (s.length + 1) (s.dropWhile isTokenChar)).map fun ps => (kind, ps)

section Lemmas

theorem isQuotedText_of_plain {c : Char} (hc : isControl c = false) (hquote : c ≠ '"')
    (hslash : c ≠ '\\') : isQuotedText c = true := by
  simp [isQuotedText, hc, hquote, hslash]

/-- A text without controls, quotes and backslashes is read up to the closing quote. -/
theorem quoted_of_plain {text : List Char}
    (h : ∀ c ∈ text, isControl c = false ∧ c ≠ '"' ∧ c ≠ '\\') (rest : List Char) :
    quoted (text ++ '"' :: rest) = some (text, rest) := by
  induction text with
  | nil => rfl
  | cons c text ih =>
    obtain ⟨hc, hquote, hslash⟩ := h c List.mem_cons_self
    have htext := isQuotedText_of_plain hc hquote hslash
    have hrest := ih fun d hd => h d (List.mem_cons_of_mem c hd)
    rw [List.cons_append, quoted, if_pos htext, hrest]
    · rfl
    · exact hquote
    · exact fun d s heq => absurd heq hslash

theorem percentDecode_attr {c : Char} (hc : isAttrChar c = true) (s : List Char) :
    percentDecode (c :: s) = (percentDecode s).map (UInt8.ofNat c.toNat :: ·) := by
  have hpercent : c ≠ '%' := by
    rintro rfl
    exact absurd hc (by decide)
  rw [percentDecode, if_pos hc]
  exact fun a b s heq => absurd heq hpercent

theorem percentDecode_escape {a b : Char} {high low : Nat} (ha : hexValue a = some high)
    (hb : hexValue b = some low) (s : List Char) :
    percentDecode ('%' :: a :: b :: s) =
      (percentDecode s).map (UInt8.ofNat (high * 16 + low) :: ·) := by
  rw [percentDecode, ha, hb]
  cases percentDecode s <;> rfl

/-- A token that is not empty. -/
def Token (t : List Char) : Prop := t ≠ [] ∧ ∀ c ∈ t, isTokenChar c = true

theorem Token.takeWhile {t : List Char} (h : Token t) {c : Char} (hc : isTokenChar c = false)
    (s : List Char) : (t ++ c :: s).takeWhile isTokenChar = t := by
  rw [List.takeWhile_append_of_pos h.2, List.takeWhile_cons_of_neg (by simp [hc]), List.append_nil]

theorem Token.dropWhile {t : List Char} (h : Token t) {c : Char} (hc : isTokenChar c = false)
    (s : List Char) : (t ++ c :: s).dropWhile isTokenChar = c :: s := by
  rw [List.dropWhile_append_of_pos h.2, List.dropWhile_cons_of_neg (by simp [hc])]

theorem Token.isEmpty {t : List Char} (h : Token t) : t.isEmpty = false :=
  List.isEmpty_eq_false_iff.mpr h.1

theorem Token.dropWhile_blank {t : List Char} (h : Token t) (s : List Char) :
    (t ++ s).dropWhile isBlank = t ++ s := by
  obtain ⟨c, rest, rfl⟩ := List.exists_cons_of_ne_nil h.1
  have hc := h.2 c List.mem_cons_self
  have hblank : ¬isBlank c = true := fun hblank => by
    simp only [isBlank, Bool.or_eq_true, beq_iff_eq] at hblank
    rcases hblank with rfl | rfl
    · exact absurd hc (by decide)
    · exact absurd hc (by decide)
  rw [List.cons_append, List.dropWhile_cons_of_neg hblank]

theorem isTokenChar_equals : isTokenChar '=' = false := by decide

theorem isTokenChar_semicolon : isTokenChar ';' = false := by decide

theorem parameter_quoted {name value : List Char} (hname : Token name)
    (hlast : name.getLast? ≠ some '*')
    (hvalue : ∀ c ∈ value, isControl c = false ∧ c ≠ '"' ∧ c ≠ '\\') (rest : List Char) :
    parameter (name ++ '=' :: '"' :: (value ++ '"' :: rest)) = some (.plain name value, rest) := by
  unfold parameter
  rw [hname.takeWhile isTokenChar_equals, hname.dropWhile isTokenChar_equals]
  dsimp only
  rw [hname.isEmpty, if_neg (by decide), if_neg hlast, List.head?_cons, if_pos rfl, List.tail_cons,
    quoted_of_plain hvalue]
  rfl

theorem parameter_extended {name : List Char} (hname : Token name)
    (hlast : name.getLast? = some '*') (s : List Char) :
    parameter (name ++ '=' :: s) = extendedValue name s := by
  unfold parameter
  rw [hname.takeWhile isTokenChar_equals, hname.dropWhile isTokenChar_equals]
  dsimp only
  rw [hname.isEmpty, if_neg (by decide), if_pos hlast]

theorem parameters_nil (fuel : Nat) : parameters (fuel + 1) [] = some [] := rfl

theorem parameters_cons {name s rest : List Char} {p : Parameter} (hname : Token name)
    (hp : parameter (name ++ s) = some (p, rest)) (fuel : Nat) :
    parameters (fuel + 1) (';' :: ' ' :: (name ++ s)) = (parameters fuel rest).map (p :: ·) := by
  have hblank : (';' :: ' ' :: (name ++ s)).dropWhile isBlank = ';' :: ' ' :: (name ++ s) := rfl
  have hspace : (' ' :: (name ++ s)).dropWhile isBlank = name ++ s := by
    rw [List.dropWhile_cons_of_pos (by decide), hname.dropWhile_blank]
  rw [parameters, hblank]
  dsimp only
  rw [if_neg (by decide), hspace, hp]

theorem parse_token {kind : List Char} (hkind : Token kind) (s : List Char) :
    parse (kind ++ ';' :: s) =
      (parameters ((kind ++ ';' :: s).length + 1) (';' :: s)).map fun ps => (kind, ps) := by
  unfold parse
  rw [hkind.takeWhile isTokenChar_semicolon, hkind.dropWhile isTokenChar_semicolon]
  dsimp only
  rw [hkind.isEmpty, if_neg Bool.false_ne_true]

end Lemmas

end HeaderParameters

import Mathlib.Data.List.Basic
import Mathlib.Tactic.IntervalCases
import Mathlib.Tactic.Ring

namespace GmragApi

structure Uuid where
  bits : BitVec 128
  deriving DecidableEq

theorem Uuid.toNat_inj {a b : Uuid} : a.bits.toNat = b.bits.toNat ↔ a = b := by
  cases a
  cases b
  rw [BitVec.toNat_inj, Uuid.mk.injEq]

/-- What the service uses of the UUID library: parsing and the canonical text. -/
structure UuidText where
  parseStr : List Char → Option Uuid
  display : Uuid → List Char
  parse_display : ∀ u, parseStr (display u) = some u
  parse_plain : ∀ s u, parseStr s = some u → '%' ∉ s ∧ '/' ∉ s
  parse_long : ∀ s u, parseStr s = some u → 32 ≤ s.length

def hexDigit (c : Char) : Option Nat :=
  let n := c.toNat
  if 0x30 ≤ n ∧ n ≤ 0x39 then some (n - 0x30)
  else if 0x61 ≤ n ∧ n ≤ 0x66 then some (n - 0x57)
  else if 0x41 ≤ n ∧ n ≤ 0x46 then some (n - 0x37)
  else none

def hexChar (d : Nat) : Char := "0123456789abcdef".toList.getD d '0'

def hexDigits : Nat → Nat → List Char
  | 0, _ => []
  | k + 1, n => hexDigits k (n / 16) ++ [hexChar (n % 16)]

/-- The hyphenated form has its hyphens at these positions. -/
def isHyphenPosition (i : Nat) : Bool := i == 8 || i == 13 || i == 18 || i == 23

def parseSimple (acc : Nat) : List Char → Option Nat
  | [] => some acc
  | c :: cs => (hexDigit c).bind fun d => parseSimple (acc * 16 + d) cs

def parseHyphenated (i acc : Nat) : List Char → Option Nat
  | [] => some acc
  | c :: cs =>
    if isHyphenPosition i then
      if c = '-' then parseHyphenated (i + 1) acc cs else none
    else (hexDigit c).bind fun d => parseHyphenated (i + 1) (acc * 16 + d) cs

def hyphenate : Nat → List Char → List Char
  | _, [] => []
  | i, d :: ds =>
    if isHyphenPosition i then '-' :: d :: hyphenate (i + 2) ds else d :: hyphenate (i + 1) ds

def Uuid.ofNat (n : Nat) : Uuid := ⟨BitVec.ofNat 128 n⟩

def urnPrefix : List Char := "urn:uuid:".toList

/-- `Uuid::parse_str`: simple, hyphenated, braced and URN forms. -/
def Uuid.parseStr (s : List Char) : Option Uuid :=
  if s.length = 32 then (parseSimple 0 s).map Uuid.ofNat
  else if s.length = 36 then (parseHyphenated 0 0 s).map Uuid.ofNat
  else if s.length = 38 ∧ s.head? = some '{' ∧ s.getLast? = some '}' then
    (parseHyphenated 0 0 (s.tail.dropLast)).map Uuid.ofNat
  else if s.length = 45 ∧ s.take 9 = urnPrefix then
    (parseHyphenated 0 0 (s.drop 9)).map Uuid.ofNat
  else none

/-- `Uuid::to_string`. -/
def Uuid.display (u : Uuid) : List Char := hyphenate 0 (hexDigits 32 u.bits.toNat)

theorem hexDigit_hexChar {d : Nat} (h : d < 16) : hexDigit (hexChar d) = some d := by
  interval_cases d <;> rfl

theorem hexDigits_length (k n : Nat) : (hexDigits k n).length = k := by
  induction k generalizing n with
  | zero => rfl
  | succ k ih => simp [hexDigits, ih]

theorem parseSimple_append (acc : Nat) (s t : List Char) :
    parseSimple acc (s ++ t) = (parseSimple acc s).bind fun n => parseSimple n t := by
  induction s generalizing acc with
  | nil => rfl
  | cons c cs ih =>
    cases hd : hexDigit c with
    | none => simp [parseSimple, hd]
    | some d => simp [parseSimple, hd, ih]

theorem parseSimple_hexDigits (acc k n : Nat) :
    parseSimple acc (hexDigits k n) = some (acc * 16 ^ k + n % 16 ^ k) := by
  induction k generalizing acc n with
  | zero => simp [hexDigits, parseSimple, Nat.mod_one]
  | succ k ih =>
    have hd := hexDigit_hexChar (Nat.mod_lt n (show 0 < 16 by omega))
    have hm : n % 16 ^ (k + 1) = 16 * (n / 16 % 16 ^ k) + n % 16 := by
      rw [pow_succ, mul_comm, Nat.mod_mul]
      omega
    simp only [hexDigits, parseSimple_append, ih, Option.bind_some, parseSimple, hd, hm,
      Option.some.injEq]
    ring

theorem parseHyphenated_hyphenate (i acc : Nat) (ds : List Char) :
    parseHyphenated i acc (hyphenate i ds) = parseSimple acc ds := by
  induction ds generalizing i acc with
  | nil => rfl
  | cons d ds ih =>
    by_cases hi : isHyphenPosition i = true
    · have hn : isHyphenPosition (i + 1) = false := by
        simp only [isHyphenPosition, Bool.or_eq_true, beq_iff_eq] at hi ⊢
        rcases hi with ((rfl | rfl) | rfl) | rfl <;> rfl
      simp [hyphenate, parseHyphenated, parseSimple, hi, hn, ih]
    · simp [hyphenate, parseHyphenated, parseSimple, hi, ih]

def hyphenatedLength : Nat → Nat → Nat
  | _, 0 => 0
  | i, k + 1 =>
    if isHyphenPosition i then hyphenatedLength (i + 2) k + 2 else hyphenatedLength (i + 1) k + 1

theorem hyphenate_length (i : Nat) (ds : List Char) :
    (hyphenate i ds).length = hyphenatedLength i ds.length := by
  induction ds generalizing i with
  | nil => rfl
  | cons d ds ih =>
    by_cases hi : isHyphenPosition i = true
    · simp [hyphenate, hyphenatedLength, hi, ih]
    · simp [hyphenate, hyphenatedLength, hi, ih]

theorem display_length (u : Uuid) : u.display.length = 36 := by
  rw [Uuid.display, hyphenate_length, hexDigits_length]
  rfl

theorem hexChar_mem {d : Nat} (h : d < 16) : (hexDigit (hexChar d)).isSome = true := by
  rw [hexDigit_hexChar h]
  rfl

theorem hexDigits_all (k n : Nat) :
    (hexDigits k n).all (fun c => (hexDigit c).isSome || c == '-') = true := by
  induction k generalizing n with
  | zero => rfl
  | succ k ih =>
    rw [hexDigits, List.all_append, ih, List.all_cons, hexChar_mem (Nat.mod_lt n (by omega))]
    rfl

theorem hyphenate_all {p : Char → Bool} (hp : p '-' = true) (i : Nat) {ds : List Char}
    (h : ds.all p = true) : (hyphenate i ds).all p = true := by
  induction ds generalizing i with
  | nil => rfl
  | cons d ds ih =>
    rw [List.all_cons, Bool.and_eq_true] at h
    by_cases hi : isHyphenPosition i = true
    · simp [hyphenate, hi, hp, h.1, ih _ h.2]
    · simp [hyphenate, hi, h.1, ih _ h.2]

theorem display_all (u : Uuid) :
    u.display.all (fun c => (hexDigit c).isSome || c == '-') = true :=
  hyphenate_all rfl 0 (hexDigits_all 32 u.bits.toNat)

theorem parseStr_display (u : Uuid) : Uuid.parseStr u.display = some u := by
  have hb : u.bits.toNat % 16 ^ 32 = u.bits.toNat := Nat.mod_eq_of_lt u.bits.isLt
  have hp : parseHyphenated 0 0 u.display = some u.bits.toNat := by
    rw [Uuid.display, parseHyphenated_hyphenate, parseSimple_hexDigits, hb]
    simp
  simp [Uuid.parseStr, display_length, hp, Uuid.ofNat]

theorem hexDigit_plain {c : Char} {d : Nat} (h : hexDigit c = some d) : c ≠ '%' ∧ c ≠ '/' := by
  constructor <;> rintro rfl <;> cases h

theorem parseSimple_plain {acc n : Nat} {s : List Char} (h : parseSimple acc s = some n) :
    '%' ∉ s ∧ '/' ∉ s := by
  induction s generalizing acc with
  | nil => simp
  | cons c cs ih =>
    obtain ⟨d, hd, hs⟩ := Option.bind_eq_some_iff.mp h
    have hc := hexDigit_plain hd
    have hcs := ih hs
    simp [hc.1.symm, hc.2.symm, hcs]

theorem parseHyphenated_plain {i acc n : Nat} {s : List Char}
    (h : parseHyphenated i acc s = some n) : '%' ∉ s ∧ '/' ∉ s := by
  induction s generalizing i acc with
  | nil => simp
  | cons c cs ih =>
    rw [parseHyphenated] at h
    split at h
    next =>
      split at h
      next hc =>
        subst hc
        simpa using ih h
      next => cases h
    next =>
      obtain ⟨d, hd, hs⟩ := Option.bind_eq_some_iff.mp h
      have hc := hexDigit_plain hd
      have hcs := ih hs
      simp [hc.1.symm, hc.2.symm, hcs]

theorem braced_eq {s : List Char} (hhead : s.head? = some '{') (hlast : s.getLast? = some '}')
    (hlen : s.length = 38) : s = '{' :: (s.tail.dropLast ++ ['}']) := by
  obtain ⟨t, rfl⟩ := List.head?_eq_some_iff.mp hhead
  have ht : t ≠ [] := by
    rintro rfl
    simp at hlen
  rw [List.getLast?_cons_of_ne_nil ht] at hlast
  obtain ⟨pre, rfl⟩ := List.getLast?_eq_some_iff.mp hlast
  simp

theorem parseStr_plain {s : List Char} {u : Uuid} (h : Uuid.parseStr s = some u) :
    '%' ∉ s ∧ '/' ∉ s := by
  by_cases h32 : s.length = 32
  · rw [Uuid.parseStr, if_pos h32] at h
    obtain ⟨n, hn, -⟩ := Option.map_eq_some_iff.mp h
    exact parseSimple_plain hn
  by_cases h36 : s.length = 36
  · rw [Uuid.parseStr, if_neg h32, if_pos h36] at h
    obtain ⟨n, hn, -⟩ := Option.map_eq_some_iff.mp h
    exact parseHyphenated_plain hn
  by_cases hb : s.length = 38 ∧ s.head? = some '{' ∧ s.getLast? = some '}'
  · rw [Uuid.parseStr, if_neg h32, if_neg h36, if_pos hb] at h
    obtain ⟨n, hn, -⟩ := Option.map_eq_some_iff.mp h
    have hp := parseHyphenated_plain hn
    rw [braced_eq hb.2.1 hb.2.2 hb.1]
    simp [hp.1, hp.2]
  by_cases hu : s.length = 45 ∧ s.take 9 = urnPrefix
  · rw [Uuid.parseStr, if_neg h32, if_neg h36, if_neg hb, if_pos hu] at h
    obtain ⟨n, hn, -⟩ := Option.map_eq_some_iff.mp h
    have hp := parseHyphenated_plain hn
    have hs : s = urnPrefix ++ s.drop 9 := by rw [← hu.2, List.take_append_drop]
    rw [hs]
    have hpre : '%' ∉ urnPrefix ∧ '/' ∉ urnPrefix := by decide
    simp [hp.1, hp.2, hpre.1, hpre.2]
  · rw [Uuid.parseStr, if_neg h32, if_neg h36, if_neg hb, if_neg hu] at h
    cases h

theorem parseStr_long {s : List Char} {u : Uuid} (h : Uuid.parseStr s = some u) :
    32 ≤ s.length := by
  unfold Uuid.parseStr at h
  grind

/-- The library's behaviour on every form that it documents. -/
def uuidText : UuidText where
  parseStr := Uuid.parseStr
  display := Uuid.display
  parse_display := parseStr_display
  parse_plain := fun _ _ h => parseStr_plain h
  parse_long := fun _ _ h => parseStr_long h

end GmragApi

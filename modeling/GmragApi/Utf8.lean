import GmragApi.Incremental
import Mathlib.Algebra.GroupWithZero.Nat
import Mathlib.Data.List.TakeDrop

/-! UTF-8 as the standard library of Rust decodes it: where a text is not valid, the longest front of
a character that stands there is one error. -/

namespace Utf8

def replacementCharacter : Char := Char.ofNat 0xFFFD

/-- What a non-empty text begins with: a character, an error of some bytes, or the front of a
character that the text ends in. -/
inductive Front
  | char (c : Char) (width : Nat)
  | invalid (width : Nat)
  | incomplete
  deriving DecidableEq

/-- The range of the second byte, and how many follow it. -/
def secondByte (a : UInt8) : Option (Nat × Nat × Nat) :=
  let n := a.toNat
  if 0xC2 ≤ n ∧ n ≤ 0xDF then some (0x80, 0xBF, 0)
  else if n = 0xE0 then some (0xA0, 0xBF, 1)
  else if 0xE1 ≤ n ∧ n ≤ 0xEC then some (0x80, 0xBF, 1)
  else if n = 0xED then some (0x80, 0x9F, 1)
  else if 0xEE ≤ n ∧ n ≤ 0xEF then some (0x80, 0xBF, 1)
  else if n = 0xF0 then some (0x90, 0xBF, 2)
  else if 0xF1 ≤ n ∧ n ≤ 0xF3 then some (0x80, 0xBF, 2)
  else if n = 0xF4 then some (0x80, 0x8F, 2)
  else none

/-- The bits of the first byte, by the number of bytes after the second. -/
def leadBits (a : UInt8) (more : Nat) : Nat := a.toNat % 2 ^ (5 - more)

def continuationBits (b : UInt8) : Nat := b.toNat % 64

/-- The continuation bytes after the second; `width` bytes are read. -/
def tailBytes (code width : Nat) : Nat → List UInt8 → Front
  | 0, _ => .char (Char.ofNat code) width
  | _ + 1, [] => .incomplete
  | more + 1, b :: s =>
    if 0x80 ≤ b.toNat ∧ b.toNat ≤ 0xBF then
      tailBytes (code * 64 + continuationBits b) (width + 1) more s
    else .invalid width

def front : List UInt8 → Front
  | [] => .incomplete
  | a :: s =>
    if a.toNat < 0x80 then .char (Char.ofNat a.toNat) 1
    else
      match secondByte a with
      | none => .invalid 1
      | some (low, high, more) =>
        match s with
        | [] => .incomplete
        | b :: s =>
          if low ≤ b.toNat ∧ b.toNat ≤ high then
            tailBytes (leadBits a more * 64 + continuationBits b) 2 more s
          else .invalid 1

section Front

variable {code width more : Nat} {s t : List UInt8} {c : Char} {w : Nat}

theorem tailBytes_append (h : tailBytes code width more s ≠ .incomplete) :
    tailBytes code width more (s ++ t) = tailBytes code width more s := by
  induction more generalizing code width s with
  | zero => rfl
  | succ more ih =>
    cases s with
    | nil => exact absurd rfl h
    | cons b s =>
      simp only [List.cons_append, tailBytes] at h ⊢
      split
      next hb => exact ih (by simpa [hb] using h)
      next => rfl

theorem tailBytes_char (h : tailBytes code width more s = .char c w) :
    w = width + more ∧ more ≤ s.length ∧
      tailBytes code width more (s.take more) = .char c w := by
  induction more generalizing code width s with
  | zero =>
    cases h
    exact ⟨rfl, Nat.zero_le _, rfl⟩
  | succ more ih =>
    cases s with
    | nil => cases h
    | cons b s =>
      simp only [tailBytes] at h
      split at h
      next hb =>
        obtain ⟨hw, hlength, htake⟩ := ih h
        refine ⟨by omega, by simpa using hlength, ?_⟩
        rw [List.take_succ_cons, tailBytes, if_pos hb, htake]
      next => cases h

theorem tailBytes_invalid (h : tailBytes code width more s = .invalid w) :
    width ≤ w ∧ w < width + s.length := by
  induction more generalizing code width s with
  | zero => cases h
  | succ more ih =>
    cases s with
    | nil => cases h
    | cons b s =>
      simp only [tailBytes] at h
      simp only [List.length_cons]
      split at h
      next =>
        have hrest := ih h
        omega
      next =>
        cases h
        omega

/-- What a text begins with does not change when it grows, unless it ended too early. -/
theorem front_append (h : front s ≠ .incomplete) : front (s ++ t) = front s := by
  cases s with
  | nil => exact absurd rfl h
  | cons a s =>
    simp only [List.cons_append, front] at h ⊢
    split
    next => rfl
    next hascii =>
      rw [if_neg hascii] at h
      cases hsecond : secondByte a with
      | none => rfl
      | some range =>
        obtain ⟨low, high, more⟩ := range
        rw [hsecond] at h
        cases s with
        | nil => exact absurd rfl h
        | cons b s =>
          simp only [List.cons_append] at h ⊢
          split
          next hb => exact tailBytes_append (by simpa [hb] using h)
          next => rfl

theorem front_char (h : front s = .char c w) :
    0 < w ∧ w ≤ s.length ∧ front (s.take w) = .char c w := by
  cases s with
  | nil => cases h
  | cons a s =>
    simp only [front] at h
    split at h
    next hascii =>
      cases h
      exact ⟨Nat.one_pos, by simp, by simp [front, hascii]⟩
    next hascii =>
      cases hsecond : secondByte a with
      | none =>
        rw [hsecond] at h
        cases h
      | some range =>
        obtain ⟨low, high, more⟩ := range
        rw [hsecond] at h
        cases s with
        | nil => cases h
        | cons b s =>
          simp only at h
          split at h
          next hb =>
            obtain ⟨rfl, hlength, htake⟩ := tailBytes_char h
            refine ⟨by omega, by simp only [List.length_cons]; omega, ?_⟩
            have hwidth : 2 + more = more + 1 + 1 := by omega
            rw [hwidth, List.take_succ_cons, List.take_succ_cons]
            simp only [front, if_neg hascii, hsecond, if_pos hb]
            rw [htake, hwidth]
          next => cases h

theorem front_invalid (h : front s = .invalid w) : 0 < w ∧ w ≤ s.length := by
  cases s with
  | nil => cases h
  | cons a s =>
    simp only [front] at h
    split at h
    next => cases h
    next =>
      split at h
      next =>
        cases h
        exact ⟨Nat.one_pos, by simp⟩
      next =>
        cases s with
        | nil => cases h
        | cons b s =>
          simp only at h
          simp only [List.length_cons]
          split at h
          next =>
            have hwidth := tailBytes_invalid h
            omega
          next =>
            cases h
            omega

end Front

/-- `Utf8Error`; no length where the text ends inside a character. -/
structure Utf8Error where
  validUpTo : Nat
  errorLen : Option Nat
  deriving DecidableEq

def fromUtf8 (s : List UInt8) : Except Utf8Error (List Char) :=
  if s = [] then .ok []
  else
    match _h : front s with
    | .char c width =>
      match fromUtf8 (s.drop width) with
      | .ok cs => .ok (c :: cs)
      | .error e => .error ⟨width + e.validUpTo, e.errorLen⟩
    | .invalid width => .error ⟨0, some width⟩
    | .incomplete => .error ⟨0, none⟩
termination_by s.length
decreasing_by
  have hwidth := front_char _h
  rw [List.length_drop]
  omega

def fromUtf8Lossy (s : List UInt8) : List Char :=
  if s = [] then []
  else
    match _h : front s with
    | .char c width => c :: fromUtf8Lossy (s.drop width)
    | .invalid width => replacementCharacter :: fromUtf8Lossy (s.drop width)
    | .incomplete => [replacementCharacter]
termination_by s.length
decreasing_by
  · have hwidth := front_char _h
    rw [List.length_drop]
    omega
  · have hwidth := front_invalid _h
    rw [List.length_drop]
    omega

/-- The text without the character that it ends inside, and the bytes of that one. -/
def decode (s : List UInt8) : List Char × List UInt8 :=
  if s = [] then ([], [])
  else
    match _h : front s with
    | .char c width => (c :: (decode (s.drop width)).1, (decode (s.drop width)).2)
    | .invalid width =>
      (replacementCharacter :: (decode (s.drop width)).1, (decode (s.drop width)).2)
    | .incomplete => ([], s)
termination_by s.length
decreasing_by
  all_goals
    first
    | have hwidth := front_char _h
      rw [List.length_drop]
      omega
    | have hwidth := front_invalid _h
      rw [List.length_drop]
      omega

section Decode

variable {s : List UInt8} {c : Char} {w : Nat}

theorem decode_nil : decode [] = ([], []) := by
  rw [decode, if_pos rfl]

theorem decode_char (h : front s = .char c w) :
    decode s = (c :: (decode (s.drop w)).1, (decode (s.drop w)).2) := by
  have hne : s ≠ [] := by
    rintro rfl
    cases h
  rw [decode, if_neg hne]
  split <;> simp_all

theorem decode_invalid (h : front s = .invalid w) :
    decode s = (replacementCharacter :: (decode (s.drop w)).1, (decode (s.drop w)).2) := by
  have hne : s ≠ [] := by
    rintro rfl
    cases h
  rw [decode, if_neg hne]
  split <;> simp_all

theorem decode_incomplete (h : front s = .incomplete) : decode s = ([], s) := by
  by_cases hne : s = []
  · rw [hne, decode_nil]
  · rw [decode, if_neg hne]
    split <;> simp_all

theorem fromUtf8_nil : fromUtf8 [] = .ok [] := by
  rw [fromUtf8, if_pos rfl]

theorem fromUtf8_char (h : front s = .char c w) :
    fromUtf8 s = match fromUtf8 (s.drop w) with
      | .ok cs => .ok (c :: cs)
      | .error e => .error ⟨w + e.validUpTo, e.errorLen⟩ := by
  have hne : s ≠ [] := by
    rintro rfl
    cases h
  rw [fromUtf8, if_neg hne]
  split <;> simp_all

/-- A character, an error or an end: what the text begins with, and the induction that follows. -/
theorem front_induction {P : List UInt8 → Prop} (nil : P [])
    (char : ∀ s c w, front s = .char c w → P (s.drop w) → P s)
    (invalid : ∀ s w, front s = .invalid w → P (s.drop w) → P s)
    (incomplete : ∀ s, s ≠ [] → front s = .incomplete → P s) (s : List UInt8) : P s := by
  induction hlength : s.length using Nat.strongRecOn generalizing s with
  | _ n ih =>
    subst hlength
    cases hfront : front s with
    | char c w =>
      have hwidth := front_char hfront
      exact char s c w hfront (ih _ (by rw [List.length_drop]; omega) _ rfl)
    | invalid w =>
      have hwidth := front_invalid hfront
      exact invalid s w hfront (ih _ (by rw [List.length_drop]; omega) _ rfl)
    | incomplete =>
      rcases s with _ | ⟨a, s⟩
      · exact nil
      · exact incomplete _ (List.cons_ne_nil a s) hfront

/-- The one-shot decoder puts one replacement where the text ends inside a character. -/
theorem fromUtf8Lossy_eq_decode (s : List UInt8) :
    fromUtf8Lossy s =
      (decode s).1 ++ if (decode s).2 = [] then [] else [replacementCharacter] := by
  induction s using front_induction with
  | nil => rw [fromUtf8Lossy, decode_nil]; rfl
  | char s c w h ih =>
    have hne : s ≠ [] := by
      rintro rfl
      cases h
    rw [decode_char h, fromUtf8Lossy, if_neg hne]
    split <;> simp_all
  | invalid s w h ih =>
    have hne : s ≠ [] := by
      rintro rfl
      cases h
    rw [decode_invalid h, fromUtf8Lossy, if_neg hne]
    split <;> simp_all
  | incomplete s hne h =>
    rw [decode_incomplete h, fromUtf8Lossy, if_neg hne]
    split <;> simp_all

theorem decode_append (s t : List UInt8) :
    decode (s ++ t) =
      ((decode s).1 ++ (decode ((decode s).2 ++ t)).1, (decode ((decode s).2 ++ t)).2) := by
  induction s using front_induction with
  | nil => simp [decode_nil]
  | char s c w h ih =>
    have hwidth := front_char h
    have hgrown : front (s ++ t) = .char c w := by rw [front_append (by simp [h]), h]
    rw [decode_char hgrown, decode_char h, List.drop_append_of_le_length hwidth.2.1, ih]
    rfl
  | invalid s w h ih =>
    have hwidth := front_invalid h
    have hgrown : front (s ++ t) = .invalid w := by rw [front_append (by simp [h]), h]
    rw [decode_invalid hgrown, decode_invalid h, List.drop_append_of_le_length hwidth.2, ih]
    rfl
  | incomplete s _ h => rw [decode_incomplete h, List.nil_append]

def reader : Incremental.Reader UInt8 Char where
  read := decode
  read_nil := decode_nil
  read_append := decode_append

theorem fromUtf8_ok {cs : List Char} (h : fromUtf8 s = .ok cs) : decode s = (cs, []) := by
  induction s using front_induction generalizing cs with
  | nil =>
    cases fromUtf8_nil.symm.trans h
    exact decode_nil
  | char s c w hfront ih =>
    rw [fromUtf8_char hfront] at h
    cases hrest : fromUtf8 (s.drop w) with
    | error e => simp [hrest] at h
    | ok rest =>
      rw [hrest] at h
      cases h
      rw [decode_char hfront, ih hrest]
  | invalid s w hfront =>
    have hne : s ≠ [] := by
      rintro rfl
      cases hfront
    rw [fromUtf8, if_neg hne] at h
    split at h <;> simp_all
  | incomplete s hne hfront =>
    rw [fromUtf8, if_neg hne] at h
    split at h <;> simp_all

/-- An error stands where the valid front ends. -/
structure ErrorAt (s : List UInt8) (e : Utf8Error) : Prop where
  valid : ∃ cs, fromUtf8 (s.take e.validUpTo) = .ok cs ∧
    decode s = (cs ++ (decode (s.drop e.validUpTo)).1, (decode (s.drop e.validUpTo)).2)
  rest : s.drop e.validUpTo ≠ []
  front : front (s.drop e.validUpTo) =
    match e.errorLen with
    | some width => .invalid width
    | none => .incomplete

theorem fromUtf8_error {e : Utf8Error} (h : fromUtf8 s = .error e) : ErrorAt s e := by
  induction s using front_induction generalizing e with
  | nil => cases fromUtf8_nil.symm.trans h
  | char s c w hfront ih =>
    have hwidth := front_char hfront
    rw [fromUtf8_char hfront] at h
    cases hrest : fromUtf8 (s.drop w) with
    | ok rest => simp [hrest] at h
    | error e' =>
      rw [hrest] at h
      cases h
      obtain ⟨⟨cs, htake, hdecode⟩, hne, herror⟩ := ih hrest
      rw [List.drop_drop] at hne herror hdecode
      refine ⟨⟨c :: cs, ?_, ?_⟩, hne, herror⟩
      · have hshort : front (s.take (w + e'.validUpTo)) = .char c w := by
          have hsplit : s.take (w + e'.validUpTo) = s.take w ++ (s.drop w).take e'.validUpTo :=
            List.take_add
          rw [hsplit, front_append (by simp [hwidth.2.2]), hwidth.2.2]
        rw [fromUtf8_char hshort, List.drop_take, Nat.add_sub_cancel_left, htake]
      · rw [decode_char hfront, hdecode]
        rfl
  | invalid s w hfront =>
    have hne : s ≠ [] := by
      rintro rfl
      cases hfront
    have he : e = ⟨0, some w⟩ := by
      rw [fromUtf8, if_neg hne] at h
      split at h <;> simp_all
    subst he
    exact ⟨⟨[], by simpa using fromUtf8_nil, by simp⟩, by simpa using hne, by simpa using hfront⟩
  | incomplete s hne hfront =>
    have he : e = ⟨0, none⟩ := by
      rw [fromUtf8, if_neg hne] at h
      split at h <;> simp_all
    subst he
    exact ⟨⟨[], by simpa using fromUtf8_nil, by simp⟩, by simpa using hne, by simpa using hfront⟩

end Decode

end Utf8

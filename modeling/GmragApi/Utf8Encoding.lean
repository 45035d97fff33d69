import GmragApi.Utf8

/-! The UTF-8 bytes of a text, which decode to it. -/

namespace Utf8

def octet (n : Nat) : UInt8 := UInt8.ofNat n

/-- The bytes of a character, by the bits that its code takes. -/
def encodeChar (c : Char) : List UInt8 :=
  let n := c.toNat
  if n < 0x80 then [octet n]
  else if n < 0x800 then [octet (0xC0 + n / 64), octet (0x80 + n % 64)]
  else if n < 0x10000 then
    [octet (0xE0 + n / 4096), octet (0x80 + n / 64 % 64), octet (0x80 + n % 64)]
  else
    [octet (0xF0 + n / 262144), octet (0x80 + n / 4096 % 64), octet (0x80 + n / 64 % 64),
      octet (0x80 + n % 64)]

def toUtf8 (s : List Char) : List UInt8 := s.flatMap encodeChar

theorem octet_toNat {n : Nat} (h : n < 256) : (octet n).toNat = n :=
  UInt8.toNat_ofNat_of_lt' h

/-- The code of a character is not that of a surrogate. -/
theorem code_range (c : Char) : c.toNat < 0xD800 ∨ 0xDFFF < c.toNat ∧ c.toNat < 0x110000 :=
  c.valid

theorem tailBytes_octet {code width more n : Nat} (s : List UInt8) (h : n < 64) :
    tailBytes code width (more + 1) (octet (0x80 + n) :: s) =
      tailBytes (code * 64 + n) (width + 1) more s := by
  have hn : (octet (0x80 + n)).toNat = 0x80 + n := octet_toNat (by omega)
  have hbits : continuationBits (octet (0x80 + n)) = n := by
    rw [continuationBits, hn]
    omega
  rw [tailBytes, if_pos (by omega), hbits]

/-- A lead byte and a second one in its range begin a character. -/
theorem front_lead {a b : UInt8} {low high more : Nat} (s : List UInt8) (ha : 0x80 ≤ a.toNat)
    (hsecond : secondByte a = some (low, high, more)) (hb : low ≤ b.toNat ∧ b.toNat ≤ high) :
    front (a :: b :: s) = tailBytes (leadBits a more * 64 + continuationBits b) 2 more s := by
  rw [front, if_neg (by omega), hsecond]
  simp only [if_pos hb]

/-- The second of three bytes is in the range of the first. -/
theorem secondByte_three {c : Char} (h : 0x800 ≤ c.toNat) (h' : c.toNat < 0x10000) :
    ∃ low high, secondByte (octet (0xE0 + c.toNat / 4096)) = some (low, high, 1) ∧
      low ≤ 0x80 + c.toNat / 64 % 64 ∧ 0x80 + c.toNat / 64 % 64 ≤ high := by
  have hrange := code_range c
  have hlead : (octet (0xE0 + c.toNat / 4096)).toNat = 0xE0 + c.toNat / 4096 :=
    octet_toNat (by omega)
  unfold secondByte
  dsimp only
  rw [hlead, if_neg (by omega)]
  by_cases h0 : 0xE0 + c.toNat / 4096 = 0xE0
  · exact ⟨_, _, if_pos h0, by omega, by omega⟩
  rw [if_neg h0]
  by_cases h1 : 0xE1 ≤ 0xE0 + c.toNat / 4096 ∧ 0xE0 + c.toNat / 4096 ≤ 0xEC
  · exact ⟨_, _, if_pos h1, by omega, by omega⟩
  rw [if_neg h1]
  by_cases h2 : 0xE0 + c.toNat / 4096 = 0xED
  · exact ⟨_, _, if_pos h2, by omega, by omega⟩
  rw [if_neg h2, if_pos (by omega)]
  exact ⟨_, _, rfl, by omega, by omega⟩

theorem secondByte_four {c : Char} (h : 0x10000 ≤ c.toNat) :
    ∃ low high, secondByte (octet (0xF0 + c.toNat / 262144)) = some (low, high, 2) ∧
      low ≤ 0x80 + c.toNat / 4096 % 64 ∧ 0x80 + c.toNat / 4096 % 64 ≤ high := by
  have hrange := code_range c
  have hlead : (octet (0xF0 + c.toNat / 262144)).toNat = 0xF0 + c.toNat / 262144 :=
    octet_toNat (by omega)
  unfold secondByte
  dsimp only
  rw [hlead, if_neg (by omega), if_neg (by omega), if_neg (by omega), if_neg (by omega),
    if_neg (by omega)]
  by_cases h0 : 0xF0 + c.toNat / 262144 = 0xF0
  · exact ⟨_, _, if_pos h0, by omega, by omega⟩
  rw [if_neg h0]
  by_cases h1 : 0xF1 ≤ 0xF0 + c.toNat / 262144 ∧ 0xF0 + c.toNat / 262144 ≤ 0xF3
  · exact ⟨_, _, if_pos h1, by omega, by omega⟩
  rw [if_neg h1, if_pos (by omega)]
  exact ⟨_, _, rfl, by omega, by omega⟩

/-- What is encoded is what the decoder finds in front. -/
theorem front_encodeChar (c : Char) (s : List UInt8) :
    front (encodeChar c ++ s) = .char c (encodeChar c).length := by
  have hrange := code_range c
  have hcode : ∀ n, n = c.toNat → Char.ofNat n = c := fun n h => h ▸ Char.ofNat_toNat c
  unfold encodeChar
  dsimp only
  split
  next hone =>
    have hlead : (octet c.toNat).toNat = c.toNat := octet_toNat (by omega)
    rw [List.singleton_append, front, if_pos (by omega), hlead, Char.ofNat_toNat]
    rfl
  next hone =>
    split
    next htwo =>
      have hlead : (octet (0xC0 + c.toNat / 64)).toNat = 0xC0 + c.toNat / 64 :=
        octet_toNat (by omega)
      have hsecond : secondByte (octet (0xC0 + c.toNat / 64)) = some (0x80, 0xBF, 0) := by
        unfold secondByte
        dsimp only
        rw [if_pos (by omega)]
      have hb : (octet (0x80 + c.toNat % 64)).toNat = 0x80 + c.toNat % 64 := octet_toNat (by omega)
      rw [List.cons_append, List.singleton_append, front_lead s (by omega) hsecond (by omega),
        tailBytes, leadBits, continuationBits, hlead, hb, hcode _ (by omega)]
      rfl
    next htwo =>
      split
      next hthree =>
        have hlead : (octet (0xE0 + c.toNat / 4096)).toNat = 0xE0 + c.toNat / 4096 :=
          octet_toNat (by omega)
        have hb : (octet (0x80 + c.toNat / 64 % 64)).toNat = 0x80 + c.toNat / 64 % 64 :=
          octet_toNat (by omega)
        obtain ⟨low, high, hsecond, hin⟩ := secondByte_three (by omega) hthree
        rw [List.cons_append, List.cons_append, List.singleton_append,
          front_lead _ (by omega) hsecond (by rwa [hb]), tailBytes_octet s (by omega), tailBytes,
          leadBits, continuationBits, hlead, hb, hcode _ (by omega)]
        rfl
      next hthree =>
        have hlead : (octet (0xF0 + c.toNat / 262144)).toNat = 0xF0 + c.toNat / 262144 :=
          octet_toNat (by omega)
        have hb : (octet (0x80 + c.toNat / 4096 % 64)).toNat = 0x80 + c.toNat / 4096 % 64 :=
          octet_toNat (by omega)
        obtain ⟨low, high, hsecond, hin⟩ := secondByte_four (c := c) (by omega)
        rw [List.cons_append, List.cons_append, List.cons_append, List.singleton_append,
          front_lead _ (by omega) hsecond (by rwa [hb]), tailBytes_octet _ (by omega),
          tailBytes_octet s (by omega), tailBytes, leadBits, continuationBits, hlead, hb,
          hcode _ (by omega)]
        rfl

theorem fromUtf8_toUtf8 (s : List Char) : fromUtf8 (toUtf8 s) = .ok s := by
  induction s with
  | nil => exact fromUtf8_nil
  | cons c s ih =>
    have hsplit : toUtf8 (c :: s) = encodeChar c ++ toUtf8 s := List.flatMap_cons
    rw [hsplit, fromUtf8_char (front_encodeChar c (toUtf8 s)), List.drop_left, ih]

end Utf8

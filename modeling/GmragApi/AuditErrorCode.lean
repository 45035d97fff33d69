import Mathlib

/-! The code that an audit event or an outbox row gets for an error text. -/

namespace GmragApi.Audit

def maxErrorCodeLen : Nat := 64

/-- One character of the text, after what there is of the code: any run of other characters leaves
one underscore. -/
def pushCodeChar (normalized : List Char) (ch : Char) : List Char :=
  if ch.isAlphanum then normalized ++ [ch.toLower]
  else if normalized.getLast? ≠ some '_' then normalized ++ ['_']
  else normalized

def normalizeFrom : List Char → List Char → List Char
  | normalized, [] => normalized
  | normalized, ch :: rest =>
    if maxErrorCodeLen ≤ (pushCodeChar normalized ch).length then pushCodeChar normalized ch
    else normalizeFrom (pushCodeChar normalized ch) rest

def isUnderscore (c : Char) : Bool := c == '_'

/-- `trim_matches('_')`. -/
def trimUnderscores (s : List Char) : List Char := (s.dropWhile isUnderscore).rdropWhile isUnderscore

def sanitizeErrorCode (raw : List Char) : List Char := trimUnderscores (normalizeFrom [] raw)

def isCodeChar (c : Char) : Bool := c.isLower || c.isDigit

/-- Words of lower case letters and digits, with one underscore between them. -/
structure IsCode (s : List Char) : Prop where
  chars : ∀ c ∈ s, isCodeChar c = true ∨ c = '_'
  length : s.length ≤ maxErrorCodeLen
  single : s.IsChain fun a b => ¬ (a = '_' ∧ b = '_')
  first : s.head? ≠ some '_'
  last : s.getLast? ≠ some '_'

section Chars

variable {c : Char}

theorem isCodeChar_toLower (h : c.isAlphanum = true) : isCodeChar c.toLower = true := by
  unfold isCodeChar
  rcases Bool.or_eq_true_iff.mp h with halpha | hdigit
  · rw [Char.isLower_toLower_eq_isAlpha, halpha, Bool.true_or]
  · have hlower : c.toLower = c := by
      refine Char.toLower_eq_of_not_isUpper fun hupper => ?_
      simp [Char.isUpper, Char.isDigit, UInt32.le_iff_toNat_le] at hupper hdigit
      omega
    rw [hlower, hdigit, Bool.or_true]

theorem underscore_not_codeChar : isCodeChar '_' = false := by decide

theorem toLower_of_codeChar (h : isCodeChar c = true) : c.isAlphanum = true ∧ c.toLower = c := by
  have hnot : ¬ c.isUpper = true := by
    intro hupper
    simp [isCodeChar, Char.isLower, Char.isUpper, Char.isDigit, UInt32.le_iff_toNat_le] at h hupper
    omega
  refine ⟨?_, Char.toLower_eq_of_not_isUpper hnot⟩
  rw [Char.isAlphanum, Char.isAlpha, Bool.or_assoc, show (c.isLower || c.isDigit) = true from h,
    Bool.or_true]

end Chars

section Normal

variable {normalized raw s : List Char} {ch : Char}

/-- What the loop keeps of the code, before its ends are trimmed. -/
structure Normal (s : List Char) : Prop where
  chars : ∀ c ∈ s, isCodeChar c = true ∨ c = '_'
  length : s.length ≤ maxErrorCodeLen
  single : s.IsChain fun a b => ¬ (a = '_' ∧ b = '_')

theorem isChain_concat (h : s.IsChain fun a b => ¬ (a = '_' ∧ b = '_'))
    (hlast : ch = '_' → s.getLast? ≠ some '_') :
    (s ++ [ch]).IsChain fun a b => ¬ (a = '_' ∧ b = '_') := by
  refine List.isChain_append.mpr ⟨h, List.isChain_singleton ch, ?_⟩
  rintro a ha b hb ⟨rfl, rfl⟩
  have hch : ch = '_' := by simpa using hb
  exact hlast hch ha

theorem pushCodeChar_normal (h : Normal normalized) (hroom : normalized.length < maxErrorCodeLen) :
    Normal (pushCodeChar normalized ch) := by
  have hpush : ∀ c, (isCodeChar c = true ∨ c = '_') →
      (c = '_' → normalized.getLast? ≠ some '_') → Normal (normalized ++ [c]) := by
    intro c hc hlast
    refine ⟨fun d hd => ?_, ?_, isChain_concat h.single hlast⟩
    · rcases List.mem_append.mp hd with hd | hd
      · exact h.chars d hd
      · rw [List.mem_singleton.mp hd]
        exact hc
    · rw [List.length_append, List.length_singleton]
      omega
  unfold pushCodeChar
  split
  next halpha =>
    have hcode := isCodeChar_toLower halpha
    refine hpush _ (.inl hcode) fun heq => ?_
    rw [heq, underscore_not_codeChar] at hcode
    cases hcode
  next =>
    split
    next hlast => exact hpush '_' (.inr rfl) fun _ => hlast
    next => exact h

theorem normalizeFrom_normal (h : Normal normalized)
    (hroom : normalized.length < maxErrorCodeLen) : Normal (normalizeFrom normalized raw) := by
  induction raw generalizing normalized with
  | nil => exact h
  | cons ch raw ih =>
    rw [normalizeFrom]
    split
    next => exact pushCodeChar_normal h hroom
    next hshort => exact ih (pushCodeChar_normal h hroom) (by omega)

theorem normal_nil : Normal [] :=
  ⟨fun c hc => absurd hc List.not_mem_nil, by decide, List.isChain_nil⟩

theorem trimUnderscores_infix (s : List Char) : trimUnderscores s <:+: s := by
  have hback : trimUnderscores s <+: s.dropWhile isUnderscore := List.rdropWhile_prefix _ _
  exact hback.isInfix.trans (List.dropWhile_suffix _).isInfix

theorem trimUnderscores_first (s : List Char) : (trimUnderscores s).head? ≠ some '_' := by
  intro hfirst
  obtain ⟨rest, hrest⟩ : trimUnderscores s <+: s.dropWhile isUnderscore := List.rdropWhile_prefix _ _
  have hhead : (s.dropWhile isUnderscore).head? = some '_' := by
    rw [← hrest, List.head?_append, hfirst]
    rfl
  have hnot := List.head?_dropWhile_not isUnderscore s
  rw [hhead] at hnot
  exact absurd hnot (by decide)

theorem trimUnderscores_last (s : List Char) : (trimUnderscores s).getLast? ≠ some '_' := by
  intro hlast
  have hne : trimUnderscores s ≠ [] := by
    rintro hnil
    rw [hnil] at hlast
    cases hlast
  have hnot := List.rdropWhile_last_not isUnderscore (s.dropWhile isUnderscore) hne
  rw [List.getLast?_eq_some_getLast hne] at hlast
  refine hnot ?_
  have heq : (trimUnderscores s).getLast hne = '_' := Option.some.inj hlast
  exact beq_iff_eq.mpr heq

theorem Normal.trim (h : Normal s) : IsCode (trimUnderscores s) := by
  have hwithin := trimUnderscores_infix s
  exact ⟨fun c hc => h.chars c (hwithin.subset hc), Nat.le_trans hwithin.length_le h.length,
    h.single.infix hwithin, trimUnderscores_first s, trimUnderscores_last s⟩

/-- The loop goes through a code without a change. -/
theorem normalizeFrom_code (h : Normal (normalized ++ s)) : normalizeFrom normalized s = normalized ++ s := by
  induction s generalizing normalized with
  | nil => rw [List.append_nil, normalizeFrom]
  | cons ch s ih =>
    have hsplit : normalized ++ ch :: s = normalized ++ [ch] ++ s := by simp
    rw [hsplit] at h ⊢
    have hpush : pushCodeChar normalized ch = normalized ++ [ch] := by
      rcases h.chars ch (by simp) with hcode | rfl
      · obtain ⟨halpha, hlower⟩ := toLower_of_codeChar hcode
        rw [pushCodeChar, if_pos halpha, hlower]
      · have hchain := (List.isChain_append.mp (List.isChain_append.mp h.single).1).2.2
        have hlast : normalized.getLast? ≠ some '_' := fun hlast =>
          hchain '_' hlast '_' rfl ⟨rfl, rfl⟩
        rw [pushCodeChar, if_neg (by decide), if_pos hlast]
    rw [normalizeFrom, hpush]
    split
    next hfull =>
      have hlength := h.length
      rw [List.length_append] at hlength
      have hnil : s = [] := List.eq_nil_of_length_eq_zero (by omega)
      rw [hnil, List.append_nil]
    next => exact ih h

theorem trimUnderscores_code (h : IsCode s) : trimUnderscores s = s := by
  have hfront : s.dropWhile isUnderscore = s := by
    cases s with
    | nil => rfl
    | cons c s =>
      refine List.dropWhile_cons_of_neg fun hc => h.first ?_
      rw [beq_iff_eq.mp hc]
      rfl
  rw [trimUnderscores, hfront]
  refine List.rdropWhile_eq_self_iff.mpr fun hne hc => h.last ?_
  rw [List.getLast?_eq_some_getLast hne]
  exact congrArg some (beq_iff_eq.mp hc)

/-- Whatever the error says, its code has the form of a code, and codes are what stays as it is: a
code that is sanitized again, from an outbox row or another event, is the same code. -/
theorem sanitizeErrorCode_code (raw : List Char) :
    IsCode (sanitizeErrorCode raw) ∧ (sanitizeErrorCode raw = raw ↔ IsCode raw) := by
  have hcode : IsCode (sanitizeErrorCode raw) :=
    (normalizeFrom_normal normal_nil (by decide)).trim
  refine ⟨hcode, fun heq => heq ▸ hcode, fun h => ?_⟩
  have hnormal : Normal ([] ++ raw) := ⟨h.chars, h.length, h.single⟩
  rw [sanitizeErrorCode, normalizeFrom_code hnormal, List.nil_append, trimUnderscores_code h]

end Normal

end GmragApi.Audit

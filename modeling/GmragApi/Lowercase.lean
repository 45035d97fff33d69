import Mathlib.Data.List.Perm.Subperm

/-! Two ways to fold the case of a text: the one of Unicode, whose mapping of a character may have
two code points and whose sigma depends on its neighbours, and the one that maps each character to
its simple lower case. Texts that the simple one keeps apart and folds into what the other gives
are folded alike. -/

namespace Lowercase

/-- The tables of the character database. -/
structure CaseTables where
  isCased : Char → Bool
  isCaseIgnorable : Char → Bool
  toLower : Char → List Char
  simpleLower : Char → Char
  toLower_eq : ∀ c, toLower c = [simpleLower c] ∨ 2 ≤ (toLower c).length
  simpleLower_sigma : simpleLower 'Σ' = 'σ'

namespace CaseTables

variable (t : CaseTables)

def caseIgnorableThenCased (chars : List Char) : Bool :=
  match chars.dropWhile t.isCaseIgnorable with
  | c :: _ => t.isCased c
  | [] => false

/-- `before` are the characters in front of the sigma, from the last to the first. -/
def mapUppercaseSigma (before after : List Char) : Char :=
  if t.caseIgnorableThenCased before && !t.caseIgnorableThenCased after then 'ς' else 'σ'

def lowercaseFrom : List Char → List Char → List Char
  | _, [] => []
  | before, c :: rest =>
    (if c = 'Σ' then [t.mapUppercaseSigma before rest] else t.toLower c) ++
      lowercaseFrom (c :: before) rest

/-- `str::to_lowercase`. -/
def toLowercase (text : List Char) : List Char := t.lowercaseFrom [] text

def simpleLowercase (text : List Char) : List Char := text.map t.simpleLower

end CaseTables

/-- Final sigmas weigh more than other characters, and less than two of them. -/
def weight : List Char → Nat
  | [] => 0
  | c :: text => (if c = 'ς' then 3 else 2) + weight text

theorem weight_append (a b : List Char) : weight (a ++ b) = weight a + weight b := by
  induction a with
  | nil => exact (Nat.zero_add _).symm
  | cons c a ih => rw [List.cons_append, weight, weight, ih, Nat.add_assoc]

theorem weight_singleton_le (c : Char) : 2 ≤ weight [c] ∧ weight [c] ≤ 3 := by
  rw [weight, weight]
  split <;> omega

theorem two_mul_length_le_weight (text : List Char) : 2 * text.length ≤ weight text := by
  induction text with
  | nil => exact Nat.le_refl _
  | cons c text ih =>
    have hc := (weight_singleton_le c).1
    have hsplit := weight_append [c] text
    rw [List.length_cons]
    rw [List.singleton_append] at hsplit
    omega

namespace CaseTables

variable (t : CaseTables)

/-- Of one character, the mapping in its place weighs no less than the simple one, and as much only
where it is the simple one. -/
theorem weight_piece (c : Char) (before after : List Char) :
    let piece := if c = 'Σ' then [t.mapUppercaseSigma before after] else t.toLower c
    weight [t.simpleLower c] ≤ weight piece ∧
      (weight piece ≤ weight [t.simpleLower c] → piece = [t.simpleLower c]) := by
  dsimp only
  split
  next hsigma =>
    subst hsigma
    rw [t.simpleLower_sigma, mapUppercaseSigma]
    split
    · exact ⟨by decide, fun h => absurd h (by decide)⟩
    · exact ⟨Nat.le_refl _, fun _ => rfl⟩
  next =>
    rcases t.toLower_eq c with hone | htwo
    · rw [hone]
      exact ⟨Nat.le_refl _, fun _ => rfl⟩
    · have hlong := two_mul_length_le_weight (t.toLower c)
      have hshort := (weight_singleton_le (t.simpleLower c)).2
      exact ⟨by omega, fun h => by omega⟩

theorem weight_lowercaseFrom (text before : List Char) :
    weight (t.simpleLowercase text) ≤ weight (t.lowercaseFrom before text) ∧
      (weight (t.lowercaseFrom before text) ≤ weight (t.simpleLowercase text) →
        t.lowercaseFrom before text = t.simpleLowercase text) := by
  induction text generalizing before with
  | nil => exact ⟨Nat.le_refl _, fun _ => rfl⟩
  | cons c text ih =>
    obtain ⟨hpiece, hpieceEq⟩ := t.weight_piece c before text
    obtain ⟨hrest, hrestEq⟩ := ih (c :: before)
    have hsimple : t.simpleLowercase (c :: text) = [t.simpleLower c] ++ t.simpleLowercase text := rfl
    rw [lowercaseFrom, hsimple, weight_append, weight_append]
    refine ⟨Nat.add_le_add hpiece hrest, fun h => ?_⟩
    rw [hpieceEq (by omega), hrestEq (by omega)]

/-- The texts that the one folds as the other does are those of equal weight. -/
theorem weight_le (text : List Char) :
    weight (t.simpleLowercase text) ≤ weight (t.toLowercase text) :=
  (t.weight_lowercaseFrom text []).1

theorem eq_of_weight_eq {text : List Char}
    (h : weight (t.simpleLowercase text) = weight (t.toLowercase text)) :
    t.toLowercase text = t.simpleLowercase text :=
  (t.weight_lowercaseFrom text []).2 (Nat.le_of_eq h.symm)

end CaseTables

section Total

variable {α : Type*} {f g : α → Nat} {xs ys : List α}

def total (f : α → Nat) : List α → Nat
  | [] => 0
  | x :: xs => f x + total f xs

theorem total_perm (h : xs.Perm ys) : total f xs = total f ys := by
  induction h with
  | nil => rfl
  | cons x _ ih => rw [total, total, ih]
  | swap x y _ => exact Nat.add_left_comm _ _ _
  | trans _ _ ih ih' => exact ih.trans ih'

theorem total_map {β : Type*} (f : β → Nat) (h : α → β) (xs : List α) :
    total f (xs.map h) = total (fun x => f (h x)) xs := by
  induction xs with
  | nil => rfl
  | cons x xs ih => rw [List.map_cons, total, total, ih]

theorem total_le (hle : ∀ x ∈ xs, f x ≤ g x) : total f xs ≤ total g xs := by
  induction xs with
  | nil => exact Nat.le_refl _
  | cons x xs ih =>
    exact Nat.add_le_add (hle x List.mem_cons_self) (ih fun y hy => hle y (List.mem_cons_of_mem _ hy))

theorem eq_of_total_eq (hle : ∀ x ∈ xs, f x ≤ g x) (htotal : total f xs = total g xs) :
    ∀ x ∈ xs, f x = g x := by
  induction xs with
  | nil => exact fun _ h => absurd h List.not_mem_nil
  | cons x xs ih =>
    have hx := hle x List.mem_cons_self
    have hrest := total_le fun y hy => hle y (List.mem_cons_of_mem _ hy)
    rw [total, total] at htotal
    intro y hy
    rcases List.mem_cons.mp hy with rfl | hy
    · omega
    · exact ih (fun z hz => hle z (List.mem_cons_of_mem _ hz)) (by omega) y hy

end Total

/-- Texts that the simple folding keeps apart, and whose simple foldings are all foldings of theirs,
are folded alike. -/
theorem CaseTables.agree_of_covered (t : CaseTables) {texts : List (List Char)}
    (hsimple : (texts.map t.simpleLowercase).Nodup)
    (hcovered : ∀ text ∈ texts, ∃ other ∈ texts, t.toLowercase other = t.simpleLowercase text) :
    ∀ text ∈ texts, t.toLowercase text = t.simpleLowercase text := by
  have hsubset : texts.map t.simpleLowercase ⊆ texts.map t.toLowercase := by
    intro key hkey
    obtain ⟨text, htext, rfl⟩ := List.mem_map.mp hkey
    obtain ⟨other, hother, heq⟩ := hcovered text htext
    exact List.mem_map.mpr ⟨other, hother, heq⟩
  have hperm : (texts.map t.simpleLowercase).Perm (texts.map t.toLowercase) := by
    refine (List.subperm_of_subset hsimple hsubset).perm_of_length_le (Nat.le_of_eq ?_)
    rw [List.length_map, List.length_map]
  have htotal : total weight (texts.map t.simpleLowercase) = total weight (texts.map t.toLowercase) :=
    total_perm hperm
  rw [total_map, total_map] at htotal
  intro text htext
  exact t.eq_of_weight_eq (eq_of_total_eq (fun x _ => t.weight_le x) htotal text htext)

/-- The tables of ASCII, with the sigma. -/
def asciiTables : CaseTables where
  isCased _ := false
  isCaseIgnorable _ := false
  toLower c := [if c = 'Σ' then 'σ' else c.toLower]
  simpleLower c := if c = 'Σ' then 'σ' else c.toLower
  toLower_eq _ := .inl rfl
  simpleLower_sigma := rfl

end Lowercase

import Mathlib.Data.Finset.Basic
import Mathlib.Logic.Relation

/-! Access control by relations: what a relation of an object means is given by a rule over the
tuples of the object and of the objects that it is linked to. A user holds a relation when the rules
derive it; `check` evaluates the rules as far as its fuel goes. -/

namespace Userset

/-- How the users of a relation are found: by tuples, as those of another relation, as those of one
of two, or as those of a relation of the objects that a link names. -/
inductive Rewrite (ρ : Type*)
  | direct
  | computed (relation : ρ)
  | union (left right : Rewrite ρ)
  | linked (link relation : ρ)

/-- What the rules read of a store: the tuples of a user, and the objects that a link names. -/
structure View (υ ο ρ : Type*) where
  direct : ο → ρ → υ → Bool
  linked : ο → ρ → Finset ο

variable {υ ο ρ : Type*}

section Rules

variable (rule : ο → ρ → Option (Rewrite ρ)) (v : View υ ο ρ) (u : υ)

/-- The user is among those of the expression, for a relation of the object. -/
inductive Satisfies : ο → ρ → Rewrite ρ → Prop
  | direct {o r} : v.direct o r u = true → Satisfies o r .direct
  | computed {o r r' e} : rule o r' = some e → Satisfies o r' e → Satisfies o r (.computed r')
  | left {o r a b} : Satisfies o r a → Satisfies o r (.union a b)
  | right {o r a b} : Satisfies o r b → Satisfies o r (.union a b)
  | linked {o r l r' o' e} : o' ∈ v.linked o l → rule o' r' = some e → Satisfies o' r' e →
      Satisfies o r (.linked l r')

/-- The user holds the relation of the object. -/
def Holds (o : ο) (r : ρ) : Prop := ∃ e, rule o r = some e ∧ Satisfies rule v u o r e

def evaluate (check : ο → ρ → Bool) (o : ο) (r : ρ) : Rewrite ρ → Bool
  | .direct => v.direct o r u
  | .computed r' => check o r'
  | .union a b => evaluate check o r a || evaluate check o r b
  | .linked l r' => decide (∃ o' ∈ v.linked o l, check o' r' = true)

def check : Nat → ο → ρ → Bool
  | 0, _, _ => false
  | fuel + 1, o, r =>
    match rule o r with
    | some e => evaluate v u (check fuel) o r e
    | none => false

/-- Every relation that the expression refers to is below the bound. -/
def Below (rank : ο → ρ → Nat) (bound : Nat) (o : ο) : Rewrite ρ → Prop
  | .direct => True
  | .computed r' => rank o r' < bound
  | .union a b => Below rank bound o a ∧ Below rank bound o b
  | .linked l r' => ∀ o' ∈ v.linked o l, rank o' r' < bound

/-- No rule refers to its own relation, directly or by way of others. -/
def Ranked (rank : ο → ρ → Nat) : Prop :=
  ∀ o r e, rule o r = some e → Below v rank (rank o r) o e

end Rules

variable {rule : ο → ρ → Option (Rewrite ρ)} {v w : View υ ο ρ} {u : υ} {o : ο} {r : ρ}

theorem holds_iff {e : Rewrite ρ} (h : rule o r = some e) :
    Holds rule v u o r ↔ Satisfies rule v u o r e := by
  constructor
  · rintro ⟨e', he, hs⟩
    cases Option.some.inj (h.symm.trans he)
    exact hs
  · exact fun hs => ⟨e, h, hs⟩

theorem not_holds_of_none (h : rule o r = none) : ¬ Holds rule v u o r := by
  rintro ⟨e, he, -⟩
  rw [h] at he
  cases he

@[simp] theorem satisfies_direct_iff : Satisfies rule v u o r .direct ↔ v.direct o r u = true :=
  ⟨fun h => by cases h; assumption, .direct⟩

@[simp] theorem satisfies_computed_iff {r' : ρ} :
    Satisfies rule v u o r (.computed r') ↔ Holds rule v u o r' := by
  constructor
  · intro h
    cases h with
    | computed he hs => exact ⟨_, he, hs⟩
  · rintro ⟨e, he, hs⟩
    exact .computed he hs

@[simp] theorem satisfies_union_iff {a b : Rewrite ρ} :
    Satisfies rule v u o r (.union a b) ↔
      Satisfies rule v u o r a ∨ Satisfies rule v u o r b := by
  constructor
  · intro h
    cases h with
    | left h => exact .inl h
    | right h => exact .inr h
  · rintro (h | h)
    · exact .left h
    · exact .right h

@[simp] theorem satisfies_linked_iff {l r' : ρ} :
    Satisfies rule v u o r (.linked l r') ↔ ∃ o' ∈ v.linked o l, Holds rule v u o' r' := by
  constructor
  · intro h
    cases h with
    | linked ho he hs => exact ⟨_, ho, _, he, hs⟩
  · rintro ⟨o', ho, e, he, hs⟩
    exact .linked ho he hs

section Check

theorem evaluate_sound {f : ο → ρ → Bool} (hf : ∀ o r, f o r = true → Holds rule v u o r)
    {e : Rewrite ρ} (h : evaluate v u f o r e = true) : Satisfies rule v u o r e := by
  induction e with
  | direct => exact .direct h
  | computed r' => exact satisfies_computed_iff.mpr (hf o r' h)
  | union a b iha ihb =>
    rcases Bool.or_eq_true_iff.mp h with h | h
    · exact .left (iha h)
    · exact .right (ihb h)
  | linked l r' =>
    obtain ⟨o', ho, hr⟩ := of_decide_eq_true h
    exact satisfies_linked_iff.mpr ⟨o', ho, hf o' r' hr⟩

/-- With any fuel, what the evaluation grants is derived. -/
theorem check_sound {fuel : Nat} (h : check rule v u fuel o r = true) : Holds rule v u o r := by
  induction fuel generalizing o r with
  | zero => cases h
  | succ fuel ih =>
    rw [check] at h
    cases hrule : rule o r with
    | none =>
      rw [hrule] at h
      cases h
    | some e =>
      rw [hrule] at h
      exact ⟨e, rfl.trans hrule, evaluate_sound (fun _ _ => ih) h⟩

theorem evaluate_complete {f : ο → ρ → Bool} {rank : ο → ρ → Nat} {bound : Nat}
    (hf : ∀ o r, rank o r < bound → Holds rule v u o r → f o r = true) {e : Rewrite ρ}
    (hbelow : Below v rank bound o e) (h : Satisfies rule v u o r e) :
    evaluate v u f o r e = true := by
  induction e with
  | direct => exact satisfies_direct_iff.mp h
  | computed r' => exact hf o r' hbelow (satisfies_computed_iff.mp h)
  | union a b iha ihb =>
    rcases satisfies_union_iff.mp h with h | h
    · exact Bool.or_eq_true_iff.mpr (.inl (iha hbelow.1 h))
    · exact Bool.or_eq_true_iff.mpr (.inr (ihb hbelow.2 h))
  | linked l r' =>
    obtain ⟨o', ho, hr⟩ := satisfies_linked_iff.mp h
    exact decide_eq_true ⟨o', ho, hf o' r' (hbelow o' ho) hr⟩

/-- Fuel above the rank of a relation decides it. -/
theorem check_eq_true_iff {rank : ο → ρ → Nat} (hrank : Ranked rule v rank) {fuel : Nat}
    (hfuel : rank o r < fuel) : check rule v u fuel o r = true ↔ Holds rule v u o r := by
  refine ⟨check_sound, fun h => ?_⟩
  induction fuel generalizing o r with
  | zero => exact absurd hfuel (Nat.not_lt_zero _)
  | succ fuel ih =>
    obtain ⟨e, he, hs⟩ := h
    rw [check, he]
    have hbelow : ∀ o' r', rank o' r' < rank o r → Holds rule v u o' r' →
        check rule v u fuel o' r' = true :=
      fun o' r' hlt h => ih (by omega) h
    exact evaluate_complete hbelow (hrank o r e he) hs

end Check

end Userset

import Mathlib.Logic.Basic
import Mathlib.Data.List.Basic

namespace Transition

variable {σ α : Type*}

/-- States reached from `init` by steps that each meet `ok` in the state they start from. -/
inductive Reach (init : σ → Prop) (step : σ → α → Option σ) (ok : σ → α → Prop) : σ → Prop
  | start {s} : init s → Reach init step ok s
  | next {s t a} : Reach init step ok s → ok s a → step s a = some t → Reach init step ok t

/-- The condition every step meets. -/
def anyStep : σ → α → Prop := fun _ _ => True

def run (step : σ → α → Option σ) : σ → List α → Option σ
  | s, [] => some s
  | s, a :: as => (step s a).bind fun t => run step t as

theorem run_append {step : σ → α → Option σ} {s t : σ} {as bs : List α}
    (h : run step s as = some t) : run step s (as ++ bs) = run step t bs := by
  induction as generalizing s with
  | nil =>
    cases Option.some.inj h
    rfl
  | cons a as ih =>
    obtain ⟨u, hu, h⟩ := Option.bind_eq_some_iff.mp h
    rw [List.cons_append, run, hu, Option.bind_some]
    exact ih h

theorem run_pair {step : σ → α → Option σ} {s t u : σ} {a b : α} (h : step s a = some t)
    (h' : step t b = some u) : run step s [a, b] = some u := by
  simp [run, h, h']

/-- The run of `as` is possible and ends in a state with `P`. -/
def Ends (step : σ → α → Option σ) (P : σ → Prop) (s : σ) (as : List α) : Prop :=
  ∃ t, run step s as = some t ∧ P t

theorem Ends.nil {step : σ → α → Option σ} {P : σ → Prop} {s : σ} (h : P s) : Ends step P s [] :=
  ⟨s, rfl, h⟩

theorem Ends.cons {step : σ → α → Option σ} {P : σ → Prop} {s t : σ} {a : α} {as : List α}
    (hs : step s a = some t) (h : Ends step P t as) : Ends step P s (a :: as) := by
  obtain ⟨u, hu, hp⟩ := h
  exact ⟨u, by rw [run, hs, Option.bind_some, hu], hp⟩

/-- Every step that the run of `as` takes meets `ok`. -/
def Meets (step : σ → α → Option σ) (ok : σ → α → Prop) : σ → List α → Prop
  | _, [] => True
  | s, a :: as => ok s a ∧ ∀ t, step s a = some t → Meets step ok t as

/-- Every step that the run of `as` takes leads from `s` to `t` with `R s t`. -/
def EachStep (step : σ → α → Option σ) (R : σ → σ → Prop) : σ → List α → Prop
  | _, [] => True
  | s, a :: as => ∀ t, step s a = some t → R s t ∧ EachStep step R t as

/-- Every state that the run of `as` visits satisfies `P`. -/
def Always (step : σ → α → Option σ) (P : σ → Prop) (s : σ) (as : List α) : Prop :=
  P s ∧ EachStep step (fun _ t => P t) s as

section Reach

variable {init : σ → Prop} {step : σ → α → Option σ} {ok : σ → α → Prop}

theorem Reach.invariant {inv : σ → Prop} (base : ∀ s, init s → inv s)
    (keep : ∀ s t a, inv s → ok s a → step s a = some t → inv t) {s : σ}
    (h : Reach init step ok s) : inv s := by
  induction h with
  | start hi => exact base _ hi
  | next _ ho hs ih => exact keep _ _ _ ih ho hs

theorem Reach.of_run {as : List α} {s t : σ} (hs : Reach init step ok s)
    (hm : Meets step ok s as) (hr : run step s as = some t) : Reach init step ok t := by
  induction as generalizing s with
  | nil =>
    cases Option.some.inj hr
    exact hs
  | cons a as ih =>
    obtain ⟨u, hu, hr⟩ := Option.bind_eq_some_iff.mp hr
    exact ih (.next hs hm.1 hu) (hm.2 u hu) hr

theorem Meets.cons {s t : σ} {a : α} {as : List α} (ho : ok s a) (hs : step s a = some t)
    (hm : Meets step ok t as) : Meets step ok s (a :: as) := by
  refine ⟨ho, fun u hu => ?_⟩
  cases Option.some.inj (hs.symm.trans hu)
  exact hm

instance Meets.decidable [∀ s a, Decidable (ok s a)] :
    ∀ (s : σ) (as : List α), Decidable (Meets step ok s as)
  | _, [] => isTrue trivial
  | s, a :: as =>
    match h : step s a with
    | none => decidable_of_iff (ok s a) (by simp [Meets, h])
    | some t =>
      have := Meets.decidable t as
      decidable_of_iff (ok s a ∧ Meets step ok t as) (by simp [Meets, h])

theorem Meets.mono {ok' : σ → α → Prop} (h : ∀ s a, ok s a → ok' s a) {s : σ} {as : List α}
    (hm : Meets step ok s as) : Meets step ok' s as := by
  induction as generalizing s with
  | nil => trivial
  | cons a as ih => exact ⟨h s a hm.1, fun t ht => ih (hm.2 t ht)⟩

theorem meets_anyStep (s : σ) (as : List α) : Meets step anyStep s as := by
  induction as generalizing s with
  | nil => trivial
  | cons a as ih => exact ⟨trivial, fun t _ => ih t⟩

/-- What every step keeps, a whole run keeps. -/
theorem run_invariant {inv : σ → Prop}
    (keep : ∀ s t a, inv s → ok s a → step s a = some t → inv t) {as : List α} {s t : σ}
    (hi : inv s) (hm : Meets step ok s as) (hr : run step s as = some t) : inv t := by
  induction as generalizing s with
  | nil =>
    cases Option.some.inj hr
    exact hi
  | cons a as ih =>
    obtain ⟨u, hu, hr⟩ := Option.bind_eq_some_iff.mp hr
    exact ih (keep s u a hi hm.1 hu) (hm.2 u hu) hr

theorem Meets.append {as bs : List α} {s t : σ} (ha : Meets step ok s as)
    (hr : run step s as = some t) (hb : Meets step ok t bs) : Meets step ok s (as ++ bs) := by
  induction as generalizing s with
  | nil =>
    cases Option.some.inj hr
    exact hb
  | cons a as ih =>
    obtain ⟨u, hu, hr⟩ := Option.bind_eq_some_iff.mp hr
    exact .cons ha.1 hu (ih (ha.2 u hu) hr)

theorem Reach.of_free_run {as : List α} {s t : σ} (hs : init s)
    (hr : run step s as = some t) : Reach init step anyStep t :=
  Reach.of_run (.start hs) (meets_anyStep s as) hr

/-- What is alive is never condemned, when nothing condemned comes to life and nothing alive is
condemned. -/
theorem Reach.never_condemned {κ : Type*} (live condemned : σ → κ → Prop)
    (base : ∀ s, init s → ∀ k, live s k → ¬ condemned s k)
    (born : ∀ s t a, Reach init step ok s → ok s a → step s a = some t →
      ∀ k, live t k → live s k ∨ ¬ condemned t k)
    (doomed : ∀ s t a, Reach init step ok s → ok s a → step s a = some t →
      ∀ k, condemned t k → condemned s k ∨ ¬ live t k)
    {s : σ} (h : Reach init step ok s) {k : κ} (hk : live s k) : ¬ condemned s k := by
  induction h with
  | start hi => exact base _ hi k hk
  | next hr ho hs ih =>
    intro hc
    rcases born _ _ _ hr ho hs k hk with hk' | hn
    · rcases doomed _ _ _ hr ho hs k hc with hc' | hn
      · exact ih hk' hc'
      · exact hn hk
    · exact hn hc

end Reach

section Exact

variable {step : σ → α → Option σ} {ok : σ → α → Prop}

/-- A condition that each step meets exactly when it keeps `R` characterizes the runs whose
steps all keep `R`. -/
theorem eachStep_iff_meets {R : σ → σ → Prop} {inv : σ → Prop}
    (keep : ∀ s t a, inv s → ok s a → step s a = some t → R s t ∧ inv t)
    (exact : ∀ s t a, inv s → step s a = some t → R s t → ok s a)
    {as : List α} {s u : σ} (hi : inv s) (hr : run step s as = some u) :
    EachStep step R s as ↔ Meets step ok s as := by
  induction as generalizing s with
  | nil => exact Iff.rfl
  | cons a as ih =>
    obtain ⟨t, ht, hr⟩ := Option.bind_eq_some_iff.mp hr
    have same : ∀ v, step s a = some v → v = t := fun v hv => Option.some.inj (hv.symm.trans ht)
    constructor
    · intro h
      have hok := exact s t a hi ht (h t ht).1
      refine ⟨hok, ?_⟩
      intro v hv
      cases same v hv
      exact (ih (keep s t a hi hok ht).2 hr).mp (h t ht).2
    · intro h v hv
      cases same v hv
      have hk := keep s t a hi h.1 ht
      exact ⟨hk.1, (ih hk.2 hr).mpr (h.2 t ht)⟩

theorem always_iff_meets {P inv : σ → Prop}
    (carry : ∀ s t a, inv s → step s a = some t → inv t)
    (keep : ∀ s t a, inv s → P s → ok s a → step s a = some t → P t)
    (exact : ∀ s t a, inv s → P s → step s a = some t → P t → ok s a)
    {as : List α} {s u : σ} (hi : inv s) (hp : P s) (hr : run step s as = some u) :
    Always step P s as ↔ Meets step ok s as := by
  have keep' : ∀ s t a, inv s ∧ P s → ok s a → step s a = some t → P t ∧ inv t ∧ P t := by
    intro s t a hs ho ht
    have hpt := keep s t a hs.1 hs.2 ho ht
    exact ⟨hpt, carry s t a hs.1 ht, hpt⟩
  have exact' : ∀ s t a, inv s ∧ P s → step s a = some t → P t → ok s a := by
    intro s t a hs ht hpt
    exact exact s t a hs.1 hs.2 ht hpt
  have h := eachStep_iff_meets keep' exact' ⟨hi, hp⟩ hr
  rw [Always, h]
  exact and_iff_right hp

end Exact

end Transition

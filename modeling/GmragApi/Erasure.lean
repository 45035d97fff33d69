import Mathlib.Data.List.Infix
import Mathlib.Data.List.TakeDrop

/-! Bracketed markers are erased from a text, one kind after another. What can a text still spell
afterwards, when erasing a marker joins what stood on its two sides? -/

namespace Erasure

variable {α : Type*}

section Erase

variable [DecidableEq α] {pattern : List α}

/-- Drop the occurrences of the pattern, from left to right and none within another; the first
`skip` letters are the rest of one. -/
def erase (pattern : List α) : Nat → List α → List α
  | _, [] => []
  | skip + 1, _ :: s => erase pattern skip s
  | 0, a :: s =>
    if pattern <+: a :: s then erase pattern (pattern.length - 1) s
    else a :: erase pattern 0 s

theorem erase_skip (front s : List α) :
    erase pattern front.length (front ++ s) = erase pattern 0 s := by
  induction front with
  | nil => rfl
  | cons a front ih => exact ih

theorem erase_cons_of_front {a : α} {s : List α} (h : pattern <+: a :: s) :
    erase pattern 0 (a :: s) = erase pattern (pattern.length - 1) s := if_pos h

theorem erase_cons_of_not_front {a : α} {s : List α} (h : ¬ pattern <+: a :: s) :
    erase pattern 0 (a :: s) = a :: erase pattern 0 s := if_neg h

theorem erase_pattern (hne : pattern ≠ []) (s : List α) :
    erase pattern 0 (pattern ++ s) = erase pattern 0 s := by
  obtain ⟨a, front, rfl⟩ := List.exists_cons_of_ne_nil hne
  have hpre : (a :: front) <+: a :: (front ++ s) := ⟨s, rfl⟩
  rw [List.cons_append, erase_cons_of_front hpre]
  exact erase_skip front s

/-- A letter that is left stood in the text, and its two sides were erased on their own. -/
theorem exists_of_erase {skip : Nat} {s left right : List α} {a : α}
    (h : erase pattern skip s = left ++ a :: right) :
    ∃ left' right', s = left' ++ a :: right' ∧ skip ≤ left'.length ∧
      erase pattern skip left' = left ∧ erase pattern 0 right' = right := by
  induction s generalizing skip left with
  | nil => simp [erase] at h
  | cons b s ih =>
    cases skip with
    | succ skip =>
      obtain ⟨left', right', rfl, hskip, hleft, hright⟩ := ih h
      exact ⟨b :: left', right', rfl, Nat.succ_le_succ hskip, hleft, hright⟩
    | zero =>
      by_cases hpre : pattern <+: b :: s
      · rw [erase_cons_of_front hpre] at h
        obtain ⟨left', right', rfl, hskip, hleft, hright⟩ := ih h
        have hlength : pattern.length ≤ (b :: left').length := by
          simp only [List.length_cons]
          omega
        have hpre' : pattern <+: b :: left' :=
          List.prefix_of_prefix_length_le hpre (List.prefix_append _ _) hlength
        exact ⟨b :: left', right', rfl, Nat.zero_le _,
          (erase_cons_of_front hpre').trans hleft, hright⟩
      · rw [erase_cons_of_not_front hpre] at h
        rcases left with _ | ⟨c, left⟩
        · obtain ⟨rfl, rfl⟩ := List.cons.inj h
          exact ⟨[], s, rfl, Nat.zero_le _, rfl, rfl⟩
        · obtain ⟨rfl, hrest⟩ := List.cons.inj h
          obtain ⟨left', right', rfl, -, hleft, hright⟩ := ih hrest
          have hpre' : ¬ pattern <+: b :: left' := fun hp =>
            hpre (hp.trans (List.prefix_append _ _))
          exact ⟨b :: left', right', rfl, Nat.zero_le _,
            by rw [erase_cons_of_not_front hpre', hleft], hright⟩

end Erase

section Brackets

variable (opening closing : α)

def marker (body : List α) : List α := opening :: body ++ [closing]

/-- The text has no bracket. -/
def Plain (s : List α) : Prop := opening ∉ s ∧ closing ∉ s

/-- Every bracket of the text has its counterpart in it. -/
inductive Balanced : List α → Prop
  | nil : Balanced []
  | letter {a : α} {s : List α} : a ≠ opening → a ≠ closing → Balanced s → Balanced (a :: s)
  | pair {u s : List α} : Balanced u → Balanced s → Balanced (opening :: u ++ closing :: s)

variable {opening closing} {body : List α}

theorem Balanced.of_plain {s : List α} (h : Plain opening closing s) :
    Balanced opening closing s := by
  induction s with
  | nil => exact .nil
  | cons a s ih =>
    obtain ⟨ho, hc⟩ := h
    rw [List.mem_cons, not_or] at ho hc
    exact .letter (Ne.symm ho.1) (Ne.symm hc.1) (ih ⟨ho.2, hc.2⟩)

/-- A bracket that closes closes one of the text. -/
theorem Balanced.opening_mem (hne : opening ≠ closing) {s : List α}
    (h : Balanced opening closing s) {left right : List α} (hs : s = left ++ closing :: right) :
    opening ∈ left := by
  induction h generalizing left with
  | nil => simp at hs
  | letter ho hc _ ih =>
    rcases left with _ | ⟨b, left⟩
    · exact absurd (List.cons.inj hs).1 hc
    · exact List.mem_cons_of_mem _ (ih (List.cons.inj hs).2)
  | pair _ _ _ _ =>
    rcases left with _ | ⟨b, left⟩
    · exact absurd (List.cons.inj hs).1 hne
    · obtain ⟨rfl, -⟩ := List.cons.inj hs
      exact List.mem_cons_self

/-- What has no opening bracket ends before the next one. -/
theorem prefix_append_opening {w s y : List α} (hw : opening ∉ w) :
    w <+: s ++ opening :: y ↔ w <+: s := by
  constructor
  · intro h
    rcases List.prefix_or_prefix_of_prefix h (List.prefix_append s _) with hs | ⟨r, rfl⟩
    · exact hs
    · rcases r with _ | ⟨b, r⟩
      · rw [List.append_nil]
      · obtain ⟨rfl, -⟩ := List.cons_prefix_cons.mp ((List.prefix_append_right_inj s).mp h)
        exact absurd (List.mem_append_right s List.mem_cons_self) hw
  · exact fun h => h.trans (List.prefix_append s _)

/-- A marker ends with the first bracket that closes. -/
theorem marker_prefix_append_closing (hne : opening ≠ closing) (hbody : closing ∉ body)
    {s y : List α} :
    marker opening closing body <+: s ++ closing :: y ↔
      marker opening closing body <+: s ++ [closing] := by
  have hshort : s ++ [closing] <+: s ++ closing :: y := by
    rw [List.prefix_append_right_inj]
    exact List.cons_prefix_cons.mpr ⟨rfl, List.nil_prefix⟩
  constructor
  · intro h
    rcases List.prefix_or_prefix_of_prefix h hshort with hs | ⟨r, hr⟩
    · exact hs
    · rcases List.eq_nil_or_concat r with rfl | ⟨r, b, rfl⟩
      · rw [List.append_nil] at hr
        rw [hr]
      · have hlast : s ++ [closing] ++ r = opening :: body := by
          have hinit := congrArg List.dropLast hr
          rwa [List.concat_eq_append, ← List.append_assoc, List.dropLast_concat, marker,
            List.dropLast_concat] at hinit
        have hmem : closing ∈ opening :: body := by
          rw [← hlast]
          simp
        rcases List.mem_cons.mp hmem with heq | hmem
        · exact absurd heq.symm hne
        · exact absurd hmem hbody
  · exact fun h => h.trans hshort

/-- With the markers of the first `k` kinds erased, each in its turn, the text reads `r`. -/
inductive Reads (opening closing : α) (bodies : List (List α)) : Nat → List α → List α → Prop
  | nil {k : Nat} : Reads opening closing bodies k [] []
  | letter {k : Nat} {a : α} {s r : List α} : a ≠ opening → a ≠ closing →
      Reads opening closing bodies k s r → Reads opening closing bodies k (a :: s) (a :: r)
  | erased {j k : Nat} {u s body r : List α} : bodies[j]? = some body → j < k →
      Reads opening closing bodies j u body → Reads opening closing bodies k s r →
      Reads opening closing bodies k (opening :: u ++ closing :: s) r

section Reads

variable {bodies : List (List α)}

theorem Reads.balanced {k : Nat} {u r : List α} (h : Reads opening closing bodies k u r) :
    Balanced opening closing u := by
  induction h with
  | nil => exact .nil
  | letter ho hc _ ih => exact .letter ho hc ih
  | erased _ _ _ _ ihu ihs => exact .pair ihu ihs

theorem Reads.plain {k : Nat} {u r : List α} (h : Reads opening closing bodies k u r) :
    Plain opening closing r := by
  induction h with
  | nil => exact ⟨List.not_mem_nil, List.not_mem_nil⟩
  | letter ho hc _ ih =>
    exact ⟨List.not_mem_cons_of_ne_of_not_mem (Ne.symm ho) ih.1,
      List.not_mem_cons_of_ne_of_not_mem (Ne.symm hc) ih.2⟩
  | erased _ _ _ _ _ ih => exact ih

/-- A text without brackets changes no more. -/
theorem Reads.mono {j k : Nat} {u r : List α} (h : Reads opening closing bodies j u r)
    (hk : j ≤ k) : Reads opening closing bodies k u r := by
  induction h with
  | nil => exact .nil
  | letter ho hc _ ih => exact .letter ho hc (ih hk)
  | erased hbody hj hu _ _ ihs => exact .erased hbody (by omega) hu (ihs hk)

end Reads

variable [DecidableEq α]

/-- What is erased before an opening bracket is erased without it. -/
theorem erase_append_opening (hbody : opening ∉ body) (hne : opening ≠ closing) {skip : Nat}
    (s y : List α) (hskip : skip ≤ s.length) :
    erase (marker opening closing body) skip (s ++ opening :: y) =
      erase (marker opening closing body) skip s ++
        erase (marker opening closing body) 0 (opening :: y) := by
  induction s generalizing skip with
  | nil =>
    obtain rfl := Nat.le_zero.mp hskip
    rfl
  | cons a s ih =>
    cases skip with
    | succ skip => exact ih (Nat.le_of_succ_le_succ hskip)
    | zero =>
      have htail : opening ∉ body ++ [closing] := by simp [hbody, hne]
      have hiff : marker opening closing body <+: a :: (s ++ opening :: y) ↔
          marker opening closing body <+: a :: s := by
        simp only [marker, List.cons_append, List.cons_prefix_cons, prefix_append_opening htail]
      rw [List.cons_append]
      by_cases hpre : marker opening closing body <+: a :: s
      · rw [erase_cons_of_front hpre, erase_cons_of_front (hiff.mpr hpre)]
        have hlength := hpre.length_le
        refine ih ?_
        simp only [List.length_cons] at hlength
        omega
      · rw [erase_cons_of_not_front hpre, erase_cons_of_not_front (mt hiff.mp hpre),
          ih (Nat.zero_le _), List.cons_append]

theorem erase_append_closing (hbody : closing ∉ body) (hne : opening ≠ closing) {skip : Nat}
    (s y : List α) (hskip : skip ≤ s.length + 1) :
    erase (marker opening closing body) skip (s ++ closing :: y) =
      erase (marker opening closing body) skip (s ++ [closing]) ++
        erase (marker opening closing body) 0 y := by
  induction s generalizing skip with
  | nil =>
    rcases Nat.le_one_iff_eq_zero_or_eq_one.mp hskip with rfl | rfl
    · have hhead : ∀ r, ¬ marker opening closing body <+: closing :: r := by
        intro r h
        exact hne (List.cons_prefix_cons.mp h).1
      rw [List.nil_append, List.nil_append, erase_cons_of_not_front (hhead y),
        erase_cons_of_not_front (hhead [])]
      rfl
    · rfl
  | cons a s ih =>
    cases skip with
    | succ skip => exact ih (Nat.le_of_succ_le_succ hskip)
    | zero =>
      have hiff : marker opening closing body <+: a :: (s ++ closing :: y) ↔
          marker opening closing body <+: a :: (s ++ [closing]) :=
        marker_prefix_append_closing hne hbody (s := a :: s)
      by_cases hpre : marker opening closing body <+: a :: (s ++ [closing])
      · rw [List.cons_append, List.cons_append, erase_cons_of_front hpre,
          erase_cons_of_front (hiff.mpr hpre)]
        have hlength := hpre.length_le
        refine ih ?_
        simp only [List.length_cons, List.length_append, List.length_nil] at hlength
        omega
      · rw [List.cons_append, List.cons_append, erase_cons_of_not_front hpre,
          erase_cons_of_not_front (mt hiff.mp hpre), ih (Nat.zero_le _), List.cons_append]

theorem erase_letter {a : α} (ha : a ≠ opening) (s : List α) :
    erase (marker opening closing body) 0 (a :: s) =
      a :: erase (marker opening closing body) 0 s := by
  refine erase_cons_of_not_front fun h => ha ?_
  exact (List.cons_prefix_cons.mp h).1.symm

/-- A bracket that no marker opens stays. -/
theorem erase_closing_last (hbody : Plain opening closing body) (hne : opening ≠ closing)
    {u : List α} (hu : Balanced opening closing u) :
    erase (marker opening closing body) 0 (u ++ [closing]) =
      erase (marker opening closing body) 0 u ++ [closing] := by
  induction hu with
  | nil => exact erase_letter (Ne.symm hne) []
  | letter ho _ _ ih =>
    rw [List.cons_append, erase_letter ho, ih, erase_letter ho, List.cons_append]
  | @pair u s _ _ _ ih =>
    have hassoc : opening :: u ++ closing :: s ++ [closing] =
        opening :: u ++ closing :: (s ++ [closing]) := by simp
    rw [hassoc, erase_append_closing hbody.2 hne _ _ (Nat.zero_le _), ih,
      erase_append_closing hbody.2 hne _ s (Nat.zero_le _), List.append_assoc]

/-- A pair of brackets goes if it is the marker. -/
theorem erase_pair (hbody : Plain opening closing body) (hne : opening ≠ closing) {u : List α}
    (hu : Balanced opening closing u) (s : List α) :
    erase (marker opening closing body) 0 (opening :: u ++ closing :: s) =
      (if u = body then [] else
        opening :: erase (marker opening closing body) 0 u ++ [closing]) ++
          erase (marker opening closing body) 0 s := by
  rw [erase_append_closing hbody.2 hne _ _ (Nat.zero_le _)]
  congr 1
  split
  next heq =>
    rw [heq]
    have herased := erase_pattern (List.cons_ne_nil opening (body ++ [closing])) []
    rw [List.append_nil] at herased
    exact herased
  next hother =>
    have hpre : ¬ marker opening closing body <+: opening :: (u ++ [closing]) := by
      intro h
      obtain ⟨r, hr⟩ : body ++ [closing] <+: u ++ [closing] := (List.cons_prefix_cons.mp h).2
      rcases List.eq_nil_or_concat r with rfl | ⟨r, b, rfl⟩
      · rw [List.append_nil] at hr
        exact hother (List.append_cancel_right hr).symm
      · have hinit := congrArg List.dropLast hr
        rw [List.concat_eq_append, ← List.append_assoc, List.dropLast_concat,
          List.dropLast_concat, List.append_assoc] at hinit
        exact hbody.1 (hu.opening_mem hne hinit.symm)
    rw [List.cons_append, erase_cons_of_not_front hpre, erase_closing_last hbody hne hu,
      List.cons_append]

theorem Balanced.erase (hbody : Plain opening closing body) (hne : opening ≠ closing) {u : List α}
    (hu : Balanced opening closing u) :
    Balanced opening closing (Erasure.erase (marker opening closing body) 0 u) := by
  induction hu with
  | nil => exact .nil
  | letter ho hc _ ih =>
    rw [erase_letter ho]
    exact .letter ho hc ih
  | pair hu _ ihu ihs =>
    rw [erase_pair hbody hne hu]
    split
    · exact ihs
    · rw [List.append_assoc]
      exact .pair ihu ihs

theorem Balanced.of_erase (hbody : Plain opening closing body)
    {u : List α} (h : Balanced opening closing (Erasure.erase (marker opening closing body) 0 u)) :
    Balanced opening closing u := by
  induction hlength : u.length using Nat.strong_induction_on generalizing u with
  | _ n ih =>
    subst hlength
    rcases u with _ | ⟨a, s⟩
    · exact .nil
    by_cases hpre : marker opening closing body <+: a :: s
    · obtain ⟨r, hr⟩ := hpre
      rw [← hr] at h ih ⊢
      rw [erase_pattern (show marker opening closing body ≠ [] from List.cons_ne_nil _ _)] at h
      have hlength : r.length < (marker opening closing body ++ r).length := by
        simp only [marker, List.length_cons, List.length_append]
        omega
      have hrest := ih r.length hlength h rfl
      rw [marker, List.append_assoc]
      exact .pair (.of_plain hbody) hrest
    · rw [erase_cons_of_not_front hpre] at h
      generalize herased : Erasure.erase (marker opening closing body) 0 s = erased at h
      rcases h with _ | ⟨ho, hc, hs⟩ | @⟨u, s', hu, hs⟩
      · exact .letter ho hc (ih s.length (by simp) (herased ▸ hs) rfl)
      · obtain ⟨left, right, rfl, -, hleft, hright⟩ := exists_of_erase herased
        have hlengths : left.length < (opening :: (left ++ closing :: right)).length ∧
            right.length < (opening :: (left ++ closing :: right)).length := by
          simp only [List.length_cons, List.length_append]
          omega
        exact .pair (ih left.length hlengths.1 (hleft ▸ hu) rfl)
          (ih right.length hlengths.2 (hright ▸ hs) rfl)

/-- The kinds of markers go in turn. -/
def eraseAll (opening closing : α) (bodies : List (List α)) (s : List α) : List α :=
  bodies.foldl (fun s body => erase (marker opening closing body) 0 s) s

section EraseAll

variable {bodies : List (List α)}

theorem eraseAll_take_succ {k : Nat} (hk : bodies[k]? = some body) (s : List α) :
    eraseAll opening closing (bodies.take (k + 1)) s =
      erase (marker opening closing body) 0 (eraseAll opening closing (bodies.take k) s) := by
  rw [List.take_add_one, hk, eraseAll, List.foldl_append, eraseAll]
  rfl

theorem eraseAll_nil : eraseAll opening closing bodies [] = [] := by
  induction bodies with
  | nil => rfl
  | cons body bodies ih => exact ih

theorem eraseAll_take_letter {a : α} (ha : a ≠ opening) (k : Nat) (s : List α) :
    eraseAll opening closing (bodies.take k) (a :: s) =
      a :: eraseAll opening closing (bodies.take k) s := by
  generalize bodies.take k = front
  induction front generalizing s with
  | nil => rfl
  | cons body front ih =>
    simp only [eraseAll, List.foldl_cons, erase_letter ha]
    exact ih _

theorem Balanced.eraseAll_take (hbodies : ∀ body ∈ bodies, Plain opening closing body)
    (hne : opening ≠ closing) {u : List α} (hu : Balanced opening closing u) (k : Nat) :
    Balanced opening closing (eraseAll opening closing (bodies.take k) u) := by
  have hfront : ∀ body ∈ bodies.take k, Plain opening closing body := fun body hbody =>
    hbodies body (List.mem_of_mem_take hbody)
  generalize bodies.take k = front at hfront
  induction front generalizing u with
  | nil => exact hu
  | cons body front ih =>
    exact ih (hu.erase (hfront body List.mem_cons_self) hne) fun b hb =>
      hfront b (List.mem_cons_of_mem _ hb)

/-- Some kind finds the text to be the body of its marker, when its turn comes. -/
def Taken (opening closing : α) (bodies : List (List α)) (k : Nat) (u : List α) : Prop :=
  ∃ j < k, bodies[j]? = some (eraseAll opening closing (bodies.take j) u)

/-- A pair of brackets stays, with what is left in it, until its turn comes. -/
theorem eraseAll_pair (hbodies : ∀ body ∈ bodies, Plain opening closing body)
    (hne : opening ≠ closing) {u : List α} (hu : Balanced opening closing u) {k : Nat}
    (hk : k ≤ bodies.length) (s : List α) :
    (Taken opening closing bodies k u →
      eraseAll opening closing (bodies.take k) (opening :: u ++ closing :: s) =
        eraseAll opening closing (bodies.take k) s) ∧
    (¬ Taken opening closing bodies k u →
      eraseAll opening closing (bodies.take k) (opening :: u ++ closing :: s) =
        opening :: eraseAll opening closing (bodies.take k) u ++
          closing :: eraseAll opening closing (bodies.take k) s) := by
  induction k with
  | zero => exact ⟨fun ⟨j, hj, _⟩ => absurd hj (Nat.not_lt_zero j), fun _ => rfl⟩
  | succ k ih =>
    obtain ⟨body, hbody⟩ : ∃ body, bodies[k]? = some body :=
      ⟨bodies[k], List.getElem?_eq_getElem (by omega)⟩
    have hplain := hbodies body (List.mem_of_getElem? hbody)
    obtain ⟨htaken, hkept⟩ := ih (by omega)
    have hpair := erase_pair hplain hne (hu.eraseAll_take hbodies hne k)
      (eraseAll opening closing (bodies.take k) s)
    simp only [eraseAll_take_succ hbody]
    by_cases hbefore : Taken opening closing bodies k u
    · have hnow : Taken opening closing bodies (k + 1) u := by
        obtain ⟨j, hj, hjbody⟩ := hbefore
        exact ⟨j, by omega, hjbody⟩
      exact ⟨fun _ => by rw [htaken hbefore], fun h => absurd hnow h⟩
    · rw [hkept hbefore, hpair]
      by_cases hturn : eraseAll opening closing (bodies.take k) u = body
      · have hnow : Taken opening closing bodies (k + 1) u :=
          ⟨k, Nat.lt_succ_self k, hturn.symm ▸ hbody⟩
        rw [if_pos hturn]
        exact ⟨fun _ => rfl, fun h => absurd hnow h⟩
      · have hlater : ¬ Taken opening closing bodies (k + 1) u := by
          rintro ⟨j, hj, hjbody⟩
          rcases Nat.lt_succ_iff_lt_or_eq.mp hj with hj | rfl
          · exact hbefore ⟨j, hj, hjbody⟩
          · exact hturn (Option.some.inj (hjbody.symm.trans hbody))
        rw [if_neg hturn]
        exact ⟨fun h => absurd h hlater, fun _ => by simp⟩

theorem not_taken_of_succ {k : Nat} {u : List α} (h : ¬ Taken opening closing bodies (k + 1) u) :
    ¬ Taken opening closing bodies k u := by
  rintro ⟨j, hj, hbody⟩
  exact h ⟨j, by omega, hbody⟩

theorem eraseAll_take_context (hbodies : ∀ body ∈ bodies, Plain opening closing body)
    (hne : opening ≠ closing) {u : List α} (hu : Balanced opening closing u) {k : Nat}
    (hk : k ≤ bodies.length) (hkept : ¬ Taken opening closing bodies k u) (s t : List α) :
    eraseAll opening closing (bodies.take k) (s ++ (opening :: u ++ closing :: t)) =
      eraseAll opening closing (bodies.take k) s ++
        (opening :: eraseAll opening closing (bodies.take k) u ++
          closing :: eraseAll opening closing (bodies.take k) t) := by
  induction k with
  | zero => rfl
  | succ k ih =>
    obtain ⟨body, hbody⟩ : ∃ body, bodies[k]? = some body :=
      ⟨bodies[k], List.getElem?_eq_getElem (by omega)⟩
    have hplain := hbodies body (List.mem_of_getElem? hbody)
    have hturn : eraseAll opening closing (bodies.take k) u ≠ body := fun heq =>
      hkept ⟨k, Nat.lt_succ_self k, heq.symm ▸ hbody⟩
    simp only [eraseAll_take_succ hbody]
    rw [ih (by omega) (not_taken_of_succ hkept), List.cons_append,
      erase_append_opening hplain.1 hne _ _ (Nat.zero_le _), ← List.cons_append,
      erase_pair hplain hne (hu.eraseAll_take hbodies hne k), if_neg hturn]
    simp

/-- A pair of brackets that is left in the end stood in the text, and no kind took it. -/
theorem exists_of_eraseAll_take (hbodies : ∀ body ∈ bodies, Plain opening closing body)
    (hne : opening ≠ closing) {k : Nat} (hk : k ≤ bodies.length) {s left w right : List α}
    (hw : Balanced opening closing w)
    (h : eraseAll opening closing (bodies.take k) s = left ++ (opening :: w ++ closing :: right)) :
    ∃ left' u right', s = left' ++ (opening :: u ++ closing :: right') ∧
      Balanced opening closing u ∧ eraseAll opening closing (bodies.take k) u = w ∧
      ¬ Taken opening closing bodies k u := by
  induction k generalizing left w right with
  | zero => exact ⟨left, w, right, h, hw, rfl, fun ⟨j, hj, _⟩ => absurd hj (Nat.not_lt_zero j)⟩
  | succ k ih =>
    obtain ⟨body, hbody⟩ : ∃ body, bodies[k]? = some body :=
      ⟨bodies[k], List.getElem?_eq_getElem (by omega)⟩
    have hplain := hbodies body (List.mem_of_getElem? hbody)
    rw [eraseAll_take_succ hbody] at h
    obtain ⟨left₁, rest, hmid, -, hleft, hrest⟩ := exists_of_erase h
    obtain ⟨w₁, right₁, rfl, -, hw₁, hright⟩ := exists_of_erase hrest
    have hbalanced : Balanced opening closing w₁ := .of_erase hplain (hw₁.symm ▸ hw)
    have hturn : w₁ ≠ body := by
      intro heq
      have hgone := erase_pair hplain hne hbalanced right₁
      rw [if_pos heq, List.nil_append] at hgone
      rw [hmid, erase_append_opening hplain.1 hne _ _ (Nat.zero_le _), hleft, ← List.cons_append,
        hgone, hright] at h
      have hlength := congrArg List.length (List.append_cancel_left h)
      simp at hlength
      omega
    obtain ⟨left', u, right', hs, hu, herased, hkept⟩ := ih (by omega) hbalanced hmid
    refine ⟨left', u, right', hs, hu, by rw [eraseAll_take_succ hbody, herased, hw₁], ?_⟩
    rintro ⟨j, hj, hjbody⟩
    rcases Nat.lt_succ_iff_lt_or_eq.mp hj with hj | rfl
    · exact hkept ⟨j, hj, hjbody⟩
    · rw [herased] at hjbody
      exact hturn (Option.some.inj (hjbody.symm.trans hbody))

/-- What a text reads is what erasing leaves of it. -/
theorem reads_iff (hbodies : ∀ body ∈ bodies, Plain opening closing body) (hne : opening ≠ closing)
    {k : Nat} (hk : k ≤ bodies.length) {u r : List α} :
    Reads opening closing bodies k u r ↔ Balanced opening closing u ∧ Plain opening closing r ∧
      eraseAll opening closing (bodies.take k) u = r := by
  constructor
  · intro h
    refine ⟨h.balanced, h.plain, ?_⟩
    induction h with
    | nil => exact eraseAll_nil
    | letter ho _ _ ih => rw [eraseAll_take_letter ho, ih hk]
    | @erased j k u s body r hbody hj hu hs ihu ihs =>
      have htaken : Taken opening closing bodies k u := ⟨j, hj, (ihu (by omega)).symm ▸ hbody⟩
      rw [(eraseAll_pair hbodies hne hu.balanced hk s).1 htaken, ihs hk]
  · rintro ⟨hu, hr, heq⟩
    induction hu generalizing k r with
    | nil =>
      rw [eraseAll_nil] at heq
      exact heq ▸ .nil
    | letter ho hc _ ih =>
      rw [eraseAll_take_letter ho] at heq
      subst heq
      have htail := ih hk ⟨fun h => hr.1 (List.mem_cons_of_mem _ h),
        fun h => hr.2 (List.mem_cons_of_mem _ h)⟩ rfl
      exact .letter ho hc htail
    | @pair u s hu _ ihu ihs =>
      obtain ⟨htaken, hkept⟩ := eraseAll_pair hbodies hne hu hk s
      by_cases hpair : Taken opening closing bodies k u
      · rw [htaken hpair] at heq
        obtain ⟨j, hj, hbody⟩ := hpair
        have hplain := hbodies _ (List.mem_of_getElem? hbody)
        exact .erased hbody hj (ihu (by omega) hplain rfl) (ihs hk hr heq)
      · rw [hkept hpair] at heq
        rw [← heq] at hr
        exact absurd List.mem_cons_self hr.1

/-- A marker is left in the text just when a pair of brackets reads as it in the end, and not when
a kind of that body has its turn. -/
theorem marker_left_iff (hbodies : ∀ body ∈ bodies, Plain opening closing body)
    (hne : opening ≠ closing) (hbody : Plain opening closing body) {s : List α} :
    (∃ left right, eraseAll opening closing bodies s =
        left ++ (marker opening closing body ++ right)) ↔
      ∃ left u right, s = left ++ (opening :: u ++ closing :: right) ∧
        Reads opening closing bodies bodies.length u body ∧
        ∀ j, bodies[j]? = some body → ¬ Reads opening closing bodies j u body := by
  have hall : bodies.take bodies.length = bodies := List.take_length
  constructor
  · rintro ⟨left, right, h⟩
    have h' : eraseAll opening closing (bodies.take bodies.length) s =
        left ++ (opening :: body ++ closing :: right) := by
      rw [hall, h]
      simp [marker]
    obtain ⟨left', u, right', hs, hu, herased, hkept⟩ :=
      exists_of_eraseAll_take hbodies hne le_rfl (.of_plain hbody) h'
    refine ⟨left', u, right', hs, (reads_iff hbodies hne le_rfl).mpr ⟨hu, hbody, herased⟩, ?_⟩
    intro j hj hreads
    have hlt : j < bodies.length := (List.getElem?_eq_some_iff.mp hj).1
    obtain ⟨-, -, hj'⟩ := (reads_iff hbodies hne hlt.le).mp hreads
    exact hkept ⟨j, hlt, hj'.symm ▸ hj⟩
  · rintro ⟨left, u, right, rfl, hreads, hturns⟩
    obtain ⟨hu, -, herased⟩ := (reads_iff hbodies hne le_rfl).mp hreads
    have hkept : ¬ Taken opening closing bodies bodies.length u := by
      rintro ⟨j, hj, hjbody⟩
      have hplain := hbodies _ (List.mem_of_getElem? hjbody)
      have hturn : Reads opening closing bodies j u (eraseAll opening closing (bodies.take j) u) :=
        (reads_iff hbodies hne hj.le).mpr ⟨hu, hplain, rfl⟩
      obtain ⟨-, -, hlast⟩ := (reads_iff hbodies hne le_rfl).mp (hturn.mono hj.le)
      rw [← hlast, herased] at hjbody hturn
      exact hturns j hjbody hturn
    have hcontext := eraseAll_take_context hbodies hne hu le_rfl hkept left right
    rw [hall] at hcontext herased
    rw [herased] at hcontext
    refine ⟨eraseAll opening closing bodies left, eraseAll opening closing bodies right, ?_⟩
    rw [hcontext]
    simp [marker]

end EraseAll

end Brackets

end Erasure

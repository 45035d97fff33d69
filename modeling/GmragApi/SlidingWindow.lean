import Mathlib.Data.List.Basic
import Mathlib.Data.List.Induction
import Mathlib.Data.List.TakeWhile
import Mathlib.Logic.Function.Basic

/-! Sliding-window limiters with one queue for each key, and when a limiter that serves two kinds of
callers serves one kind as if the other did not exist. -/

namespace SlidingWindow

section Queue

variable {α β : Type*} (seenAt : α → Nat) (window : Nat)

def expired (now : Nat) (e : α) : Bool := decide (window ≤ now - seenAt e)

/-- The queue without the entries at its front that have left the window. -/
def expire (now : Nat) (queue : List α) : List α := queue.dropWhile (expired seenAt window now)

/-- One request: whether it is let through, and the queue after it. -/
def allow (limit : Nat) (e : α) (queue : List α) : Bool × List α :=
  let live := expire seenAt window (seenAt e) queue
  if limit ≤ live.length then (false, live) else (true, live ++ [e])

/-- The entries stand in the order of their instants, none after `now`. -/
structure Ordered (now : Nat) (queue : List α) : Prop where
  sorted : queue.Pairwise fun e e' => seenAt e ≤ seenAt e'
  past : ∀ e ∈ queue, seenAt e ≤ now

variable {seenAt window} {now later : Nat} {queue : List α}

theorem expire_map (seenAt : β → Nat) (f : α → β) (queue : List α) :
    expire seenAt window now (queue.map f) = (expire (seenAt ∘ f) window now queue).map f := by
  rw [expire, expire, List.dropWhile_map]
  rfl

theorem allow_map (seenAt : β → Nat) (f : α → β) (limit : Nat) (e : α) (queue : List α) :
    allow seenAt window limit (f e) (queue.map f) =
      ((allow (seenAt ∘ f) window limit e queue).1,
        (allow (seenAt ∘ f) window limit e queue).2.map f) := by
  simp only [allow, expire_map, List.length_map, Function.comp_apply]
  split <;> simp

theorem expired_mono {e e' : α} (hle : now ≤ later) (he : seenAt e' ≤ seenAt e)
    (h : expired seenAt window now e = true) : expired seenAt window later e' = true := by
  simp only [expired, decide_eq_true_eq] at h ⊢
  omega

theorem expire_expire (h : now ≤ later) :
    expire seenAt window later (expire seenAt window now queue) =
      expire seenAt window later queue := by
  induction queue with
  | nil => rfl
  | cons e queue ih =>
    unfold expire at ih ⊢
    by_cases hgone : expired seenAt window now e = true
    · have hlater := expired_mono h (Nat.le_refl _) hgone
      rw [List.dropWhile_cons_of_pos hgone, List.dropWhile_cons_of_pos hlater]
      exact ih
    · rw [List.dropWhile_cons_of_neg hgone]

theorem Ordered.expire (h : Ordered seenAt now queue) (at' : Nat) :
    Ordered seenAt now (expire seenAt window at' queue) :=
  ⟨h.sorted.sublist (List.dropWhile_sublist _),
    fun e he => h.past e ((List.dropWhile_sublist _).subset he)⟩

theorem Ordered.mono (h : Ordered seenAt now queue) (hle : now ≤ later) :
    Ordered seenAt later queue :=
  ⟨h.sorted, fun e he => Nat.le_trans (h.past e he) hle⟩

theorem Ordered.allow {e : α} (h : Ordered seenAt (seenAt e) queue) (limit : Nat) :
    Ordered seenAt (seenAt e) (allow seenAt window limit e queue).2 := by
  have hlive : Ordered seenAt (seenAt e) (SlidingWindow.expire seenAt window (seenAt e) queue) :=
    h.expire (seenAt e)
  unfold SlidingWindow.allow
  dsimp only
  split
  · exact hlive
  · refine ⟨List.pairwise_append.mpr ⟨hlive.sorted, List.pairwise_singleton .., ?_⟩, ?_⟩
    · intro e' he' x hx
      obtain rfl := List.mem_singleton.mp hx
      exact hlive.past e' he'
    · intro e' he'
      rcases List.mem_append.mp he' with he' | he'
      · exact hlive.past e' he'
      · exact Nat.le_of_eq (congrArg seenAt (List.mem_singleton.mp he'))

/-- Of an ordered queue exactly the entries that are still in the window stay. -/
theorem Ordered.expire_eq (h : Ordered seenAt now queue) (at' : Nat) :
    SlidingWindow.expire seenAt window at' queue =
      queue.filter fun e => !expired seenAt window at' e := by
  obtain ⟨hsorted, -⟩ := h
  induction queue with
  | nil => rfl
  | cons e queue ih =>
    obtain ⟨hfirst, hrest⟩ := List.pairwise_cons.mp hsorted
    by_cases hgone : expired seenAt window at' e = true
    · rw [SlidingWindow.expire, List.dropWhile_cons_of_pos hgone,
        List.filter_cons_of_neg (by simp [hgone])]
      exact ih hrest
    · have hlive : ∀ x ∈ e :: queue, (!expired seenAt window at' x) = true := by
        intro x hx
        rw [Bool.not_eq_true']
        refine Bool.eq_false_iff.mpr fun hx' => hgone ?_
        rcases List.mem_cons.mp hx with rfl | hx
        · exact hx'
        · exact expired_mono (Nat.le_refl _) (hfirst x hx) hx'
      rw [SlidingWindow.expire, List.dropWhile_cons_of_neg hgone, List.filter_eq_self.mpr hlive]

/-- Of an ordered queue, the entries of one kind expire as if they stood alone. -/
theorem Ordered.expire_filter (h : Ordered seenAt now queue) (p : α → Bool) (at' : Nat) :
    SlidingWindow.expire seenAt window at' (queue.filter p) =
      (SlidingWindow.expire seenAt window at' queue).filter p := by
  have hkind : Ordered seenAt now (queue.filter p) :=
    ⟨h.sorted.sublist List.filter_sublist, fun e he => h.past e (List.mem_of_mem_filter he)⟩
  rw [hkind.expire_eq, h.expire_eq, List.filter_comm]

/-- A queue never holds more than the limit. -/
theorem length_allow_le {limit : Nat} {e : α} (h : queue.length ≤ limit) :
    (allow seenAt window limit e queue).2.length ≤ limit := by
  have hlive : (expire seenAt window (seenAt e) queue).length ≤ queue.length :=
    (List.dropWhile_sublist _).length_le
  unfold allow
  dsimp only
  split
  · exact Nat.le_trans hlive h
  · rw [List.length_append, List.length_singleton]
    omega

/-- A queue that only callers of the kind `p` reach, against one that all callers reach: they agree
on what of the kind is still in the window. -/
structure Alike (seenAt : α → Nat) (window : Nat) (p : α → Bool) (limit now : Nat)
    (alone both : List α) : Prop where
  same : expire seenAt window now alone = (expire seenAt window now both).filter p
  ordered : Ordered seenAt now both
  bounded : both.length ≤ limit

variable {p : α → Bool} {limit : Nat} {alone both : List α} {e : α}

theorem Alike.mono (h : Alike seenAt window p limit now alone both) (hle : now ≤ later) :
    Alike seenAt window p limit later alone both := by
  refine ⟨?_, h.ordered.mono hle, h.bounded⟩
  rw [← expire_expire hle, h.same, (h.ordered.expire now).expire_filter, expire_expire hle]

/-- A caller of the other kind leaves the queues alike. -/
theorem Alike.dropped (h : Alike seenAt window p limit (seenAt e) alone both) (hp : ¬ p e = true) :
    Alike seenAt window p limit (seenAt e) alone (allow seenAt window limit e both).2 := by
  have hordered : Ordered seenAt (seenAt e) (allow seenAt window limit e both).2 :=
    h.ordered.allow limit
  refine ⟨?_, hordered, length_allow_le h.bounded⟩
  have hfilter : (allow seenAt window limit e both).2.filter p =
      (expire seenAt window (seenAt e) both).filter p := by
    unfold allow
    dsimp only
    split
    · rfl
    · rw [List.filter_append, List.filter_cons_of_neg hp, List.filter_nil, List.append_nil]
  rw [← hordered.expire_filter, hfilter, ← h.same, expire_expire (Nat.le_refl _)]

/-- A caller of the kind `p` fares alike at both queues unless the one is full and disturbed. -/
theorem Alike.kept (h : Alike seenAt window p limit (seenAt e) alone both) (hp : p e = true)
    (hcalm : limit ≤ (expire seenAt window (seenAt e) both).length →
      ∀ x ∈ expire seenAt window (seenAt e) both, p x = true) :
    (allow seenAt window limit e alone).1 = (allow seenAt window limit e both).1 ∧
      Alike seenAt window p limit (seenAt e) (allow seenAt window limit e alone).2
        (allow seenAt window limit e both).2 := by
  have hordered : Ordered seenAt (seenAt e) (allow seenAt window limit e both).2 :=
    h.ordered.allow limit
  have hbounded : (allow seenAt window limit e both).2.length ≤ limit := length_allow_le h.bounded
  have hshorter := List.length_filter_le p (expire seenAt window (seenAt e) both)
  by_cases hfull : limit ≤ (expire seenAt window (seenAt e) both).length
  · have hall := List.filter_eq_self.mpr (hcalm hfull)
    have hboth : allow seenAt window limit e both =
        (false, expire seenAt window (seenAt e) both) := if_pos hfull
    have halone : allow seenAt window limit e alone =
        (false, expire seenAt window (seenAt e) both) := by
      rw [← hall, ← h.same]
      refine if_pos ?_
      rwa [h.same, hall]
    rw [hboth] at hordered hbounded
    rw [hboth, halone]
    refine ⟨rfl, ?_, hordered, hbounded⟩
    rw [expire_expire (Nat.le_refl _), hall]
  · have hboth : allow seenAt window limit e both =
        (true, expire seenAt window (seenAt e) both ++ [e]) := if_neg hfull
    have halone : allow seenAt window limit e alone =
        (true, expire seenAt window (seenAt e) alone ++ [e]) := by
      refine if_neg ?_
      rw [h.same]
      omega
    rw [hboth] at hordered hbounded
    rw [hboth, halone]
    refine ⟨rfl, ?_, hordered, hbounded⟩
    rw [← hordered.expire_filter, List.filter_append, List.filter_cons_of_pos hp, List.filter_nil,
      ← h.same]

theorem Alike.parted (h : Alike seenAt window p limit (seenAt e) alone both)
    (hfull : limit ≤ (expire seenAt window (seenAt e) both).length)
    (hother : ∃ x ∈ expire seenAt window (seenAt e) both, ¬ p x = true) :
    (allow seenAt window limit e alone).1 = true ∧
      (allow seenAt window limit e both).1 = false := by
  have hlive : (expire seenAt window (seenAt e) both).length ≤ both.length :=
    (List.dropWhile_sublist _).length_le
  have hfewer := List.length_filter_lt_length_iff_exists.mpr hother
  have hbounded := h.bounded
  have hboth : allow seenAt window limit e both =
      (false, expire seenAt window (seenAt e) both) := if_pos hfull
  have halone : allow seenAt window limit e alone =
      (true, expire seenAt window (seenAt e) alone ++ [e]) := by
    refine if_neg ?_
    rw [h.same]
    omega
  rw [hboth, halone]
  exact ⟨rfl, rfl⟩

section History

/-- What a queue knows of all that was let through: the rest of it has left the window, and of any
`limit + 1` in a row the last came a window after the first. -/
structure History (seenAt : α → Nat) (window limit now : Nat) (admitted queue : List α) : Prop where
  rest : ∃ gone, admitted = gone ++ queue ∧ ∀ e ∈ gone, expired seenAt window now e = true
  ordered : Ordered seenAt now admitted
  spaced : ∀ i e e', admitted[i]? = some e → admitted[i + limit]? = some e' →
    seenAt e + window ≤ seenAt e'

variable {admitted : List α}

theorem History.nil : History seenAt window limit now [] [] where
  rest := ⟨[], rfl, fun _ h => (List.not_mem_nil h).elim⟩
  ordered := ⟨List.Pairwise.nil, fun _ h => (List.not_mem_nil h).elim⟩
  spaced _ _ _ h := by simp at h

theorem History.mono (h : History seenAt window limit now admitted queue) (hle : now ≤ later) :
    History seenAt window limit later admitted queue := by
  obtain ⟨gone, hsplit, hgone⟩ := h.rest
  exact ⟨⟨gone, hsplit, fun e he => expired_mono hle (Nat.le_refl _) (hgone e he)⟩,
    h.ordered.mono hle, h.spaced⟩

/-- The live part of the queue is what was admitted within the window. -/
theorem History.live (h : History seenAt window limit now admitted queue) :
    expire seenAt window now queue = admitted.filter fun e => !expired seenAt window now e := by
  obtain ⟨gone, rfl, hgone⟩ := h.rest
  have hqueue : Ordered seenAt now queue :=
    ⟨h.ordered.sorted.sublist (List.sublist_append_right ..),
      fun e he => h.ordered.past e (List.mem_append_right _ he)⟩
  have hnone : gone.filter (fun e => !expired seenAt window now e) = [] :=
    List.filter_eq_nil_iff.mpr fun e he => by simp [hgone e he]
  rw [hqueue.expire_eq, List.filter_append, hnone, List.nil_append]

/-- A request is let through just when fewer than `limit` were within the window. -/
theorem History.allow_fst (h : History seenAt window limit (seenAt e) admitted queue) :
    (allow seenAt window limit e queue).1 =
      decide ((admitted.filter fun x => !expired seenAt window (seenAt e) x).length < limit) := by
  rw [← h.live]
  unfold allow
  dsimp only
  split
  next hfull => exact (decide_eq_false (Nat.not_lt.mpr hfull)).symm
  next hroom => exact (decide_eq_true (Nat.lt_of_not_le hroom)).symm

theorem History.expire (h : History seenAt window limit now admitted queue) :
    History seenAt window limit now admitted (SlidingWindow.expire seenAt window now queue) := by
  obtain ⟨gone, hsplit, hgone⟩ := h.rest
  refine ⟨⟨gone ++ queue.takeWhile (expired seenAt window now), ?_, ?_⟩, h.ordered, h.spaced⟩
  · rw [SlidingWindow.expire, List.append_assoc, List.takeWhile_append_dropWhile, hsplit]
  · intro e he
    rcases List.mem_append.mp he with he | he
    · exact hgone e he
    · exact List.mem_takeWhile_imp he

theorem History.push (h : History seenAt window limit (seenAt e) admitted queue)
    (hroom : queue.length < limit) :
    History seenAt window limit (seenAt e) (admitted ++ [e]) (queue ++ [e]) := by
  obtain ⟨gone, hsplit, hgone⟩ := h.rest
  refine ⟨⟨gone, by rw [hsplit, List.append_assoc], hgone⟩, ⟨?_, ?_⟩, ?_⟩
  · refine List.pairwise_append.mpr ⟨h.ordered.sorted, List.pairwise_singleton .., ?_⟩
    intro x hx y hy
    rw [List.mem_singleton.mp hy]
    exact h.ordered.past x hx
  · intro x hx
    rcases List.mem_append.mp hx with hx | hx
    · exact h.ordered.past x hx
    · exact Nat.le_of_eq (congrArg seenAt (List.mem_singleton.mp hx))
  · intro i x y hx hy
    by_cases hlast : i + limit < admitted.length
    · rw [List.getElem?_append_left (by omega)] at hx
      rw [List.getElem?_append_left hlast] at hy
      exact h.spaced i x y hx hy
    · -- the new entry is the last of the row, so the first of it is before the queue
      have hend : i + limit < (admitted ++ [e]).length := (List.getElem?_eq_some_iff.mp hy).1
      rw [List.length_append, List.length_singleton] at hend
      have hlen : admitted.length = gone.length + queue.length := by
        rw [hsplit, List.length_append]
      have hfirst : i < gone.length := by omega
      have hy' : y = e := by
        rw [show i + limit = admitted.length by omega, List.getElem?_concat_length] at hy
        exact (Option.some.inj hy).symm
      rw [hsplit, List.append_assoc, List.getElem?_append_left hfirst] at hx
      have hmem := List.mem_of_getElem? hx
      have hleft := hgone x hmem
      have hpast := h.ordered.past x (by rw [hsplit]; exact List.mem_append_left _ hmem)
      rw [expired, decide_eq_true_eq] at hleft
      rw [hy']
      omega

theorem History.allow (h : History seenAt window limit (seenAt e) admitted queue) :
    History seenAt window limit (seenAt e)
      (if (allow seenAt window limit e queue).1 then admitted ++ [e] else admitted)
      (allow seenAt window limit e queue).2 := by
  have hlive := h.expire
  unfold SlidingWindow.allow
  dsimp only
  split
  next => exact hlive
  next hroom => exact hlive.push (Nat.lt_of_not_le hroom)

section Run

variable (seenAt window limit)

/-- The requests of one queue with their verdicts. -/
def passes : List α → List α → List (α × Bool)
  | _, [] => []
  | queue, e :: es =>
    (e, (SlidingWindow.allow seenAt window limit e queue).1) ::
      passes (SlidingWindow.allow seenAt window limit e queue).2 es

def queueAfter (queue es : List α) : List α :=
  es.foldl (fun queue e => (SlidingWindow.allow seenAt window limit e queue).2) queue

def passed (verdicts : List (α × Bool)) : List α := (verdicts.filter Prod.snd).map Prod.fst

variable {seenAt window limit}

theorem passes_append (queue es es' : List α) :
    passes seenAt window limit queue (es ++ es') =
      passes seenAt window limit queue es ++
        passes seenAt window limit (queueAfter seenAt window limit queue es) es' := by
  induction es generalizing queue with
  | nil => rfl
  | cons e es ih =>
    rw [List.cons_append, passes, ih, passes]
    rfl

theorem queueAfter_concat (queue es : List α) (e : α) :
    queueAfter seenAt window limit queue (es ++ [e]) =
      (allow seenAt window limit e (queueAfter seenAt window limit queue es)).2 :=
  List.foldl_append

/-- What stands before a verdict is decided by the requests before it. -/
theorem passes_split {queue es : List α} {before after : List (α × Bool)} {e : α} {verdict : Bool}
    (h : passes seenAt window limit queue es = before ++ (e, verdict) :: after) :
    ∃ front back, es = front ++ e :: back ∧ passes seenAt window limit queue front = before ∧
      (allow seenAt window limit e (queueAfter seenAt window limit queue front)).1 = verdict := by
  induction before generalizing queue es with
  | nil =>
    cases es with
    | nil => cases h
    | cons x es =>
      obtain ⟨hx, -⟩ := List.cons.inj h
      obtain ⟨rfl, hverdict⟩ := Prod.mk.inj hx
      exact ⟨[], es, rfl, rfl, hverdict⟩
  | cons v before ih =>
    cases es with
    | nil => cases h
    | cons x es =>
      obtain ⟨rfl, hrest⟩ := List.cons.inj h
      obtain ⟨front, back, rfl, hbefore, hverdict⟩ := ih hrest
      exact ⟨x :: front, back, rfl, congrArg _ hbefore, hverdict⟩

/-- The invariant of a run of requests in the order of their instants. -/
theorem history_passes (es : List α) (hsorted : es.Pairwise fun e e' => seenAt e ≤ seenAt e')
    (hpast : ∀ e ∈ es, seenAt e ≤ now) :
    History seenAt window limit now (passed (passes seenAt window limit [] es))
      (queueAfter seenAt window limit [] es) := by
  induction es using List.reverseRecOn generalizing now with
  | nil => exact History.nil
  | append_singleton es e ih =>
    obtain ⟨hsorted, -, hbefore⟩ := List.pairwise_append.mp hsorted
    have hnow : History seenAt window limit (seenAt e)
        (passed (passes seenAt window limit [] es)) (queueAfter seenAt window limit [] es) :=
      ih hsorted fun x hx => hbefore x hx e (List.mem_singleton_self e)
    have hstep := hnow.allow.mono (hpast e (by simp))
    rw [passes_append, queueAfter_concat]
    cases hpass : (SlidingWindow.allow seenAt window limit e
        (queueAfter seenAt window limit [] es)).1 <;>
      simpa [passed, passes, hpass] using hstep

end Run

end History

end Queue

/-- Limiters with one queue for each key: the key of a caller, if it is counted at all, and what of
it enters the queue. -/
structure Limiter (α β κ : Type*) where
  key : α → Option κ
  entry : α → β
  seenAt : β → Nat
  window : Nat
  limit : κ → Nat

namespace Limiter

variable {α β κ : Type*} [DecidableEq κ] (L : Limiter α β κ)

/-- One caller: whether it is let through, and the queues after it. -/
def step (s : κ → List β) (a : α) : Bool × (κ → List β) :=
  match L.key a with
  | none => (true, s)
  | some k =>
    let (passed, queue) := allow L.seenAt L.window (L.limit k) (L.entry a) (s k)
    (passed, Function.update s k queue)

def verdicts : (κ → List β) → List α → List (α × Bool)
  | _, [] => []
  | s, a :: as => (a, (L.step s a).1) :: verdicts (L.step s a).2 as

/-- The limiter whose queues hold the callers themselves. -/
def tagged : Limiter α α κ := ⟨L.key, id, L.seenAt ∘ L.entry, L.window, L.limit⟩

theorem step_map (s : κ → List α) (a : α) :
    L.step (fun k => (s k).map L.entry) a =
      ((L.tagged.step s a).1, fun k => ((L.tagged.step s a).2 k).map L.entry) := by
  unfold step tagged
  dsimp only
  split
  · rfl
  next k hk =>
    rw [allow_map]
    refine Prod.ext rfl (funext fun k' => ?_)
    by_cases heq : k' = k
    · subst heq
      simp
    · simp [heq]

/-- The tags change no verdict. -/
theorem verdicts_map (s : κ → List α) (as : List α) :
    L.verdicts (fun k => (s k).map L.entry) as = L.tagged.verdicts s as := by
  induction as generalizing s with
  | nil => rfl
  | cons a as ih => rw [verdicts, verdicts, step_map, ih]

section Step

variable {L} {s : κ → List α} {a : α} {k : κ}

theorem step_uncounted (hk : L.key a = none) : L.tagged.step s a = (true, s) := by
  rw [step]
  split
  · rfl
  next k hsome =>
    cases hk.symm.trans hsome

theorem step_counted (hk : L.key a = some k) :
    L.tagged.step s a =
      ((allow L.tagged.seenAt L.window (L.limit k) a (s k)).1,
        Function.update s k (allow L.tagged.seenAt L.window (L.limit k) a (s k)).2) := by
  rw [step]
  split
  next hnone => cases hk.symm.trans hnone
  next k' hsome =>
    obtain rfl := Option.some.inj (hk.symm.trans hsome)
    rfl

end Step

theorem verdicts_fst (s : κ → List β) (as : List α) :
    (L.verdicts s as).map Prod.fst = as := by
  induction as generalizing s with
  | nil => rfl
  | cons a as ih => rw [verdicts, List.map_cons, ih]

/-- What is decided for a key is what its queue alone decides. -/
theorem verdicts_filter_key (s : κ → List α) (as : List α) (k : κ) :
    (L.tagged.verdicts s as).filter (fun v => decide (L.key v.1 = some k)) =
      passes L.tagged.seenAt L.window (L.limit k) (s k)
        (as.filter fun a => decide (L.key a = some k)) := by
  induction as generalizing s with
  | nil => rfl
  | cons a as ih =>
    rw [verdicts]
    by_cases hk : L.key a = some k
    · rw [List.filter_cons_of_pos (by simpa using hk), List.filter_cons_of_pos (by simpa using hk),
        passes, ih, step_counted hk]
      dsimp only
      rw [Function.update_self]
    · have hsame : (L.tagged.step s a).2 k = s k := by
        cases hother : L.key a with
        | none => rw [step_uncounted hother]
        | some k' =>
          have hne : k ≠ k' := fun heq => hk (hother.trans (congrArg some heq.symm))
          rw [step_counted hother]
          exact Function.update_of_ne hne _ _
      rw [List.filter_cons_of_neg (by simpa using hk), List.filter_cons_of_neg (by simpa using hk),
        ih, hsame]

section TwoKinds

variable (p : α → Bool)

/-- No caller of the kind `p` comes to a full queue that holds a caller of the other kind. -/
def Undisturbed : (κ → List α) → List α → Prop
  | _, [] => True
  | s, a :: as =>
    (p a = true → ∀ k, L.key a = some k →
      L.limit k ≤ (expire L.tagged.seenAt L.window (L.tagged.seenAt a) (s k)).length →
      ∀ e ∈ expire L.tagged.seenAt L.window (L.tagged.seenAt a) (s k), p e = true) ∧
    Undisturbed (L.tagged.step s a).2 as

/-- The queues of a run without the other kind against those of a run with it. -/
def Related (now : Nat) (alone both : κ → List α) : Prop :=
  ∀ k, Alike L.tagged.seenAt L.window p (L.limit k) now (alone k) (both k)

variable {L p} {now : Nat} {alone both s : κ → List α} {a : α} {k : κ}

theorem Related.update (h : L.Related p now alone both) {qa qb : List α}
    (hk : Alike L.tagged.seenAt L.window p (L.limit k) now qa qb) :
    L.Related p now (Function.update alone k qa) (Function.update both k qb) := by
  intro k'
  by_cases heq : k' = k
  · subst heq
    simpa only [Function.update_self]
  · simpa only [Function.update_of_ne heq] using h k'

theorem Related.dropped (h : L.Related p (L.tagged.seenAt a) alone both) (hp : ¬ p a = true) :
    L.Related p (L.tagged.seenAt a) alone (L.tagged.step both a).2 := by
  cases hk : L.key a with
  | none =>
    rw [step_uncounted hk]
    exact h
  | some k =>
    rw [step_counted hk]
    have hupdate := h.update ((h k).dropped hp)
    rwa [Function.update_eq_self] at hupdate

/-- The runs without and with the other kind treat the kind `p` alike just when it is undisturbed. -/
theorem verdicts_filter_iff (as : List α)
    (hsorted : as.Pairwise fun a a' => L.tagged.seenAt a ≤ L.tagged.seenAt a')
    (hlater : ∀ a ∈ as, now ≤ L.tagged.seenAt a) (h : L.Related p now alone both) :
    (L.tagged.verdicts both as).filter (fun v => p v.1) = L.tagged.verdicts alone (as.filter p) ↔
      L.Undisturbed p both as := by
  induction as generalizing now alone both with
  | nil => exact iff_of_true rfl trivial
  | cons a as ih =>
    obtain ⟨hfirst, hsorted⟩ := List.pairwise_cons.mp hsorted
    have hnow : L.Related p (L.tagged.seenAt a) alone both := fun k =>
      (h k).mono (hlater a (List.mem_cons_self ..))
    rw [verdicts, Undisturbed]
    by_cases hp : p a = true
    · rw [List.filter_cons, if_pos hp, List.filter_cons_of_pos hp, verdicts, List.cons.injEq,
        Prod.mk.injEq]
      cases hk : L.key a with
      | none =>
        rw [step_uncounted hk, step_uncounted hk, ih hsorted hfirst hnow]
        simp
      | some k =>
        by_cases hcalm : L.limit k ≤
            (expire L.tagged.seenAt L.window (L.tagged.seenAt a) (both k)).length →
            ∀ e ∈ expire L.tagged.seenAt L.window (L.tagged.seenAt a) (both k), p e = true
        · obtain ⟨hverdict, halike⟩ := (hnow k).kept hp hcalm
          have hupdate := hnow.update halike
          rw [step_counted hk, step_counted hk, ih hsorted hfirst hupdate]
          simp only [hverdict, true_and]
          refine ⟨fun hrest => ⟨fun _ k' hk' => ?_, hrest⟩, fun hboth => hboth.2⟩
          obtain rfl := Option.some.inj hk'
          exact hcalm
        · simp only [not_forall, exists_prop] at hcalm
          obtain ⟨hfull, hother⟩ := hcalm
          have hparted := (hnow k).parted hfull (by simpa using hother)
          refine iff_of_false ?_ ?_
          · rw [step_counted hk, step_counted hk, hparted.1, hparted.2]
            simp
          · intro hboth
            obtain ⟨x, hx, hpx⟩ := hother
            exact hpx (hboth.1 hp k rfl hfull x hx)
    · rw [List.filter_cons, if_neg hp, List.filter_cons_of_neg hp,
        ih hsorted hfirst (hnow.dropped hp)]
      simp [hp]

end TwoKinds

end Limiter

end SlidingWindow

import GmragApi.RateWindow

/-! The limiter over all the requests of a run: what was let through in any window, and which of the
requests a decision depends on. -/

namespace GmragApi.RateLimit

open SlidingWindow

structure SlidingWindowRateLimiter where
  maxRequests : Nat
  window : Nat

/-- The queue of each scope key; the entry that the call inserts for a new key is empty. -/
abbrev LimiterState := List Char → List Nat

def SlidingWindowRateLimiter.allow (limiter : SlidingWindowRateLimiter) (state : LimiterState)
    (scopeKey : List Char) (now : Nat) : Bool × LimiterState :=
  let queue := (state scopeKey).dropWhile fun seenAt => decide (limiter.window ≤ now - seenAt)
  if limiter.maxRequests ≤ queue.length then (false, Function.update state scopeKey queue)
  else (true, Function.update state scopeKey (queue ++ [now]))

/-- A call of the limiter and the instant at which it reads the clock. -/
structure Call where
  scopeKey : List Char
  instant : Nat
  deriving DecidableEq

namespace SlidingWindowRateLimiter

def decisions (limiter : SlidingWindowRateLimiter) :
    LimiterState → List Call → List (Call × Bool)
  | _, [] => []
  | state, call :: calls =>
    let (allowed, state) := limiter.allow state call.scopeKey call.instant
    (call, allowed) :: decisions limiter state calls

/-- The instants at which calls with the key were let through. -/
def admitted (scopeKey : List Char) (decided : List (Call × Bool)) : List Nat :=
  (decided.filter fun v => v.2 && decide (v.1.scopeKey = scopeKey)).map fun v => v.1.instant

variable (limiter : SlidingWindowRateLimiter)

theorem allow_eq (state : LimiterState) (scopeKey : List Char) (now : Nat) :
    limiter.allow state scopeKey now =
      ((SlidingWindow.allow id limiter.window limiter.maxRequests now (state scopeKey)).1,
        Function.update state scopeKey
          (SlidingWindow.allow id limiter.window limiter.maxRequests now (state scopeKey)).2) := by
  unfold SlidingWindowRateLimiter.allow SlidingWindow.allow SlidingWindow.expire
  dsimp only [id]
  split
  next hfull => rw [if_pos (by exact hfull)]; rfl
  next hroom => rw [if_neg (by exact hroom)]; rfl

/-- The limiter of a category sees the queues of its category and leaves the others alone. -/
theorem rateLimiters_allow (limiters : RateLimiters) (state : Queues)
    (category : RateLimitCategory) (scopeKey : List Char) (now : Nat) :
    let own := SlidingWindowRateLimiter.mk (limiters.maxRequests category) limiters.window
    let after := own.allow (fun key => state (category, key)) scopeKey now
    (limiters.allow state category scopeKey now).1 = after.1 ∧
      ∀ category' key, (limiters.allow state category scopeKey now).2 (category', key) =
        if category' = category then after.2 key else state (category', key) := by
  dsimp only
  rw [allow_eq]
  refine ⟨rfl, fun category' key => ?_⟩
  simp only [RateLimiters.allow, Function.update_apply, Prod.mk.injEq]
  by_cases hcategory : category' = category
  · subst hcategory
    simp
  · simp [hcategory]

def keyed : Limiter Call Nat (List Char) where
  key call := some call.scopeKey
  entry := Call.instant
  seenAt := id
  window := limiter.window
  limit _ := limiter.maxRequests

theorem allow_step (state : LimiterState) (call : Call) :
    limiter.allow state call.scopeKey call.instant = limiter.keyed.step state call :=
  limiter.allow_eq state call.scopeKey call.instant

theorem decisions_eq_verdicts (calls : List Call) :
    limiter.decisions (fun _ => []) calls =
      limiter.keyed.tagged.verdicts (fun _ => []) calls := by
  have hstate : ∀ state : LimiterState,
      limiter.decisions state calls = limiter.keyed.verdicts state calls := by
    induction calls with
    | nil => exact fun _ => rfl
    | cons call calls ih =>
      intro state
      rw [decisions, Limiter.verdicts, allow_step]
      exact congrArg _ (ih _)
  rw [hstate, ← Limiter.verdicts_map]
  rfl

/-- The decisions for a key are those of its queue alone. -/
theorem decisions_filter (calls : List Call) (scopeKey : List Char) :
    (limiter.decisions (fun _ => []) calls).filter (fun v => decide (v.1.scopeKey = scopeKey)) =
      passes Call.instant limiter.window limiter.maxRequests []
        (calls.filter fun call => decide (call.scopeKey = scopeKey)) := by
  have hkey := limiter.keyed.verdicts_filter_key (fun _ => []) calls scopeKey
  have hsome : ∀ call : Call, (limiter.keyed.key call = some scopeKey) =
      (call.scopeKey = scopeKey) := fun _ => Option.some_inj.eq
  simp only [hsome] at hkey
  rw [decisions_eq_verdicts]
  exact hkey

theorem admitted_eq_passed (scopeKey : List Char) (decided : List (Call × Bool)) :
    admitted scopeKey decided =
      (passed (decided.filter fun v => decide (v.1.scopeKey = scopeKey))).map Call.instant := by
  rw [admitted, passed, List.filter_filter, List.map_map]
  rfl

/-- The history of a key after its calls. -/
theorem history_filter {calls : List Call} {now : Nat} (scopeKey : List Char)
    (hsorted : calls.Pairwise fun c c' => c.instant ≤ c'.instant)
    (hpast : ∀ c ∈ calls, c.instant ≤ now) :
    History Call.instant limiter.window limiter.maxRequests now
      (passed (passes Call.instant limiter.window limiter.maxRequests []
        (calls.filter fun call => decide (call.scopeKey = scopeKey))))
      (queueAfter Call.instant limiter.window limiter.maxRequests []
        (calls.filter fun call => decide (call.scopeKey = scopeKey))) :=
  history_passes _ (hsorted.sublist List.filter_sublist) fun c hc =>
    hpast c (List.mem_of_mem_filter hc)

theorem admitted_spaced {calls : List Call}
    (hsorted : calls.Pairwise fun c c' => c.instant ≤ c'.instant) {scopeKey : List Char}
    {i seenAt now : Nat}
    (hseen : (admitted scopeKey (limiter.decisions (fun _ => []) calls))[i]? = some seenAt)
    (hnow : (admitted scopeKey (limiter.decisions (fun _ => []) calls))[i + limiter.maxRequests]? =
      some now) : seenAt + limiter.window ≤ now := by
  rw [admitted_eq_passed, decisions_filter, List.getElem?_map, Option.map_eq_some_iff]
    at hseen hnow
  obtain ⟨first, hfirst, rfl⟩ := hseen
  obtain ⟨last, hlast, rfl⟩ := hnow
  have hpast : ∀ c ∈ calls, c.instant ≤ ((calls.map Call.instant).max?).getD 0 :=
    fun c hc => List.le_max?_getD_of_mem (List.mem_map_of_mem hc)
  exact (limiter.history_filter scopeKey hsorted hpast).spaced i first last hfirst hlast

theorem rejected_full {calls : List Call}
    (hsorted : calls.Pairwise fun c c' => c.instant ≤ c'.instant)
    {before after : List (Call × Bool)} {call : Call}
    (hdecided : limiter.decisions (fun _ => []) calls = before ++ (call, false) :: after) :
    limiter.maxRequests ≤ ((admitted call.scopeKey before).filter fun seenAt =>
      decide (call.instant - seenAt < limiter.window)).length := by
  have hkey := congrArg
    (List.filter fun v : Call × Bool => decide (v.1.scopeKey = call.scopeKey)) hdecided
  rw [decisions_filter, List.filter_append, List.filter_cons_of_pos (by simp)] at hkey
  obtain ⟨front, back, hcalls, hbefore, hrejected⟩ := passes_split hkey
  have hfront : (front ++ call :: back).Pairwise fun c c' => c.instant ≤ c'.instant :=
    hcalls ▸ hsorted.sublist List.filter_sublist
  obtain ⟨hfront, -, hcross⟩ := List.pairwise_append.mp hfront
  have hhistory : History Call.instant limiter.window limiter.maxRequests call.instant
      (passed (passes Call.instant limiter.window limiter.maxRequests [] front))
      (queueAfter Call.instant limiter.window limiter.maxRequests [] front) :=
    history_passes front hfront fun c hc => hcross c hc call (List.mem_cons_self ..)
  rw [hhistory.allow_fst, decide_eq_false_iff_not, Nat.not_lt, hbefore] at hrejected
  rw [admitted_eq_passed, List.filter_map, List.length_map]
  have hwithin : (fun seenAt => decide (call.instant - seenAt < limiter.window)) ∘ Call.instant =
      fun c => !expired Call.instant limiter.window call.instant c := by
    funext c
    rw [Function.comp_apply, expired, ← decide_not]
    exact decide_eq_decide.mpr Nat.not_le.symm
  rw [hwithin]
  exact hrejected

/-- The decisions about a key are those about its calls alone. -/
theorem decisions_scopeKey (calls : List Call) (scopeKey : List Char) :
    (limiter.decisions (fun _ => []) calls).filter (fun v => decide (v.1.scopeKey = scopeKey)) =
      limiter.decisions (fun _ => [])
        (calls.filter fun call => decide (call.scopeKey = scopeKey)) := by
  have hfiltered := limiter.decisions_filter
    (calls.filter fun call => decide (call.scopeKey = scopeKey)) scopeKey
  rw [List.filter_filter] at hfiltered
  simp only [Bool.and_self] at hfiltered
  rw [decisions_filter, ← hfiltered]
  refine List.filter_eq_self.mpr fun v hv => ?_
  have hcall : v.1 ∈ calls.filter fun call => decide (call.scopeKey = scopeKey) := by
    rw [← Limiter.verdicts_fst limiter.keyed.tagged (fun _ => [])
      (calls.filter fun call => decide (call.scopeKey = scopeKey)), ← decisions_eq_verdicts]
    exact List.mem_map_of_mem hv
  exact (List.mem_filter.mp hcall).2

end SlidingWindowRateLimiter

open SlidingWindowRateLimiter

/-- Of a key's admitted calls any `max_requests + 1` in a row span a window, a call is rejected only
behind `max_requests` of its key within the window, and the other keys change no decision. -/
theorem slidingWindow_run (limiter : SlidingWindowRateLimiter) (calls : List Call)
    (hsorted : calls.Pairwise fun c c' => c.instant ≤ c'.instant) :
    let decided := limiter.decisions (fun _ => []) calls
    (∀ scopeKey i seenAt now, (admitted scopeKey decided)[i]? = some seenAt →
      (admitted scopeKey decided)[i + limiter.maxRequests]? = some now →
      seenAt + limiter.window ≤ now) ∧
    (∀ before call after, decided = before ++ (call, false) :: after →
      limiter.maxRequests ≤ ((admitted call.scopeKey before).filter fun seenAt =>
        decide (call.instant - seenAt < limiter.window)).length) ∧
    (∀ scopeKey, decided.filter (fun v => decide (v.1.scopeKey = scopeKey)) =
      limiter.decisions (fun _ => [])
        (calls.filter fun call => decide (call.scopeKey = scopeKey))) := by
  refine ⟨?_, ?_, ?_⟩
  · exact fun scopeKey i seenAt now => limiter.admitted_spaced hsorted
  · exact fun before call after => limiter.rejected_full hsorted
  · exact limiter.decisions_scopeKey calls

theorem slidingWindow_run_edge :
    let calls : List Call := [⟨['a'], 0⟩, ⟨['b'], 4⟩, ⟨['a'], 9⟩, ⟨['a'], 10⟩]
    let limiter : SlidingWindowRateLimiter := ⟨1, 10⟩
    calls.Pairwise (fun c c' => c.instant ≤ c'.instant) ∧
      limiter.decisions (fun _ => []) calls =
        [(⟨['a'], 0⟩, true), (⟨['b'], 4⟩, true), (⟨['a'], 9⟩, false), (⟨['a'], 10⟩, true)] ∧
      (limiter.decisions (fun _ => []) calls).filter
        (fun v => decide (v.1.scopeKey = ['b'])) = [(⟨['b'], 4⟩, true)] := by
  have hsorted : [(⟨['a'], 0⟩ : Call), ⟨['b'], 4⟩, ⟨['a'], 9⟩, ⟨['a'], 10⟩].Pairwise
      (fun c c' => c.instant ≤ c'.instant) := by decide
  refine ⟨hsorted, by decide, ?_⟩
  have hother := (slidingWindow_run ⟨1, 10⟩ _ hsorted).2.2 ['b']
  exact hother.trans (by decide)

end GmragApi.RateLimit

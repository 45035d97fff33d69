import GmragApi.RateLimit
import GmragApi.SlidingWindow

/-! The rate limiter over a history of requests, against the same history without the requests
whose tokens are rejected behind it. -/

namespace GmragApi.RateLimit

open Hrm SlidingWindow

inductive RateLimitCategory
  | chat
  | upload
  | authSensitive
  deriving DecidableEq

inductive RateLimitScope
  | user
  | tenant
  deriving DecidableEq

structure RateLimitRule where
  category : RateLimitCategory
  scope : RateLimitScope
  deriving DecidableEq

structure RateLimitErrorPayload where
  code : List Char
  message : List Char
  deriving DecidableEq

def rateLimited : RateLimitErrorPayload :=
  ⟨"RATE_LIMITED".toList, "Too many requests. Please retry later.".toList⟩

inductive Method
  | get
  | post
  | put
  | patch
  | delete
  deriving DecidableEq

/-- The route that the router matches; of two such routes the one with the literal segment stands
first in the table. -/
def matchedPath (path : List Char) : Option (List PathSegment) :=
  routes.find? fun route => (routeCaptures route path).isSome

def chatRoute : List PathSegment := [lit "workspaces", par "workspace_id", lit "chat"]

def uploadRoute : List PathSegment :=
  [lit "workspaces", par "workspace_id", lit "documents", lit "upload"]

def membersRoute : List PathSegment := [lit "workspaces", par "workspace_id", lit "members"]

def memberRoute : List PathSegment := membersRoute ++ [par "member_id"]

def classifyRule (method : Method) (matched : Option (List PathSegment)) : Option RateLimitRule :=
  matched.bind fun path =>
    if method = .post ∧ path = chatRoute then some ⟨.chat, .user⟩
    else if method = .post ∧ path = uploadRoute then some ⟨.upload, .user⟩
    else if method = .post ∧ path = [lit "users", lit "sync"] ∨
        method = .post ∧ path = [lit "tenants"] ∨ method = .post ∧ path = membersRoute ∨
        method = .patch ∧ path = memberRoute ∨ method = .delete ∧ path = memberRoute then
      some ⟨.authSensitive, .user⟩
    else if method = .post ∧ path = ownersRoute then some ⟨.authSensitive, .tenant⟩
    else none

/-- A request with its method and the instant at which the limiter reads its clock. -/
structure Arrival where
  request : Request
  method : Method
  instant : Nat

/-- `parse_u32_env` and `parse_u64_env` with the `max` around them, after the variable has been
read. -/
def parseEnv (value : Option Nat) (default : Nat) : Nat := max (value.getD default) 1

/-- The window in the unit of the instants, and how many requests it may hold. -/
structure RateLimiters where
  window : Nat
  maxRequests : RateLimitCategory → Nat

def RateLimiters.fromEnv (windowSecs chat upload auth : Option Nat) : RateLimiters where
  window := parseEnv windowSecs 60 * 1000000000
  maxRequests
    | .chat => parseEnv chat 30
    | .upload => parseEnv upload 10
    | .authSensitive => parseEnv auth 20

/-- The queue of each category and scope key; a key that has not been seen has an empty one. -/
abbrev Queues := RateLimitCategory × List Char → List Nat

def RateLimiters.allow (limiters : RateLimiters) (state : Queues) (category : RateLimitCategory)
    (scopeKey : List Char) (now : Nat) : Bool × Queues :=
  let (allowed, queue) := SlidingWindow.allow id limiters.window (limiters.maxRequests category) now
    (state (category, scopeKey))
  (allowed, Function.update state (category, scopeKey) queue)

section Layer

variable (lib : JwtLibrary) (limiters : RateLimiters)

def resolveScopeKey (r : Request) : RateLimitScope → Option (List Char)
  | .user => resolveUserScopeKey lib r
  | .tenant => resolveTenantScopeKey r

/-- The layer hands the request on, or answers it itself. -/
def enforceRateLimits (state : Queues) (a : Arrival) :
    Except RateLimitErrorPayload Unit × Queues :=
  match classifyRule a.method (matchedPath a.request.path) with
  | none => (.ok (), state)
  | some rule =>
    match resolveScopeKey lib a.request rule.scope with
    | none => (.ok (), state)
    | some scopeKey =>
      let (allowed, state) := limiters.allow state rule.category scopeKey a.instant
      if allowed then (.ok (), state) else (.error rateLimited, state)

def answers : Queues → List Arrival → List (Arrival × Except RateLimitErrorPayload Unit)
  | _, [] => []
  | state, a :: as =>
    let (answer, state) := enforceRateLimits lib limiters state a
    (a, answer) :: answers state as

/-- Category and scope key of a request that is counted. -/
def countedKey (a : Arrival) : Option (RateLimitCategory × List Char) :=
  (classifyRule a.method (matchedPath a.request.path)).bind fun rule =>
    (resolveScopeKey lib a.request rule.scope).map (rule.category, ·)

def windowLimiter : Limiter Arrival Nat (RateLimitCategory × List Char) where
  key := countedKey lib
  entry := Arrival.instant
  seenAt := id
  window := limiters.window
  limit := fun k => limiters.maxRequests k.1

/-- What the layer answers for a verdict of the limiter. -/
def verdictAnswer (passed : Bool) : Except RateLimitErrorPayload Unit :=
  if passed then .ok () else .error rateLimited

theorem enforceRateLimits_step (state : Queues) (a : Arrival) :
    enforceRateLimits lib limiters state a =
      (verdictAnswer ((windowLimiter lib limiters).step state a).1,
        ((windowLimiter lib limiters).step state a).2) := by
  have hkey : (windowLimiter lib limiters).key a = countedKey lib a := rfl
  unfold enforceRateLimits Limiter.step
  rw [hkey, countedKey]
  cases classifyRule a.method (matchedPath a.request.path) with
  | none => rfl
  | some rule =>
    rw [Option.bind_some]
    dsimp only
    cases resolveScopeKey lib a.request rule.scope with
    | none => rfl
    | some scopeKey =>
      change (if (limiters.allow state rule.category scopeKey a.instant).1 = true then
          (.ok (), (limiters.allow state rule.category scopeKey a.instant).2)
        else (.error rateLimited, (limiters.allow state rule.category scopeKey a.instant).2)) =
        (verdictAnswer (limiters.allow state rule.category scopeKey a.instant).1,
          (limiters.allow state rule.category scopeKey a.instant).2)
      obtain ⟨passed, state'⟩ := limiters.allow state rule.category scopeKey a.instant
      cases passed <;> rfl

theorem answers_eq_verdicts (state : Queues) (as : List Arrival) :
    answers lib limiters state as =
      ((windowLimiter lib limiters).verdicts state as).map fun v => (v.1, verdictAnswer v.2) := by
  induction as generalizing state with
  | nil => rfl
  | cons a as ih =>
    rw [answers, enforceRateLimits_step, Limiter.verdicts, List.map_cons]
    dsimp only
    rw [ih]

end Layer

section Forgery

variable (lib : JwtLibrary) (v : JwtValidator) (limiters : RateLimiters)

/-- The validator accepts the token of the request. -/
def accepted (a : Arrival) : Bool := (userId lib v a.request).isSome

/-- Requests in the order in which the limiter sees them. -/
structure Timeline where
  arrivals : List Arrival
  ordered : arrivals.Pairwise fun a a' => a.instant ≤ a'.instant

/-- The accepted requests are answered as if the other ones had never come. -/
def AnsweredAlone (t : Timeline) : Prop :=
  (answers lib limiters (fun _ => []) t.arrivals).filter (fun answer => accepted lib v answer.1) =
    answers lib limiters (fun _ => []) (t.arrivals.filter (accepted lib v))

/-- No accepted request comes to a full window in which a rejected request has been counted. -/
def WindowsUndisturbed (t : Timeline) : Prop :=
  (windowLimiter lib limiters).Undisturbed (accepted lib v) (fun _ => []) t.arrivals

end Forgery

theorem verdictAnswer_injective : Function.Injective verdictAnswer := by
  intro passed passed' h
  cases passed <;> cases passed' <;> first | rfl | cases h

/-- Rejected tokens spend no quota of an accepted request just when none of them is counted in a
window that is full for such a request. -/
theorem answeredAlone_iff (lib : JwtLibrary) (v : JwtValidator) (limiters : RateLimiters)
    (t : Timeline) : AnsweredAlone lib v limiters t ↔ WindowsUndisturbed lib v limiters t := by
  let L := windowLimiter lib limiters
  have hstart : L.Related (accepted lib v) 0 (fun _ => []) (fun _ => []) := fun k =>
    ⟨rfl, ⟨List.Pairwise.nil, fun _ h => absurd h List.not_mem_nil⟩, Nat.zero_le _⟩
  have hordered : t.arrivals.Pairwise fun a a' => L.tagged.seenAt a ≤ L.tagged.seenAt a' :=
    t.ordered
  rw [WindowsUndisturbed, ← L.verdicts_filter_iff t.arrivals hordered (fun _ _ => Nat.zero_le _)
    hstart, ← L.verdicts_map, ← L.verdicts_map, AnsweredAlone, answers_eq_verdicts,
    answers_eq_verdicts, List.filter_map]
  have hinjective : Function.Injective fun verdict : Arrival × Bool =>
      (verdict.1, verdictAnswer verdict.2) := by
    intro x y h
    obtain ⟨hfst, hsnd⟩ := Prod.mk.inj h
    exact Prod.ext hfst (verdictAnswer_injective hsnd)
  exact (List.map_injective_iff.mpr hinjective).eq_iff

section Forged

variable {lib : JwtLibrary} {v : JwtValidator} {limiters : RateLimiters} {a b : Arrival}
  {k : RateLimitCategory × List Char}

/-- One rejected request is enough for a window that holds one. -/
theorem not_answeredAlone_pair (ha : countedKey lib a = some k) (hb : countedKey lib b = some k)
    (hlimit : limiters.maxRequests k.1 = 1) (hrejected : accepted lib v a = false)
    (haccepted : accepted lib v b = true) (hle : a.instant ≤ b.instant)
    (hwindow : b.instant - a.instant < limiters.window) :
    ¬ AnsweredAlone lib v limiters ⟨[a, b], by simpa using hle⟩ := by
  have hlive : ¬ limiters.window ≤ b.instant - a.instant := by omega
  have hboth : answers lib limiters (fun _ => []) [a, b] =
      [(a, .ok ()), (b, .error rateLimited)] := by
    rw [answers_eq_verdicts]
    simp [Limiter.verdicts, Limiter.step, windowLimiter, ha, hb, hlimit, allow, expire, expired,
      hlive, verdictAnswer]
  have halone : answers lib limiters (fun _ => []) [b] = [(b, .ok ())] := by
    rw [answers_eq_verdicts]
    simp [Limiter.verdicts, Limiter.step, windowLimiter, hb, hlimit, allow, expire, verdictAnswer]
  have hfilter : [a, b].filter (accepted lib v) = [b] := by simp [hrejected, haccepted]
  intro h
  rw [AnsweredAlone] at h
  dsimp only at h
  rw [hboth, hfilter, halone] at h
  simp [hrejected, haccepted] at h

/-- The payload names the user `v`; the signature of the genuine token is that of the identity
service. -/
def victimPayload : List Char := "eyJzdWIiOiJ2IiwiaXNzIjoiaSIsImV4cCI6NDEwMjQ0NDgwMH0".toList

def victimSignature : List Char :=
  ("mvtXkPfQ7Dklw51AjvY9QxTUEDr0KwdS3IAtMvifSkuXBBOOlMfUywMpPvoKZL" ++
    "ldlM1bmg_7FhjceMM3f5COkg").toList

def victimClaims : Json :=
  .object [(subClaim, .string ['v']), ("iss".toList, .string ['i']),
    ("exp".toList, .number 4102444800)]

@[irreducible] def genuineToken : List Char := signedToken victimPayload victimSignature

@[irreducible] def forgedToken : List Char := signedToken victimPayload "AAAA".toList

theorem tokens_plain : (genuineToken ++ forgedToken).all (fun c => !isWhitespace c) = true := by
  decide +kernel

theorem genuineToken_plain {c : Char} (hc : c ∈ genuineToken) : isWhitespace c = false := by
  simpa using List.all_eq_true.mp tokens_plain c (List.mem_append_left _ hc)

theorem forgedToken_plain {c : Char} (hc : c ∈ forgedToken) : isWhitespace c = false := by
  simpa using List.all_eq_true.mp tokens_plain c (List.mem_append_right _ hc)

/-- A library that accepts the genuine token only. -/
def victimLibrary : JwtLibrary where
  decodeSegment segment := if segment = victimPayload then some victimClaims else none
  verify now token := if token = genuineToken ∧ now ≤ 4102444800 then some victimClaims else none
  verify_parts now token claims h := by
    obtain ⟨⟨rfl, -⟩, hclaims⟩ := Option.ite_none_right_eq_some.mp h
    refine ⟨tokenHead, victimPayload, victimSignature, by rw [genuineToken, signedToken], by decide,
      by decide, ?_⟩
    rw [if_pos rfl, hclaims]
  verify_plain now token claims h := by
    obtain ⟨⟨rfl, -⟩, -⟩ := Option.ite_none_right_eq_some.mp h
    exact fun c hc => genuineToken_plain hc

def chatArrival (token : List Char) (instant : Nat) : Arrival :=
  ⟨⟨some (bearerPrefix ++ token),
    "/workspaces/aaaaaaaa-aaaa-aaaa-aaaa-aaaaaaaaaaaa/chat".toList, 0⟩, .post, instant⟩

theorem chatArrival_rule (token : List Char) (instant : Nat) :
    classifyRule (chatArrival token instant).method
      (matchedPath (chatArrival token instant).request.path) = some ⟨.chat, .user⟩ := by
  have hclassify : classifyRule .post
      (matchedPath "/workspaces/aaaaaaaa-aaaa-aaaa-aaaa-aaaaaaaaaaaa/chat".toList) =
        some ⟨.chat, .user⟩ := by decide +kernel
  exact hclassify

theorem extractBearerToken_chatArrival {token : List Char} (instant : Nat) (h : token ≠ []) :
    extractBearerToken (chatArrival token instant).request = some token := by
  rw [extractBearerToken, chatArrival, Option.bind_some, stripPrefix_append]
  simp [Option.filter, h]

/-- The limiter reads the payload and never the signature. -/
theorem chatArrival_key (instant : Nat) (signature : List Char)
    (hplain : ∀ c ∈ signedToken victimPayload signature, isWhitespace c = false) :
    countedKey victimLibrary (chatArrival (signedToken victimPayload signature) instant) =
      some (.chat, "user:v".toList) := by
  have hne := signedToken_ne_nil victimPayload signature
  have htrim := trim_of_plain hplain
  have hbearer := bearerToken_of_extract (extractBearerToken_chatArrival instant hne)
    (by rwa [htrim])
  have hclaims : payloadClaims victimLibrary (signedToken victimPayload signature) =
      some victimClaims := by
    rw [payloadClaims, signedToken, List.splitOn_append_cons_self_of_not_mem (by decide),
      List.splitOn_append_cons_self_of_not_mem (by decide)]
    simp [victimLibrary]
  have hsub : parseJwtSub victimLibrary (signedToken victimPayload signature) = some ['v'] := by
    rw [parseJwtSub, hclaims]
    rfl
  rw [countedKey, chatArrival_rule, Option.bind_some, resolveScopeKey, resolveUserScopeKey, hbearer,
    htrim, Option.map_some, hsub]
  rfl

/-- With one chat in a window, a forged token in the name of `v` takes the place of the next chat
of `v`. -/
theorem forged_token_spends_quota :
    ¬ AnsweredAlone victimLibrary (.configured subClaim) (.fromEnv none (some 1) none none)
      ⟨[chatArrival forgedToken 0, chatArrival genuineToken 1], by decide⟩ := by
  have hforged := chatArrival_key 0 "AAAA".toList fun c hc =>
    forgedToken_plain (by rwa [forgedToken])
  have hgenuine := chatArrival_key 1 victimSignature fun c hc =>
    genuineToken_plain (by rwa [genuineToken])
  rw [← forgedToken] at hforged
  rw [← genuineToken] at hgenuine
  refine not_answeredAlone_pair hforged hgenuine rfl ?_ ?_ (Nat.zero_le _) (by decide)
  · have hne : forgedToken ≠ genuineToken := by decide +kernel
    have hsent : forgedToken ≠ [] := by
      rw [forgedToken]
      exact signedToken_ne_nil _ _
    rw [accepted, userId, extractBearerToken_chatArrival 0 hsent, Option.bind_some]
    simp [validate, victimLibrary, hne]
  · have hsent : genuineToken ≠ [] := by
      rw [genuineToken]
      exact signedToken_ne_nil _ _
    rw [accepted, userId, extractBearerToken_chatArrival 1 hsent, Option.bind_some]
    simp [validate, victimLibrary, chatArrival]
    rfl

end Forged

end GmragApi.RateLimit

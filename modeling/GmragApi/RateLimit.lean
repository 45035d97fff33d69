import GmragApi.HrmScope
import GmragApi.Json
import GmragApi.Text

/-! The key under which the rate limiter counts a request, and the identity under which the
service answers it. -/

namespace GmragApi.RateLimit

open Hrm

/-- What the limiter and the authentication read of a request: the `Authorization` header when it
is a text, the path, and the time of arrival. -/
structure Request where
  authorization : Option (List Char)
  path : List Char
  received : Nat

/-- What the service uses of the JWT library: the JSON of a segment, and the claims of a token
whose header, signature and registered claims are accepted at a time. -/
structure JwtLibrary where
  decodeSegment : List Char → Option Json
  verify : Nat → List Char → Option Json
  verify_parts : ∀ now token claims, verify now token = some claims →
    ∃ header payload signature, token = header ++ '.' :: (payload ++ '.' :: signature) ∧
      '.' ∉ header ∧ '.' ∉ payload ∧ decodeSegment payload = some claims
  verify_plain : ∀ now token claims, verify now token = some claims →
    ∀ c ∈ token, isWhitespace c = false

/-- The configuration of the validator: the test bypass, or the claim that names the user. -/
inductive JwtValidator
  | bypass
  | configured (subjectClaim : List Char)

def subClaim : List Char := "sub".toList

/-- A claim that is a text, trimmed, unless nothing is left of it. -/
def textClaim (name : List Char) (claims : Json) : Option (List Char) :=
  (((claims.get name).bind Json.asString).map trim).filter fun value => !value.isEmpty

def stripPrefix (pre s : List Char) : Option (List Char) :=
  if pre.isPrefixOf s then some (s.drop pre.length) else none

def bearerPrefix : List Char := "Bearer ".toList
def lowercaseBearerPrefix : List Char := "bearer ".toList

section Authentication

variable (lib : JwtLibrary)

/-- `bearer_token` of the extractor. -/
def extractBearerToken (r : Request) : Option (List Char) :=
  (r.authorization.bind (stripPrefix bearerPrefix)).filter fun token => !token.isEmpty

/-- The `sub` of the validated claims. -/
def validate (now : Nat) (token : List Char) : JwtValidator → Option (List Char)
  | .bypass => if (trim token).isEmpty then none else some (trim token)
  | .configured subjectClaim => (lib.verify now token).bind (textClaim subjectClaim)

/-- The user id of a request whose token is accepted. -/
def userId (v : JwtValidator) (r : Request) : Option (List Char) :=
  (extractBearerToken r).bind fun token => validate lib r.received token v

end Authentication

section Limiter

variable (lib : JwtLibrary)

def bearerToken (r : Request) : Option (List Char) :=
  (r.authorization.bind fun header =>
    let value := trim header
    ((stripPrefix bearerPrefix value).or (stripPrefix lowercaseBearerPrefix value)).map
      trim).filter fun token => !token.isEmpty

/-- The JSON of the second segment, which nobody has verified. -/
def payloadClaims (token : List Char) : Option Json :=
  match token.splitOn '.' with
  | _ :: payload :: _ => lib.decodeSegment payload
  | _ => none

def parseJwtSub (token : List Char) : Option (List Char) :=
  (payloadClaims lib token).bind (textClaim subClaim)

def resolveUserScopeKey (r : Request) : Option (List Char) :=
  (bearerToken r).map fun token => "user:".toList ++ (parseJwtSub lib token).getD token

def resolveTenantScopeKey (r : Request) : Option (List Char) :=
  match (r.path.dropWhile (· == '/')).splitOn '/' with
  | resource :: tenantId :: _ =>
    if resource ≠ tenantsSegment then none
    else if tenantId.isEmpty then none
    else some ("tenant:".toList ++ tenantId)
  | _ => none

end Limiter

/-- The route whose requests are counted for their tenant. -/
def ownersRoute : List PathSegment := [lit "tenants", par "tenant_id", lit "owners"]

/-- The router hands `tenant` to the handler, spelled `raw` in the path. -/
def Resolves (text : UuidText) (percent : PercentDecoding) (r : Request) (raw : List Char)
    (tenant : Uuid) : Prop :=
  ∃ captures, routeCaptures ownersRoute r.path = some captures ∧
    (tenantIdParam, raw) ∈ captures ∧ extractId text percent raw = some tenant

section Property

variable (lib : JwtLibrary) (text : UuidText) (percent : PercentDecoding) (v : JwtValidator)

/-- Accepted requests share a user key just when they share the user id. -/
def UserKeysFollow (r r' : Request) : Prop :=
  ∀ id id', userId lib v r = some id → userId lib v r' = some id' →
    (resolveUserScopeKey lib r = resolveUserScopeKey lib r' ↔ id = id')

/-- Requests for the same tenant share a tenant key. -/
def TenantKeysFollow (r r' : Request) : Prop :=
  ∀ raw raw' tenant, Resolves text percent r raw tenant → Resolves text percent r' raw' tenant →
    resolveTenantScopeKey r = resolveTenantScopeKey r'

/-- What of a token names its user: the token itself in the bypass, else the configured claim. -/
def JwtValidator.subject (token : List Char) : JwtValidator → Option (List Char)
  | bypass => some (trim token)
  | configured subjectClaim => (payloadClaims lib (trim token)).bind (textClaim subjectClaim)

/-- Two tokens are told apart by `sub`, or without one by their text, as by their subjects. -/
def ReadAlike (token token' : List Char) : Prop :=
  match parseJwtSub lib (trim token), parseJwtSub lib (trim token') with
  | some sub, some sub' => sub = sub' ↔ v.subject lib token = v.subject lib token'
  | none, none => v.subject lib token = v.subject lib token' → trim token = trim token'
  | some sub, none => sub = trim token' ↔ v.subject lib token = v.subject lib token'
  | none, some sub' => trim token = sub' ↔ v.subject lib token = v.subject lib token'

/-- Accepted tokens are read alike, and a tenant is spelled by the same characters. -/
structure KeysReadAlike (r r' : Request) : Prop where
  users : ∀ token token', extractBearerToken r = some token → extractBearerToken r' = some token' →
    (validate lib r.received token v).isSome = true →
    (validate lib r'.received token' v).isSome = true → ReadAlike lib v token token'
  tenants : ∀ raw raw' tenant, Resolves text percent r raw tenant →
    Resolves text percent r' raw' tenant → raw = raw'

end Property

section User

variable {lib : JwtLibrary} {v : JwtValidator} {r : Request} {token id : List Char}

theorem stripPrefix_eq_some {pre s rest : List Char} (h : stripPrefix pre s = some rest) :
    s = pre ++ rest := by
  obtain ⟨hpre, h⟩ := Option.ite_none_right_eq_some.mp h
  obtain ⟨tail, rfl⟩ := List.isPrefixOf_iff_prefix.mp hpre
  cases Option.some.inj h
  rw [List.drop_left]

theorem stripPrefix_append (pre rest : List Char) : stripPrefix pre (pre ++ rest) = some rest := by
  rw [stripPrefix, if_pos (List.isPrefixOf_iff_prefix.mpr ⟨rest, rfl⟩), List.drop_left]

theorem extractBearerToken_header (h : extractBearerToken r = some token) :
    r.authorization = some (bearerPrefix ++ token) := by
  obtain ⟨h, -⟩ := Option.filter_eq_some_iff.mp h
  obtain ⟨header, hheader, h⟩ := Option.bind_eq_some_iff.mp h
  rw [hheader, stripPrefix_eq_some h]

/-- A blank token is never accepted. -/
theorem validate_not_blank {now : Nat} (h : validate lib now token v = some id) :
    trim token ≠ [] := by
  cases v with
  | bypass =>
    obtain ⟨hne, -⟩ := Option.ite_none_left_eq_some.mp h
    simpa using hne
  | configured subjectClaim =>
    obtain ⟨claims, hclaims, -⟩ := Option.bind_eq_some_iff.mp h
    rw [trim_of_plain (lib.verify_plain now token claims hclaims)]
    obtain ⟨header, payload, signature, rfl, -⟩ := lib.verify_parts now token claims hclaims
    simp

/-- The limiter reads the token that the extractor takes, without the blanks around it. -/
theorem bearerToken_of_extract (h : extractBearerToken r = some token) (hne : trim token ≠ []) :
    bearerToken r = some (trim token) := by
  obtain ⟨front, back, htoken, hfront, hback⟩ := trim_parts token
  have hheader : trim (bearerPrefix ++ token) = bearerPrefix ++ (front ++ trim token) := by
    have hparts : bearerPrefix ++ token =
        [] ++ (bearerPrefix ++ (front ++ trim token)) ++ back := by
      conv_lhs => rw [htoken]
      simp
    rw [hparts]
    refine trim_of_parts (fun _ h => absurd h List.not_mem_nil) hback
      (List.append_ne_nil_of_left_ne_nil (by decide) _) rfl ?_
    rw [List.reverse_append, List.reverse_append, List.append_assoc, List.dropWhile_append,
      trim_back, if_neg (by simpa using hne)]
  have htrim : trim (front ++ trim token) = trim token := by
    have := trim_of_parts hfront (fun _ h => absurd h List.not_mem_nil : Blank []) hne
      (trim_front token) (trim_back token)
    rwa [List.append_nil] at this
  simp only [bearerToken, extractBearerToken_header h, Option.bind_some, hheader,
    stripPrefix_append, Option.some_or, Option.map_some, htrim]
  simpa [Option.filter] using hne

theorem payloadClaims_of_verify {now : Nat} {claims : Json}
    (h : lib.verify now token = some claims) : payloadClaims lib (trim token) = some claims := by
  rw [trim_of_plain (lib.verify_plain now token claims h)]
  obtain ⟨header, payload, signature, rfl, hheader, hpayload, hclaims⟩ :=
    lib.verify_parts now token claims h
  rw [payloadClaims, List.splitOn_append_cons_self_of_not_mem hheader,
    List.splitOn_append_cons_self_of_not_mem hpayload]
  exact hclaims

theorem subject_of_validate {now : Nat} (h : validate lib now token v = some id) :
    v.subject lib token = some id := by
  cases v with
  | bypass =>
    obtain ⟨-, h⟩ := Option.ite_none_left_eq_some.mp h
    exact h
  | configured subjectClaim =>
    obtain ⟨claims, hclaims, h⟩ := Option.bind_eq_some_iff.mp h
    rw [JwtValidator.subject, payloadClaims_of_verify hclaims]
    exact h

theorem userId_eq_some_iff : userId lib v r = some id ↔
    ∃ token, extractBearerToken r = some token ∧ validate lib r.received token v = some id :=
  Option.bind_eq_some_iff

/-- The limiter's key of an accepted request. -/
theorem userScopeKey_of_accepted (h : extractBearerToken r = some token)
    (hid : validate lib r.received token v = some id) :
    resolveUserScopeKey lib r =
      some ("user:".toList ++ (parseJwtSub lib (trim token)).getD (trim token)) := by
  rw [resolveUserScopeKey, bearerToken_of_extract h (validate_not_blank hid), Option.map_some]

theorem subject_of_trim {token' : List Char} (h : trim token = trim token') :
    v.subject lib token = v.subject lib token' := by
  cases v <;> simp only [JwtValidator.subject, h]

theorem readAlike_iff {token' : List Char} : ReadAlike lib v token token' ↔
    ((parseJwtSub lib (trim token)).getD (trim token) =
        (parseJwtSub lib (trim token')).getD (trim token') ↔
      v.subject lib token = v.subject lib token') := by
  unfold ReadAlike
  split
  next hsub hsub' => simp only [hsub, hsub', Option.getD_some]
  next hsub hsub' =>
    simp only [hsub, hsub', Option.getD_none]
    exact ⟨fun h => ⟨subject_of_trim, h⟩, fun h => h.mpr⟩
  next hsub hsub' => simp only [hsub, hsub', Option.getD_some, Option.getD_none]
  next hsub hsub' => simp only [hsub, hsub', Option.getD_some, Option.getD_none]

theorem userKeysFollow_iff {r' : Request} : UserKeysFollow lib v r r' ↔
    ∀ token token', extractBearerToken r = some token → extractBearerToken r' = some token' →
      (validate lib r.received token v).isSome = true →
      (validate lib r'.received token' v).isSome = true → ReadAlike lib v token token' := by
  have keys : ∀ token token' id id', extractBearerToken r = some token →
      extractBearerToken r' = some token' → validate lib r.received token v = some id →
      validate lib r'.received token' v = some id' →
      ((resolveUserScopeKey lib r = resolveUserScopeKey lib r' ↔ id = id') ↔
        ReadAlike lib v token token') := by
    intro token token' id id' htoken htoken' hid hid'
    rw [userScopeKey_of_accepted htoken hid, userScopeKey_of_accepted htoken' hid', readAlike_iff,
      subject_of_validate hid, subject_of_validate hid']
    simp only [Option.some.injEq, List.append_cancel_left_eq]
  constructor
  · intro h token token' htoken htoken' hsome hsome'
    obtain ⟨id, hid⟩ := Option.isSome_iff_exists.mp hsome
    obtain ⟨id', hid'⟩ := Option.isSome_iff_exists.mp hsome'
    exact (keys token token' id id' htoken htoken' hid hid').mp
      (h id id' (userId_eq_some_iff.mpr ⟨token, htoken, hid⟩)
        (userId_eq_some_iff.mpr ⟨token', htoken', hid'⟩))
  · intro h id id' huser huser'
    obtain ⟨token, htoken, hid⟩ := userId_eq_some_iff.mp huser
    obtain ⟨token', htoken', hid'⟩ := userId_eq_some_iff.mp huser'
    exact (keys token token' id id' htoken htoken' hid hid').mpr
      (h token token' htoken htoken' (Option.isSome_iff_exists.mpr ⟨id, hid⟩)
        (Option.isSome_iff_exists.mpr ⟨id', hid'⟩))

/-- With `sub` as the configured claim, accepted tokens are always read alike. -/
theorem readAlike_of_sub {r' : Request} {token' : List Char}
    (hid : (validate lib r.received token (.configured subClaim)).isSome = true)
    (hid' : (validate lib r'.received token' (.configured subClaim)).isSome = true) :
    ReadAlike lib (.configured subClaim) token token' := by
  obtain ⟨id, hid⟩ := Option.isSome_iff_exists.mp hid
  obtain ⟨id', hid'⟩ := Option.isSome_iff_exists.mp hid'
  have hsub : parseJwtSub lib (trim token) = some id := subject_of_validate hid
  have hsub' : parseJwtSub lib (trim token') = some id' := subject_of_validate hid'
  rw [readAlike_iff, hsub, hsub', subject_of_validate hid, subject_of_validate hid']
  simp only [Option.getD_some, Option.some.injEq]

end User

section Tenant

variable {text : UuidText} {percent : PercentDecoding} {r r' : Request} {raw : List Char}
  {tenant : Uuid}

/-- A path whose first piece is empty begins with a slash. -/
theorem splitOn_rooted {path : List Char} {a : List Char} {segments : List (List Char)}
    (h : path.splitOn '/' = [] :: a :: segments) :
    ∃ rest, path = '/' :: rest ∧ rest.splitOn '/' = a :: segments := by
  cases path with
  | nil => cases h
  | cons c rest =>
    rw [List.splitOn_cons_eq_if_modifyHead] at h
    split at h
    next hc =>
      obtain rfl : c = '/' := by simpa using hc
      exact ⟨rest, rfl, List.tail_eq_of_cons_eq h⟩
    next =>
      cases hrest : rest.splitOn '/' with
      | nil => exact absurd hrest (List.splitOn_ne_nil _ _)
      | cons x xs =>
        rw [hrest] at h
        cases h

/-- Only slashes make empty pieces at the front. -/
theorem dropWhile_slash {path a : List Char} {segments : List (List Char)}
    (h : path.splitOn '/' = a :: segments) (hne : a ≠ []) :
    path.dropWhile (· == '/') = path := by
  cases path with
  | nil => rfl
  | cons c rest =>
    refine List.dropWhile_cons_of_neg fun hc => hne ?_
    rw [List.splitOn_cons_eq_if_modifyHead, if_pos hc] at h
    exact (List.head_eq_of_cons_eq h).symm

theorem ownersRoute_param {i : Nat} {name : List Char}
    (h : ownersRoute[i]? = some (.param name)) : i = 1 := by
  rcases i with _ | _ | _ | i
  · cases h
  · rfl
  · cases h
  · cases h

/-- The key of a routed request holds the tenant's segment as it stands in the path. -/
theorem tenantScopeKey_of_resolves (h : Resolves text percent r raw tenant) :
    resolveTenantScopeKey r = some ("tenant:".toList ++ raw) := by
  obtain ⟨captures, hroute, hmem, -⟩ := h
  unfold routeCaptures at hroute
  split at hroute
  next segments hsplit =>
    have hm := matchRoute_matches hroute
    obtain ⟨i, hi, hraw⟩ := (hm.captured tenantIdParam raw).mp hmem
    obtain rfl := ownersRoute_param hi
    match segments, hm, hsplit, hraw with
    | first :: second :: tail, hm, hsplit, hraw =>
      cases Option.some.inj hraw
      have hfirst : (first == tenantsSegment) = true := hm.accepts 0 _ first rfl rfl
      have hnonempty : (!raw.isEmpty) = true := hm.accepts 1 _ raw rfl rfl
      obtain rfl := eq_of_beq hfirst
      obtain ⟨rest, hpath, hrest⟩ := splitOn_rooted hsplit
      have hdrop : r.path.dropWhile (· == '/') = rest := by
        rw [hpath, List.dropWhile_cons_of_pos rfl]
        exact dropWhile_slash hrest (by decide)
      rw [resolveTenantScopeKey, hdrop, hrest]
      change (if _ then _ else if raw.isEmpty then none else _) = _
      rw [if_neg (not_not.mpr rfl), if_neg (by simpa using hnonempty)]
  next => cases hroute

theorem tenantKeysFollow_iff : TenantKeysFollow text percent r r' ↔
    ∀ raw raw' tenant, Resolves text percent r raw tenant → Resolves text percent r' raw' tenant →
      raw = raw' := by
  constructor
  · intro h raw raw' tenant hr hr'
    have hkeys := h raw raw' tenant hr hr'
    rw [tenantScopeKey_of_resolves hr, tenantScopeKey_of_resolves hr'] at hkeys
    exact List.append_cancel_left (Option.some.inj hkeys)
  · intro h raw raw' tenant hr hr'
    rw [tenantScopeKey_of_resolves hr, tenantScopeKey_of_resolves hr', h raw raw' tenant hr hr']

end Tenant

/-- The keys of two requests follow their identities just when the limiter's reading of the tokens
and of the path tells them apart as the service does. -/
theorem limiter_keys_follow_iff (lib : JwtLibrary) (text : UuidText) (percent : PercentDecoding)
    (v : JwtValidator) (r r' : Request) :
    UserKeysFollow lib v r r' ∧ TenantKeysFollow text percent r r' ↔
      KeysReadAlike lib text percent v r r' := by
  rw [userKeysFollow_iff, tenantKeysFollow_iff]
  exact ⟨fun h => ⟨h.1, h.2⟩, fun h => ⟨h.users, h.tenants⟩⟩

section Examples

/-- Two signed tokens of one employee, who is named by `userid`; only the expiry differs. -/
def tokenHead : List Char := "eyJhbGciOiJIUzUxMiJ9".toList

def firstPayload : List Char := "eyJ1c2VyaWQiOiJlIiwiaXNzIjoiaSIsImV4cCI6NDEwMjQ0NDgwMX0".toList

def secondPayload : List Char := "eyJ1c2VyaWQiOiJlIiwiaXNzIjoiaSIsImV4cCI6NDEwMjQ0NDgwMn0".toList

def firstSignature : List Char :=
  ("ocr9r7_0WbfO9XaeZw-ZLcwrHrU96bCL70rmkU9Rp6PEEIRzqDvZLGwC6u_" ++
    "cakFxHaIkqlmNqJUafQKyntE-gQ").toList

def secondSignature : List Char :=
  ("8XIbFrcTn_O6dDJ7ek8FWncA-CMlGc0KapHJkcOO8bl3h4Sc2Ki3Z1Tkgb4" ++
    "NVtugISdzdABqb5mmvDj0L6J17w").toList

def employeeClaims (expiry : Int) : Json :=
  .object [("userid".toList, .string ['e']), ("iss".toList, .string ['i']),
    ("exp".toList, .number expiry)]

def signedToken (payload signature : List Char) : List Char :=
  tokenHead ++ '.' :: (payload ++ '.' :: signature)

@[irreducible] def firstToken : List Char := signedToken firstPayload firstSignature

@[irreducible] def secondToken : List Char := signedToken secondPayload secondSignature

theorem signedToken_ne_nil (payload signature : List Char) : signedToken payload signature ≠ [] :=
  List.append_ne_nil_of_right_ne_nil _ (List.cons_ne_nil _ _)

theorem firstPayload_ne_secondPayload : firstPayload ≠ secondPayload :=
  fun h => absurd (String.toList_inj.mp h) (by simp)

theorem firstToken_ne_secondToken : firstToken ≠ secondToken := by
  intro h
  have hlength : firstPayload.length = secondPayload.length := by decide +kernel
  rw [firstToken, secondToken, signedToken, signedToken] at h
  have hrest := (List.cons.inj (List.append_cancel_left h)).2
  exact firstPayload_ne_secondPayload (List.append_inj_left hrest hlength)

theorem firstToken_not_empty : firstToken.isEmpty = false := by
  rw [List.isEmpty_eq_false_iff, firstToken]
  exact signedToken_ne_nil _ _

theorem secondToken_not_empty : secondToken.isEmpty = false := by
  rw [List.isEmpty_eq_false_iff, secondToken]
  exact signedToken_ne_nil _ _

def decodeTwo (segment : List Char) : Option Json :=
  if segment = firstPayload then some (employeeClaims 4102444801)
  else if segment = secondPayload then some (employeeClaims 4102444802)
  else none

def verifyTwo (now : Nat) (token : List Char) : Option Json :=
  if token = firstToken ∧ now ≤ 4102444801 then some (employeeClaims 4102444801)
  else if token = secondToken ∧ now ≤ 4102444802 then some (employeeClaims 4102444802)
  else none

theorem verifyTwo_cases {now : Nat} {token : List Char} {claims : Json}
    (h : verifyTwo now token = some claims) :
    (token = firstToken ∧ claims = employeeClaims 4102444801) ∨
      (token = secondToken ∧ claims = employeeClaims 4102444802) := by
  unfold verifyTwo at h
  split at h
  next hfirst => exact .inl ⟨hfirst.1, (Option.some.inj h).symm⟩
  next =>
    obtain ⟨hsecond, h⟩ := Option.ite_none_right_eq_some.mp h
    exact .inr ⟨hsecond.1, (Option.some.inj h).symm⟩

/-- A library that knows these two tokens. -/
def twoTokens : JwtLibrary where
  decodeSegment := decodeTwo
  verify := verifyTwo
  verify_parts now token claims h := by
    rcases verifyTwo_cases h with ⟨rfl, rfl⟩ | ⟨rfl, rfl⟩
    · exact ⟨tokenHead, firstPayload, firstSignature, by rw [firstToken, signedToken], by decide,
        by decide, if_pos rfl⟩
    · exact ⟨tokenHead, secondPayload, secondSignature, by rw [secondToken, signedToken],
        by decide, by decide, (if_neg firstPayload_ne_secondPayload.symm).trans (if_pos rfl)⟩
  verify_plain now token claims h := by
    have plain : (firstToken ++ secondToken).all
        (fun c => decide (0x20 < c.toNat ∧ c.toNat < 0x7F)) = true := by
      decide +kernel
    intro c hc
    have hmem : c ∈ firstToken ++ secondToken := by
      rcases verifyTwo_cases h with ⟨rfl, -⟩ | ⟨rfl, -⟩
      · exact List.mem_append_left _ hc
      · exact List.mem_append_right _ hc
    exact isWhitespace_of_printable (of_decide_eq_true (List.all_eq_true.mp plain c hmem))

theorem verifyTwo_first : verifyTwo 0 firstToken = some (employeeClaims 4102444801) := by
  rw [verifyTwo, if_pos ⟨rfl, Nat.zero_le _⟩]

theorem verifyTwo_second : verifyTwo 0 secondToken = some (employeeClaims 4102444802) := by
  rw [verifyTwo, if_neg fun h => firstToken_ne_secondToken h.1.symm, if_pos ⟨rfl, Nat.zero_le _⟩]

def useridValidator : JwtValidator := .configured "userid".toList

def ownersRequest (token tenant : List Char) : Request :=
  ⟨some (bearerPrefix ++ token), "/tenants/".toList ++ tenant ++ "/owners".toList, 0⟩

/-- One tenant id, in small letters and in capitals. -/
def smallTenant : List Char := "aaaaaaaa-aaaa-aaaa-aaaa-aaaaaaaaaaaa".toList

def capitalTenant : List Char := "AAAAAAAA-AAAA-AAAA-AAAA-AAAAAAAAAAAA".toList

theorem extractBearerToken_ownersRequest {token : List Char} (tenant : List Char)
    (h : token.isEmpty = false) : extractBearerToken (ownersRequest token tenant) = some token := by
  rw [extractBearerToken, ownersRequest, Option.bind_some, stripPrefix_append]
  simp [Option.filter, h]

theorem employee_userid (expiry : Int) :
    textClaim "userid".toList (employeeClaims expiry) = some ['e'] :=
  rfl

theorem employee_sub (expiry : Int) : textClaim subClaim (employeeClaims expiry) = none :=
  rfl

/-- The employee's two tokens are counted apart, and so are two spellings of one tenant. -/
theorem keys_of_one_user_and_tenant_differ :
    ∃ r r', ¬ UserKeysFollow twoTokens useridValidator r r' ∧
      ¬ TenantKeysFollow uuidText percentDecoding r r' := by
  refine ⟨ownersRequest firstToken smallTenant, ownersRequest secondToken capitalTenant,
    fun h => ?_, fun h => ?_⟩
  · have hfirst := extractBearerToken_ownersRequest smallTenant firstToken_not_empty
    have hsecond := extractBearerToken_ownersRequest capitalTenant secondToken_not_empty
    have hclaims : payloadClaims twoTokens (trim firstToken) = some (employeeClaims 4102444801) :=
      payloadClaims_of_verify verifyTwo_first
    have hclaims' : payloadClaims twoTokens (trim secondToken) =
        some (employeeClaims 4102444802) := payloadClaims_of_verify verifyTwo_second
    have hvalid : validate twoTokens 0 firstToken useridValidator = some ['e'] := by
      exact (congrArg (Option.bind · _) verifyTwo_first).trans (employee_userid _)
    have hvalid' : validate twoTokens 0 secondToken useridValidator = some ['e'] := by
      exact (congrArg (Option.bind · _) verifyTwo_second).trans (employee_userid _)
    have hkeys := (h _ _ (userId_eq_some_iff.mpr ⟨_, hfirst, hvalid⟩)
      (userId_eq_some_iff.mpr ⟨_, hsecond, hvalid'⟩)).mpr rfl
    rw [userScopeKey_of_accepted hfirst hvalid, userScopeKey_of_accepted hsecond hvalid',
      parseJwtSub, parseJwtSub, hclaims,
      hclaims', Option.bind_some, Option.bind_some,
      employee_sub, employee_sub, Option.getD_none, Option.getD_none,
      trim_of_plain (twoTokens.verify_plain _ _ _ verifyTwo_first),
      trim_of_plain (twoTokens.verify_plain _ _ _ verifyTwo_second)] at hkeys
    exact firstToken_ne_secondToken (List.append_cancel_left (Option.some.inj hkeys))
  · have hsmall : Resolves uuidText percentDecoding (ownersRequest firstToken smallTenant)
        smallTenant (Uuid.ofNat 0xaaaaaaaaaaaaaaaaaaaaaaaaaaaaaaaa) :=
      ⟨[(tenantIdParam, smallTenant)], by decide +kernel, by decide +kernel, by decide +kernel⟩
    have hcapital : Resolves uuidText percentDecoding (ownersRequest secondToken capitalTenant)
        capitalTenant (Uuid.ofNat 0xaaaaaaaaaaaaaaaaaaaaaaaaaaaaaaaa) :=
      ⟨[(tenantIdParam, capitalTenant)], by decide +kernel, by decide +kernel, by decide +kernel⟩
    have hkeys := h _ _ _ hsmall hcapital
    rw [tenantScopeKey_of_resolves hsmall, tenantScopeKey_of_resolves hcapital] at hkeys
    have hne : smallTenant ≠ capitalTenant := by decide +kernel
    exact hne (List.append_cancel_left (Option.some.inj hkeys))

end Examples

end GmragApi.RateLimit

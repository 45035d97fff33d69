import GmragApi.Json
import GmragApi.Text
import GmragApi.Transition
import Mathlib.Data.List.AList

/-! The validation of tokens with the keys that the identity provider publishes: requests read and
refresh one cache, and the provider may change its keys at any time. -/

namespace GmragApi.Jwt

inductive Algorithm
  | rs256
  | hs512
  | other
  deriving DecidableEq

inductive JwtError
  | missingConfig (key : List Char)
  | fetchJwks
  | invalidJwks
  | invalidToken
  | unknownKeyId
  deriving DecidableEq

structure JwtClaims where
  sub : List Char
  email : Option (List Char)
  emailVerified : Bool
  role : Option (List Char)
  permissions : List (List Char)
  deriving DecidableEq

structure Jwk where
  kid : List Char
  kty : List Char
  use : Option (List Char)
  n : Option (List Char)
  e : Option (List Char)
  deriving DecidableEq

structure Header where
  alg : Algorithm
  kid : Option (List Char)
  deriving DecidableEq

/-- What a token is held against: its expiry is checked in any case. -/
structure Validation where
  algorithm : Algorithm
  issuer : List Char
  audience : Option (List Char)
  leeway : Nat
  deriving DecidableEq

/-- The JWT library, with keys of type `κ`. -/
structure Library (κ : Type) where
  decodeHeader : List Char → Option Header
  fromRsaComponents : List Char → List Char → Option κ
  decode : Nat → List Char → κ → Validation → Option Json

structure JwtValidator (κ : Type) where
  algorithm : Algorithm
  issuer : Option (List Char)
  audience : Option (List Char)
  verifyAudience : Bool
  subjectClaim : List Char
  jwksUrl : Option (List Char)
  hmacKey : Option κ

abbrev KeyMap (κ : Type) := AList fun _ : List Char => κ

section Validate

variable {κ : Type} (lib : Library κ) (v : JwtValidator κ)

def asBool : Json → Option Bool
  | .bool b => some b
  | _ => none

def asArray : Json → Option (List Json)
  | .array items => some items
  | _ => none

def subjectOf (subjectClaim : List Char) (claims : Json) : Option (List Char) :=
  (((claims.get subjectClaim).bind Json.asString).map trim).filter fun value => !value.isEmpty

def jwtClaims (subjectClaim : List Char) (claims : Json) : Option JwtClaims :=
  (subjectOf subjectClaim claims).map fun sub =>
    { sub
      email := (claims.get "email".toList).bind Json.asString
      emailVerified := ((claims.get "email_verified".toList).bind asBool).getD false
      role := (claims.get "role".toList).bind Json.asString
      permissions :=
        (((claims.get "permissions".toList).bind asArray).map fun values =>
          values.filterMap Json.asString).getD [] }

def jwtClockLeewaySecs : Nat := 60

def validation : Except JwtError Validation :=
  match v.issuer with
  | none => .error (.missingConfig "JWT_ISSUER".toList)
  | some issuer =>
    if v.verifyAudience then
      match v.audience with
      | none => .error (.missingConfig "JWT_AUDIENCE".toList)
      | some audience => .ok ⟨v.algorithm, issuer, some audience, jwtClockLeewaySecs⟩
    else .ok ⟨v.algorithm, issuer, none, jwtClockLeewaySecs⟩

/-- The end of `validate`, with the key in hand. -/
def validateWith (now : Nat) (token : List Char) (key : κ) : Except JwtError JwtClaims :=
  match validation v with
  | .error e => .error e
  | .ok validation =>
    match (lib.decode now token key validation).bind (jwtClaims v.subjectClaim) with
    | some claims => .ok claims
    | none => .error .invalidToken

/-- The key of an entry, if it is one for signatures: `none` skips it. -/
def signingKey (jwk : Jwk) : Except JwtError (Option κ) :=
  if jwk.kty ≠ "RSA".toList ∨ jwk.use = some "enc".toList then .ok none
  else
    match jwk.n, jwk.e with
    | some n, some e =>
      match lib.fromRsaComponents n e with
      | some key => .ok (some key)
      | none => .error .invalidJwks
    | _, _ => .ok none

/-- The loop of `refresh_jwks`: a later key takes the place of one with its id. -/
def collectKeys : KeyMap κ → List Jwk → Except JwtError (KeyMap κ)
  | next, [] => .ok next
  | next, jwk :: rest =>
    match signingKey lib jwk with
    | .error e => .error e
    | .ok none => collectKeys next rest
    | .ok (some key) => collectKeys (next.insert jwk.kid key) rest

def usableKeys (keys : List Jwk) : Except JwtError (KeyMap κ) :=
  match collectKeys lib ∅ keys with
  | .error e => .error e
  | .ok next => if next.keys = [] then .error .invalidJwks else .ok next

/-- Where the validation of a token stands: the next read, fetch or write. -/
inductive Proc (κ : Type)
  | arriving (token : List Char)
  | reading (token kid : List Char)
  | fetching (token kid : List Char)
  | writing (token kid : List Char) (next : KeyMap κ)
  | looking (token kid : List Char)
  | answered (token : List Char) (result : Except JwtError JwtClaims)
  | dropped

/-- `served` records every list of keys that the provider has answered with. -/
structure State (κ : Type) where
  keys : KeyMap κ
  procs : List (Proc κ)
  served : List (List Jwk)

def State.goto (s : State κ) (i : Nat) (p : Proc κ) : State κ := { s with procs := s.procs.set i p }

/-- The checks of the header, and the key that is at hand without the provider. -/
def arrive (now : Nat) (token : List Char) : Proc κ :=
  match lib.decodeHeader token with
  | none => .answered token (.error .invalidToken)
  | some header =>
    if header.alg ≠ v.algorithm then .answered token (.error .invalidToken)
    else
      match v.algorithm with
      | .hs512 =>
        match v.hmacKey with
        | none => .answered token (.error (.missingConfig "JWT_HMAC_SECRET".toList))
        | some key => .answered token (validateWith lib v now token key)
      | .rs256 =>
        match header.kid with
        | none => .answered token (.error .unknownKeyId)
        | some kid => .reading token kid
      | .other => .answered token (.error .invalidToken)

/-- The provider's answer: nothing where the request, its status or its body is no good. -/
def receive (token kid : List Char) : Option (List Jwk) → Proc κ
  | none => .answered token (.error .fetchJwks)
  | some keys =>
    match usableKeys lib keys with
    | .error e => .answered token (.error e)
    | .ok next => .writing token kid next

def advance (s : State κ) (i now : Nat) (reply : Option (List Jwk)) : Proc κ → Option (State κ)
  | .arriving token => some (s.goto i (arrive lib v now token))
  | .reading token kid =>
    match s.keys.lookup kid with
    | some key => some (s.goto i (.answered token (validateWith lib v now token key)))
    | none =>
      if v.jwksUrl = none then
        some (s.goto i (.answered token (.error (.missingConfig "JWT_JWKS_URL".toList))))
      else some (s.goto i (.fetching token kid))
  | .fetching token kid =>
    some ({ s with served := s.served ++ reply.toList }.goto i (receive lib token kid reply))
  | .writing token kid next => some ({ s with keys := next }.goto i (.looking token kid))
  | .looking token kid =>
    match s.keys.lookup kid with
    | some key => some (s.goto i (.answered token (validateWith lib v now token key)))
    | none => some (s.goto i (.answered token (.error .unknownKeyId)))
  | .answered _ _ => none
  | .dropped => none

inductive Act
  | request (token : List Char)
  | advance (i now : Nat) (reply : Option (List Jwk))
  | drop (i : Nat)

def step (s : State κ) : Act → Option (State κ)
  | .request token => some { s with procs := s.procs ++ [.arriving token] }
  | .advance i now reply => (s.procs[i]?).bind (advance lib v s i now reply)
  | .drop i =>
    match s.procs[i]? with
    | some (.answered _ _) => none
    | some _ => some (s.goto i .dropped)
    | none => none

end Validate

section Provenance

variable {κ : Type} {lib : Library κ} {v : JwtValidator κ} {s t : State κ} {i now : Nat}
  {p : Proc κ} {reply : Option (List Jwk)} {kid token : List Char} {key : κ}

/-- The list has a signature key with this id. -/
def Publishes (lib : Library κ) (keys : List Jwk) (kid : List Char) (key : κ) : Prop :=
  ∃ jwk ∈ keys, jwk.kid = kid ∧ signingKey lib jwk = .ok (some key)

theorem collectKeys_lookup {next found : KeyMap κ} {keys : List Jwk}
    (h : collectKeys lib next keys = .ok found) (hkey : found.lookup kid = some key) :
    next.lookup kid = some key ∨ Publishes lib keys kid key := by
  induction keys generalizing next with
  | nil =>
    cases h
    exact .inl hkey
  | cons jwk rest ih =>
    have hlater : Publishes lib rest kid key → Publishes lib (jwk :: rest) kid key := by
      rintro ⟨other, hmem, hother⟩
      exact ⟨other, List.mem_cons_of_mem _ hmem, hother⟩
    rw [collectKeys] at h
    split at h
    next => cases h
    next => exact (ih h).imp_right hlater
    next new hnew =>
      rcases ih h with hold | hrest
      · by_cases heq : kid = jwk.kid
        · subst heq
          rw [AList.lookup_insert] at hold
          cases Option.some.inj hold
          exact .inr ⟨jwk, List.mem_cons_self, rfl, hnew⟩
        · rw [AList.lookup_insert_ne heq] at hold
          exact .inl hold
      · exact .inr (hlater hrest)

theorem usableKeys_lookup {found : KeyMap κ} {keys : List Jwk}
    (h : usableKeys lib keys = .ok found) (hkey : found.lookup kid = some key) :
    Publishes lib keys kid key := by
  unfold usableKeys at h
  split at h
  next => cases h
  next next hnext =>
    split at h
    · cases h
    · cases h
      rcases collectKeys_lookup hnext hkey with hempty | hpublished
      · rw [AList.lookup_empty] at hempty
        cases hempty
      · exact hpublished

theorem signingKey_error {jwk : Jwk} {e : JwtError} (h : signingKey lib jwk = .error e) :
    e = .invalidJwks := by
  unfold signingKey at h
  split at h
  next => cases h
  next =>
    split at h
    next =>
      split at h
      next => cases h
      next =>
        cases h
        rfl
    next => cases h

theorem collectKeys_error {next : KeyMap κ} {keys : List Jwk} {e : JwtError}
    (h : collectKeys lib next keys = .error e) : e = .invalidJwks := by
  induction keys generalizing next with
  | nil => cases h
  | cons jwk rest ih =>
    rw [collectKeys] at h
    split at h
    next e' he =>
      cases h
      exact signingKey_error he
    next => exact ih h
    next => exact ih h

theorem usableKeys_error {keys : List Jwk} {e : JwtError} (h : usableKeys lib keys = .error e) :
    e = .invalidJwks := by
  unfold usableKeys at h
  split at h
  next e' he =>
    cases h
    exact collectKeys_error he
  next =>
    split at h
    · cases h
      rfl
    · cases h

/-- The header of the token names the algorithm of the service and this key id. -/
def Asks (lib : Library κ) (v : JwtValidator κ) (token kid : List Char) : Prop :=
  v.algorithm = .rs256 ∧ lib.decodeHeader token = some ⟨.rs256, some kid⟩

/-- The claims were read under a key that the service may trust: its own secret, or one that the
provider has served under the id that the token names. -/
def Vouched (lib : Library κ) (v : JwtValidator κ) (served : List (List Jwk)) (token : List Char)
    (claims : JwtClaims) : Prop :=
  ∃ key now, validateWith lib v now token key = .ok claims ∧
    ((v.algorithm = .hs512 ∧ v.hmacKey = some key ∧
        ∃ kid, lib.decodeHeader token = some ⟨.hs512, kid⟩) ∨
      ∃ kid, Asks lib v token kid ∧ ∃ keys ∈ served, Publishes lib keys kid key)

def Served (lib : Library κ) (served : List (List Jwk)) (map : KeyMap κ) : Prop :=
  ∀ kid key, map.lookup kid = some key → ∃ keys ∈ served, Publishes lib keys kid key

def Proc.Sourced (lib : Library κ) (v : JwtValidator κ) (served : List (List Jwk)) :
    Proc κ → Prop
  | reading token kid => Asks lib v token kid
  | fetching token kid => Asks lib v token kid
  | writing token kid next => Asks lib v token kid ∧ Served lib served next
  | looking token kid => Asks lib v token kid
  | answered token (.ok claims) => Vouched lib v served token claims
  | _ => True

structure Sourced (lib : Library κ) (v : JwtValidator κ) (s : State κ) : Prop where
  keys : Served lib s.served s.keys
  procs : ∀ p ∈ s.procs, p.Sourced lib v s.served

theorem Served.mono {served more : List (List Jwk)} {map : KeyMap κ}
    (h : Served lib served map) : Served lib (served ++ more) map := by
  intro kid key hkey
  obtain ⟨keys, hmem, hpublished⟩ := h kid key hkey
  exact ⟨keys, List.mem_append_left _ hmem, hpublished⟩

theorem Proc.Sourced.mono {served more : List (List Jwk)} (h : p.Sourced lib v served) :
    p.Sourced lib v (served ++ more) := by
  cases p with
  | writing token kid next => exact ⟨h.1, h.2.mono⟩
  | answered token result =>
    cases result with
    | ok claims =>
      obtain ⟨key, now, hvalid, htrust⟩ := h
      refine ⟨key, now, hvalid, htrust.imp_right ?_⟩
      rintro ⟨kid, hasks, keys, hmem, hpublished⟩
      exact ⟨kid, hasks, keys, List.mem_append_left _ hmem, hpublished⟩
    | error e => trivial
  | _ => exact h

theorem Sourced.goto (h : Sourced lib v s) (hp : p.Sourced lib v s.served) :
    Sourced lib v (s.goto i p) := by
  refine ⟨h.keys, fun q hq => ?_⟩
  rcases List.mem_or_eq_of_mem_set hq with hq | rfl
  · exact h.procs q hq
  · exact hp

theorem answered_sourced {served : List (List Jwk)} (hasks : Asks lib v token kid)
    (hkey : ∃ keys ∈ served, Publishes lib keys kid key) :
    (Proc.answered token (validateWith lib v now token key)).Sourced lib v served := by
  cases hresult : validateWith lib v now token key with
  | ok claims => exact ⟨key, now, hresult, .inr ⟨kid, hasks, hkey⟩⟩
  | error e => trivial

theorem arrive_sourced {served : List (List Jwk)} :
    (arrive lib v now token).Sourced lib v served := by
  unfold arrive
  split
  next => trivial
  next header hheader =>
    split
    next => trivial
    next halg =>
      obtain ⟨alg, headerKid⟩ := header
      obtain rfl : alg = v.algorithm := not_not.mp halg
      split
      next hhs =>
        split
        next => trivial
        next key hkey =>
          cases hresult : validateWith lib v now token key with
          | ok claims =>
            rw [hhs] at hheader
            exact ⟨key, now, hresult, .inl ⟨hhs, hkey, headerKid, hheader⟩⟩
          | error e => trivial
      next hrs =>
        cases headerKid with
        | none => trivial
        | some kid =>
          rw [hrs] at hheader
          exact ⟨hrs, hheader⟩
      next => trivial

theorem receive_sourced {served : List (List Jwk)} (hasks : Asks lib v token kid) :
    (receive lib token kid reply).Sourced lib v (served ++ reply.toList) := by
  cases reply with
  | none => trivial
  | some keys =>
    simp only [receive]
    split
    next => trivial
    next next hnext =>
      refine ⟨hasks, fun kid key hkey => ⟨keys, ?_, usableKeys_lookup hnext hkey⟩⟩
      exact List.mem_append_right _ (List.mem_singleton_self keys)

theorem advance_sourced (h : Sourced lib v s) (hp : p.Sourced lib v s.served)
    (hs : advance lib v s i now reply p = some t) : Sourced lib v t := by
  cases p with
  | arriving token =>
    cases Option.some.inj hs
    exact h.goto arrive_sourced
  | reading token kid =>
    simp only [advance] at hs
    split at hs
    next key hkey =>
      cases Option.some.inj hs
      exact h.goto (answered_sourced hp (h.keys kid key hkey))
    next =>
      split at hs
      · cases Option.some.inj hs
        exact h.goto trivial
      · cases Option.some.inj hs
        exact h.goto hp
  | fetching token kid =>
    cases Option.some.inj hs
    have hmore : Sourced lib v { s with served := s.served ++ reply.toList } :=
      ⟨h.keys.mono, fun q hq => (h.procs q hq).mono⟩
    exact hmore.goto (receive_sourced hp)
  | writing token kid next =>
    cases Option.some.inj hs
    have hwritten : Sourced lib v { s with keys := next } := ⟨hp.2, h.procs⟩
    exact hwritten.goto hp.1
  | looking token kid =>
    simp only [advance] at hs
    split at hs
    next key hkey =>
      cases Option.some.inj hs
      exact h.goto (answered_sourced hp (h.keys kid key hkey))
    next =>
      cases Option.some.inj hs
      exact h.goto trivial
  | answered token result => cases hs
  | dropped => cases hs

theorem step_sourced {a : Act} (h : Sourced lib v s) (hs : step lib v s a = some t) :
    Sourced lib v t := by
  cases a with
  | request token =>
    cases Option.some.inj hs
    refine ⟨h.keys, fun q hq => ?_⟩
    rcases List.mem_append.mp hq with hq | hq
    · exact h.procs q hq
    · rw [List.mem_singleton.mp hq]
      trivial
  | advance i now reply =>
    obtain ⟨p, hp, hs⟩ := Option.bind_eq_some_iff.mp hs
    exact advance_sourced h (h.procs p (List.mem_of_getElem? hp)) hs
  | drop i =>
    simp only [step] at hs
    split at hs
    next => cases hs
    next =>
      cases Option.some.inj hs
      exact h.goto trivial
    next => cases hs

/-- A service that has just started. -/
def Started (s : State κ) : Prop := s = ⟨∅, [], []⟩

/-- Whatever requests and refreshes run beside one another, and whenever the provider changes its
keys: a token is accepted only with the algorithm of the service, and under the service's own secret
or a key that the provider has served under the id that the token names. -/
theorem accepted_tokens_are_vouched_for
    (h : Transition.Reach Started (step lib v) Transition.anyStep s) {claims : JwtClaims}
    (ha : .answered token (.ok claims) ∈ s.procs) : Vouched lib v s.served token claims := by
  have hsourced : Sourced lib v s := by
    refine h.invariant (fun s hs => ?_) fun s t a hs _ hstep => step_sourced hs hstep
    rw [hs]
    refine ⟨fun kid key hkey => ?_, fun p hp => absurd hp List.not_mem_nil⟩
    rw [AList.lookup_empty] at hkey
    cases hkey
  exact hsourced.procs _ ha

end Provenance

section Settled

variable {κ : Type} {lib : Library κ} {v : JwtValidator κ} {s t : State κ} {i now : Nat}
  {p : Proc κ} {reply : Option (List Jwk)} {kid token : List Char} {found : Option κ}

/-- How a request may end when the provider has this key, or none, under the id. -/
def Outcome (lib : Library κ) (v : JwtValidator κ) (found : Option κ) (token : List Char)
    (result : Except JwtError JwtClaims) : Prop :=
  result = .error .fetchJwks ∨ result = .error .invalidJwks ∨
    result = .error (.missingConfig "JWT_JWKS_URL".toList) ∨
    match found with
    | some key => ∃ now, result = validateWith lib v now token key
    | none => result = .error .unknownKeyId

/-- A request whose token names the id: what it holds or has answered fits what the provider has. -/
def Proc.Settled (lib : Library κ) (v : JwtValidator κ) (kid : List Char) (found : Option κ)
    (keys : KeyMap κ) : Proc κ → Prop
  | reading token other => Asks lib v token other
  | fetching token other => Asks lib v token other
  | writing token other next => Asks lib v token other ∧ next.lookup kid = found
  | looking token other => Asks lib v token other ∧ (other = kid → keys.lookup kid = found)
  | answered token result => Asks lib v token kid → Outcome lib v found token result
  | _ => True

/-- No list with another key is in the cache or on its way there. -/
structure Settled (lib : Library κ) (v : JwtValidator κ) (kid : List Char) (found : Option κ)
    (s : State κ) : Prop where
  keys : s.keys.lookup kid = none ∨ s.keys.lookup kid = found
  procs : ∀ p ∈ s.procs, p.Settled lib v kid found s.keys

/-- What the provider answers from now on has this key, or none, under the id. -/
def Serves (lib : Library κ) (kid : List Char) (found : Option κ) (_ : State κ) : Act → Prop
  | .advance _ _ (some keys) => ∀ next, usableKeys lib keys = .ok next → next.lookup kid = found
  | _ => True

theorem Settled.goto (h : Settled lib v kid found s) (hp : p.Settled lib v kid found s.keys) :
    Settled lib v kid found (s.goto i p) := by
  refine ⟨h.keys, fun q hq => ?_⟩
  rcases List.mem_or_eq_of_mem_set hq with hq | rfl
  · exact h.procs q hq
  · exact hp

/-- Answers about tokens that name another id say nothing here. -/
theorem answered_settled {other : List Char} {result : Except JwtError JwtClaims}
    {keys : KeyMap κ} (hasks : Asks lib v token other)
    (hresult : other = kid → Outcome lib v found token result) :
    (Proc.answered token result).Settled lib v kid found keys := by
  intro hkid
  have hsame := hasks.2.symm.trans hkid.2
  cases hsame
  exact hresult rfl

theorem outcome_of_key {key : κ} (hkey : some key = found) :
    Outcome lib v found token (validateWith lib v now token key) := by
  subst hkey
  exact .inr (.inr (.inr ⟨now, rfl⟩))

theorem arrive_settled {keys : KeyMap κ} :
    (arrive lib v now token).Settled lib v kid found keys := by
  unfold arrive
  split
  next hheader =>
    rintro ⟨-, hasked⟩
    cases hheader.symm.trans hasked
  next header hheader =>
    split
    next halg =>
      rintro ⟨hrs, hasked⟩
      cases hheader.symm.trans hasked
      exact absurd hrs.symm halg
    next halg =>
      obtain ⟨alg, headerKid⟩ := header
      obtain rfl : alg = v.algorithm := not_not.mp halg
      split
      next hhs =>
        split
        all_goals
          rintro ⟨hrs, -⟩
          cases hhs.symm.trans hrs
      next hrs =>
        cases headerKid with
        | none =>
          rintro ⟨-, hasked⟩
          cases (Header.mk.inj (Option.some.inj (hheader.symm.trans hasked))).2
        | some other =>
          rw [hrs] at hheader
          exact ⟨hrs, hheader⟩
      next hother =>
        rintro ⟨hrs, -⟩
        cases hother.symm.trans hrs

/-- Another write leaves what a request looks for as it is. -/
theorem Proc.Settled.write {keys next : KeyMap κ} (h : p.Settled lib v kid found keys)
    (hnext : next.lookup kid = found) : p.Settled lib v kid found next := by
  cases p with
  | looking token other => exact ⟨h.1, fun _ => hnext⟩
  | _ => exact h

theorem advance_settled (h : Settled lib v kid found s) (hp : p.Settled lib v kid found s.keys)
    (hserves : ∀ keys, reply = some keys → ∀ next, usableKeys lib keys = .ok next →
      next.lookup kid = found)
    (hs : advance lib v s i now reply p = some t) : Settled lib v kid found t := by
  cases p with
  | arriving token =>
    cases Option.some.inj hs
    exact h.goto arrive_settled
  | reading token other =>
    simp only [advance] at hs
    split at hs
    next key hkey =>
      cases Option.some.inj hs
      refine h.goto (answered_settled hp fun heq => outcome_of_key ?_)
      subst heq
      rcases h.keys with hnone | hfound
      · rw [hkey] at hnone
        cases hnone
      · exact hkey.symm.trans hfound
    next =>
      split at hs
      · cases Option.some.inj hs
        exact h.goto (answered_settled hp fun _ => .inr (.inr (.inl rfl)))
      · cases Option.some.inj hs
        exact h.goto hp
  | fetching token other =>
    cases Option.some.inj hs
    refine Settled.goto ⟨h.keys, h.procs⟩ ?_
    cases reply with
    | none => exact answered_settled hp fun _ => .inl rfl
    | some keys =>
      simp only [receive]
      split
      next e he =>
        refine answered_settled hp fun _ => .inr (.inl ?_)
        rw [usableKeys_error he]
      next next hnext => exact ⟨hp, hserves keys rfl next hnext⟩
  | writing token other next =>
    cases Option.some.inj hs
    have hwritten : Settled lib v kid found { s with keys := next } :=
      ⟨.inr hp.2, fun q hq => (h.procs q hq).write hp.2⟩
    exact hwritten.goto ⟨hp.1, fun _ => hp.2⟩
  | looking token other =>
    simp only [advance] at hs
    split at hs
    next key hkey =>
      cases Option.some.inj hs
      refine h.goto (answered_settled hp.1 fun heq => outcome_of_key ?_)
      subst heq
      exact hkey.symm.trans (hp.2 rfl)
    next hnone =>
      cases Option.some.inj hs
      refine h.goto (answered_settled hp.1 fun heq => ?_)
      subst heq
      have hfound : found = none := (hp.2 rfl).symm.trans hnone
      subst hfound
      exact .inr (.inr (.inr rfl))
  | answered token result => cases hs
  | dropped => cases hs

theorem step_settled {a : Act} (h : Settled lib v kid found s) (ha : Serves lib kid found s a)
    (hs : step lib v s a = some t) : Settled lib v kid found t := by
  cases a with
  | request token =>
    cases Option.some.inj hs
    refine ⟨h.keys, fun q hq => ?_⟩
    rcases List.mem_append.mp hq with hq | hq
    · exact h.procs q hq
    · rw [List.mem_singleton.mp hq]
      trivial
  | advance i now reply =>
    obtain ⟨p, hp, hs⟩ := Option.bind_eq_some_iff.mp hs
    refine advance_settled h (h.procs p (List.mem_of_getElem? hp)) ?_ hs
    rintro keys rfl
    exact ha
  | drop i =>
    simp only [step] at hs
    split at hs
    next => cases hs
    next =>
      cases Option.some.inj hs
      exact h.goto trivial
    next => cases hs

/-- The cache has no key of this id but the one that the provider has. Requests may be under way,
but a list that one of them has fetched has the id as the provider has it, and so has the cache
where one of them is about to look for the id after its refresh. -/
structure Rotated (lib : Library κ) (v : JwtValidator κ) (kid : List Char) (found : Option κ)
    (s : State κ) : Prop where
  keys : s.keys.lookup kid = none ∨ s.keys.lookup kid = found
  procs : ∀ p ∈ s.procs, p = .dropped ∨ (∃ token, p = .arriving token) ∨
    ∃ token other, Asks lib v token other ∧
      (p = .reading token other ∨ p = .fetching token other ∨
        (∃ next, p = .writing token other next ∧ next.lookup kid = found) ∨
        p = .looking token other ∧ (other = kid → s.keys.lookup kid = found))

/-- Once the provider has a key under an id, or none, and no list that has the id otherwise is in
the cache or on its way, every token that names the id is judged by that key, or is refused: no
order of requests and refreshes brings an old key back or loses the new one. -/
theorem rotated_key_decides
    (h : Transition.Reach (Rotated lib v kid found) (step lib v) (Serves lib kid found) s)
    {result : Except JwtError JwtClaims} (ha : .answered token result ∈ s.procs)
    (hasks : Asks lib v token kid) : Outcome lib v found token result := by
  have hsettled : Settled lib v kid found s := by
    refine h.invariant (fun s hs => ⟨hs.keys, fun p hp => ?_⟩) fun s t a hs ho hstep =>
      step_settled hs ho hstep
    rcases hs.procs p hp with rfl | ⟨token, rfl⟩ | ⟨token, other, hasks, hstage⟩
    · trivial
    · trivial
    · rcases hstage with rfl | rfl | ⟨next, rfl, hnext⟩ | ⟨rfl, hkeys⟩
      · exact hasks
      · exact hasks
      · exact ⟨hasks, hnext⟩
      · exact ⟨hasks, hkeys⟩
  exact hsettled.procs _ ha hasks

end Settled

section Sample

/-- Keys are their names, and a token is read under any of them. -/
def plainLibrary : Library (List Char) where
  decodeHeader token := some ⟨.rs256, some token⟩
  fromRsaComponents n _ := some n
  decode _ token key _ :=
    if token = key then some (.object [("sub".toList, .string ['u'])]) else none

def rsaValidator : JwtValidator (List Char) :=
  ⟨.rs256, some ['i'], none, false, "sub".toList, some ['j'], none⟩

def rsaKey (kid : List Char) (n : List Char) : Jwk :=
  ⟨kid, "RSA".toList, none, some n, some ['e']⟩

def userClaims : JwtClaims := ⟨['u'], none, false, none, []⟩

/-- One token finds its key after a refresh, another is refused. -/
def refreshAndRefuse : List Act :=
  [.request ['a'], .advance 0 0 none, .advance 0 0 none,
    .advance 0 0 (some [rsaKey ['a'] ['a']]), .advance 0 0 none, .advance 0 5 none,
    .request ['b'], .advance 1 5 none, .advance 1 5 none,
    .advance 1 5 (some [rsaKey ['a'] ['a']]), .advance 1 5 none, .advance 1 6 none]

def refreshed : State (List Char) where
  keys := (∅ : KeyMap (List Char)).insert ['a'] ['a']
  procs := [.answered ['a'] (.ok userClaims), .answered ['b'] (.error .unknownKeyId)]
  served := [[rsaKey ['a'] ['a']], [rsaKey ['a'] ['a']]]

theorem refreshAndRefuse_run :
    Transition.run (step plainLibrary rsaValidator) ⟨∅, [], []⟩ refreshAndRefuse =
      some refreshed := by
  rfl

theorem accepted_tokens_are_vouched_for_refreshed :
    Vouched plainLibrary rsaValidator refreshed.served ['a'] userClaims :=
  accepted_tokens_are_vouched_for (.of_free_run rfl refreshAndRefuse_run) List.mem_cons_self

/-- The provider has withdrawn one key and serves only the other. -/
theorem rotated_key_decides_withdrawn :
    Outcome plainLibrary rsaValidator none ['b'] (.error .unknownKeyId) := by
  have hserved : ∀ next, usableKeys plainLibrary [rsaKey ['a'] ['a']] = .ok next →
      next.lookup ['b'] = none := by
    intro next h
    cases h
    rfl
  have hmeets : Transition.Meets (step plainLibrary rsaValidator)
      (Serves plainLibrary ['b'] none) ⟨∅, [], []⟩ refreshAndRefuse := by
    repeat' first
      | exact trivial
      | exact hserved
      | refine .cons ?_ rfl ?_
  have hstart : Rotated plainLibrary rsaValidator ['b'] none ⟨∅, [], []⟩ :=
    ⟨.inl rfl, fun p hp => absurd hp List.not_mem_nil⟩
  exact rotated_key_decides (.of_run (.start hstart) hmeets refreshAndRefuse_run)
    (List.mem_cons_of_mem _ List.mem_cons_self) ⟨rfl, rfl⟩

end Sample

end GmragApi.Jwt

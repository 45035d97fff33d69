import GmragApi.Lowercase
import GmragApi.ProcessPool
import GmragApi.Text
import GmragApi.Transition

/-! The client of the identity provider's admin API: what it accepts of a user, and the access token
that all its calls share. -/

namespace GmragApi.Keycloak

open Lowercase (CaseTables)

structure KeycloakUser where
  id : List Char
  email : Option (List Char)
  emailVerified : Option Bool
  enabled : Option Bool
  deriving DecidableEq

def normalizeEmail (tables : CaseTables) (email : List Char) : List Char :=
  tables.toLowercase (trim email)

def KeycloakUser.verified (user : KeycloakUser) : Bool :=
  user.emailVerified.getD false && user.enabled.getD true

def KeycloakUser.hasEmail (user : KeycloakUser) (tables : CaseTables) (email : List Char) : Bool :=
  user.email.any fun returnedEmail =>
    normalizeEmail tables returnedEmail == normalizeEmail tables email

/-- The end of `get_verified_user_by_email`, with the accounts in hand. -/
def verifiedUserByEmail (tables : CaseTables) (users : List KeycloakUser) (email : List Char) :
    Option KeycloakUser :=
  users.find? fun user => user.verified && user.hasEmail tables email

/-- The end of `get_verified_user_by_id`. -/
def verifiedUserById (user : Option KeycloakUser) : Option KeycloakUser :=
  user.filter KeycloakUser.verified

def normalizedEmailCount (tables : CaseTables) (users : List KeycloakUser) (email : List Char) :
    Nat :=
  (users.filter fun user => user.hasEmail tables email).length

/-- Instants count nanoseconds. -/
def second : Nat := 1000000000

def expiryMarginSecs : Nat := 10

structure TokenResponse where
  accessToken : List Char
  expiresIn : Nat
  deriving DecidableEq

/-- A token that the provider issued, with the times of the request for it. -/
structure Grant where
  response : TokenResponse
  askedAt : Nat
  issuedAt : Nat
  receivedAt : Nat
  deriving DecidableEq

/-- When the cache gives the token up. -/
def Grant.deadline (g : Grant) : Nat :=
  g.receivedAt + (g.response.expiresIn - expiryMarginSecs) * second

/-- When the provider gives the token up. -/
def Grant.validUntil (g : Grant) : Nat := g.issuedAt + g.response.expiresIn * second

/-- Where a call of `get_token` stands: before the read lock, before the write lock, or with a
request out under the write lock. -/
inductive Proc
  | reading
  | waiting
  | fetching (askedAt : Nat)
  | answered (token : List Char) (time : Nat)
  | failed
  | dropped
  deriving DecidableEq

/-- `issued` records every token that was stored. -/
structure State where
  now : Nat
  tokenCache : Option (List Char × Nat)
  writer : Option Nat
  procs : List Proc
  issued : List Grant

def State.goto (s : State) (i : Nat) (p : Proc) : State := { s with procs := s.procs.set i p }

def State.cachedToken (s : State) : Option (List Char) :=
  s.tokenCache.bind fun entry => if s.now < entry.2 then some entry.1 else none

def State.store (s : State) (g : Grant) : State :=
  { s with
    tokenCache := some (g.response.accessToken, g.deadline)
    writer := none
    issued := s.issued ++ [g] }

/-- Each lock is taken when no writer holds it; what the read lock guards is done at once. -/
def advance (s : State) (i : Nat) (reply : Option (TokenResponse × Nat)) : Proc → Option State
  | .reading =>
    if s.writer ≠ none then none
    else match s.cachedToken with
      | some token => some (s.goto i (.answered token s.now))
      | none => some (s.goto i .waiting)
  | .waiting =>
    if s.writer ≠ none then none
    else match s.cachedToken with
      | some token => some (s.goto i (.answered token s.now))
      | none => some ({ s with writer := some i }.goto i (.fetching s.now))
  | .fetching askedAt =>
    match reply with
    | none => some ({ s with writer := none }.goto i .failed)
    | some (response, issuedAt) =>
      if askedAt ≤ issuedAt ∧ issuedAt ≤ s.now then
        some ((s.store ⟨response, askedAt, issuedAt, s.now⟩).goto i
          (.answered response.accessToken s.now))
      else none
  | _ => none

inductive Act
  | getToken
  | tick (duration : Nat)
  | advance (i : Nat) (reply : Option (TokenResponse × Nat))
  | drop (i : Nat)

def Proc.running : Proc → Bool
  | reading => true
  | waiting => true
  | fetching _ => true
  | _ => false

/-- A call that is dropped lets go of the lock. -/
def drop (s : State) (i : Nat) (p : Proc) : Option State :=
  if p.running then
    some ({ s with writer := if s.writer = some i then none else s.writer }.goto i .dropped)
  else none

def step (s : State) : Act → Option State
  | .getToken => some { s with procs := s.procs ++ [.reading] }
  | .tick duration => some { s with now := s.now + duration }
  | .advance i reply => (s.procs[i]?).bind (advance s i reply)
  | .drop i => (s.procs[i]?).bind (drop s i)

def Started (s : State) : Prop := s.tokenCache = none ∧ s.writer = none ∧ s.procs = [] ∧ s.issued = []

section Fetches

variable {s t : State} {i : Nat} {p : Proc} {reply : Option (TokenResponse × Nat)}

/-- Requests for tokens come one after the other, each when no token that was stored before it is
still taken for good. -/
structure Sequential (s : State) : Prop where
  writer : ∀ (i askedAt : Nat), s.procs[i]? = some (.fetching askedAt) → s.writer = some i
  asked : ∀ (i askedAt : Nat), s.procs[i]? = some (.fetching askedAt) →
    askedAt ≤ s.now ∧ ∀ g ∈ s.issued, g.deadline ≤ askedAt
  cached : ∀ g ∈ s.issued, s.now < g.deadline →
    s.tokenCache = some (g.response.accessToken, g.deadline)
  issued : s.issued.Pairwise fun g later => g.deadline ≤ later.askedAt

theorem cachedToken_none (h : Sequential s) (hnone : s.cachedToken = none) :
    ∀ g ∈ s.issued, g.deadline ≤ s.now := by
  intro g hg
  by_contra hlt
  have hlive : s.now < g.deadline := by omega
  have hcache := h.cached g hg hlive
  rw [State.cachedToken, hcache, Option.bind_some, if_pos hlive] at hnone
  cases hnone

/-- A call that sends no request and holds no lock. -/
theorem Sequential.goto (h : Sequential s) (hp : s.procs[i]? = some p)
    (hq : ∀ askedAt, (q : Proc) ≠ .fetching askedAt) : Sequential (s.goto i q) := by
  have hback : ∀ (j askedAt : Nat), (s.procs.set i q)[j]? = some (.fetching askedAt) →
      s.procs[j]? = some (.fetching askedAt) := by
    intro j askedAt hj
    rcases (ProcessPool.getElem?_set_iff hp).mp hj with ⟨-, heq⟩ | ⟨-, hj⟩
    · exact absurd heq.symm (hq askedAt)
    · exact hj
  exact ⟨fun j askedAt hj => h.writer j askedAt (hback j askedAt hj),
    fun j askedAt hj => h.asked j askedAt (hback j askedAt hj), h.cached, h.issued⟩

/-- The call that holds the lock lets go of it. -/
theorem Sequential.release (h : Sequential s) (hp : s.procs[i]? = some p)
    (hwriter : s.writer = some i) (hq : ∀ askedAt, (q : Proc) ≠ .fetching askedAt) :
    Sequential ({ s with writer := none }.goto i q) ∧
      ∀ (j askedAt : Nat), (s.procs.set i q)[j]? ≠ some (.fetching askedAt) := by
  have hidle : ∀ (j askedAt : Nat), (s.procs.set i q)[j]? ≠ some (.fetching askedAt) := by
    intro j askedAt hj
    rcases (ProcessPool.getElem?_set_iff hp).mp hj with ⟨-, heq⟩ | ⟨hne, hj⟩
    · exact hq askedAt heq.symm
    · have hown := h.writer j askedAt hj
      rw [hwriter] at hown
      exact hne (Option.some.inj hown).symm
  refine ⟨⟨fun j askedAt hj => absurd hj (hidle j askedAt),
    fun j askedAt hj => absurd hj (hidle j askedAt), h.cached, h.issued⟩, hidle⟩

theorem Sequential.fetch (h : Sequential s) (hp : s.procs[i]? = some p) (hwriter : s.writer = none)
    (hnone : s.cachedToken = none) :
    Sequential ({ s with writer := some i }.goto i (.fetching s.now)) := by
  have hown : ∀ (j askedAt : Nat),
      (s.procs.set i (.fetching s.now))[j]? = some (.fetching askedAt) →
        j = i ∧ askedAt = s.now := by
    intro j askedAt hj
    rcases (ProcessPool.getElem?_set_iff hp).mp hj with ⟨rfl, heq⟩ | ⟨-, hj⟩
    · exact ⟨rfl, Proc.fetching.inj heq⟩
    · have hother := h.writer j askedAt hj
      rw [hwriter] at hother
      cases hother
  refine ⟨fun j askedAt hj => ?_, fun j askedAt hj => ?_, h.cached, h.issued⟩
  · obtain ⟨rfl, -⟩ := hown j askedAt hj
    rfl
  · obtain ⟨-, rfl⟩ := hown j askedAt hj
    have hold := cachedToken_none h hnone
    exact ⟨Nat.le_refl _, hold⟩

theorem Sequential.store {g : Grant} (h : Sequential s)
    (hp : s.procs[i]? = some (.fetching g.askedAt))
    (hq : ∀ askedAt, (q : Proc) ≠ .fetching askedAt) : Sequential ((s.store g).goto i q) := by
  obtain ⟨hasked, hold⟩ := h.asked i g.askedAt hp
  obtain ⟨-, hidle⟩ := h.release hp (h.writer i g.askedAt hp) hq
  refine ⟨fun j askedAt hj => absurd hj (hidle j askedAt),
    fun j askedAt hj => absurd hj (hidle j askedAt), fun g' hg' hlive => ?_, ?_⟩
  · rcases List.mem_append.mp hg' with hg' | hg'
    · have hgone := hold g' hg'
      have hlive : s.now < g'.deadline := hlive
      omega
    · rw [List.mem_singleton.mp hg']
      rfl
  · refine List.pairwise_append.mpr ⟨h.issued, List.pairwise_singleton _ _, ?_⟩
    intro g' hg' later hlater
    rw [List.mem_singleton.mp hlater]
    exact hold g' hg'

theorem advance_sequential (h : Sequential s) (hp : s.procs[i]? = some p)
    (hs : advance s i reply p = some t) : Sequential t := by
  cases p with
  | reading =>
    simp only [advance] at hs
    split at hs
    next => cases hs
    next =>
      split at hs
      all_goals
        cases Option.some.inj hs
        exact h.goto hp fun askedAt heq => by cases heq
  | waiting =>
    simp only [advance] at hs
    split at hs
    next => cases hs
    next hwriter =>
      split at hs
      next =>
        cases Option.some.inj hs
        exact h.goto hp fun askedAt heq => by cases heq
      next hnone =>
        cases Option.some.inj hs
        exact h.fetch hp (not_not.mp hwriter) hnone
  | fetching askedAt =>
    simp only [advance] at hs
    split at hs
    next =>
      cases Option.some.inj hs
      exact (h.release hp (h.writer i askedAt hp) fun _ heq => by cases heq).1
    next response issuedAt =>
      obtain ⟨-, hs⟩ := Option.ite_none_right_eq_some.mp hs
      cases Option.some.inj hs
      exact h.store hp fun _ heq => by cases heq
  | _ => cases hs

theorem drop_sequential (h : Sequential s) (hp : s.procs[i]? = some p)
    (hs : drop s i p = some t) : Sequential t := by
  obtain ⟨-, hs⟩ := Option.ite_none_right_eq_some.mp hs
  cases Option.some.inj hs
  by_cases hwriter : s.writer = some i
  · rw [if_pos hwriter]
    exact (h.release hp hwriter fun _ heq => by cases heq).1
  · rw [if_neg hwriter]
    exact h.goto hp fun _ heq => by cases heq

theorem step_sequential {a : Act} (h : Sequential s) (hs : step s a = some t) : Sequential t := by
  cases a with
  | getToken =>
    cases Option.some.inj hs
    have hback : ∀ (j askedAt : Nat), (s.procs ++ [Proc.reading])[j]? = some (.fetching askedAt) →
        s.procs[j]? = some (.fetching askedAt) := by
      intro j askedAt hj
      rcases ProcessPool.getElem?_push_iff.mp hj with hj | ⟨-, heq⟩
      · exact hj
      · cases heq
    exact ⟨fun j askedAt hj => h.writer j askedAt (hback j askedAt hj),
      fun j askedAt hj => h.asked j askedAt (hback j askedAt hj), h.cached, h.issued⟩
  | tick duration =>
    cases Option.some.inj hs
    refine ⟨h.writer, fun j askedAt hj => ?_, fun g hg hlive => h.cached g hg ?_, h.issued⟩
    · obtain ⟨hle, hold⟩ := h.asked j askedAt hj
      exact ⟨Nat.le_add_right_of_le hle, hold⟩
    · have hlive : s.now + duration < g.deadline := hlive
      omega
  | advance i reply =>
    obtain ⟨p, hp, hs⟩ := Option.bind_eq_some_iff.mp hs
    exact advance_sequential h hp hs
  | drop i =>
    obtain ⟨p, hp, hs⟩ := Option.bind_eq_some_iff.mp hs
    exact drop_sequential h hp hs

/-- However many calls run beside one another, and whichever fail or are dropped: two requests for
a token are never out at once, and none is sent while a token that was stored before is still good
by its deadline. -/
theorem token_requests_sequential (h : Transition.Reach Started step Transition.anyStep s) :
    (∀ i j since since' : Nat, s.procs[i]? = some (.fetching since) →
      s.procs[j]? = some (.fetching since') → i = j) ∧
    (∀ i since : Nat, s.procs[i]? = some (.fetching since) →
      ∀ g ∈ s.issued, g.deadline ≤ since) ∧
    s.issued.Pairwise fun g later => g.deadline ≤ later.askedAt := by
  have hs : Sequential s := by
    refine h.invariant (fun s hs => ?_) fun s t a hs _ hstep => step_sequential hs hstep
    obtain ⟨-, -, hprocs, hissued⟩ := hs
    constructor <;> simp [hprocs, hissued]
  refine ⟨fun i j since since' hi hj => ?_, fun i since hi => (hs.asked i since hi).2, hs.issued⟩
  have hwriter := hs.writer i since hi
  have hother := hs.writer j since' hj
  rw [hwriter] at hother
  exact Option.some.inj hother

end Fetches

section Validity

variable {s t : State} {i : Nat} {p : Proc} {reply : Option (TokenResponse × Nat)}

/-- An answer with a token comes within the margin. -/
def Prompt (s : State) : Act → Prop
  | .advance _ (some (_, issuedAt)) => s.now ≤ issuedAt + expiryMarginSecs * second
  | _ => True

/-- The provider takes the token at that time. -/
def Grant.ValidAt (g : Grant) (time : Nat) : Prop := g.issuedAt ≤ time ∧ time < g.validUntil

/-- A token whose whole lifetime lies within the margin may have run out on the way; it is never
kept, so this is the time of its arrival. -/
def Grant.ReturnedWell (g : Grant) (time : Nat) : Prop :=
  g.ValidAt time ∨ g.response.expiresIn ≤ expiryMarginSecs ∧ time = g.receivedAt

structure Valid (s : State) : Prop where
  received : ∀ g ∈ s.issued, g.issuedAt ≤ g.receivedAt ∧ g.receivedAt ≤ s.now ∧
    g.receivedAt ≤ g.issuedAt + expiryMarginSecs * second
  cached : ∀ token expiry, s.tokenCache = some (token, expiry) →
    ∃ g ∈ s.issued, g.response.accessToken = token ∧ g.deadline = expiry
  answered : ∀ token time, .answered token time ∈ s.procs →
    ∃ g ∈ s.issued, g.response.accessToken = token ∧ g.ReturnedWell time

/-- What is left of a lifetime after the margin ends before the lifetime, when no more than the
margin was spent on the way. -/
theorem margin_covers {unit margin lifetime issued received now : Nat}
    (hspent : received ≤ issued + margin * unit) (hpast : received ≤ now)
    (hlive : now < received + (lifetime - margin) * unit) : now < issued + lifetime * unit := by
  have hpositive : 0 < lifetime - margin := by
    by_contra hzero
    have hzero : lifetime - margin = 0 := by omega
    rw [hzero, Nat.zero_mul] at hlive
    omega
  have hsplit : lifetime * unit = (lifetime - margin) * unit + margin * unit := by
    rw [← Nat.add_mul]
    exact congrArg (· * unit) (by omega)
  omega

theorem cachedToken_valid {token : List Char} (h : Valid s) (hcached : s.cachedToken = some token) :
    ∃ g ∈ s.issued, g.response.accessToken = token ∧ g.ValidAt s.now := by
  obtain ⟨⟨stored, expiry⟩, hcache, hread⟩ := Option.bind_eq_some_iff.mp hcached
  obtain ⟨hearly, htoken⟩ := Option.ite_none_right_eq_some.mp hread
  cases Option.some.inj htoken
  obtain ⟨g, hg, htoken, hdeadline⟩ := h.cached stored expiry hcache
  obtain ⟨hissued, hreceived, hspent⟩ := h.received g hg
  have hlive : s.now < g.deadline := hdeadline ▸ hearly
  exact ⟨g, hg, htoken, Nat.le_trans hissued hreceived, margin_covers hspent hreceived hlive⟩

/-- A lifetime beyond the margin outlasts a prompt answer. -/
theorem Grant.returnedWell_received {g : Grant} (hissued : g.issuedAt ≤ g.receivedAt)
    (hspent : g.receivedAt ≤ g.issuedAt + expiryMarginSecs * second) :
    g.ReturnedWell g.receivedAt := by
  by_cases hshort : g.response.expiresIn ≤ expiryMarginSecs
  · exact .inr ⟨hshort, rfl⟩
  · have hlonger : expiryMarginSecs * second < g.response.expiresIn * second :=
      Nat.mul_lt_mul_of_pos_right (Nat.lt_of_not_le hshort) (by decide)
    exact .inl ⟨hissued, Nat.lt_of_le_of_lt hspent (Nat.add_lt_add_left hlonger _)⟩

theorem Valid.goto (h : Valid s) (hq : ∀ token time, p = .answered token time →
    ∃ g ∈ s.issued, g.response.accessToken = token ∧ g.ReturnedWell time) :
    Valid (s.goto i p) := by
  refine ⟨h.received, h.cached, fun token time hmem => ?_⟩
  rcases List.mem_or_eq_of_mem_set hmem with hmem | heq
  · exact h.answered token time hmem
  · exact hq token time heq.symm

theorem Valid.store {g : Grant} (h : Valid s) (hissued : g.issuedAt ≤ g.receivedAt)
    (hnow : g.receivedAt = s.now) (hspent : s.now ≤ g.issuedAt + expiryMarginSecs * second) :
    Valid (s.store g) := by
  refine ⟨fun g' hg' => ?_, fun token expiry hcache => ?_, fun token time hmem => ?_⟩
  · rcases List.mem_append.mp hg' with hg' | hg'
    · exact h.received g' hg'
    · rw [List.mem_singleton.mp hg']
      exact ⟨hissued, Nat.le_of_eq hnow, hnow ▸ hspent⟩
  · obtain ⟨rfl, rfl⟩ := Prod.mk.inj (Option.some.inj hcache)
    exact ⟨g, List.mem_append_right _ (List.mem_singleton_self g), rfl, rfl⟩
  · obtain ⟨g', hg', hvalid⟩ := h.answered token time hmem
    exact ⟨g', List.mem_append_left _ hg', hvalid⟩

theorem advance_valid (h : Valid s) (hprompt : Prompt s (.advance i reply))
    (hs : advance s i reply p = some t) : Valid t := by
  have hanswer : ∀ token, s.cachedToken = some token →
      Valid (s.goto i (.answered token s.now)) := by
    intro token hcached
    refine h.goto fun token' time heq => ?_
    cases heq
    obtain ⟨g, hg, htoken, hvalid⟩ := cachedToken_valid h hcached
    exact ⟨g, hg, htoken, .inl hvalid⟩
  cases p with
  | reading =>
    simp only [advance] at hs
    split at hs
    next => cases hs
    next =>
      split at hs
      next token hcached =>
        cases Option.some.inj hs
        exact hanswer token hcached
      next =>
        cases Option.some.inj hs
        exact h.goto fun _ _ heq => by cases heq
  | waiting =>
    simp only [advance] at hs
    split at hs
    next => cases hs
    next =>
      split at hs
      next token hcached =>
        cases Option.some.inj hs
        exact hanswer token hcached
      next =>
        cases Option.some.inj hs
        have hlocked : Valid { s with writer := some i } := ⟨h.received, h.cached, h.answered⟩
        exact hlocked.goto fun _ _ heq => by cases heq
  | fetching askedAt =>
    simp only [advance] at hs
    split at hs
    next =>
      cases Option.some.inj hs
      have hfree : Valid { s with writer := none } := ⟨h.received, h.cached, h.answered⟩
      exact hfree.goto fun _ _ heq => by cases heq
    next response issuedAt =>
      obtain ⟨⟨hasked, hissued⟩, hs⟩ := Option.ite_none_right_eq_some.mp hs
      cases Option.some.inj hs
      have hspent : s.now ≤ issuedAt + expiryMarginSecs * second := hprompt
      have hstored := h.store (g := ⟨response, askedAt, issuedAt, s.now⟩) hissued rfl hspent
      refine hstored.goto fun token time heq => ?_
      cases heq
      exact ⟨_, List.mem_append_right _ (List.mem_singleton_self _), rfl,
        Grant.returnedWell_received hissued hspent⟩
  | _ => cases hs

theorem step_valid {a : Act} (h : Valid s) (hprompt : Prompt s a) (hs : step s a = some t) :
    Valid t := by
  cases a with
  | getToken =>
    cases Option.some.inj hs
    refine ⟨h.received, h.cached, fun token time hmem => ?_⟩
    rcases List.mem_append.mp hmem with hmem | hmem
    · exact h.answered token time hmem
    · cases List.mem_singleton.mp hmem
  | tick duration =>
    cases Option.some.inj hs
    refine ⟨fun g hg => ?_, h.cached, h.answered⟩
    obtain ⟨hissued, hreceived, hspent⟩ := h.received g hg
    exact ⟨hissued, Nat.le_add_right_of_le hreceived, hspent⟩
  | advance i reply =>
    obtain ⟨p, -, hs⟩ := Option.bind_eq_some_iff.mp hs
    exact advance_valid h hprompt hs
  | drop i =>
    obtain ⟨p, -, hs⟩ := Option.bind_eq_some_iff.mp hs
    obtain ⟨-, hs⟩ := Option.ite_none_right_eq_some.mp hs
    cases Option.some.inj hs
    have hfree : Valid { s with writer := if s.writer = some i then none else s.writer } :=
      ⟨h.received, h.cached, h.answered⟩
    exact hfree.goto fun _ _ heq => by cases heq

/-- While the provider answers within the margin, no call comes back with a token that has run out
there, neither one from the cache, read at any time and beside any other call, nor a new one. Only a
token with a lifetime of no more than the margin may have run out, and no call comes back with it
later than it arrived. -/
theorem tokens_valid_when_returned (h : Transition.Reach Started step Prompt s)
    {token : List Char} {time : Nat} (ha : .answered token time ∈ s.procs) :
    ∃ g ∈ s.issued, g.response.accessToken = token ∧ g.ReturnedWell time := by
  have hs : Valid s := by
    refine h.invariant (fun s hs => ?_) fun s t a hs hprompt hstep => step_valid hs hprompt hstep
    obtain ⟨hcache, -, hprocs, hissued⟩ := hs
    constructor <;> simp [hcache, hprocs, hissued]
  exact hs.answered token time ha

end Validity

section Sample

def hourToken : TokenResponse := ⟨['t'], 3600⟩

/-- Two calls at once: one asks for a token, the other waits and takes it from the cache. -/
def twoCalls : List Act :=
  [.getToken, .getToken, .advance 0 none, .advance 1 none, .advance 0 none, .tick 5,
    .advance 0 (some (hourToken, 3)), .tick 7, .advance 1 none]

def bothAnswered : State where
  now := 12
  tokenCache := some (['t'], 5 + 3590 * second)
  writer := none
  procs := [.answered ['t'] 5, .answered ['t'] 12]
  issued := [⟨hourToken, 0, 3, 5⟩]

theorem twoCalls_run : Transition.run step ⟨0, none, none, [], []⟩ twoCalls = some bothAnswered := by
  rfl

theorem token_requests_sequential_twoCalls :
    bothAnswered.issued.Pairwise fun g later => g.deadline ≤ later.askedAt :=
  (token_requests_sequential (.of_free_run ⟨rfl, rfl, rfl, rfl⟩ twoCalls_run)).2.2

theorem tokens_valid_when_returned_twoCalls :
    ∃ g ∈ bothAnswered.issued, g.response.accessToken = ['t'] ∧ g.ReturnedWell 12 := by
  have hmeets : Transition.Meets step Prompt ⟨0, none, none, [], []⟩ twoCalls := by
    repeat' first
      | exact trivial
      | refine Transition.Meets.cons ?_ rfl ?_
    have hspent : 5 ≤ 3 + expiryMarginSecs * second := by decide
    exact hspent
  exact tokens_valid_when_returned (.of_run (.start ⟨rfl, rfl, rfl, rfl⟩) hmeets twoCalls_run)
    (List.mem_cons_of_mem _ List.mem_cons_self)

end Sample

end GmragApi.Keycloak

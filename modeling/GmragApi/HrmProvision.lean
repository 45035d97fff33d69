import GmragApi.Fga
import GmragApi.HrmScope
import GmragApi.ProcessPool
import GmragApi.SqlText
import GmragApi.Transition

/-! HRM mode: each request first stores its user and brings the role tuple of the user on the HRM
workspace in line with the role of its token. Requests of one user run side by side. -/

namespace GmragApi.Hrm

def hrmEmployeeRole : List Char := "EMPLOYEE".toList
def hrmManagerRole : List Char := "MANAGER".toList
def hrmAdminRole : List Char := "ADMIN".toList
def hrmHrRole : List Char := "HR".toList

inductive SqlError
  | invalidByteSequence
  | valueTooLong
  | uniqueViolation
  deriving DecidableEq

inductive HrmProvisionError
  | invalidRole
  | database (error : SqlError)
  | authz (error : AuthzError)
  deriving DecidableEq

def roleRelation (role : Option (List Char)) : Except HrmProvisionError Relation :=
  if role = some hrmManagerRole ∨ role = some hrmEmployeeRole then .ok .member
  else if role = some hrmAdminRole ∨ role = some hrmHrRole then .ok .admin
  else .error .invalidRole

def otherRelation : Relation → Relation
  | .member => .admin
  | .admin => .member
  -- `unreachable!`
  | r => r

structure JwtClaims where
  sub : Nat
  email : Option (List Char)
  role : Option (List Char)
  deriving DecidableEq

structure User where
  id : Nat
  email : List Char
  deriving DecidableEq

/-- What the functions here use of their surroundings: the text of a user id, the lower case of the
standard library, and the body that OpenFGA sends with a refused write. -/
structure Host where
  subText : Nat → List Char
  toLowercase : List Char → List Char
  refusal : List Char

def Host.normalizeEmail (h : Host) (email : List Char) : List Char := h.toLowercase (trim email)

def Host.claimedEmail (h : Host) (email : Option (List Char)) : Option (List Char) :=
  (email.map h.normalizeEmail).filter fun e => !e.isEmpty

def Host.fallbackEmail (h : Host) (userId : Nat) : List Char :=
  h.subText userId ++ "@hrm.local".toList

/-- Both columns of `users` are `VARCHAR(255)`. -/
def Host.fits (h : Host) (userId : Nat) (email : List Char) : Bool :=
  Sql.fitsIn 255 (h.subText userId) && Sql.fitsIn 255 email

/-- A NUL is refused with the parameters, before the columns are looked at. -/
def Host.misfit (h : Host) (userId : Nat) (email : List Char) : SqlError :=
  if Sql.clean (h.subText userId) && Sql.clean email then .valueTooLong else .invalidByteSequence

def emailTaken (users : List User) (userId : Nat) (email : List Char) : Bool :=
  users.any fun u => u.id != userId && u.email == email

def hasUser (users : List User) (userId : Nat) : Bool := users.any fun u => u.id == userId

def insertUser (users : List User) (userId : Nat) (email : List Char) :
    Except SqlError (List User) :=
  if emailTaken users userId email then .error .uniqueViolation else .ok (users ++ [⟨userId, email⟩])

def updateEmail (users : List User) (userId : Nat) (email : List Char) :
    Except SqlError (List User) :=
  if emailTaken users userId email then .error .uniqueViolation
  else .ok (users.map fun u => if u.id = userId then { u with email := email } else u)

def Host.upsertHrmUser (h : Host) (users : List User) (userId : Nat) (email : Option (List Char)) :
    Except SqlError (List User) :=
  match h.claimedEmail email with
  | some email =>
    if h.fits userId email then
      if hasUser users userId then updateEmail users userId email
      else insertUser users userId email
    else .error (h.misfit userId email)
  | none =>
    if h.fits userId (h.fallbackEmail userId) then
      if hasUser users userId then .ok users
      else insertUser users userId (h.fallbackEmail userId)
    else .error (h.misfit userId (h.fallbackEmail userId))

def tupleKey (config : HrmConfig) (user : Nat) (relation : Relation) : TupleKey :=
  ⟨.user user, relation, .workspace config.workspaceId.bits.toNat⟩

structure TupleSyncPlan where
  writes : List TupleKey
  deletes : List TupleKey
  deriving DecidableEq

def planTupleSync (config : HrmConfig) (user : Nat) (desired other : Relation)
    (desiredPresent otherPresent : Bool) : TupleSyncPlan where
  writes := if desiredPresent then [] else [tupleKey config user desired]
  deletes := if otherPresent then [tupleKey config user other] else []

def TupleSyncPlan.isEmpty (p : TupleSyncPlan) : Bool := p.writes.isEmpty && p.deletes.isEmpty

/-- Where a call stands. The two reads run side by side: each result is there or not yet. -/
inductive Proc
  | upserting (claims : JwtClaims) (desired : Relation)
  | reading (claims : JwtClaims) (desired : Relation) (desiredMatches otherMatches : Option Bool)
  | writing (claims : JwtClaims) (desired : Relation) (desiredPresent otherPresent : Bool)
  | returned (result : Except HrmProvisionError Unit)
  deriving DecidableEq

structure State where
  users : List User
  tuples : Fga.Store
  procs : List Proc

def State.goto (s : State) (i : Nat) (p : Proc) : State := { s with procs := s.procs.set i p }

def State.start (s : State) (p : Proc) : State := { s with procs := s.procs ++ [p] }

def State.has (s : State) (t : TupleKey) : Bool :=
  (Fga.readTuples s.tuples t).any fun found => found == t

def provisionIdentity (claims : JwtClaims) : Proc :=
  match roleRelation claims.role with
  | .ok desired => .upserting claims desired
  | .error e => .returned (.error e)

/-- The reads are complete: the plan is made, and nothing is sent for an empty one. -/
def planned (config : HrmConfig) (claims : JwtClaims) (desired : Relation)
    (desiredPresent otherPresent : Bool) : Proc :=
  if (planTupleSync config claims.sub desired (otherRelation desired) desiredPresent
      otherPresent).isEmpty then .returned (.ok ())
  else .writing claims desired desiredPresent otherPresent

def joined (config : HrmConfig) (claims : JwtClaims) (desired : Relation) :
    Option Bool → Option Bool → Proc
  | some desiredPresent, some otherPresent =>
    planned config claims desired desiredPresent otherPresent
  | desiredMatches, otherMatches => .reading claims desired desiredMatches otherMatches

def sendPlan (h : Host) (s : State) (i : Nat) (plan : TupleSyncPlan) : State :=
  match Fga.writeTuples s.tuples plan.writes plan.deletes with
  | some tuples => { s with tuples := tuples }.goto i (.returned (.ok ()))
  | none => s.goto i (.returned (.error (.authz (.openFga 400 h.refusal))))

/-- The statement or call that is answered next. -/
inductive Call
  | upsert
  | readDesired
  | readOther
  | write
  deriving DecidableEq

def advance (h : Host) (config : HrmConfig) (s : State) (i : Nat) : Proc → Call → Option State
  | .upserting claims desired, .upsert =>
    match h.upsertHrmUser s.users claims.sub claims.email with
    | .ok users => some ({ s with users := users }.goto i (.reading claims desired none none))
    | .error e => some (s.goto i (.returned (.error (.database e))))
  | .reading claims desired none other, .readDesired =>
    some (s.goto i (joined config claims desired
      (some (s.has (tupleKey config claims.sub desired))) other))
  | .reading claims desired found none, .readOther =>
    some (s.goto i (joined config claims desired found
      (some (s.has (tupleKey config claims.sub (otherRelation desired))))))
  | .writing claims desired desiredPresent otherPresent, .write =>
    some (sendPlan h s i (planTupleSync config claims.sub desired (otherRelation desired)
      desiredPresent otherPresent))
  | _, _ => none

inductive Act
  | provision (email : Option (List Char))
  | advance (i : Nat) (call : Call)

/-- The requests of user `sub`, whose tokens all carry `role`. -/
def step (h : Host) (config : HrmConfig) (sub : Nat) (role : Option (List Char)) (s : State) :
    Act → Option State
  | .provision email => some (s.start (provisionIdentity ⟨sub, email, role⟩))
  | .advance i call => (s.procs[i]?).bind fun p => advance h config s i p call

def Proc.finished : Proc → Bool
  | returned _ => true
  | _ => false

/-- No call has failed, and once all have returned the user holds the desired relation and not the
other one. -/
structure Converges (config : HrmConfig) (sub : Nat) (desired : Relation) (s : State) : Prop where
  succeeded : ∀ r, Proc.returned r ∈ s.procs → r = .ok ()
  settled : s.procs ≠ [] → (∀ p ∈ s.procs, p.finished = true) →
    tupleKey config sub desired ∈ s.tuples ∧ tupleKey config sub (otherRelation desired) ∉ s.tuples

/-- The id and the email to store fit their columns and no other user holds the email. -/
def Host.Storable (h : Host) (users : List User) (userId : Nat) (email : Option (List Char)) :
    Prop :=
  match h.claimedEmail email with
  | some email => h.fits userId email = true ∧ emailTaken users userId email = false
  | none => h.fits userId (h.fallbackEmail userId) = true ∧
      (hasUser users userId = true ∨ emailTaken users userId (h.fallbackEmail userId) = false)

/-- A batch reaches OpenFGA while both tuples are as its call read them. -/
def Undisturbed (h : Host) (config : HrmConfig) (s : State) : Act → Prop
  | .provision _ => True
  | .advance i call =>
    match s.procs[i]?, call with
    | some (.upserting claims _), .upsert => h.Storable s.users claims.sub claims.email
    | some (.writing claims desired desiredPresent otherPresent), .write =>
      s.has (tupleKey config claims.sub desired) = desiredPresent ∧
        s.has (tupleKey config claims.sub (otherRelation desired)) = otherPresent
    | _, _ => True

theorem upsertHrmUser_cases (h : Host) (users : List User) (userId : Nat)
    (email : Option (List Char)) :
    (h.Storable users userId email ∧ ∃ stored, h.upsertHrmUser users userId email = .ok stored) ∨
      (¬ h.Storable users userId email ∧ ∃ e, h.upsertHrmUser users userId email = .error e) := by
  unfold Host.Storable Host.upsertHrmUser insertUser updateEmail
  cases h.claimedEmail email with
  | some e =>
    by_cases hf : h.fits userId e = true
    · by_cases ht : emailTaken users userId e = true
      · by_cases hu : hasUser users userId = true <;> simp [hf, ht, hu]
      · by_cases hu : hasUser users userId = true <;> simp [hf, ht, hu]
    · simp [hf]
  | none =>
    by_cases hf : h.fits userId (h.fallbackEmail userId) = true
    · by_cases hu : hasUser users userId = true
      · simp [hf, hu]
      · by_cases ht : emailTaken users userId (h.fallbackEmail userId) = true <;>
          simp [hf, ht, hu]
    · simp [hf]

theorem roleRelation_restricted {role : Option (List Char)} {desired : Relation}
    (h : roleRelation role = .ok desired) : desired = .member ∨ desired = .admin := by
  unfold roleRelation at h
  split at h
  · exact .inl (Except.ok.inj h).symm
  · split at h
    · exact .inr (Except.ok.inj h).symm
    · cases h

theorem tupleKey_other_ne {config : HrmConfig} {sub : Nat} {role : Option (List Char)}
    {desired : Relation} (h : roleRelation role = .ok desired) :
    tupleKey config sub (otherRelation desired) ≠ tupleKey config sub desired := by
  rcases roleRelation_restricted h with rfl | rfl <;> simp [tupleKey, otherRelation]

theorem has_eq_true {s : State} {t : TupleKey} : s.has t = true ↔ t ∈ s.tuples := by
  rw [State.has, Fga.readTuples_any, decide_eq_true_iff]

theorem has_eq_false {s : State} {t : TupleKey} : s.has t = false ↔ t ∉ s.tuples := by
  rw [State.has, Fga.readTuples_any, decide_eq_false_iff_not]

section Runs

variable {h : Host} {config : HrmConfig} {sub : Nat} {role : Option (List Char)}
  {desired : Relation}

/-- What a call has seen holds for ever: requests for one role never take the desired tuple away
nor bring the other one back. -/
def Seen (config : HrmConfig) (sub : Nat) (desired : Relation) (store : Fga.Store) : Proc → Prop
  | .upserting claims d => claims.sub = sub ∧ d = desired
  | .reading claims d desiredMatches otherMatches => claims.sub = sub ∧ d = desired ∧
      (desiredMatches = none ∨ otherMatches = none) ∧
      (desiredMatches = some true → tupleKey config sub desired ∈ store) ∧
      (otherMatches = some false → tupleKey config sub (otherRelation desired) ∉ store)
  | .writing claims d desiredPresent otherPresent => claims.sub = sub ∧ d = desired ∧
      (desiredPresent = true → tupleKey config sub desired ∈ store) ∧
      (otherPresent = false → tupleKey config sub (otherRelation desired) ∉ store)
  | .returned (.ok _) => tupleKey config sub desired ∈ store ∧
      tupleKey config sub (otherRelation desired) ∉ store
  | .returned (.error _) => True

def Inv (config : HrmConfig) (sub : Nat) (desired : Relation) (s : State) : Prop :=
  ∀ (i : Nat) (p : Proc), s.procs[i]? = some p → Seen config sub desired s.tuples p

/-- How the requests of one role may change the store. -/
structure Approaches (config : HrmConfig) (sub : Nat) (desired : Relation)
    (store store' : Fga.Store) : Prop where
  kept : tupleKey config sub desired ∈ store → tupleKey config sub desired ∈ store'
  gone : tupleKey config sub (otherRelation desired) ∉ store →
    tupleKey config sub (otherRelation desired) ∉ store'

theorem Approaches.refl (store : Fga.Store) : Approaches config sub desired store store :=
  ⟨id, id⟩

theorem Seen.mono {store store' : Fga.Store} (ha : Approaches config sub desired store store')
    {p : Proc} (hp : Seen config sub desired store p) : Seen config sub desired store' p := by
  cases p with
  | upserting claims d => exact hp
  | reading claims d dm om =>
    obtain ⟨hs, hd, hn, hdm, hom⟩ := hp
    exact ⟨hs, hd, hn, fun he => ha.kept (hdm he), fun he => ha.gone (hom he)⟩
  | writing claims d dp op =>
    obtain ⟨hs, hd, hdp, hop⟩ := hp
    exact ⟨hs, hd, fun he => ha.kept (hdp he), fun he => ha.gone (hop he)⟩
  | returned r =>
    cases r with
    | ok => exact ⟨ha.kept hp.1, ha.gone hp.2⟩
    | error e => trivial

theorem joined_seen {store : Fga.Store} {claims : JwtClaims} {dm om : Option Bool}
    (hs : claims.sub = sub) (hdm : dm = some true → tupleKey config sub desired ∈ store)
    (hom : om = some false → tupleKey config sub (otherRelation desired) ∉ store) :
    Seen config sub desired store (joined config claims desired dm om) := by
  cases dm with
  | none => exact ⟨hs, rfl, .inl rfl, hdm, hom⟩
  | some dp =>
    cases om with
    | none => exact ⟨hs, rfl, .inr rfl, hdm, hom⟩
    | some op =>
      by_cases he : (planTupleSync config claims.sub desired (otherRelation desired) dp op).isEmpty
      · rw [joined, planned, if_pos he]
        have hempty : dp = true ∧ op = false := by
          simpa [TupleSyncPlan.isEmpty, planTupleSync] using he
        exact ⟨hdm (by rw [hempty.1]), hom (by rw [hempty.2])⟩
      · rw [joined, planned, if_neg he]
        exact ⟨hs, rfl, fun hd => hdm (by rw [hd]), fun ho => hom (by rw [ho])⟩

/-- The plan of a call against a store that has only moved towards the desired state: it is taken
exactly when both tuples are as read, and it completes the change. -/
theorem writeTuples_plan (hrole : roleRelation role = .ok desired) {store : Fga.Store}
    {dp op : Bool} (hdp : dp = true → tupleKey config sub desired ∈ store)
    (hop : op = false → tupleKey config sub (otherRelation desired) ∉ store) :
    let plan := planTupleSync config sub desired (otherRelation desired) dp op
    let current := decide (tupleKey config sub desired ∈ store) = dp ∧
      decide (tupleKey config sub (otherRelation desired) ∈ store) = op
    (current ∧ ∃ store', Fga.writeTuples store plan.writes plan.deletes = some store' ∧
      tupleKey config sub desired ∈ store' ∧
      tupleKey config sub (otherRelation desired) ∉ store') ∨
    (¬ current ∧ Fga.writeTuples store plan.writes plan.deletes = none) := by
  have hne : tupleKey config sub (otherRelation desired) ≠ tupleKey config sub desired :=
    tupleKey_other_ne hrole
  intro plan current
  cases dp <;> cases op
  · have ho := hop rfl
    by_cases hd : tupleKey config sub desired ∈ store
    · right
      simp [plan, current, planTupleSync, Fga.writeTuples, hd]
    · left
      simp [plan, current, planTupleSync, Fga.writeTuples, hd, ho, hne]
  · by_cases hd : tupleKey config sub desired ∈ store
    · right
      simp [plan, current, planTupleSync, Fga.writeTuples, hd]
    · by_cases ho : tupleKey config sub (otherRelation desired) ∈ store
      · left
        simp [plan, current, planTupleSync, Fga.writeTuples, hd, ho, hne]
      · right
        simp [plan, current, planTupleSync, Fga.writeTuples, ho]
  · left
    simp [plan, current, planTupleSync, Fga.writeTuples, hdp rfl, hop rfl]
  · have hd := hdp rfl
    by_cases ho : tupleKey config sub (otherRelation desired) ∈ store
    · left
      simp [plan, current, planTupleSync, Fga.writeTuples, hd, ho, hne.symm]
    · right
      simp [plan, current, planTupleSync, Fga.writeTuples, ho]

theorem sendPlan_cases (hrole : roleRelation role = .ok desired) {s : State} {i : Nat}
    {dp op : Bool} (hdp : dp = true → tupleKey config sub desired ∈ s.tuples)
    (hop : op = false → tupleKey config sub (otherRelation desired) ∉ s.tuples) :
    let t := sendPlan h s i (planTupleSync config sub desired (otherRelation desired) dp op)
    let current := s.has (tupleKey config sub desired) = dp ∧
      s.has (tupleKey config sub (otherRelation desired)) = op
    (current ∧ t.procs = s.procs.set i (.returned (.ok ())) ∧
      tupleKey config sub desired ∈ t.tuples ∧
      tupleKey config sub (otherRelation desired) ∉ t.tuples) ∨
    (¬ current ∧ t = s.goto i (.returned (.error (.authz (.openFga 400 h.refusal))))) := by
  intro t current
  have hcurrent : current ↔ decide (tupleKey config sub desired ∈ s.tuples) = dp ∧
      decide (tupleKey config sub (otherRelation desired) ∈ s.tuples) = op := by
    simp only [current, State.has, Fga.readTuples_any]
  rw [hcurrent]
  rcases writeTuples_plan hrole hdp hop with ⟨hc, store', hw, hkept, hgone⟩ | ⟨hc, hw⟩
  · refine .inl ⟨hc, ?_⟩
    simp only [t, sendPlan, hw]
    exact ⟨rfl, hkept, hgone⟩
  · refine .inr ⟨hc, ?_⟩
    simp only [t, sendPlan, hw]

/-- What one step of a call does: it goes on, it is refused, or it settles the tuples. -/
inductive Move (h : Host) (config : HrmConfig) (sub : Nat) (desired : Relation) (s : State)
    (a : Act) (t : State) : Prop
  | goesOn (i : Nat) (old new : Proc) (at_i : s.procs[i]? = some old)
      (procs : t.procs = s.procs.set i new) (tuples : Approaches config sub desired s.tuples t.tuples)
      (seen : Seen config sub desired t.tuples new) (ok : Undisturbed h config s a)
      (noError : ∀ e, new ≠ .returned (.error e))
  | fails (i : Nat) (old : Proc) (e : HrmProvisionError) (at_i : s.procs[i]? = some old)
      (eq : t = s.goto i (.returned (.error e))) (disturbed : ¬ Undisturbed h config s a)
  | starts (new : Proc) (eq : t = s.start new) (seen : Seen config sub desired s.tuples new)
      (ok : Undisturbed h config s a) (noError : ∀ e, new ≠ .returned (.error e))

theorem joined_noError {claims : JwtClaims} {dm om : Option Bool} (e : HrmProvisionError) :
    joined config claims desired dm om ≠ .returned (.error e) := by
  unfold joined planned
  grind

theorem advance_move (hrole : roleRelation role = .ok desired) {s t : State} {i : Nat} {p : Proc}
    {call : Call} (hp : s.procs[i]? = some p) (seen : Seen config sub desired s.tuples p)
    (ht : advance h config s i p call = some t) :
    Move h config sub desired s (.advance i call) t := by
  cases p with
  | upserting claims d =>
    obtain ⟨rfl, rfl⟩ := seen
    cases call with
    | upsert =>
      rw [advance] at ht
      rcases upsertHrmUser_cases h s.users claims.sub claims.email with
        ⟨hok, stored, hu⟩ | ⟨hno, e, hu⟩
      · rw [hu] at ht
        cases Option.some.inj ht
        exact .goesOn i _ _ hp rfl (.refl _) ⟨rfl, rfl, .inl rfl, by simp, by simp⟩
          (by simpa [Undisturbed, hp] using hok) (by simp)
      · rw [hu] at ht
        cases Option.some.inj ht
        exact .fails i _ _ hp rfl (by simpa [Undisturbed, hp] using hno)
    | _ => cases ht
  | reading claims d dm om =>
    obtain ⟨rfl, rfl, -, hdm, hom⟩ := seen
    have ok : Undisturbed h config s (.advance i call) := by simp [Undisturbed, hp]
    cases call with
    | readDesired =>
      cases dm with
      | some _ => simp [advance] at ht
      | none =>
        cases Option.some.inj ht
        refine .goesOn i _ _ hp rfl (.refl _) (joined_seen rfl ?_ hom) ok joined_noError
        exact fun hd => has_eq_true.mp (Option.some.inj hd)
    | readOther =>
      cases om with
      | some _ => cases dm <;> cases ht
      | none =>
        have ht : some (s.goto i (joined config claims d dm
            (some (s.has (tupleKey config claims.sub (otherRelation d)))))) = some t := by
          cases dm <;> exact ht
        cases Option.some.inj ht
        refine .goesOn i _ _ hp rfl (.refl _) (joined_seen rfl hdm ?_) ok joined_noError
        exact fun ho => has_eq_false.mp (Option.some.inj ho)
    | _ => cases dm <;> cases om <;> cases ht
  | writing claims d dp op =>
    obtain ⟨rfl, rfl, hdp, hop⟩ := seen
    cases call with
    | write =>
      have ht := Option.some.inj ht
      rcases sendPlan_cases (h := h) hrole hdp hop with ⟨hok, hprocs, hkept, hgone⟩ | ⟨hno, heq⟩
      · rw [ht] at hprocs hkept hgone
        exact .goesOn i _ _ hp hprocs ⟨fun _ => hkept, fun _ => hgone⟩ ⟨hkept, hgone⟩
          (by simpa [Undisturbed, hp] using hok) (by simp)
      · exact .fails i _ _ hp (ht ▸ heq) (by simpa [Undisturbed, hp] using hno)
    | _ => cases ht
  | returned r => cases ht

theorem step_move (hrole : roleRelation role = .ok desired) {s t : State} {a : Act}
    (inv : Inv config sub desired s) (ht : step h config sub role s a = some t) :
    Move h config sub desired s a t := by
  cases a with
  | provision email =>
    cases Option.some.inj ht
    refine .starts (.upserting ⟨sub, email, role⟩ desired) ?_ ⟨rfl, rfl⟩ trivial (by simp)
    simp [provisionIdentity, hrole]
  | advance i call =>
    obtain ⟨p, hp, ht⟩ := Option.bind_eq_some_iff.mp ht
    exact advance_move hrole hp (inv i p hp) ht

theorem step_inv (hrole : roleRelation role = .ok desired) {s t : State} {a : Act}
    (inv : Inv config sub desired s) (ht : step h config sub role s a = some t) :
    Inv config sub desired t := by
  cases step_move hrole inv ht with
  | goesOn i old new at_i procs tuples seen ok noError =>
    unfold Inv
    rw [procs]
    exact ProcessPool.forall_set at_i seen fun j p _ hp => (inv j p hp).mono tuples
  | fails i old e at_i eq disturbed =>
    rw [eq]
    exact ProcessPool.forall_set at_i trivial fun j p _ hp => inv j p hp
  | starts new eq seen ok noError =>
    rw [eq]
    exact ProcessPool.forall_push seen inv

/-- The tuples need no condition: a call that has returned `Ok` saw them settled. -/
theorem settled_of_succeeded {s : State} (inv : Inv config sub desired s)
    (succeeded : ∀ r, Proc.returned r ∈ s.procs → r = .ok ()) (some_call : s.procs ≠ [])
    (finished : ∀ p ∈ s.procs, p.finished = true) :
    tupleKey config sub desired ∈ s.tuples ∧ tupleKey config sub (otherRelation desired) ∉ s.tuples := by
  obtain ⟨p, hp⟩ := List.exists_mem_of_ne_nil _ some_call
  obtain ⟨i, hi⟩ := List.mem_iff_getElem?.mp hp
  cases p with
  | returned r =>
    cases succeeded r hp
    exact inv i _ hi
  | _ => cases finished _ hp

theorem step_converges_iff (hrole : roleRelation role = .ok desired) {s t : State} {a : Act}
    (inv : Inv config sub desired s) (hs : Converges config sub desired s)
    (ht : step h config sub role s a = some t) :
    Converges config sub desired t ↔ Undisturbed h config s a := by
  have inv' := step_inv hrole inv ht
  have settle : (∀ r, Proc.returned r ∈ t.procs → r = .ok ()) → Converges config sub desired t :=
    fun hr => ⟨hr, settled_of_succeeded inv' hr⟩
  cases step_move hrole inv ht with
  | goesOn i old new at_i procs tuples seen ok noError =>
    refine iff_of_true (settle fun r hr => ?_) ok
    rw [procs] at hr
    rcases List.mem_or_eq_of_mem_set hr with hr | rfl
    · exact hs.succeeded r hr
    · cases r with
      | ok => rfl
      | error e => exact absurd rfl (noError e)
  | fails i old e at_i eq disturbed =>
    refine iff_of_false (fun ht => ?_) disturbed
    have hlt := (List.getElem?_eq_some_iff.mp at_i).1
    have hmem : Proc.returned (.error e) ∈ t.procs := by
      rw [eq]
      exact List.mem_set hlt _
    cases ht.succeeded _ hmem
  | starts new eq seen ok noError =>
    refine iff_of_true (settle fun r hr => ?_) ok
    rw [eq] at hr
    rcases List.mem_append.mp hr with hr | hr
    · exact hs.succeeded r hr
    · rw [List.mem_singleton] at hr
      cases r with
      | ok => rfl
      | error e => exact absurd hr.symm (noError e)

theorem provisioning_converges_iff_undisturbed (hrole : roleRelation role = .ok desired)
    {s t : State} (none_yet : s.procs = []) {as : List Act}
    (hr : Transition.run (step h config sub role) s as = some t) :
    Transition.Always (step h config sub role) (Converges config sub desired) s as ↔
      Transition.Meets (step h config sub role) (Undisturbed h config) s as := by
  have start : Inv config sub desired s := by
    intro i p hp
    simp [none_yet] at hp
  refine Transition.always_iff_meets ?_ ?_ ?_ start ?_ hr
  · exact fun s t a inv ht => step_inv hrole inv ht
  · exact fun s t a inv hs ok ht => (step_converges_iff hrole inv hs ht).mpr ok
  · exact fun s t a inv hs ht ht' => (step_converges_iff hrole inv hs ht).mp ht'
  · exact ⟨by simp [none_yet], fun hn => absurd none_yet hn⟩

end Runs

def sampleHost : Host where
  subText := fun n => Nat.toDigits 10 n
  toLowercase := toAsciiLowercase
  refusal := "cannot write a tuple which already exists".toList

def freshUser : State := ⟨[], ∅, []⟩

/-- A first login and a second request for the same employee, side by side. -/
def firstLoginTwice : List Act :=
  [.provision none, .provision none, .advance 0 .upsert, .advance 1 .upsert,
    .advance 0 .readDesired, .advance 0 .readOther, .advance 1 .readOther, .advance 1 .readDesired,
    .advance 0 .write, .advance 1 .write]

theorem second_login_is_refused :
    ∃ t, Transition.run (step sampleHost sampleScope 7 (some hrmEmployeeRole)) freshUser
        firstLoginTwice = some t ∧
      t.procs = [.returned (.ok ()),
        .returned (.error (.authz (.openFga 400 sampleHost.refusal)))] ∧
      ¬ Converges sampleScope 7 .member t := by
  refine ⟨_, rfl, by decide, ?_⟩
  intro h
  have hr := h.succeeded (.error (.authz (.openFga 400 sampleHost.refusal))) (by decide)
  cases hr

theorem provisioning_converges_iff_undisturbed_first :
    Transition.Always (step sampleHost sampleScope 7 (some hrmEmployeeRole))
        (Converges sampleScope 7 .member) freshUser firstLoginTwice ↔
      Transition.Meets (step sampleHost sampleScope 7 (some hrmEmployeeRole))
        (Undisturbed sampleHost sampleScope) freshUser firstLoginTwice :=
  provisioning_converges_iff_undisturbed rfl rfl rfl

end GmragApi.Hrm

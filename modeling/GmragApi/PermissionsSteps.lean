import GmragApi.PermissionsCall

/-! What the parts of a `replace_document_permissions` call do: the plan, one round of its loops, and
the loops up to the first failure. -/

namespace GmragApi.PermissionsCall

open DocumentAcl

/-- The tuples of the document are those of users who have a row. -/
def TuplesShared (document : Nat) (w : World) : Prop :=
  ∀ user, explicitViewerTuple document user ∈ w.tuples → (document, user) ∈ w.shares

def Member (w : World) (workspace user : Nat) : Prop :=
  (workspace, user) ∈ w.members ∧ checkWorkspaceMember w.tuples user workspace = true

instance (w : World) (workspace user : Nat) : Decidable (Member w workspace user) :=
  inferInstanceAs (Decidable (_ ∧ _))

/-- The grant that a user needs to have both the row and the tuple. -/
def missingGrant (w : World) (document user : Nat) : Option GrantPlan :=
  if (document, user) ∉ w.shares then some ⟨user, true⟩
  else if explicitViewerTuple document user ∉ w.tuples then some ⟨user, false⟩
  else none

def toGrant (w : World) (r : PermissionsRequest) : List GrantPlan :=
  r.planned.filterMap (missingGrant w r.document)

section Plan

variable {f : Faults} {r : PermissionsRequest} {w : World} {plan : Plan}

theorem bind_eq_ok {ε α β : Type} {x : Except ε α} {g : α → Except ε β} {b : β} :
    x >>= g = .ok b ↔ ∃ a, x = .ok a ∧ g a = .ok b := by
  cases x with
  | error e => exact iff_of_false (by rintro ⟨⟩) (by rintro ⟨a, ⟨⟩, -⟩)
  | ok a => exact ⟨fun h => ⟨a, rfl, h⟩, by rintro ⟨_, ⟨rfl⟩, h⟩; exact h⟩

theorem mem_currentUserIds {document user : Nat} :
    user ∈ w.currentUserIds document ↔ (document, user) ∈ w.shares := by
  rw [World.currentUserIds, Finset.mem_sort, Finset.mem_image]
  constructor
  · rintro ⟨⟨document', user'⟩, hshare, huser⟩
    obtain ⟨hrow, hdocument⟩ := Finset.mem_filter.mp hshare
    obtain rfl : document' = document := hdocument
    obtain rfl : user' = user := huser
    exact hrow
  · intro h
    exact ⟨(document, user), Finset.mem_filter.mpr ⟨h, rfl⟩, rfl⟩

theorem fgaCheck_ok {c : FgaCall} {actual allowed : Bool} (h : fgaCheck f c actual = .ok allowed) :
    f.fga c = .done ∧ allowed = actual := by
  unfold fgaCheck at h
  split at h
  next hdone => exact ⟨hdone, (Except.ok.inj h).symm⟩
  next => cases h

theorem planGrants_ok {users : List Nat} {grants : List GrantPlan}
    (h : planGrants f r w (w.currentUserIds r.document) users = .ok grants) :
    grants = users.filterMap (missingGrant w r.document) := by
  induction users generalizing grants with
  | nil => exact (Except.ok.inj h).symm
  | cons user rest ih =>
    rw [planGrants] at h
    split at h
    next hin =>
      have hrow := mem_currentUserIds.mp hin
      obtain ⟨allowed, hcheck, h⟩ := bind_eq_ok.mp h
      obtain ⟨grants', hrest, h⟩ := bind_eq_ok.mp h
      obtain ⟨-, rfl⟩ := fgaCheck_ok hcheck
      obtain rfl := ih hrest
      obtain rfl := Except.ok.inj h
      by_cases htuple : explicitViewerTuple r.document user ∈ w.tuples
      · simp [missingGrant, hrow, htuple]
      · simp [missingGrant, hrow, htuple]
    next hout =>
      have hrow : (r.document, user) ∉ w.shares := fun hin => hout (mem_currentUserIds.mpr hin)
      obtain ⟨grants', hrest, h⟩ := bind_eq_ok.mp h
      obtain rfl := ih hrest
      obtain rfl := Except.ok.inj h
      simp [missingGrant, hrow]

theorem validateGrants_ok {grants : List GrantPlan} (h : validateGrants f r w grants = .ok ()) :
    ∀ g ∈ grants, Member w r.workspace g.user := by
  induction grants with
  | nil => exact fun _ hg => absurd hg List.not_mem_nil
  | cons grant rest ih =>
    rw [validateGrants] at h
    split at h
    next hrow =>
      obtain ⟨allowed, hcheck, h⟩ := bind_eq_ok.mp h
      obtain ⟨-, rfl⟩ := fgaCheck_ok hcheck
      split at h
      next hmember =>
        intro g hg
        rcases List.mem_cons.mp hg with rfl | hg
        · exact ⟨hrow, hmember⟩
        · exact ih h g hg
      next => cases h
    next => cases h

/-- A plan lists what the state of the document lacks, and grants to members only. -/
theorem prepare_ok (h : prepare f r w = .ok (some plan)) :
    ∃ d, w.documentIn r.workspace r.document = some d ∧
      plan = ⟨d.accessMode, r.toRevoke (w.currentUserIds r.document), toGrant w r⟩ ∧
      ∀ g ∈ toGrant w r, Member w r.workspace g.user := by
  obtain ⟨-, -, h⟩ := bind_eq_ok.mp h
  split at h
  next => cases Except.ok.inj h
  next d hd =>
    obtain ⟨-, -, h⟩ := bind_eq_ok.mp h
    obtain ⟨grants, hgrants, h⟩ := bind_eq_ok.mp h
    obtain ⟨_, hvalid, h⟩ := bind_eq_ok.mp h
    obtain rfl := planGrants_ok hgrants
    obtain rfl := Option.some.inj (Except.ok.inj h)
    refine ⟨d, hd, rfl, ?_⟩
    unfold validateGrantTargets at hvalid
    split at hvalid
    next hempty =>
      intro g hg
      rw [toGrant, List.isEmpty_iff.mp hempty] at hg
      cases hg
    next =>
      obtain ⟨-, -, hvalid⟩ := bind_eq_ok.mp hvalid
      exact validateGrants_ok hvalid

theorem planGrants_none (users : List Nat) :
    planGrants .none r w (w.currentUserIds r.document) users =
      .ok (users.filterMap (missingGrant w r.document)) := by
  induction users with
  | nil => rfl
  | cons user rest ih =>
    rw [planGrants, ih]
    by_cases hrow : (r.document, user) ∈ w.shares
    · rw [if_pos (mem_currentUserIds.mpr hrow)]
      by_cases htuple : explicitViewerTuple r.document user ∈ w.tuples
      · simp [missingGrant, hrow, htuple, fgaCheck, Faults.none, bind, Except.bind, pure, Except.pure]
      · simp [missingGrant, hrow, htuple, fgaCheck, Faults.none, bind, Except.bind, pure, Except.pure]
    · rw [if_neg fun hin => hrow (mem_currentUserIds.mp hin)]
      simp [missingGrant, hrow, bind, Except.bind, pure, Except.pure]

theorem validateGrants_none {grants : List GrantPlan}
    (h : ∀ g ∈ grants, Member w r.workspace g.user) : validateGrants .none r w grants = .ok () := by
  induction grants with
  | nil => rfl
  | cons grant rest ih =>
    obtain ⟨hrow, hmember⟩ := h grant (List.mem_cons_self ..)
    have hrest := ih fun g hg => h g (List.mem_cons_of_mem _ hg)
    rw [validateGrants, if_pos hrow]
    simpa [fgaCheck, Faults.none, hmember, bind, Except.bind] using hrest

theorem prepare_none {d : Document} (hd : w.documentIn r.workspace r.document = some d)
    (hmembers : ∀ g ∈ toGrant w r, Member w r.workspace g.user) :
    prepare .none r w =
      .ok (some ⟨d.accessMode, r.toRevoke (w.currentUserIds r.document), toGrant w r⟩) := by
  have hvalid : validateGrantTargets .none r w (toGrant w r) = .ok () := by
    unfold validateGrantTargets
    split
    · rfl
    · exact validateGrants_none hmembers
  unfold prepare
  refine bind_eq_ok.mpr ⟨(), rfl, ?_⟩
  rw [hd]
  exact bind_eq_ok.mpr ⟨(), rfl, bind_eq_ok.mpr ⟨_, planGrants_none r.planned,
    bind_eq_ok.mpr ⟨(), hvalid, rfl⟩⟩⟩

end Plan

/-- The deletion of a tuple is reported as done, or as not needed. -/
def deleteAccepted (f : Faults) (user : Nat) : Bool :=
  match f.fga (.deleteTuple user) with
  | .done => true
  | .failed _ e => isMissingTupleDeleteError e

/-- Every call of the round is reported as a success. -/
def Round.completes (f : Faults) : Round → Bool
  | revoke user => deleteAccepted f user && decide (f.sql (.deleteRow user) = .done)
  | grant g =>
    (!g.insertSqlRow || decide (f.sql (.insertRow g.user) = .done)) &&
      decide (f.fga (.writeTuple g.user) = .done)

def Round.isGrant : Round → Bool
  | revoke _ => false
  | grant _ => true

/-- What the plan promises of a round: only rows that are there are revoked, and only what is
missing is granted. -/
def Round.Ready (r : PermissionsRequest) (w : World) : Round → Prop
  | revoke user => (r.document, user) ∈ w.shares
  | grant g => explicitViewerTuple r.document g.user ∉ w.tuples ∧
      (g.insertSqlRow = true ↔ (r.document, g.user) ∉ w.shares)

/-- OpenFGA reports a tuple as missing that is there, and the row of its user is deleted. -/
def Round.Misread (f : Faults) (r : PermissionsRequest) (w : World) : Round → Prop
  | revoke user => explicitViewerTuple r.document user ∈ w.tuples ∧
      (∃ e, f.fga (.deleteTuple user) = .failed false e ∧ isMissingTupleDeleteError e = true) ∧
      f.sql (.deleteRow user) ≠ .failed false
  | grant _ => False

/-- The first statement or call of the round is reported as a failure and took effect. -/
def Round.Silent (f : Faults) (r : PermissionsRequest) (w : World) : Round → Prop
  | revoke user => explicitViewerTuple r.document user ∈ w.tuples ∧
      ∃ e, f.fga (.deleteTuple user) = .failed true e ∧ ¬ isMissingTupleDeleteError e = true
  | grant g =>
    if g.insertSqlRow then f.sql (.insertRow g.user) = .failed true
    else ∃ e, f.fga (.writeTuple g.user) = .failed true e

/-- Row and tuple of the user after a round that completed. -/
def Round.Done (f : Faults) (r : PermissionsRequest) (w w' : World) : Round → Prop
  | revoke user => (r.document, user) ∉ w'.shares ∧
      (explicitViewerTuple r.document user ∈ w'.tuples ↔
        explicitViewerTuple r.document user ∈ w.tuples ∧
          ∃ e, f.fga (.deleteTuple user) = .failed false e)
  | grant g => (r.document, g.user) ∈ w'.shares ∧
      explicitViewerTuple r.document g.user ∈ w'.tuples

/-- The worlds differ in rows and tuples of the document for `users` only, and in the outbox. -/
structure Frame (r : PermissionsRequest) (users : List Nat) (w w' : World) : Prop where
  documents : w'.documents = w.documents
  members : w'.members = w.members
  audits : w'.audits = w.audits
  rows : ∀ x, (∀ user ∈ users, x ≠ (r.document, user)) → (x ∈ w'.shares ↔ x ∈ w.shares)
  tuples : ∀ t, (∀ user ∈ users, t ≠ explicitViewerTuple r.document user) →
    (t ∈ w'.tuples ↔ t ∈ w.tuples)

/-- Row and tuple of the user are as they were. -/
def Same (r : PermissionsRequest) (user : Nat) (w w' : World) : Prop :=
  ((r.document, user) ∈ w'.shares ↔ (r.document, user) ∈ w.shares) ∧
    (explicitViewerTuple r.document user ∈ w'.tuples ↔
      explicitViewerTuple r.document user ∈ w.tuples)

/-- What one round does, by whether it completes. -/
structure RoundEffect (f : Faults) (r : PermissionsRequest) (round : Round) (p p' : Progress)
    (failure : Option UpdateError) : Prop where
  frame : Frame r [round.user] p.world p'.world
  ended : failure = none ↔ round.completes f = true
  mutated : p.mutated = true ∨ failure = none → p'.mutated = true
  done : failure = none → round.Done f r p.world p'.world
  shared : ¬ round.Misread f r p.world → explicitViewerTuple r.document round.user ∈ p'.world.tuples →
    (r.document, round.user) ∈ p'.world.shares
  misread : round.Misread f r p.world →
    explicitViewerTuple r.document round.user ∈ p'.world.tuples ∧
      (r.document, round.user) ∉ p'.world.shares
  kept : explicitViewerTuple r.document round.user ∈ p'.world.tuples →
    explicitViewerTuple r.document round.user ∈ p.world.tuples ∨ round.isGrant = true
  quiet : p'.mutated = false → ¬ round.Silent f r p.world → Same r round.user p.world p'.world
  silent : round.Silent f r p.world → p'.mutated = p.mutated ∧ ¬ Same r round.user p.world p'.world ∧
    ¬ round.completes f = true
  applied : p'.audit.appliedMode = p.audit.appliedMode
  granted : p'.audit.grantedApplied =
    p.audit.grantedApplied + if failure.isNone ∧ round.isGrant then 1 else 0
  revoked : p'.audit.revokedApplied =
    p.audit.revokedApplied + if failure.isNone ∧ !round.isGrant then 1 else 0

section Rounds

variable {f : Faults} {r : PermissionsRequest} {w : World} {p : Progress} {user : Nat}

theorem explicitViewerTuple_inj {document user user' : Nat} :
    explicitViewerTuple document user = explicitViewerTuple document user' ↔ user = user' := by
  simp [explicitViewerTuple]

/-- The deletion takes effect unless it fails without effect. -/
def tuplesAfterDelete (f : Faults) (r : PermissionsRequest) (w : World) (user : Nat) : Fga.Store :=
  match f.fga (.deleteTuple user) with
  | .failed false _ => w.tuples
  | _ => w.tuples.erase (explicitViewerTuple r.document user)

theorem mem_tuplesAfterDelete {t : TupleKey} : t ∈ tuplesAfterDelete f r w user ↔
    t ∈ w.tuples ∧ (t = explicitViewerTuple r.document user →
      ∃ e, f.fga (.deleteTuple user) = .failed false e) := by
  unfold tuplesAfterDelete
  rcases f.fga (.deleteTuple user) with _ | ⟨_ | _, e⟩
  · simp [and_comm]
  · simp
  · simp [and_comm]

theorem deleteTupleFgaFirst_accepted (w : World) (h : deleteAccepted f user = true) :
    deleteTupleFgaFirst f r w user = ({ w with tuples := tuplesAfterDelete f r w user }, .ok ()) := by
  have hmissing : isMissingTupleDeleteError missingTuple = true := by decide
  unfold deleteAccepted at h
  unfold deleteTupleFgaFirst deleteTuple tuplesAfterDelete
  rcases hfate : f.fga (.deleteTuple user) with _ | ⟨_ | _, e⟩
  · by_cases htuple : explicitViewerTuple r.document user ∈ w.tuples
    · simp [htuple]
    · simp [htuple, hmissing]
  · rw [hfate] at h
    simp [h]
  · rw [hfate] at h
    simp [h]

theorem deleteTupleFgaFirst_refused (w : World) (h : ¬ deleteAccepted f user = true) :
    ∃ e, deleteTupleFgaFirst f r w user =
      ({ w with tuples := tuplesAfterDelete f r w user }, .error e) := by
  unfold deleteAccepted at h
  unfold deleteTupleFgaFirst deleteTuple tuplesAfterDelete
  rcases hfate : f.fga (.deleteTuple user) with _ | ⟨_ | _, e⟩
  · rw [hfate] at h
    exact absurd rfl h
  · rw [hfate] at h
    exact ⟨e, by simp [h]⟩
  · rw [hfate] at h
    exact ⟨e, by simp [h]⟩

theorem misread_accepted (h : (Round.revoke user).Misread f r w) : deleteAccepted f user = true := by
  obtain ⟨-, ⟨e, hfate, hmissing⟩, -⟩ := h
  rw [deleteAccepted, hfate]
  exact hmissing

theorem misread_of_tuple (haccepted : deleteAccepted f user = true)
    (htuple : explicitViewerTuple r.document user ∈ tuplesAfterDelete f r w user)
    (hrow : f.sql (.deleteRow user) ≠ .failed false) : (Round.revoke user).Misread f r w := by
  obtain ⟨hin, hfate⟩ := mem_tuplesAfterDelete.mp htuple
  obtain ⟨e, he⟩ := hfate rfl
  rw [deleteAccepted, he] at haccepted
  exact ⟨hin, ⟨e, he, haccepted⟩, hrow⟩

theorem tuple_of_misread (h : (Round.revoke user).Misread f r w) :
    explicitViewerTuple r.document user ∈ tuplesAfterDelete f r w user := by
  obtain ⟨hin, ⟨e, he, -⟩, -⟩ := h
  exact mem_tuplesAfterDelete.mpr ⟨hin, fun _ => ⟨e, he⟩⟩

theorem silent_refused (h : (Round.revoke user).Silent f r w) : ¬ deleteAccepted f user = true := by
  obtain ⟨-, e, hfate, hmissing⟩ := h
  rw [deleteAccepted, hfate]
  exact hmissing

theorem refused_without_effect (hrefused : ¬ deleteAccepted f user = true)
    (htuple : explicitViewerTuple r.document user ∈ w.tuples)
    (hsilent : ¬ (Round.revoke user).Silent f r w) :
    ∃ e, f.fga (.deleteTuple user) = .failed false e := by
  unfold deleteAccepted at hrefused
  rcases hfate : f.fga (.deleteTuple user) with _ | ⟨_ | _, e⟩
  · rw [hfate] at hrefused
    exact absurd rfl hrefused
  · exact ⟨e, rfl⟩
  · rw [hfate] at hrefused
    exact absurd ⟨htuple, e, hfate, hrefused⟩ hsilent

theorem revokeFrame (f : Faults) (r : PermissionsRequest) (w : World) (user : Nat)
    {shares : Finset (Nat × Nat)}
    (hshares : ∀ x, x ≠ (r.document, user) → (x ∈ shares ↔ x ∈ w.shares)) :
    Frame r [user] w { w with shares := shares, tuples := tuplesAfterDelete f r w user } := by
  refine ⟨rfl, rfl, rfl, fun x hx => hshares x (hx user (List.mem_singleton.mpr rfl)), ?_⟩
  intro t ht
  have hne := ht user (List.mem_singleton.mpr rfl)
  exact mem_tuplesAfterDelete.trans ⟨fun h => h.1, fun h => ⟨h, fun heq => absurd heq hne⟩⟩

/-- The row goes with its tuple unless its deletion fails without effect. -/
def sharesAfterDelete (f : Faults) (r : PermissionsRequest) (w : World) (user : Nat) :
    Finset (Nat × Nat) :=
  if f.sql (.deleteRow user) = .failed false then w.shares else w.shares.erase (r.document, user)

theorem mem_sharesAfterDelete_other {x : Nat × Nat} (h : x ≠ (r.document, user)) :
    x ∈ sharesAfterDelete f r w user ↔ x ∈ w.shares := by
  unfold sharesAfterDelete
  split
  · rfl
  · simp [h]

/-- A revoke whose tuple deletion is taken for done. -/
theorem revokeAccepted_effect (hready : (r.document, user) ∈ p.world.shares)
    (haccepted : deleteAccepted f user = true) {p' : Progress} {failure : Option UpdateError}
    (hworld : p'.world = { p.world with
      shares := sharesAfterDelete f r p.world user, tuples := tuplesAfterDelete f r p.world user })
    (hended : failure = none ↔ f.sql (.deleteRow user) = .done) (hmutated : p'.mutated = true)
    (happlied : p'.audit.appliedMode = p.audit.appliedMode)
    (hgranted : p'.audit.grantedApplied = p.audit.grantedApplied)
    (hrevoked : p'.audit.revokedApplied =
      p.audit.revokedApplied + if failure.isNone then 1 else 0) :
    RoundEffect f r (.revoke user) p p' failure := by
  have hgone (hrow : f.sql (.deleteRow user) ≠ .failed false) :
      (r.document, user) ∉ p'.world.shares := by
    rw [hworld]
    show _ ∉ sharesAfterDelete f r p.world user
    rw [sharesAfterDelete, if_neg hrow]
    exact Finset.notMem_erase _ _
  have htuple : explicitViewerTuple r.document user ∈ p'.world.tuples ↔
      explicitViewerTuple r.document user ∈ tuplesAfterDelete f r p.world user := by rw [hworld]
  constructor
  · rw [hworld]
    exact revokeFrame f r p.world user fun x hx => mem_sharesAfterDelete_other hx
  · simp [Round.completes, haccepted, hended]
  · exact fun _ => hmutated
  · intro hnone
    have hdone := hended.mp hnone
    refine ⟨hgone (by rw [hdone]; decide), htuple.trans (mem_tuplesAfterDelete.trans ?_)⟩
    simp
  · intro hread hin
    by_cases hrow : f.sql (.deleteRow user) = .failed false
    · rw [hworld]
      show _ ∈ sharesAfterDelete f r p.world user
      rw [sharesAfterDelete, if_pos hrow]
      exact hready
    · exact absurd (misread_of_tuple haccepted (htuple.mp hin) hrow) hread
  · exact fun h => ⟨htuple.mpr (tuple_of_misread h), hgone h.2.2⟩
  · exact fun h => .inl (mem_tuplesAfterDelete.mp (htuple.mp h)).1
  · exact fun h => by cases hmutated.symm.trans h
  · exact fun h => absurd haccepted (silent_refused h)
  · exact happlied
  · simpa [Round.isGrant] using hgranted
  · simpa [Round.isGrant] using hrevoked

theorem revokeRound_effect (f : Faults) (hready : (r.document, user) ∈ p.world.shares) :
    RoundEffect f r (.revoke user) p (revokeRound f r user p).1 (revokeRound f r user p).2 := by
  unfold revokeRound
  by_cases haccepted : deleteAccepted f user = true
  · rw [deleteTupleFgaFirst_accepted _ haccepted]
    cases hrow : f.sql (.deleteRow user) with
    | done =>
      simp only [execute, hrow]
      exact revokeAccepted_effect hready haccepted (by simp [sharesAfterDelete, hrow])
        (by simp [hrow]) rfl rfl rfl rfl
    | failed applied =>
      simp only [execute, hrow]
      cases applied with
      | false =>
        exact revokeAccepted_effect hready haccepted
          (by simp [sharesAfterDelete, hrow, Progress.failAt]) (by simp [hrow]) rfl rfl rfl rfl
      | true =>
        exact revokeAccepted_effect hready haccepted
          (by simp [sharesAfterDelete, hrow, Progress.failAt]) (by simp [hrow]) rfl rfl rfl rfl
  · obtain ⟨e, heq⟩ := deleteTupleFgaFirst_refused (r := r) p.world haccepted
    rw [heq]
    constructor
    · exact revokeFrame f r p.world user fun _ _ => Iff.rfl
    · simp [Round.completes, haccepted]
    · simp [Progress.failAt]
    · simp
    · exact fun _ _ => hready
    · exact fun h => absurd (misread_accepted h) haccepted
    · exact fun h => .inl (mem_tuplesAfterDelete.mp h).1
    · refine fun _ hsilent => ⟨Iff.rfl, fun h => (mem_tuplesAfterDelete.mp h).1, fun h => ?_⟩
      exact mem_tuplesAfterDelete.mpr ⟨h, fun _ => refused_without_effect haccepted h hsilent⟩
    · refine fun hsilent => ⟨rfl, fun hsame => ?_, by simp [Round.completes, haccepted]⟩
      obtain ⟨htuple, e', hfate, -⟩ := hsilent
      obtain ⟨-, hkept⟩ := mem_tuplesAfterDelete.mp (hsame.2.mpr htuple)
      obtain ⟨e'', hfate'⟩ := hkept rfl
      cases hfate.symm.trans hfate'
    · rfl
    · rfl
    · rfl

/-- The write takes effect unless it fails without effect. -/
def tuplesAfterWrite (f : Faults) (r : PermissionsRequest) (w : World) (user : Nat) : Fga.Store :=
  match f.fga (.writeTuple user) with
  | .failed false _ => w.tuples
  | _ => insert (explicitViewerTuple r.document user) w.tuples

theorem mem_tuplesAfterWrite_other {t : TupleKey} (h : t ≠ explicitViewerTuple r.document user) :
    t ∈ tuplesAfterWrite f r w user ↔ t ∈ w.tuples := by
  unfold tuplesAfterWrite
  rcases f.fga (.writeTuple user) with _ | ⟨_ | _, e⟩
  · simp [h]
  · rfl
  · simp [h]

theorem grantTuple_done (p : Progress) (hfate : f.fga (.writeTuple user) = .done)
    (hout : explicitViewerTuple r.document user ∉ p.world.tuples) :
    grantTuple f r user p =
      ({ p with
          world := { p.world with tuples := tuplesAfterWrite f r p.world user }
          audit := { p.audit with grantedApplied := p.audit.grantedApplied + 1 }
          mutated := true }, none) := by
  simp [grantTuple, writeTuple, tuplesAfterWrite, hfate, hout]

theorem grantTuple_failed (p : Progress) {applied : Bool} {e : AuthzError}
    (hfate : f.fga (.writeTuple user) = .failed applied e) :
    ∃ outbox, grantTuple f r user p =
      (p.failAt { p.world with tuples := tuplesAfterWrite f r p.world user, outbox := outbox }
        "grant".toList, some (.authz e)) := by
  unfold grantTuple writeTuple tuplesAfterWrite execute
  rw [hfate]
  cases applied <;> rcases f.sql (.enqueue user) with _ | ⟨_ | _⟩ <;> exact ⟨_, rfl⟩

theorem grantFrame (f : Faults) (r : PermissionsRequest) (w : World) (user : Nat)
    {shares : Finset (Nat × Nat)} (outbox : List AuthzRow)
    (hshares : ∀ x, x ≠ (r.document, user) → (x ∈ shares ↔ x ∈ w.shares)) :
    Frame r [user] w
      { w with shares := shares, tuples := tuplesAfterWrite f r w user, outbox := outbox } := by
  refine ⟨rfl, rfl, rfl, fun x hx => hshares x (hx user (List.mem_singleton.mpr rfl)), ?_⟩
  exact fun t ht => mem_tuplesAfterWrite_other (ht user (List.mem_singleton.mpr rfl))

/-- The write of a grant whose row is there. -/
theorem grantTuple_effect {g : GrantPlan} (p : Progress) {p' : Progress}
    (hout : explicitViewerTuple r.document g.user ∉ p.world.tuples)
    (hrow : (r.document, g.user) ∈ p'.world.shares)
    (hp' : p' = { p with world := { p.world with shares := p'.world.shares }, mutated := p'.mutated })
    (hshares : ∀ x, x ≠ (r.document, g.user) → (x ∈ p'.world.shares ↔ x ∈ p.world.shares))
    (hmutated : p.mutated = true → p'.mutated = true)
    (hcase : g.insertSqlRow = true ∧ f.sql (.insertRow g.user) = .done ∧ p'.mutated = true ∨
      g.insertSqlRow = false ∧ p' = p) :
    RoundEffect f r (.grant g) p (grantTuple f r g.user p').1 (grantTuple f r g.user p').2 := by
  have hout' : explicitViewerTuple r.document g.user ∉ p'.world.tuples := by
    rw [hp']
    exact hout
  cases hfate : f.fga (.writeTuple g.user) with
  | done =>
    rw [grantTuple_done p' hfate hout', hp']
    constructor
    · exact grantFrame f r p.world g.user p.world.outbox hshares
    · rcases hcase with ⟨-, hinserted, -⟩ | ⟨hinsert, -⟩
      · simp [Round.completes, hfate, hinserted]
      · simp [Round.completes, hfate, hinsert]
    · exact fun _ => rfl
    · exact fun _ => ⟨hrow, by simp [tuplesAfterWrite, hfate]⟩
    · exact fun _ _ => hrow
    · exact False.elim
    · exact fun _ => .inr rfl
    · exact fun h => by cases h
    · intro hsilent
      rcases hcase with ⟨hinsert, hinserted, -⟩ | ⟨hinsert, -⟩
      · rw [Round.Silent, if_pos hinsert, hinserted] at hsilent
        cases hsilent
      · rw [Round.Silent, if_neg (by simp [hinsert]), hfate] at hsilent
        obtain ⟨e, ⟨⟩⟩ := hsilent
    · rfl
    · rfl
    · rfl
  | failed applied e =>
    obtain ⟨outbox, heq⟩ := grantTuple_failed (r := r) p' hfate
    rw [heq, hp']
    constructor
    · exact grantFrame f r p.world g.user outbox hshares
    · simp [Round.completes, hfate]
    · exact fun h => hmutated (h.resolve_right (by simp))
    · simp
    · exact fun _ _ => hrow
    · exact False.elim
    · exact fun _ => .inr rfl
    · intro hfalse hsilent
      rcases hcase with ⟨-, -, htrue⟩ | ⟨hinsert, rfl⟩
      · cases htrue.symm.trans hfalse
      · rw [Round.Silent, if_neg (by simp [hinsert])] at hsilent
        cases applied with
        | false => exact ⟨Iff.rfl, by simp [tuplesAfterWrite, hfate, Progress.failAt]⟩
        | true => exact absurd ⟨e, hfate⟩ hsilent
    · intro hsilent
      rcases hcase with ⟨hinsert, hinserted, -⟩ | ⟨hinsert, rfl⟩
      · rw [Round.Silent, if_pos hinsert, hinserted] at hsilent
        cases hsilent
      · rw [Round.Silent, if_neg (by simp [hinsert])] at hsilent
        obtain ⟨e', hfate'⟩ := hsilent
        refine ⟨rfl, fun hsame => hout (hsame.2.mp ?_), by simp [Round.completes, hfate]⟩
        simp [tuplesAfterWrite, hfate', Progress.failAt, Round.user]
    · rfl
    · rfl
    · rfl

theorem grantRound_effect (f : Faults) {g : GrantPlan} (hready : (Round.grant g).Ready r p.world) :
    RoundEffect f r (.grant g) p (grantRound f r g p).1 (grantRound f r g p).2 := by
  obtain ⟨hout, hplan⟩ := hready
  unfold grantRound
  by_cases hinsert : g.insertSqlRow = true
  · rw [if_pos hinsert]
    cases hrow : f.sql (.insertRow g.user) with
    | done =>
      simp only [execute, hrow]
      exact grantTuple_effect p hout (Finset.mem_insert_self _ _) rfl (fun x hx => by simp [hx])
        (fun h => by simp [h]) (.inl ⟨hinsert, hrow, by simp [hplan.mp hinsert]⟩)
    | failed applied =>
      simp only [execute, hrow]
      constructor
      · cases applied with
        | false => exact ⟨rfl, rfl, rfl, fun _ _ => Iff.rfl, fun _ _ => Iff.rfl⟩
        | true =>
          refine ⟨rfl, rfl, rfl, fun x hx => ?_, fun _ _ => Iff.rfl⟩
          exact Finset.mem_insert.trans (or_iff_right (hx g.user (List.mem_singleton.mpr rfl)))
      · simp [Round.completes, hinsert, hrow]
      · exact fun h => h.resolve_right (by simp)
      · simp
      · refine fun _ htuple => absurd ?_ hout
        cases applied <;> exact htuple
      · exact False.elim
      · exact fun _ => .inr rfl
      · intro _ hsilent
        rw [Round.Silent, if_pos hinsert] at hsilent
        cases applied with
        | false => exact ⟨Iff.rfl, Iff.rfl⟩
        | true => exact absurd hrow hsilent
      · intro hsilent
        rw [Round.Silent, if_pos hinsert] at hsilent
        obtain rfl : applied = true := SqlFate.failed.inj (hrow.symm.trans hsilent)
        refine ⟨rfl, fun hsame => hplan.mp hinsert (hsame.1.mp ?_), by simp [Round.completes, hinsert,
          hrow]⟩
        exact Finset.mem_insert_self _ _
      · rfl
      · rfl
      · rfl
  · rw [if_neg hinsert]
    have hshared : (r.document, g.user) ∈ p.world.shares := by
      by_contra hnot
      exact hinsert (hplan.mpr hnot)
    exact grantTuple_effect p hout hshared rfl (fun _ _ => Iff.rfl) (fun h => h)
      (.inr ⟨Bool.eq_false_iff.mpr hinsert, rfl⟩)

/-- What one round does. -/
theorem runRound_effect (f : Faults) {round : Round} (hready : round.Ready r p.world) :
    RoundEffect f r round p (runRound f r round p).1 (runRound f r round p).2 := by
  cases round with
  | revoke user => exact revokeRound_effect f hready
  | grant g => exact grantRound_effect f hready

/-- The rounds that the loops begin: those that complete, and the one that fails. -/
def reached (f : Faults) : List Round → List Round
  | [] => []
  | round :: rounds => round :: if round.completes f then reached f rounds else []

def completed (f : Faults) (rounds : List Round) : List Round :=
  rounds.takeWhile (Round.completes f)

theorem Frame.same {users : List Nat} {w w' : World} (h : Frame r users w w') (hu : user ∉ users) :
    Same r user w w' := by
  constructor
  · refine h.rows _ fun user' hin heq => hu ?_
    rwa [(Prod.mk.inj heq).2]
  · refine h.tuples _ fun user' hin heq => hu ?_
    rwa [explicitViewerTuple_inj.mp heq]

theorem Frame.trans {users users' : List Nat} {w w' w'' : World} (h : Frame r users w w')
    (h' : Frame r users' w' w'') : Frame r (users ++ users') w w'' := by
  refine ⟨h'.documents.trans h.documents, h'.members.trans h.members, h'.audits.trans h.audits,
    fun x hx => ?_, fun t ht => ?_⟩
  · exact (h'.rows x fun user hu => hx user (List.mem_append_right _ hu)).trans
      (h.rows x fun user hu => hx user (List.mem_append_left _ hu))
  · exact (h'.tuples t fun user hu => ht user (List.mem_append_right _ hu)).trans
      (h.tuples t fun user hu => ht user (List.mem_append_left _ hu))

theorem Frame.refl (r : PermissionsRequest) (users : List Nat) (w : World) : Frame r users w w :=
  ⟨rfl, rfl, rfl, fun _ _ => Iff.rfl, fun _ _ => Iff.rfl⟩

theorem Round.Ready.congr {round : Round} {w w' : World} (h : round.Ready r w)
    (hsame : Same r round.user w w') : round.Ready r w' := by
  cases round with
  | revoke user => exact hsame.1.mpr h
  | grant g => exact ⟨fun hin => h.1 (hsame.2.mp hin), h.2.trans (not_congr hsame.1).symm⟩

theorem Round.misread_congr {round : Round} {w w' : World} (hsame : Same r round.user w w') :
    round.Misread f r w' ↔ round.Misread f r w := by
  cases round with
  | revoke user => exact and_congr_left fun _ => hsame.2
  | grant g => exact Iff.rfl

theorem Round.done_congr_left {round : Round} {w w' w'' : World} (hsame : Same r round.user w w')
    (h : round.Done f r w' w'') : round.Done f r w w'' := by
  cases round with
  | revoke user => exact ⟨h.1, h.2.trans (and_congr_left fun _ => hsame.2)⟩
  | grant g => exact h

theorem Round.done_congr_right {round : Round} {w w' w'' : World}
    (hsame : Same r round.user w' w'') (h : round.Done f r w w') : round.Done f r w w'' := by
  cases round with
  | revoke user => exact ⟨fun hin => h.1 (hsame.1.mp hin), hsame.2.trans h.2⟩
  | grant g => exact ⟨hsame.1.mpr h.1, hsame.2.mpr h.2⟩

theorem reached_subset {rounds : List Round} : reached f rounds ⊆ rounds := by
  induction rounds with
  | nil => exact List.Subset.refl _
  | cons round rounds ih =>
    refine List.cons_subset_cons _ ?_
    split
    · exact ih
    · exact List.nil_subset _

/-- What the loops do, up to the first failure. -/
structure RunEffect (f : Faults) (r : PermissionsRequest) (rounds : List Round) (p p' : Progress)
    (failure : Option UpdateError) : Prop where
  frame : Frame r (rounds.map Round.user) p.world p'.world
  ended : failure = none ↔ ∀ round ∈ rounds, round.completes f = true
  mutated : p.mutated = true ∨ completed f rounds ≠ [] → p'.mutated = true
  done : ∀ round ∈ completed f rounds, round.Done f r p.world p'.world
  shared : TuplesShared r.document p.world →
    (∀ round ∈ reached f rounds, ¬ round.Misread f r p.world) → TuplesShared r.document p'.world
  misread : ∀ round ∈ reached f rounds, round.Misread f r p.world →
    explicitViewerTuple r.document round.user ∈ p'.world.tuples ∧
      (r.document, round.user) ∉ p'.world.shares
  kept : ∀ user, explicitViewerTuple r.document user ∈ p'.world.tuples →
    explicitViewerTuple r.document user ∈ p.world.tuples ∨
      ∃ round ∈ rounds, round.isGrant = true ∧ round.user = user
  applied : p'.audit.appliedMode = p.audit.appliedMode
  granted : p'.audit.grantedApplied =
    p.audit.grantedApplied + (completed f rounds).countP Round.isGrant
  revoked : p'.audit.revokedApplied =
    p.audit.revokedApplied + (completed f rounds).countP fun round => !round.isGrant

theorem RoundEffect.shared_all {round : Round} {p p' : Progress} {failure : Option UpdateError}
    (h : RoundEffect f r round p p' failure) (hshared : TuplesShared r.document p.world)
    (hread : ¬ round.Misread f r p.world) : TuplesShared r.document p'.world := by
  intro user htuple
  by_cases heq : user = round.user
  · subst heq
    exact h.shared hread htuple
  · have hsame := h.frame.same (by simpa using heq)
    exact hsame.1.mpr (hshared user (hsame.2.mp htuple))

theorem RoundEffect.kept_all {round : Round} {p p' : Progress} {failure : Option UpdateError}
    (h : RoundEffect f r round p p' failure)
    (htuple : explicitViewerTuple r.document user ∈ p'.world.tuples) :
    explicitViewerTuple r.document user ∈ p.world.tuples ∨
      round.isGrant = true ∧ round.user = user := by
  by_cases heq : user = round.user
  · subst heq
    exact (h.kept htuple).imp_right fun hgrant => ⟨hgrant, rfl⟩
  · exact .inl ((h.frame.same (by simpa using heq)).2.mp htuple)

section Extend

variable {round : Round} {rounds : List Round} {p₁ p' : Progress} {failure : Option UpdateError}

/-- A round that fails ends the loops. -/
theorem RoundEffect.stop {e : UpdateError} (h : RoundEffect f r round p p' (some e)) :
    RunEffect f r (round :: rounds) p p' (some e) := by
  have hfails : ¬ round.completes f = true := fun hcompletes => by cases h.ended.mpr hcompletes
  have hcompleted : completed f (round :: rounds) = [] := List.takeWhile_cons_of_neg hfails
  have hreached : reached f (round :: rounds) = [round] := by rw [reached, if_neg hfails]
  refine ⟨h.frame.trans (.refl ..), ?_, ?_, ?_, ?_, ?_, ?_, h.applied, ?_, ?_⟩
  · exact iff_of_false (by simp) fun hall => hfails (hall round (List.mem_cons_self ..))
  · rw [hcompleted]
    exact fun hmutated => h.mutated (.inl (hmutated.resolve_right (not_not.mpr rfl)))
  · rw [hcompleted]
    exact fun _ hin => absurd hin List.not_mem_nil
  · rw [hreached]
    exact fun hshared hread => h.shared_all hshared (hread round (List.mem_singleton.mpr rfl))
  · rw [hreached]
    intro round' hin hmisread
    obtain rfl := List.mem_singleton.mp hin
    exact h.misread hmisread
  · exact fun user htuple => (h.kept_all htuple).imp_right fun hgrant =>
      ⟨round, List.mem_cons_self .., hgrant⟩
  · rw [hcompleted]
    exact h.granted
  · rw [hcompleted]
    exact h.revoked

/-- The rounds after one that completes are about other users, so what they find is what was there
before it. -/
theorem RoundEffect.next (h : RoundEffect f r round p p₁ none)
    (hrest : RunEffect f r rounds p₁ p' failure) (hfresh : round.user ∉ rounds.map Round.user)
    (hother : ∀ round' ∈ rounds, Same r round'.user p.world p₁.world) :
    RunEffect f r (round :: rounds) p p' failure := by
  have hcompletes : round.completes f = true := h.ended.mp rfl
  have hcompleted : completed f (round :: rounds) = round :: completed f rounds :=
    List.takeWhile_cons_of_pos hcompletes
  have hreached : reached f (round :: rounds) = round :: reached f rounds := by
    rw [reached, if_pos hcompletes]
  have hself : Same r round.user p₁.world p'.world := hrest.frame.same hfresh
  have hreadable : ∀ round' ∈ reached f rounds,
      (round'.Misread f r p₁.world ↔ round'.Misread f r p.world) := fun round' hin =>
    Round.misread_congr (hother round' (reached_subset hin))
  refine ⟨h.frame.trans hrest.frame, ?_, ?_, ?_, ?_, ?_, ?_, hrest.applied.trans h.applied, ?_, ?_⟩
  · rw [hrest.ended, List.forall_mem_cons]
    exact ⟨fun hall => ⟨hcompletes, hall⟩, fun hall => hall.2⟩
  · exact fun _ => hrest.mutated (.inl (h.mutated (.inr rfl)))
  · rw [hcompleted]
    intro round' hin
    rcases List.mem_cons.mp hin with rfl | hin
    · exact Round.done_congr_right hself (h.done rfl)
    · exact Round.done_congr_left (hother round' ((List.takeWhile_subset _) hin))
        (hrest.done round' hin)
  · rw [hreached]
    intro hshared hread
    refine hrest.shared (h.shared_all hshared (hread round (List.mem_cons_self ..))) ?_
    intro round' hin hmisread
    exact hread round' (List.mem_cons_of_mem _ hin) ((hreadable round' hin).mp hmisread)
  · rw [hreached]
    intro round' hin hmisread
    rcases List.mem_cons.mp hin with rfl | hin
    · have hlost := h.misread hmisread
      exact ⟨hself.2.mpr hlost.1, fun hin => hlost.2 (hself.1.mp hin)⟩
    · exact hrest.misread round' hin ((hreadable round' hin).mpr hmisread)
  · intro user htuple
    rcases hrest.kept user htuple with hkept | ⟨round', hin, hgrant⟩
    · exact (h.kept_all hkept).imp_right fun hgrant => ⟨round, List.mem_cons_self .., hgrant⟩
    · exact .inr ⟨round', List.mem_cons_of_mem _ hin, hgrant⟩
  · rw [hcompleted, List.countP_cons, hrest.granted, h.granted]
    simp only [Option.isNone_none, true_and]
    omega
  · rw [hcompleted, List.countP_cons, hrest.revoked, h.revoked]
    simp only [Option.isNone_none, true_and]
    omega

end Extend

theorem runRounds_effect (f : Faults) {rounds : List Round} (hnodup : (rounds.map Round.user).Nodup)
    (hready : ∀ round ∈ rounds, round.Ready r p.world) :
    RunEffect f r rounds p (runRounds f r rounds p).1 (runRounds f r rounds p).2 := by
  induction rounds generalizing p with
  | nil =>
    refine ⟨.refl .., by simp [runRounds], ?_, by simp [completed], fun h _ => h,
      by simp [reached], fun _ h => .inl h, rfl, rfl, rfl⟩
    exact fun h => h.resolve_right (by simp [completed])
  | cons round rounds ih =>
    have heffect := runRound_effect f (hready round (List.mem_cons_self ..))
    rw [runRounds]
    generalize runRound f r round p = out at heffect ⊢
    obtain ⟨p₁, failure⟩ := out
    obtain ⟨hfresh, hnodup⟩ := List.nodup_cons.mp hnodup
    cases failure with
    | some e => exact heffect.stop
    | none =>
      have hother : ∀ round' ∈ rounds, Same r round'.user p.world p₁.world := by
        intro round' hin
        refine heffect.frame.same fun hu => hfresh ?_
        exact List.mem_singleton.mp hu ▸ List.mem_map_of_mem hin
      have hrest := ih (p := p₁) hnodup fun round' hin =>
        (hready round' (List.mem_cons_of_mem _ hin)).congr (hother round' hin)
      exact heffect.next hrest hfresh hother

end Rounds

end GmragApi.PermissionsCall

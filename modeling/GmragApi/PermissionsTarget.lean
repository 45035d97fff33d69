import GmragApi.PermissionsSteps

/-! A call of `replace_document_permissions` that meets no failure: it reaches its target, and after
it the same call changes nothing. -/

namespace GmragApi.PermissionsCall

open DocumentAcl

/-- Mode, rows and tuples are those that the request asks for. -/
structure ReachesTarget (r : PermissionsRequest) (w : World) : Prop where
  mode : (w.documentIn r.workspace r.document).map Document.accessMode = some r.requestedMode
  rows : ∀ user, (r.document, user) ∈ w.shares ↔ user ∈ uniqueUserIds r.authorizedUserIds
  tuples : ∀ user, explicitViewerTuple r.document user ∈ w.tuples ↔
    user ∈ uniqueUserIds r.authorizedUserIds

section Plan

variable {r : PermissionsRequest} {w w' : World} {d : Document} {user : Nat}

/-- The plan that the state of the document calls for. -/
def World.plan (w : World) (r : PermissionsRequest) (d : Document) : Plan :=
  ⟨d.accessMode, r.toRevoke (w.currentUserIds r.document), toGrant w r⟩

theorem mem_uniqueUserIds {userIds : List Nat} : user ∈ uniqueUserIds userIds ↔ user ∈ userIds :=
  List.mem_eraseDups

theorem missingGrant_eq_some {document : Nat} {g : GrantPlan}
    (h : missingGrant w document user = some g) :
    g.user = user ∧ (g.insertSqlRow = true ↔ (document, user) ∉ w.shares) ∧
      (g.insertSqlRow = false → explicitViewerTuple document user ∉ w.tuples) := by
  unfold missingGrant at h
  split at h
  next hrow =>
    obtain rfl := Option.some.inj h
    exact ⟨rfl, iff_of_true rfl hrow, fun hfalse => by cases hfalse⟩
  next hrow =>
    obtain ⟨htuple, h⟩ := Option.ite_none_right_eq_some.mp h
    obtain rfl := Option.some.inj h
    exact ⟨rfl, iff_of_false (by simp) hrow, fun _ => htuple⟩

theorem missingGrant_eq_none {document : Nat} : missingGrant w document user = none ↔
    (document, user) ∈ w.shares ∧ explicitViewerTuple document user ∈ w.tuples := by
  unfold missingGrant
  by_cases hrow : (document, user) ∈ w.shares
  · by_cases htuple : explicitViewerTuple document user ∈ w.tuples
    · simp [hrow, htuple]
    · simp [hrow, htuple]
  · simp [hrow]

theorem mem_toGrant {g : GrantPlan} : g ∈ toGrant w r ↔
    g.user ∈ r.authorizedUserIds ∧ missingGrant w r.document g.user = some g := by
  rw [toGrant, List.mem_filterMap]
  constructor
  · rintro ⟨user, hin, hg⟩
    obtain ⟨rfl, -⟩ := missingGrant_eq_some hg
    exact ⟨mem_planned.mp hin, hg⟩
  · rintro ⟨hin, hg⟩
    exact ⟨g.user, mem_planned.mpr hin, hg⟩

theorem toGrant_users_nodup (w : World) (r : PermissionsRequest) :
    ((toGrant w r).map GrantPlan.user).Nodup := by
  have hplanned : r.planned.Nodup := by
    unfold PermissionsRequest.planned
    split
    · exact List.nodup_nil
    · exact uniqueUserIds_nodup _
  have hsub : ∀ users : List Nat,
      ((users.filterMap (missingGrant w r.document)).map GrantPlan.user).Sublist users := by
    intro users
    induction users with
    | nil => exact .slnil
    | cons user users ih =>
      cases hg : missingGrant w r.document user with
      | none =>
        rw [List.filterMap_cons_none hg]
        exact ih.cons user
      | some g =>
        rw [List.filterMap_cons_some hg, List.map_cons, (missingGrant_eq_some hg).1]
        exact ih.cons_cons user
  exact hplanned.sublist (hsub r.planned)

theorem mem_toRevoke_current :
    user ∈ r.toRevoke (w.currentUserIds r.document) ↔
      (r.document, user) ∈ w.shares ∧ user ∉ r.authorizedUserIds := by
  rw [mem_toRevoke, mem_currentUserIds]

theorem plan_users (w : World) (r : PermissionsRequest) (d : Document) :
    (w.plan r d).rounds.map Round.user =
      r.toRevoke (w.currentUserIds r.document) ++ (toGrant w r).map GrantPlan.user := by
  simp only [Plan.rounds, World.plan, List.map_append, List.map_map]
  congr 1
  exact List.map_id' _

theorem plan_users_nodup (w : World) (r : PermissionsRequest) (d : Document) :
    ((w.plan r d).rounds.map Round.user).Nodup := by
  rw [plan_users]
  refine List.Nodup.append ?_ (toGrant_users_nodup w r) ?_
  · exact (Finset.sort_nodup _ _).filter _
  · intro user hrevoke hgrant
    obtain ⟨g, hg, rfl⟩ := List.mem_map.mp hgrant
    exact (mem_toRevoke_current.mp hrevoke).2 (mem_toGrant.mp hg).1

theorem mem_rounds {round : Round} : round ∈ (w.plan r d).rounds ↔
    (∃ user, round = .revoke user ∧ (r.document, user) ∈ w.shares ∧ user ∉ r.authorizedUserIds) ∨
      ∃ g ∈ toGrant w r, round = .grant g := by
  simp only [Plan.rounds, World.plan, List.mem_append, List.mem_map, mem_toRevoke_current]
  constructor
  · rintro (⟨user, hin, rfl⟩ | ⟨g, hin, rfl⟩)
    · exact .inl ⟨user, rfl, hin⟩
    · exact .inr ⟨g, hin, rfl⟩
  · rintro (⟨user, rfl, hin⟩ | ⟨g, hin, rfl⟩)
    · exact .inl ⟨user, hin, rfl⟩
    · exact .inr ⟨g, hin, rfl⟩

theorem plan_ready (hshared : TuplesShared r.document w) :
    ∀ round ∈ (w.plan r d).rounds, round.Ready r w := by
  intro round hin
  rcases mem_rounds.mp hin with ⟨user, rfl, hrow, -⟩ | ⟨g, hg, rfl⟩
  · exact hrow
  · obtain ⟨-, hrow, htuple⟩ := missingGrant_eq_some (mem_toGrant.mp hg).2
    refine ⟨fun hin => ?_, hrow⟩
    have hnot := mt hrow.mp (not_not.mpr (hshared g.user hin))
    exact htuple (Bool.not_eq_true _ ▸ hnot) hin

/-- A user for whom the plan has no round has row and tuple, or neither, as the request asks. -/
theorem settled_of_no_round (user : Nat) (hshared : TuplesShared r.document w)
    (hu : user ∉ (w.plan r d).rounds.map Round.user) :
    ((r.document, user) ∈ w.shares ↔ user ∈ r.authorizedUserIds) ∧
      (explicitViewerTuple r.document user ∈ w.tuples ↔ user ∈ r.authorizedUserIds) := by
  rw [plan_users, List.mem_append, not_or, mem_toRevoke_current, not_and, not_not] at hu
  obtain ⟨hrevoke, hgrant⟩ := hu
  have hmissing : user ∈ r.authorizedUserIds → missingGrant w r.document user = none := by
    intro hin
    refine Option.eq_none_iff_forall_ne_some.mpr fun g hg => hgrant ?_
    obtain ⟨rfl, -⟩ := missingGrant_eq_some hg
    exact List.mem_map_of_mem (mem_toGrant.mpr ⟨hin, hg⟩)
  refine ⟨⟨hrevoke, fun hin => (missingGrant_eq_none.mp (hmissing hin)).1⟩,
    ⟨fun hin => hrevoke (hshared user hin), fun hin => (missingGrant_eq_none.mp (hmissing hin)).2⟩⟩

/-- The plan is empty just when rows and tuples are those of the request. -/
theorem plan_idle (hrows : ∀ user, (r.document, user) ∈ w.shares ↔ user ∈ r.authorizedUserIds)
    (htuples : ∀ user, explicitViewerTuple r.document user ∈ w.tuples ↔
      user ∈ r.authorizedUserIds) :
    (w.plan r d).toRevoke = [] ∧ (w.plan r d).toGrant = [] := by
  constructor
  · refine List.eq_nil_iff_forall_not_mem.mpr fun user hin => ?_
    obtain ⟨hrow, hout⟩ := mem_toRevoke_current.mp hin
    exact hout ((hrows user).mp hrow)
  · refine List.eq_nil_iff_forall_not_mem.mpr fun g hg => ?_
    obtain ⟨hin, hmissing⟩ := mem_toGrant.mp hg
    rw [missingGrant_eq_none.mpr ⟨(hrows _).mpr hin, (htuples _).mpr hin⟩] at hmissing
    cases hmissing

end Plan

section Alone

variable {r : PermissionsRequest} {w : World} {d : Document} {actor : Nat}

theorem completes_none (round : Round) : round.completes .none = true := by
  cases round with
  | revoke user => simp [Round.completes, deleteAccepted, Faults.none]
  | grant g => simp [Round.completes, Faults.none]

theorem completed_none (rounds : List Round) : completed .none rounds = rounds :=
  List.takeWhile_eq_self_iff.mpr fun round _ => completes_none round

/-- The world in which the loops begin. -/
def World.withMode (w : World) (r : PermissionsRequest) (previousMode : DocumentAccessMode) :
    World :=
  if previousMode = r.requestedMode then w else w.setMode r.document r.requestedMode

theorem commitMode_none (r : PermissionsRequest) (w : World) (previousMode : DocumentAccessMode) :
    commitMode .none r w previousMode = (w.withMode r previousMode, .ok ()) := by
  simp [commitMode, Faults.none, World.withMode]

@[simp] theorem withMode_shares (w : World) (r : PermissionsRequest) (m : DocumentAccessMode) :
    (w.withMode r m).shares = w.shares := by
  unfold World.withMode
  split <;> rfl

@[simp] theorem withMode_tuples (w : World) (r : PermissionsRequest) (m : DocumentAccessMode) :
    (w.withMode r m).tuples = w.tuples := by
  unfold World.withMode
  split <;> rfl

@[simp] theorem withMode_members (w : World) (r : PermissionsRequest) (m : DocumentAccessMode) :
    (w.withMode r m).members = w.members := by
  unfold World.withMode
  split <;> rfl

@[simp] theorem withMode_audits (w : World) (r : PermissionsRequest) (m : DocumentAccessMode) :
    (w.withMode r m).audits = w.audits := by
  unfold World.withMode
  split <;> rfl

theorem documentIn_setMode {workspace document : Nat} {mode : DocumentAccessMode}
    (hd : w.documentIn workspace document = some d) :
    (w.setMode document mode).documentIn workspace document = some { d with accessMode := mode } := by
  obtain ⟨hdoc, hworkspace⟩ := Option.filter_eq_some_iff.mp hd
  simp only [World.documentIn, World.setMode, Function.update_self, hdoc, Option.map_some]
  exact Option.filter_eq_some_iff.mpr ⟨rfl, hworkspace⟩

theorem documentIn_withMode (hd : w.documentIn r.workspace r.document = some d) :
    (w.withMode r d.accessMode).documentIn r.workspace r.document =
      some { d with accessMode := r.requestedMode } := by
  unfold World.withMode
  split
  next heq => rw [hd, ← heq]
  next => exact documentIn_setMode hd

theorem documentIn_congr {w' : World} (h : w'.documents = w.documents) (workspace document : Nat) :
    w'.documentIn workspace document = w.documentIn workspace document := by
  rw [World.documentIn, World.documentIn, h]

theorem writeAudit_documents (r : PermissionsRequest) (actor : Nat) (p : Progress) :
    (writePermissionsAuditIfMutated r actor p).documents = p.world.documents := by
  unfold writePermissionsAuditIfMutated
  split <;> rfl

theorem writeAudit_shares (r : PermissionsRequest) (actor : Nat) (p : Progress) :
    (writePermissionsAuditIfMutated r actor p).shares = p.world.shares := by
  unfold writePermissionsAuditIfMutated
  split <;> rfl

theorem writeAudit_tuples (r : PermissionsRequest) (actor : Nat) (p : Progress) :
    (writePermissionsAuditIfMutated r actor p).tuples = p.world.tuples := by
  unfold writePermissionsAuditIfMutated
  split <;> rfl

theorem writeAudit_members (r : PermissionsRequest) (actor : Nat) (p : Progress) :
    (writePermissionsAuditIfMutated r actor p).members = p.world.members := by
  unfold writePermissionsAuditIfMutated
  split <;> rfl

/-- Once all rounds are done, row and tuple of every user are as the request asks. -/
theorem RunEffect.settled {p p' : Progress} {failure : Option UpdateError} (user : Nat)
    (h : RunEffect .none r (w.plan r d).rounds p p' failure) (hshared : TuplesShared r.document w)
    (hshares : p.world.shares = w.shares) (htuples : p.world.tuples = w.tuples) :
    ((r.document, user) ∈ p'.world.shares ↔ user ∈ r.authorizedUserIds) ∧
      (explicitViewerTuple r.document user ∈ p'.world.tuples ↔ user ∈ r.authorizedUserIds) := by
  have hdone := h.done
  rw [completed_none] at hdone
  by_cases hu : user ∈ (w.plan r d).rounds.map Round.user
  · obtain ⟨round, hin, rfl⟩ := List.mem_map.mp hu
    have hround := hdone round hin
    rcases mem_rounds.mp hin with ⟨user, rfl, -, hout⟩ | ⟨g, hg, rfl⟩
    · refine ⟨iff_of_false hround.1 hout, iff_of_false (fun htuple => ?_) hout⟩
      obtain ⟨-, e, hfate⟩ := hround.2.mp htuple
      cases hfate
    · have hlisted := (mem_toGrant.mp hg).1
      exact ⟨iff_of_true hround.1 hlisted, iff_of_true hround.2 hlisted⟩
  · have hsame := h.frame.same hu
    have hsettled := settled_of_no_round user hshared hu
    rw [Same, hshares, htuples] at hsame
    exact ⟨hsame.1.trans hsettled.1, hsame.2.trans hsettled.2⟩

/-- What the loops of a call do, from the commit on. -/
theorem plan_effect (f : Faults) (d : Document) (hshared : TuplesShared r.document w) :
    RunEffect f r (w.plan r d).rounds
      ((w.plan r d).begin r (w.withMode r (w.plan r d).previousMode))
      (runRounds f r (w.plan r d).rounds
        ((w.plan r d).begin r (w.withMode r (w.plan r d).previousMode))).1
      (runRounds f r (w.plan r d).rounds
        ((w.plan r d).begin r (w.withMode r (w.plan r d).previousMode))).2 := by
  refine runRounds_effect f (plan_users_nodup w r d) fun round hin => ?_
  exact (plan_ready hshared round hin).congr ⟨by simp [Plan.begin], by simp [Plan.begin]⟩

theorem run_reaches_target (actor : Nat) (hd : w.documentIn r.workspace r.document = some d)
    (hshared : TuplesShared r.document w)
    (hmembers : ∀ g ∈ toGrant w r, Member w r.workspace g.user) :
    ∃ w', replaceDocumentPermissions .none r w actor = (w', .ok (some ())) ∧
      ReachesTarget r w' := by
  have hprepare : prepare .none r w = .ok (some (w.plan r d)) := prepare_none hd hmembers
  unfold replaceDocumentPermissions
  rw [hprepare]
  dsimp only
  by_cases hidle : (w.plan r d).previousMode = r.requestedMode ∧ (w.plan r d).toRevoke = [] ∧
      (w.plan r d).toGrant = []
  · have hsettled : ∀ user, _ := fun user => settled_of_no_round (r := r) (d := d) user
      hshared (by simp [Plan.rounds, hidle.2.1, hidle.2.2])
    rw [if_pos hidle]
    refine ⟨w, rfl, ?_, fun user => (hsettled user).1.trans mem_uniqueUserIds.symm,
      fun user => (hsettled user).2.trans mem_uniqueUserIds.symm⟩
    rw [hd]
    exact congrArg some hidle.1
  · rw [if_neg hidle, applyPlan, commitMode_none]
    have heffect := plan_effect .none d hshared
    dsimp only
    generalize runRounds .none r (w.plan r d).rounds _ = out at heffect ⊢
    obtain ⟨p', failure⟩ := out
    obtain rfl : failure = none := heffect.ended.mpr fun round _ => completes_none round
    have hsettled : ∀ user, _ := fun user => heffect.settled user hshared
      (withMode_shares w r d.accessMode) (withMode_tuples w r d.accessMode)
    refine ⟨_, rfl, ?_, fun user => ?_, fun user => ?_⟩
    · have hdocuments := (writeAudit_documents r actor
        { p' with audit := { p'.audit with completed := true } }).trans heffect.frame.documents
      rw [documentIn_congr hdocuments]
      exact congrArg (Option.map Document.accessMode) (documentIn_withMode hd)
    · rw [writeAudit_shares]
      exact (hsettled user).1.trans mem_uniqueUserIds.symm
    · rw [writeAudit_tuples]
      exact (hsettled user).2.trans mem_uniqueUserIds.symm

/-- A request whose target is reached changes nothing. -/
theorem replace_idle (actor : Nat) (h : ReachesTarget r w) :
    replaceDocumentPermissions .none r w actor = (w, .ok (some ())) := by
  obtain ⟨d, hd, hmode⟩ := Option.map_eq_some_iff.mp h.mode
  obtain ⟨hrevoke, hgrant⟩ := plan_idle (d := d)
    (fun user => (h.rows user).trans mem_uniqueUserIds)
    (fun user => (h.tuples user).trans mem_uniqueUserIds)
  have hprepare : prepare .none r w = .ok (some (w.plan r d)) := by
    refine prepare_none hd fun g hg => ?_
    have hnobody : toGrant w r = [] := hgrant
    rw [hnobody] at hg
    cases hg
  unfold replaceDocumentPermissions
  rw [hprepare]
  exact if_pos ⟨hmode, hrevoke, hgrant⟩

end Alone

/-- A call that runs alone and without failures reaches the target of its request, whatever mode,
rows and tuples it finds; the same call again changes nothing and writes no audit event. -/
theorem permissions_put_idempotent (w : World) (r : PermissionsRequest) (actor : Nat) (d : Document)
    (hd : w.documentIn r.workspace r.document = some d) (hshared : TuplesShared r.document w)
    (hmembers : ∀ g ∈ toGrant w r, Member w r.workspace g.user) :
    ∃ w', replaceDocumentPermissions .none r w actor = (w', .ok (some ())) ∧ ReachesTarget r w' ∧
      replaceDocumentPermissions .none r w' actor = (w', .ok (some ())) := by
  obtain ⟨w', hrun, htarget⟩ := run_reaches_target actor hd hshared hmembers
  exact ⟨w', hrun, htarget, replace_idle actor htarget⟩

/-- Document 5 of workspace 1, by default for the workspace: user 2 has a row and a tuple, user 3
a row only, and users 3 and 4 are members. -/
def mixedWorld : World where
  documents := fun id => if id = 5 then some ⟨1, .workspaceDefault⟩ else none
  shares := {(5, 2), (5, 3)}
  members := {(1, 3), (1, 4)}
  tuples := {explicitViewerTuple 5 2, ⟨.user 3, .member, .workspace 1⟩,
    ⟨.user 4, .admin, .workspace 1⟩}
  outbox := []
  audits := []

def mixedRequest : PermissionsRequest := ⟨5, 1, .restricted, [3, 4, 3], by rintro ⟨⟩⟩

theorem permissions_put_idempotent_mixed :
    ∃ w', replaceDocumentPermissions .none mixedRequest mixedWorld 9 = (w', .ok (some ())) ∧
      ReachesTarget mixedRequest w' ∧
      replaceDocumentPermissions .none mixedRequest w' 9 = (w', .ok (some ())) := by
  refine permissions_put_idempotent mixedWorld mixedRequest 9 ⟨1, .workspaceDefault⟩ (by decide) ?_ ?_
  · intro user (htuple : explicitViewerTuple 5 user ∈ mixedWorld.tuples)
    obtain rfl : user = 2 := by simpa [mixedWorld, explicitViewerTuple] using htuple
    decide
  · decide +kernel

end GmragApi.PermissionsCall

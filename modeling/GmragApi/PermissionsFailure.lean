import GmragApi.PermissionsTarget

/-! A call of `replace_document_permissions` that fails: what it leaves behind, what its audit record
accounts for, and that the same call can be made again. -/

namespace GmragApi.PermissionsCall

open DocumentAcl

def modeOf (r : PermissionsRequest) (w : World) : Option DocumentAccessMode :=
  (w.documentIn r.workspace r.document).map Document.accessMode

/-- The mode of the document, or a row or a tuple of a user, is not what it was. -/
def Changed (r : PermissionsRequest) (w w' : World) : Prop :=
  modeOf r w' ≠ modeOf r w ∨ ∃ user, ¬ Same r user w w'

/-- One audit event is written, with the mode that is in force and the rounds that completed. -/
structure Accounted (f : Faults) (r : PermissionsRequest) (plan : Plan) (w w' : World)
    (event : AuditEvent) : Prop where
  written : w'.audits = w.audits ++ [event]
  mode : modeOf r w' = some event.metadata.appliedMode
  granted : event.metadata.grantedApplied = (completed f plan.rounds).countP Round.isGrant
  revoked : event.metadata.revokedApplied =
    (completed f plan.rounds).countP fun round => !round.isGrant

/-- The end of the two loops of a call that has committed. -/
def afterLoops (f : Faults) (r : PermissionsRequest) (w : World) (d : Document) :
    Progress × Option UpdateError :=
  runRounds f r (w.plan r d).rounds
    ((w.plan r d).begin r (w.withMode r (w.plan r d).previousMode))

/-- What a call leaves behind, whatever fails in it. -/
structure FailsSafely (f : Faults) (r : PermissionsRequest) (w : World) (actor : Nat)
    (d : Document) : Prop where
  shared : TuplesShared r.document (replaceDocumentPermissions f r w actor).1
  granted : ∀ user,
    explicitViewerTuple r.document user ∈ (replaceDocumentPermissions f r w actor).1.tuples →
      explicitViewerTuple r.document user ∈ w.tuples ∨
        user ∈ r.authorizedUserIds ∧ Member w r.workspace user
  audited : Changed r w (replaceDocumentPermissions f r w actor).1 →
    ∃ event, Accounted f r (w.plan r d) w (replaceDocumentPermissions f r w actor).1 event
  resumable : (∀ g ∈ toGrant w r, Member w r.workspace g.user) →
    ∃ w', replaceDocumentPermissions .none r (replaceDocumentPermissions f r w actor).1 actor =
        (w', .ok (some ())) ∧ ReachesTarget r w'

/-- The transaction with the mode commits. -/
def Committed (f : Faults) (r : PermissionsRequest) (plan : Plan) : Prop :=
  (plan.previousMode = r.requestedMode ∨ f.sql .updateMode = .done) ∧ f.sql .commit = .done

/-- The first change is not reported as a failure, and no tuple that is there as missing. -/
structure EffectsReported (f : Faults) (r : PermissionsRequest) (w : World) (plan : Plan) : Prop where
  commit : plan.previousMode ≠ r.requestedMode → f.sql .updateMode = .done →
    f.sql .commit ≠ .failed true
  first : plan.previousMode = r.requestedMode → f.sql .commit = .done →
    ∀ round, plan.rounds.head? = some round → ¬ round.Silent f r w
  missing : Committed f r plan → ∀ round ∈ reached f plan.rounds, ¬ round.Misread f r w

section Failure

variable {f : Faults} {r : PermissionsRequest} {w w' : World} {d : Document} {actor : Nat}

theorem not_changed_self (r : PermissionsRequest) (w : World) : ¬ Changed r w w := by
  rintro (h | ⟨user, h⟩)
  · exact h rfl
  · exact h ⟨Iff.rfl, Iff.rfl⟩

theorem failsSafely_of_unchanged (hd : w.documentIn r.workspace r.document = some d)
    (hshared : TuplesShared r.document w)
    (h : (replaceDocumentPermissions f r w actor).1 = w) : FailsSafely f r w actor d := by
  constructor
  · rwa [h]
  · rw [h]
    exact fun user htuple => .inl htuple
  · rw [h]
    exact fun hchanged => absurd hchanged (not_changed_self r w)
  · rw [h]
    exact run_reaches_target actor hd hshared

/-- A change without an audit event is not accounted for. -/
theorem not_failsSafely_of_silent
    (hchanged : Changed r w (replaceDocumentPermissions f r w actor).1)
    (haudits : (replaceDocumentPermissions f r w actor).1.audits = w.audits) :
    ¬ FailsSafely f r w actor d := by
  intro h
  obtain ⟨event, haccounted⟩ := h.audited hchanged
  have hwritten := haccounted.written
  rw [haudits] at hwritten
  simp at hwritten

theorem commitMode_cases (f : Faults) (r : PermissionsRequest) (w : World) (plan : Plan) :
    Committed f r plan ∧
        commitMode f r w plan.previousMode = (w.withMode r plan.previousMode, .ok ()) ∨
      ¬ Committed f r plan ∧
        (plan.previousMode ≠ r.requestedMode → f.sql .updateMode = .done →
          f.sql .commit ≠ .failed true) ∧
        commitMode f r w plan.previousMode = (w, .error .database) ∨
      (plan.previousMode ≠ r.requestedMode ∧ f.sql .updateMode = .done ∧
          f.sql .commit = .failed true) ∧
        commitMode f r w plan.previousMode =
          (w.withMode r plan.previousMode, .error .database) := by
  unfold commitMode Committed World.withMode
  by_cases hmode : plan.previousMode = r.requestedMode
  · rcases hcommit : f.sql .commit with _ | ⟨_ | _⟩ <;> simp [hmode]
  · by_cases hupdate : f.sql .updateMode = .done
    · rcases hcommit : f.sql .commit with _ | ⟨_ | _⟩ <;> simp [hmode, hupdate]
    · simp [hmode, hupdate]

/-- Members, and the rows and tuples but for those of `users` in the document, are the same. -/
structure Near (r : PermissionsRequest) (users : List Nat) (w w' : World) : Prop where
  members : w'.members = w.members
  same : ∀ user, user ∉ users → Same r user w w'
  tuples : ∀ t : TupleKey, t.relation ≠ .explicitViewer → t ∈ w.tuples → t ∈ w'.tuples

theorem Frame.near {users : List Nat} (h : Frame r users w w') : Near r users w w' := by
  refine ⟨h.members, fun user => h.same, fun t hrelation ht => ?_⟩
  refine (h.tuples t fun user _ heq => hrelation ?_).mpr ht
  rw [heq, explicitViewerTuple]

theorem Member.of_near {users : List Nat} {user : Nat} (hnear : Near r users w w')
    (h : Member w r.workspace user) : Member w' r.workspace user := by
  obtain ⟨hrow, hcheck⟩ := h
  refine ⟨hnear.members ▸ hrow, ?_⟩
  simp only [checkWorkspaceMember, Bool.or_eq_true, decide_eq_true_eq] at hcheck ⊢
  refine hcheck.imp (hnear.tuples _ (by simp)) fun hadmin => ?_
  refine Fga.checkWorkspaceAdmin_of_kept (hnear.tuples _ (by simp)) ?_ hadmin
  intro t ht hlinks
  refine hnear.tuples t ?_ ht
  rcases hlinks with hrelation | hrelation
  · rw [hrelation]
    decide
  · rw [hrelation]
    decide

theorem toGrant_of_near (hnear : Near r ((w.plan r d).rounds.map Round.user) w w')
    {g : GrantPlan} (hg : g ∈ toGrant w' r) : ∃ g' ∈ toGrant w r, g'.user = g.user := by
  obtain ⟨hlisted, hmissing⟩ := mem_toGrant.mp hg
  cases hbefore : missingGrant w r.document g.user with
  | some g' =>
    obtain ⟨huser, -⟩ := missingGrant_eq_some hbefore
    refine ⟨g', mem_toGrant.mpr ⟨huser ▸ hlisted, ?_⟩, huser⟩
    rw [huser]
    exact hbefore
  | none =>
    -- a user who lacked nothing has no round, and lacks nothing now
    obtain ⟨hrow, htuple⟩ := missingGrant_eq_none.mp hbefore
    have hnobody : g.user ∉ (w.plan r d).rounds.map Round.user := by
      rw [plan_users, List.mem_append, not_or, mem_toRevoke_current]
      refine ⟨fun h => h.2 hlisted, fun h => ?_⟩
      obtain ⟨g', hg', huser⟩ := List.mem_map.mp h
      have hmissing' := (mem_toGrant.mp hg').2
      rw [huser, hbefore] at hmissing'
      cases hmissing'
    have hsame := hnear.same _ hnobody
    rw [missingGrant_eq_none.mpr ⟨hsame.1.mpr hrow, hsame.2.mpr htuple⟩] at hmissing
    cases hmissing

/-- From where a call has stopped, the same call reaches its target. -/
theorem resumes (hd : w'.documentIn r.workspace r.document = some d)
    (hshared : TuplesShared r.document w') {d' : Document}
    (hnear : Near r ((w.plan r d').rounds.map Round.user) w w')
    (hmembers : ∀ g ∈ toGrant w r, Member w r.workspace g.user) :
    ∃ w'', replaceDocumentPermissions .none r w' actor = (w'', .ok (some ())) ∧
      ReachesTarget r w'' := by
  refine run_reaches_target actor hd hshared fun g hg => ?_
  obtain ⟨g', hg', huser⟩ := toGrant_of_near hnear hg
  exact huser ▸ (hmembers g' hg').of_near hnear

theorem withMode_plan (w : World) (r : PermissionsRequest) (m : DocumentAccessMode) (d : Document) :
    (w.withMode r m).plan r d = w.plan r d := by
  unfold World.withMode
  split <;> rfl

theorem withMode_toGrant (w : World) (r : PermissionsRequest) (m : DocumentAccessMode) :
    toGrant (w.withMode r m) r = toGrant w r := by
  unfold World.withMode
  split <;> rfl

theorem withMode_member {m : DocumentAccessMode} {workspace user : Nat} :
    Member (w.withMode r m) workspace user ↔ Member w workspace user := by
  unfold World.withMode
  split <;> rfl

theorem withMode_same (w : World) (r : PermissionsRequest) (m : DocumentAccessMode) (user : Nat) :
    Same r user w (w.withMode r m) := by
  simp [Same]

theorem replace_uncommitted (actor : Nat) {e : UpdateError}
    (hprepare : prepare f r w = .ok (some (w.plan r d)))
    (hbusy : ¬ ((w.plan r d).previousMode = r.requestedMode ∧ (w.plan r d).toRevoke = [] ∧
      (w.plan r d).toGrant = []))
    (hcommit : commitMode f r w (w.plan r d).previousMode = (w', .error e)) :
    (replaceDocumentPermissions f r w actor).1 = w' := by
  rw [replaceDocumentPermissions, hprepare]
  dsimp only
  rw [if_neg hbusy, applyPlan, hcommit]

/-- After the commit the call leaves what its loops leave, with the audit event. -/
theorem replace_committed (actor : Nat) (hprepare : prepare f r w = .ok (some (w.plan r d)))
    (hbusy : ¬ ((w.plan r d).previousMode = r.requestedMode ∧ (w.plan r d).toRevoke = [] ∧
      (w.plan r d).toGrant = []))
    (hcommit : commitMode f r w (w.plan r d).previousMode =
      (w.withMode r (w.plan r d).previousMode, .ok ())) :
    ∃ p : Progress, (replaceDocumentPermissions f r w actor).1 =
        writePermissionsAuditIfMutated r actor p ∧
      ∃ audit, { p with audit := audit } = (afterLoops f r w d).1 ∧
        p.audit.appliedMode = audit.appliedMode ∧
        p.audit.grantedApplied = audit.grantedApplied ∧
        p.audit.revokedApplied = audit.revokedApplied := by
  rw [replaceDocumentPermissions, hprepare]
  dsimp only
  rw [if_neg hbusy, applyPlan, hcommit]
  dsimp only
  rw [afterLoops]
  generalize runRounds f r (w.plan r d).rounds _ = out
  obtain ⟨p, _ | e⟩ := out
  · exact ⟨_, rfl, p.audit, rfl, rfl, rfl, rfl⟩
  · exact ⟨p, rfl, p.audit, rfl, rfl, rfl, rfl⟩

theorem runRounds_failing {round : Round} {rounds : List Round} {p : Progress}
    (h : (runRound f r round p).2 ≠ none) :
    runRounds f r (round :: rounds) p = runRound f r round p := by
  rw [runRounds]
  generalize runRound f r round p = out at h ⊢
  obtain ⟨p', _ | e⟩ := out
  · exact absurd rfl h
  · rfl

/-- The plan of a call that does not return early has a round, unless the mode changes. -/
theorem rounds_of_busy {plan : Plan} (hmode : plan.previousMode = r.requestedMode)
    (hbusy : ¬ (plan.previousMode = r.requestedMode ∧ plan.toRevoke = [] ∧ plan.toGrant = [])) :
    ∃ round rounds, plan.rounds = round :: rounds := by
  refine List.exists_cons_of_ne_nil fun hempty => hbusy ⟨hmode, ?_⟩
  simpa [Plan.rounds] using hempty

/-- Where the mode stays, the loops begin in the world as it was, with nothing changed yet. -/
theorem begin_of_same_mode (w : World) (hmode : (w.plan r d).previousMode = r.requestedMode) :
    ((w.plan r d).begin r (w.withMode r (w.plan r d).previousMode)).world = w ∧
      ((w.plan r d).begin r (w.withMode r (w.plan r d).previousMode)).mutated = false := by
  simp [Plan.begin, World.withMode, hmode]

theorem afterLoops_effect (f : Faults) (d : Document) (hshared : TuplesShared r.document w) :
    RunEffect f r (w.plan r d).rounds
      ((w.plan r d).begin r (w.withMode r (w.plan r d).previousMode))
      (afterLoops f r w d).1 (afterLoops f r w d).2 :=
  plan_effect f d hshared

/-- The first round decides when the loops leave no mark of a change. -/
theorem first_round (hshared : TuplesShared r.document w)
    (hmode : (w.plan r d).previousMode = r.requestedMode) {round : Round} {rounds : List Round}
    (hrounds : (w.plan r d).rounds = round :: rounds) (hfails : ¬ round.completes f = true) :
    RoundEffect f r round ((w.plan r d).begin r (w.withMode r (w.plan r d).previousMode))
      (afterLoops f r w d).1 (afterLoops f r w d).2 := by
  have hready : round.Ready r
      ((w.plan r d).begin r (w.withMode r (w.plan r d).previousMode)).world := by
    rw [(begin_of_same_mode w hmode).1]
    exact plan_ready hshared round (hrounds ▸ List.mem_cons_self ..)
  have heffect := runRound_effect f hready
  rw [afterLoops, hrounds, runRounds_failing fun hnone => hfails (heffect.ended.mp hnone)]
  exact heffect

/-- Loops that leave no mark of a change have changed nothing, but for a silent first round. -/
theorem unmarked_unchanged (hshared : TuplesShared r.document w)
    (hbusy : ¬ ((w.plan r d).previousMode = r.requestedMode ∧ (w.plan r d).toRevoke = [] ∧
      (w.plan r d).toGrant = []))
    (hfirst : (w.plan r d).previousMode = r.requestedMode →
      ∀ round, (w.plan r d).rounds.head? = some round → ¬ round.Silent f r w)
    (hmutated : (afterLoops f r w d).1.mutated = false) :
    (afterLoops f r w d).1.world.documents = w.documents ∧
      ∀ user, Same r user w (afterLoops f r w d).1.world := by
  have heffect := afterLoops_effect f d hshared
  have hunmarked := mt heffect.mutated (by simp [hmutated])
  rw [not_or] at hunmarked
  have hmode : (w.plan r d).previousMode = r.requestedMode := by
    simpa [Plan.begin] using hunmarked.1
  obtain ⟨round, rounds, hrounds⟩ := rounds_of_busy hmode hbusy
  have hfails : ¬ round.completes f = true := by
    intro hcompletes
    refine hunmarked.2 ?_
    rw [hrounds, completed, List.takeWhile_cons_of_pos hcompletes]
    exact List.cons_ne_nil _ _
  obtain ⟨hworld, -⟩ := begin_of_same_mode w hmode
  have hround := first_round hshared hmode hrounds hfails
  have hquiet := hround.quiet hmutated (by
    rw [hworld]
    exact hfirst hmode round (by rw [hrounds]; rfl))
  have hframe := hround.frame
  rw [hworld] at hquiet hframe
  refine ⟨hframe.documents, fun user => ?_⟩
  by_cases heq : user = round.user
  · exact heq ▸ hquiet
  · exact hframe.same (by simpa using heq)

theorem begin_appliedMode (plan : Plan) (r : PermissionsRequest) (w : World) :
    (plan.begin r w).audit.appliedMode = r.requestedMode := by
  unfold Plan.begin
  split
  next hmode => exact hmode
  next => rfl

/-- The world after a call that has committed, against the end of its loops. -/
structure Left (f : Faults) (r : PermissionsRequest) (w : World) (d : Document) (actor : Nat)
    (w' : World) : Prop where
  documents : w'.documents = (w.withMode r d.accessMode).documents
  shares : w'.shares = (afterLoops f r w d).1.world.shares
  tuples : w'.tuples = (afterLoops f r w d).1.world.tuples
  members : w'.members = w.members
  marked : (afterLoops f r w d).1.mutated = true →
    ∃ event, Accounted f r (w.plan r d) w w' event
  unmarked : (afterLoops f r w d).1.mutated = false → w'.audits = w.audits

theorem replace_left (actor : Nat) (hd : w.documentIn r.workspace r.document = some d)
    (hshared : TuplesShared r.document w) (hprepare : prepare f r w = .ok (some (w.plan r d)))
    (hbusy : ¬ ((w.plan r d).previousMode = r.requestedMode ∧ (w.plan r d).toRevoke = [] ∧
      (w.plan r d).toGrant = []))
    (hcommit : commitMode f r w (w.plan r d).previousMode =
      (w.withMode r (w.plan r d).previousMode, .ok ())) :
    Left f r w d actor (replaceDocumentPermissions f r w actor).1 := by
  obtain ⟨p, hreplace, audit, hp, happlied, hgranted, hrevoked⟩ :=
    replace_committed actor hprepare hbusy hcommit
  have heffect := afterLoops_effect f d hshared
  rw [← hp] at heffect
  have hdocuments := heffect.frame.documents
  have haudits := heffect.frame.audits.trans (withMode_audits ..)
  rw [hreplace]
  refine ⟨(writeAudit_documents ..).trans hdocuments, ?_, ?_, ?_, fun hmutated => ?_,
    fun hmutated => ?_⟩
  · rw [writeAudit_shares, ← hp]
  · rw [writeAudit_tuples, ← hp]
  · exact (writeAudit_members ..).trans (heffect.frame.members.trans (withMode_members ..))
  · rw [← hp] at hmutated
    have hmutated' : p.mutated = true := hmutated
    refine ⟨⟨actor, r.workspace, r.document, p.audit⟩, ?_, ?_, ?_, ?_⟩
    · rw [writePermissionsAuditIfMutated, if_pos hmutated']
      exact congrArg (· ++ _) haudits
    · rw [modeOf, documentIn_congr (writeAudit_documents ..), documentIn_congr hdocuments]
      refine (congrArg (Option.map Document.accessMode) (documentIn_withMode hd)).trans ?_
      exact congrArg some ((happlied.trans heffect.applied).trans (begin_appliedMode ..)).symm
    · have hbegin : ((w.plan r d).begin r (w.withMode r (w.plan r d).previousMode)).audit.grantedApplied
          = 0 := by
        unfold Plan.begin
        split <;> rfl
      rw [hgranted, heffect.granted, hbegin, Nat.zero_add]
    · have hbegin : ((w.plan r d).begin r (w.withMode r (w.plan r d).previousMode)).audit.revokedApplied
          = 0 := by
        unfold Plan.begin
        split <;> rfl
      rw [hrevoked, heffect.revoked, hbegin, Nat.zero_add]
  · rw [← hp] at hmutated
    have hmutated' : ¬ p.mutated = true := by simpa using hmutated
    rw [writePermissionsAuditIfMutated, if_neg hmutated']
    exact haudits

theorem Left.same {user : Nat} (h : Left f r w d actor w') :
    Same r user w w' ↔ Same r user w (afterLoops f r w d).1.world := by
  rw [Same, Same, h.shares, h.tuples]

theorem Left.changed_of_silent (h : Left f r w d actor w') (hshared : TuplesShared r.document w)
    (hmode : (w.plan r d).previousMode = r.requestedMode) {round : Round}
    (hhead : (w.plan r d).rounds.head? = some round) (hsilent : round.Silent f r w) :
    Changed r w w' ∧ w'.audits = w.audits := by
  obtain ⟨rounds, hrounds⟩ := List.head?_eq_some_iff.mp hhead
  obtain ⟨hworld, hunmarked⟩ := begin_of_same_mode w hmode
  have hready := plan_ready (r := r) (d := d) hshared round (hrounds ▸ List.mem_cons_self ..)
  have hfails : ¬ round.completes f = true :=
    ((runRound_effect (p := ⟨w, (w.plan r d).audit r, false⟩) f hready).silent hsilent).2.2
  have hround := (first_round hshared hmode hrounds hfails).silent (hworld.symm ▸ hsilent)
  rw [hworld, hunmarked] at hround
  exact ⟨.inr ⟨round.user, fun hsame => hround.2.1 (h.same.mp hsame)⟩, h.unmarked hround.1⟩

theorem Left.not_shared (h : Left f r w d actor w') (hshared : TuplesShared r.document w)
    {round : Round} (hreached : round ∈ reached f (w.plan r d).rounds)
    (hmisread : round.Misread f r w) : ¬ TuplesShared r.document w' := by
  have hmisread' := (Round.misread_congr (f := f) (withMode_same w r d.accessMode _)).mpr hmisread
  obtain ⟨htuple, hrow⟩ := (afterLoops_effect f d hshared).misread round hreached hmisread'
  intro hstill
  refine hrow (h.shares ▸ hstill _ ?_)
  rwa [h.tuples]

theorem Left.shared (h : Left f r w d actor w') (hshared : TuplesShared r.document w)
    (hread : ∀ round ∈ reached f (w.plan r d).rounds, ¬ round.Misread f r w) :
    TuplesShared r.document w' := by
  have hstill := (afterLoops_effect f d hshared).shared ?_ ?_
  · intro user htuple
    rw [h.shares]
    exact hstill user (h.tuples ▸ htuple)
  · intro user htuple
    rw [Plan.begin, withMode_tuples] at htuple
    rw [Plan.begin, withMode_shares]
    exact hshared user htuple
  · exact fun round hin hmisread => hread round hin
      ((Round.misread_congr (withMode_same w r d.accessMode _)).mp hmisread)

theorem Left.granted {user : Nat} (h : Left f r w d actor w')
    (hshared : TuplesShared r.document w)
    (hmembers : ∀ g ∈ toGrant w r, Member w r.workspace g.user)
    (htuple : explicitViewerTuple r.document user ∈ w'.tuples) :
    explicitViewerTuple r.document user ∈ w.tuples ∨
      user ∈ r.authorizedUserIds ∧ Member w r.workspace user := by
  rw [h.tuples] at htuple
  rcases (afterLoops_effect f d hshared).kept user htuple with hkept | ⟨round, hin, hgrant, rfl⟩
  · rw [Plan.begin, withMode_tuples] at hkept
    exact .inl hkept
  · rcases mem_rounds.mp hin with ⟨user, rfl, -⟩ | ⟨g, hg, rfl⟩
    · cases hgrant
    · exact .inr ⟨(mem_toGrant.mp hg).1, hmembers g hg⟩

theorem Left.near (h : Left f r w d actor w') (hshared : TuplesShared r.document w) :
    Near r ((w.plan r d).rounds.map Round.user) (w.withMode r d.accessMode) w' := by
  have hnear := (afterLoops_effect f d hshared).frame.near
  refine ⟨h.members.trans (withMode_members ..).symm, fun user hu => ?_, fun t hrelation ht => ?_⟩
  · rw [Same, h.shares, h.tuples]
    exact hnear.same user hu
  · rw [h.tuples]
    exact hnear.tuples t hrelation ht

theorem Left.unchanged (h : Left f r w d actor w')
    (hsame : ∀ user, Same r user w w')
    (hdocuments : (w.withMode r d.accessMode).documents = w.documents) : ¬ Changed r w w' := by
  rintro (hmode | ⟨user, hchanged⟩)
  · refine hmode ?_
    rw [modeOf, modeOf, documentIn_congr (h.documents.trans hdocuments)]
  · exact hchanged (hsame user)

/-- A call that has committed fails safely unless its first round is silent or one is misread. -/
theorem Left.failsSafely (hd : w.documentIn r.workspace r.document = some d)
    (hshared : TuplesShared r.document w)
    (hmembers : ∀ g ∈ toGrant w r, Member w r.workspace g.user)
    (hbusy : ¬ ((w.plan r d).previousMode = r.requestedMode ∧ (w.plan r d).toRevoke = [] ∧
      (w.plan r d).toGrant = []))
    (hfirst : (w.plan r d).previousMode = r.requestedMode →
      ∀ round, (w.plan r d).rounds.head? = some round → ¬ round.Silent f r w)
    (hread : ∀ round ∈ reached f (w.plan r d).rounds, ¬ round.Misread f r w)
    (h : Left f r w d actor (replaceDocumentPermissions f r w actor).1) :
    FailsSafely f r w actor d := by
  have hstill := h.shared hshared hread
  have heffect := afterLoops_effect f d hshared
  refine ⟨hstill, fun user htuple => h.granted hshared hmembers htuple, fun hchanged => ?_,
    fun _ => ?_⟩
  · by_cases hmutated : (afterLoops f r w d).1.mutated = true
    · exact h.marked hmutated
    · obtain ⟨hdocuments, hsame⟩ := unmarked_unchanged hshared hbusy hfirst
        (Bool.eq_false_iff.mpr hmutated)
      refine absurd hchanged (h.unchanged (fun user => h.same.mpr (hsame user)) ?_)
      exact heffect.frame.documents.symm.trans hdocuments
  · have hdocument := (documentIn_congr h.documents r.workspace r.document).trans
      (documentIn_withMode hd)
    have hnear := h.near hshared
    rw [← withMode_plan w r d.accessMode d] at hnear
    refine resumes hdocument hstill hnear ?_
    rw [withMode_toGrant]
    exact fun g hg => withMode_member.mpr (hmembers g hg)

theorem modeOf_withMode (hd : w.documentIn r.workspace r.document = some d) :
    modeOf r (w.withMode r d.accessMode) = some r.requestedMode := by
  rw [modeOf, documentIn_withMode hd]
  rfl

theorem replace_unprepared (actor : Nat)
    (h : ∀ plan, prepare f r w ≠ .ok (some plan)) : (replaceDocumentPermissions f r w actor).1 = w := by
  unfold replaceDocumentPermissions
  split
  · rfl
  · rfl
  next plan hprepare => exact absurd hprepare (h plan)

theorem effectsReported_of_idle (hmode : (w.plan r d).previousMode = r.requestedMode)
    (hrounds : (w.plan r d).rounds = []) : EffectsReported f r w (w.plan r d) := by
  refine ⟨fun h => absurd hmode h, fun _ _ round hhead => ?_, fun _ round hin => ?_⟩
  · rw [hrounds] at hhead
    cases hhead
  · rw [hrounds] at hin
    cases hin

/-- A call with work to do fails safely just when it reports its effects. -/
theorem failsSafely_iff_of_busy (hd : w.documentIn r.workspace r.document = some d)
    (hshared : TuplesShared r.document w) (hprepare : prepare f r w = .ok (some (w.plan r d)))
    (hmembers : ∀ g ∈ toGrant w r, Member w r.workspace g.user)
    (hbusy : ¬ ((w.plan r d).previousMode = r.requestedMode ∧ (w.plan r d).toRevoke = [] ∧
      (w.plan r d).toGrant = [])) :
    FailsSafely f r w actor d ↔ EffectsReported f r w (w.plan r d) := by
  rcases commitMode_cases f r w (w.plan r d) with
    ⟨hcommitted, hcommit⟩ | ⟨hnot, hunapplied, hcommit⟩ | ⟨happlied, hcommit⟩
  · have hleft := replace_left actor hd hshared hprepare hbusy hcommit
    constructor
    · intro hsafe
      refine ⟨fun _ _ hfailed => ?_, fun hmode _ round hhead hsilent => ?_,
        fun _ round hin hmisread => ?_⟩
      · cases hcommitted.2.symm.trans hfailed
      · obtain ⟨hchanged, haudits⟩ := hleft.changed_of_silent hshared hmode hhead hsilent
        exact not_failsSafely_of_silent hchanged haudits hsafe
      · exact hleft.not_shared hshared hin hmisread hsafe.shared
    · intro hreported
      exact hleft.failsSafely hd hshared hmembers hbusy
        (fun hmode => hreported.first hmode hcommitted.2) (hreported.missing hcommitted)
  · refine iff_of_true (failsSafely_of_unchanged hd hshared
      (replace_uncommitted actor hprepare hbusy hcommit)) ⟨hunapplied, fun hmode hdone => ?_, fun h => ?_⟩
    · exact absurd ⟨.inl hmode, hdone⟩ hnot
    · exact absurd h hnot
  · have hworld := replace_uncommitted actor hprepare hbusy hcommit
    refine iff_of_false (not_failsSafely_of_silent (.inl ?_) ?_) fun h =>
      h.commit happlied.1 happlied.2.1 happlied.2.2
    · rw [hworld, World.plan, modeOf_withMode hd, modeOf, hd]
      exact fun h => happlied.1 (Option.some.inj h).symm
    · rw [hworld, withMode_audits]

end Failure

/-- A call fails safely, and can be made again, just when its first change is not reported as a
failure and OpenFGA reports no tuple as missing that is there. -/
theorem permissions_put_fails_safely_iff (f : Faults) (r : PermissionsRequest) (w : World)
    (actor : Nat) (d : Document) (hd : w.documentIn r.workspace r.document = some d)
    (hshared : TuplesShared r.document w) :
    FailsSafely f r w actor d ↔
      (prepare f r w = .ok (some (w.plan r d)) → EffectsReported f r w (w.plan r d)) := by
  by_cases hprepare : prepare f r w = .ok (some (w.plan r d))
  · obtain ⟨-, -, -, hmembers⟩ := prepare_ok hprepare
    rw [forall_prop_of_true hprepare]
    by_cases hidle : (w.plan r d).previousMode = r.requestedMode ∧ (w.plan r d).toRevoke = [] ∧
        (w.plan r d).toGrant = []
    · have hunchanged : (replaceDocumentPermissions f r w actor).1 = w := by
        rw [replaceDocumentPermissions, hprepare]
        dsimp only
        rw [if_pos hidle]
      refine iff_of_true (failsSafely_of_unchanged hd hshared hunchanged)
        (effectsReported_of_idle hidle.1 ?_)
      simp [Plan.rounds, hidle.2.1, hidle.2.2]
    · exact failsSafely_iff_of_busy hd hshared hprepare hmembers hidle
  · refine iff_of_true (failsSafely_of_unchanged hd hshared (replace_unprepared actor ?_))
      fun h => absurd h hprepare
    intro plan hplan
    obtain ⟨d', hd', rfl, -⟩ := prepare_ok hplan
    obtain rfl := Option.some.inj (hd.symm.trans hd')
    exact hprepare hplan

/-- Document 5 of workspace 1 is restricted to user 2. -/
def sharedWorld : World where
  documents := fun id => if id = 5 then some ⟨1, .restricted⟩ else none
  shares := {(5, 2)}
  members := {(1, 2)}
  tuples := {explicitViewerTuple 5 2}
  outbox := []
  audits := []

/-- The same document for nobody. -/
def nobodyRequest : PermissionsRequest := ⟨5, 1, .restricted, [], by rintro ⟨⟩⟩

/-- OpenFGA deletes the tuple of user 2, but its reply is lost. -/
def lostReply : Faults where
  sql := fun _ => .done
  fga
    | .deleteTuple 2 => .failed true .http
    | _ => .done

theorem sharedWorld_shared : TuplesShared 5 sharedWorld := by
  intro user htuple
  obtain rfl : user = 2 := by simpa [sharedWorld, explicitViewerTuple] using htuple
  decide

theorem permissions_put_fails_safely_iff_lost_reply :
    FailsSafely lostReply nobodyRequest sharedWorld 9 ⟨1, .restricted⟩ ↔
      (prepare lostReply nobodyRequest sharedWorld =
          .ok (some (sharedWorld.plan nobodyRequest ⟨1, .restricted⟩)) →
        EffectsReported lostReply nobodyRequest sharedWorld
          (sharedWorld.plan nobodyRequest ⟨1, .restricted⟩)) :=
  permissions_put_fails_safely_iff lostReply nobodyRequest sharedWorld 9 ⟨1, .restricted⟩ rfl
    sharedWorld_shared

/-- The tuple is gone, and no audit event says so. -/
theorem lost_reply_leaves_no_audit :
    ¬ FailsSafely lostReply nobodyRequest sharedWorld 9 ⟨1, .restricted⟩ := by
  have hrevoke : nobodyRequest.toRevoke (sharedWorld.currentUserIds 5) = [2] := by
    have hcurrent : (sharedWorld.shares.filter fun share => share.1 = 5).image Prod.snd = {2} := by
      decide
    rw [World.currentUserIds, hcurrent, Finset.sort_singleton]
    rfl
  have hbusy : ¬ ((sharedWorld.plan nobodyRequest ⟨1, .restricted⟩).previousMode =
        nobodyRequest.requestedMode ∧
      (sharedWorld.plan nobodyRequest ⟨1, .restricted⟩).toRevoke = [] ∧
      (sharedWorld.plan nobodyRequest ⟨1, .restricted⟩).toGrant = []) :=
    fun h => List.cons_ne_nil _ _ (hrevoke.symm.trans h.2.1)
  have hrounds : (sharedWorld.plan nobodyRequest ⟨1, .restricted⟩).rounds = [.revoke 2] := by
    rw [Plan.rounds, World.plan]
    exact congrArg (fun users => users.map Round.revoke ++ []) hrevoke
  rw [failsSafely_iff_of_busy rfl sharedWorld_shared rfl (fun g hg => by cases hg) hbusy]
  intro hreported
  refine hreported.first rfl rfl (.revoke 2) (by rw [hrounds]; rfl) ?_
  exact ⟨by decide, .http, rfl, by decide⟩

end GmragApi.PermissionsCall

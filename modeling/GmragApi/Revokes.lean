import GmragApi.AuthzRun
import Mathlib.Data.Finset.SDiff

/-! Revokes at OpenFGA: requests that only delete, sent one after the other, and the errors that
pass for "there was nothing to delete". -/

namespace GmragApi.Revokes

/-- The validation error for a tuple that is not there; its text says so. -/
abbrev TupleNotFound := { e : AuthzError // isMissingTupleDeleteError e = true }

/-- What becomes of a request: OpenFGA answers it, or it fails for another reason, which may have
any text and leaves open whether the request took effect. -/
inductive Fate
  | answered (missing : TupleNotFound)
  | other (applied : Bool) (e : AuthzError)

/-- The other error has no effect, but its text reads like that of a missing tuple. -/
def Fate.misread : Fate → Bool
  | answered _ => false
  | other applied e => !applied && isMissingTupleDeleteError e

/-- The error stands for a failed revoke. -/
def Fate.refused : Fate → Bool
  | answered _ => false
  | other _ e => !isMissingTupleDeleteError e

variable {κ : Type} [DecidableEq κ]

/-- A write request that deletes the batch; it is refused as a whole when one of the tuples is not
there. -/
def writeDeletes (store : Finset κ) (batch : List κ) : Fate → Finset κ × Except AuthzError Unit
  | .answered missing =>
    if ∀ t ∈ batch, t ∈ store then (store \ batch.toFinset, .ok ())
    else (store, .error missing.1)
  | .other applied e => (if applied then store \ batch.toFinset else store, .error e)

/-- The loop of the revokes: it goes on after an error that passes for a missing tuple. -/
def revokeAll (isMissing : AuthzError → Bool) :
    Finset κ → List (List κ × Fate) → Finset κ × Except AuthzError Unit
  | store, [] => (store, .ok ())
  | store, (batch, fate) :: requests =>
    match writeDeletes store batch fate with
    | (store, .ok ()) => revokeAll isMissing store requests
    | (store, .error e) =>
      if isMissing e then revokeAll isMissing store requests else (store, .error e)

/-- One request for each tuple; `fates` are those of the requests, in their order. -/
def deleteTuplesFgaFirst (fates : Nat → Fate) (store : Finset κ) (tuples : List κ) :
    Finset κ × Except AuthzError Unit :=
  revokeAll isMissingTupleDeleteError store (tuples.mapIdx fun i t => ([t], fates i))

def openFgaDeleteBatchSize : Nat := 50

/-- `slice::chunks`. -/
def chunks (size : Nat) (tuples : List κ) : List (List κ) :=
  (List.range ((tuples.length + size - 1) / size)).map fun i => (tuples.drop (i * size)).take size

/-- The requests of `delete_openfga_tuples`, which has the same test. -/
def deleteRequests (fates : Nat → Fate) (tuples : List κ) : List (List κ × Fate) :=
  (chunks openFgaDeleteBatchSize tuples).mapIdx fun i batch => (batch, fates i)

def deleteOpenfgaTuples (fates : Nat → Fate) (store : Finset κ) (tuples : List κ) :
    Finset κ × Except AuthzError Unit :=
  revokeAll isMissingTupleDeleteError store (deleteRequests fates tuples)

/-- The revoke of `routes/members.rs`, which has the same test. -/
def revokeMember (fate : Fate) (store : Finset κ) (t : κ) : Finset κ × Except AuthzError Unit :=
  revokeAll isMissingTupleDeleteError store [([t], fate)]

/-- The revoke of the outbox. -/
def deleteTupleIdempotently (fate : Fate) (store : Finset κ) (t : κ) :
    Finset κ × Except AuthzError Unit :=
  revokeAll (isIdempotentOutcome .tupleDelete) store [([t], fate)]

/-- Success is reported only if none of the tuples is left. -/
def Sound (outcome : Finset κ × Except AuthzError Unit) (tuples : List κ) : Prop :=
  outcome.2.isOk = true → ∀ t ∈ tuples, t ∉ outcome.1

/-- The request takes the tuples of its batch out of the store. -/
def Effective (store : Finset κ) (batch : List κ) : Fate → Prop
  | .answered _ => ∀ t ∈ batch, t ∈ store
  | .other applied _ => applied = true

/-- The store after the requests. -/
def remaining (store : Finset κ) (requests : List (List κ × Fate)) : Finset κ :=
  requests.foldl (fun store request => (writeDeletes store request.1 request.2).1) store

section Loop

variable {store : Finset κ} {batch : List κ} {fate : Fate} {requests : List (List κ × Fate)} {t : κ}

theorem isIdempotentOutcome_tupleDelete :
    isIdempotentOutcome .tupleDelete = isMissingTupleDeleteError := by
  funext e
  cases e <;> rfl

theorem mem_writeDeletes :
    t ∈ (writeDeletes store batch fate).1 ↔
      t ∈ store ∧ ¬ (t ∈ batch ∧ Effective store batch fate) := by
  cases fate with
  | answered missing =>
    simp only [writeDeletes, Effective]
    split
    next hall => rw [Finset.mem_sdiff, List.mem_toFinset, and_iff_left hall]
    next hnot => simp only [hnot, and_false, not_false_eq_true, and_true]
  | other applied e => cases applied <;> simp [writeDeletes, Effective]

/-- An error that is no refusal reads like that of a missing tuple. -/
theorem writeDeletes_tolerated {e : AuthzError} (h : (writeDeletes store batch fate).2 = .error e) :
    isMissingTupleDeleteError e = true ↔ fate.refused = false := by
  cases fate with
  | answered missing =>
    simp only [writeDeletes] at h
    split at h
    · cases h
    · cases h
      simp [Fate.refused, missing.2]
  | other applied e' =>
    cases h
    simp [Fate.refused]

theorem writeDeletes_ok (h : (writeDeletes store batch fate).2 = .ok ()) :
    fate.refused = false := by
  cases fate with
  | answered missing => rfl
  | other applied e => cases h

/-- The loop goes on unless the request is refused. -/
theorem revokeAll_cons (h : fate.refused = false) :
    revokeAll isMissingTupleDeleteError store ((batch, fate) :: requests) =
      revokeAll isMissingTupleDeleteError (writeDeletes store batch fate).1 requests := by
  have hok : ∀ e, (writeDeletes store batch fate).2 = .error e →
      isMissingTupleDeleteError e = true := fun e he => (writeDeletes_tolerated he).mpr h
  rw [revokeAll]
  generalize writeDeletes store batch fate = out at hok ⊢
  obtain ⟨store', reply⟩ := out
  cases reply with
  | ok u => rfl
  | error e => exact if_pos (hok e rfl)

/-- A refused request is the last one, and its error is that of the loop. -/
theorem revokeAll_cons_refused (h : fate.refused = true) :
    (revokeAll isMissingTupleDeleteError store ((batch, fate) :: requests)).1 =
        (writeDeletes store batch fate).1 ∧
      (revokeAll isMissingTupleDeleteError store ((batch, fate) :: requests)).2.isOk = false := by
  have hnot : ∀ e, (writeDeletes store batch fate).2 = .error e →
      ¬ isMissingTupleDeleteError e = true := by
    intro e he hmissing
    have := (writeDeletes_tolerated he).mp hmissing
    rw [h] at this
    cases this
  have hfailed : (writeDeletes store batch fate).2 ≠ .ok () := by
    intro hok
    have := writeDeletes_ok hok
    rw [h] at this
    cases this
  rw [revokeAll]
  generalize writeDeletes store batch fate = out at hnot hfailed ⊢
  obtain ⟨store', reply⟩ := out
  cases reply with
  | ok u => exact absurd rfl hfailed
  | error e =>
    have hstop := hnot e rfl
    simp only [if_neg hstop]
    exact ⟨trivial, rfl⟩

/-- The loop ends well when no request is refused, and has then sent them all. -/
theorem revokeAll_of_tolerated (h : ∀ request ∈ requests, request.2.refused = false) :
    revokeAll isMissingTupleDeleteError store requests = (remaining store requests, .ok ()) := by
  induction requests generalizing store with
  | nil => rfl
  | cons request requests ih =>
    rw [revokeAll_cons (h request List.mem_cons_self)]
    exact ih fun other hin => h other (List.mem_cons_of_mem _ hin)

theorem revokeAll_of_refused (h : ∃ request ∈ requests, request.2.refused = true) :
    (revokeAll isMissingTupleDeleteError store requests).2.isOk = false := by
  induction requests generalizing store with
  | nil =>
    obtain ⟨request, hin, -⟩ := h
    cases hin
  | cons request requests ih =>
    cases hfate : request.2.refused with
    | true => exact (revokeAll_cons_refused hfate).2
    | false =>
      rw [revokeAll_cons hfate]
      apply ih
      obtain ⟨other, hin, hother⟩ := h
      rcases List.mem_cons.mp hin with rfl | hin
      · rw [hfate] at hother
        cases hother
      · exact ⟨other, hin, hother⟩

/-- What is left was there and was in no batch that took effect. -/
theorem mem_remaining :
    t ∈ remaining store requests ↔ t ∈ store ∧ ∀ before batch fate after,
      requests = before ++ (batch, fate) :: after →
        ¬ (t ∈ batch ∧ Effective (remaining store before) batch fate) := by
  induction requests using List.reverseRecOn with
  | nil => simp [remaining]
  | append_singleton requests request ih =>
    have hstep : remaining store (requests ++ [request]) =
        (writeDeletes (remaining store requests) request.1 request.2).1 := by
      simp only [remaining, List.foldl_append, List.foldl_cons, List.foldl_nil]
    rw [hstep, mem_writeDeletes, ih]
    constructor
    · rintro ⟨⟨hin, hearlier⟩, hlast⟩
      refine ⟨hin, fun before batch fate after heq => ?_⟩
      rcases List.eq_nil_or_concat after with rfl | ⟨after, last, rfl⟩
      · obtain ⟨rfl, hsame⟩ := List.append_inj' heq rfl
        cases hsame
        exact hlast
      · have hsplit : requests ++ [request] = (before ++ (batch, fate) :: after) ++ [last] := by
          simpa using heq
        exact hearlier before batch fate after (List.append_inj' hsplit rfl).1
    · rintro ⟨hin, hall⟩
      refine ⟨⟨hin, fun before batch fate after heq => ?_⟩, ?_⟩
      · exact hall before batch fate (after ++ [request]) (by simp [heq])
      · exact hall requests request.1 request.2 [] rfl

/-- Whether the loop is sound is decided by the requests that take effect. -/
theorem revokeAll_sound_iff (tuples : List κ) :
    Sound (revokeAll isMissingTupleDeleteError store requests) tuples ↔
      ((∀ request ∈ requests, request.2.refused = false) →
        ∀ t ∈ tuples, t ∉ remaining store requests) := by
  by_cases h : ∀ request ∈ requests, request.2.refused = false
  · rw [Sound, revokeAll_of_tolerated h]
    exact ⟨fun hsound _ => hsound rfl, fun hnone _ => hnone h⟩
  · have hfailed : (revokeAll isMissingTupleDeleteError store requests).2.isOk = false := by
      apply revokeAll_of_refused
      push Not at h
      obtain ⟨request, hin, hrefused⟩ := h
      exact ⟨request, hin, by simpa using hrefused⟩
    rw [Sound, hfailed]
    exact iff_of_true (fun hok => by cases hok) fun hall => absurd hall h

/-- A tuple that is revoked on its own is left by a request that fails without effect. -/
theorem mem_writeDeletes_single {u : κ} :
    t ∈ (writeDeletes store [u] fate).1 ↔ t ∈ store ∧ (u = t → ∃ e, fate = .other false e) := by
  rw [mem_writeDeletes]
  refine and_congr_right fun hin => ?_
  by_cases heq : u = t
  · subst heq
    cases fate with
    | answered missing => simp [Effective, hin]
    | other applied e => cases applied <;> simp [Effective]
  · simp [heq, Ne.symm heq]

end Loop

/-- Every revoke of the tuple that is sent fails without effect; a refused one is the last. -/
def KeptBy (fates : Nat → Fate) (tuples : List κ) (t : κ) : Prop :=
  ∀ i, tuples[i]? = some t → (∀ j < i, (fates j).refused = false) → ∃ e, fates i = .other false e

section Single

variable {fates : Nat → Fate} {store : Finset κ} {tuples : List κ} {t u : κ}

omit [DecidableEq κ] in
theorem keptBy_of_notMem (h : t ∉ tuples) : KeptBy fates tuples t :=
  fun _ hi => absurd (List.mem_of_getElem? hi) h

omit [DecidableEq κ] in
theorem keptBy_cons : KeptBy fates (u :: tuples) t ↔
    (u = t → ∃ e, fates 0 = .other false e) ∧
      ((fates 0).refused = false → KeptBy (fun i => fates (i + 1)) tuples t) := by
  constructor
  · intro h
    refine ⟨fun heq => h 0 (congrArg some heq) fun j hj => absurd hj (Nat.not_lt_zero j), ?_⟩
    intro hfirst i hi hearlier
    refine h (i + 1) hi fun j hj => ?_
    cases j with
    | zero => exact hfirst
    | succ j => exact hearlier j (Nat.lt_of_succ_lt_succ hj)
  · rintro ⟨hfirst, hrest⟩ i hi hearlier
    cases i with
    | zero => exact hfirst (Option.some.inj hi)
    | succ i =>
      refine hrest (hearlier 0 (Nat.succ_pos i)) i hi fun j hj => ?_
      exact hearlier (j + 1) (Nat.succ_lt_succ hj)

theorem deleteTuplesFgaFirst_cons (h : (fates 0).refused = false) :
    deleteTuplesFgaFirst fates store (u :: tuples) = deleteTuplesFgaFirst
      (fun i => fates (i + 1)) (writeDeletes store [u] (fates 0)).1 tuples := by
  unfold deleteTuplesFgaFirst
  rw [List.mapIdx_cons, revokeAll_cons h]

theorem mem_deleteTuplesFgaFirst :
    t ∈ (deleteTuplesFgaFirst fates store tuples).1 ↔ t ∈ store ∧ KeptBy fates tuples t := by
  induction tuples generalizing fates store with
  | nil => simp [deleteTuplesFgaFirst, revokeAll, KeptBy]
  | cons u tuples ih =>
    cases hfate : (fates 0).refused with
    | true =>
      have hstop : (deleteTuplesFgaFirst fates store (u :: tuples)).1 =
          (writeDeletes store [u] (fates 0)).1 := by
        unfold deleteTuplesFgaFirst
        rw [List.mapIdx_cons, (revokeAll_cons_refused hfate).1]
      rw [hstop, mem_writeDeletes_single, keptBy_cons]
      simp [hfate]
    | false =>
      rw [deleteTuplesFgaFirst_cons hfate, ih, mem_writeDeletes_single, keptBy_cons, and_assoc]
      simp [hfate]

theorem deleteTuplesFgaFirst_isOk :
    (deleteTuplesFgaFirst fates store tuples).2.isOk = true ↔
      ∀ i < tuples.length, (fates i).refused = false := by
  induction tuples generalizing fates store with
  | nil => simp [deleteTuplesFgaFirst, revokeAll, Except.isOk, Except.toBool]
  | cons u tuples ih =>
    cases hfate : (fates 0).refused with
    | true =>
      have hstop : (deleteTuplesFgaFirst fates store (u :: tuples)).2.isOk = false := by
        unfold deleteTuplesFgaFirst
        rw [List.mapIdx_cons, (revokeAll_cons_refused hfate).2]
      rw [hstop]
      refine iff_of_false (by simp) fun h => ?_
      rw [h 0 (Nat.succ_pos _)] at hfate
      cases hfate
    | false =>
      rw [deleteTuplesFgaFirst_cons hfate, ih, List.length_cons]
      constructor
      · intro h i hi
        cases i with
        | zero => exact hfate
        | succ i => exact h i (Nat.lt_of_succ_lt_succ hi)
      · exact fun h i hi => h (i + 1) (Nat.succ_lt_succ hi)

end Single

/-- No tuple of the store has only requests whose errors are misread. -/
def Heard (fates : Nat → Fate) (store : Finset κ) (tuples : List κ) : Prop :=
  (∀ i < tuples.length, (fates i).refused = false) →
    ∀ t ∈ tuples, t ∈ store → ∃ i, tuples[i]? = some t ∧ (fates i).misread = false

theorem misread_iff {fate : Fate} (h : fate.refused = false) :
    (∃ e, fate = .other false e) ↔ fate.misread = true := by
  cases fate with
  | answered missing => simp [Fate.misread]
  | other applied e =>
    simp only [Fate.refused, Bool.not_eq_false'] at h
    cases applied <;> simp [Fate.misread, h]

omit [DecidableEq κ] in
/-- With no refusal, a tuple is kept if each of its revokes is misread. -/
theorem keptBy_iff {fates : Nat → Fate} {tuples : List κ} {t : κ}
    (h : ∀ i < tuples.length, (fates i).refused = false) :
    KeptBy fates tuples t ↔ ∀ i, tuples[i]? = some t → (fates i).misread = true := by
  constructor
  · intro hkept i hi
    obtain ⟨hlt, -⟩ := List.getElem?_eq_some_iff.mp hi
    exact (misread_iff (h i hlt)).mp (hkept i hi fun j hj => h j (Nat.lt_trans hj hlt))
  · intro hmisread i hi _
    obtain ⟨hlt, -⟩ := List.getElem?_eq_some_iff.mp hi
    exact (misread_iff (h i hlt)).mpr (hmisread i hi)

theorem deleteTuplesFgaFirst_sound_iff (fates : Nat → Fate) (store : Finset κ) (tuples : List κ) :
    Sound (deleteTuplesFgaFirst fates store tuples) tuples ↔ Heard fates store tuples := by
  unfold Sound Heard
  rw [deleteTuplesFgaFirst_isOk]
  refine forall_congr' fun hall => forall_congr' fun t => forall_congr' fun _ => ?_
  rw [mem_deleteTuplesFgaFirst, keptBy_iff hall, not_and]
  refine forall_congr' fun _ => ?_
  push Not
  simp only [Bool.not_eq_true]

theorem revokeMember_sound_iff (fate : Fate) (store : Finset κ) (t : κ) :
    Sound (revokeMember fate store t) [t] ↔ (t ∈ store → fate.misread = false) := by
  have hlist : revokeMember fate store t = deleteTuplesFgaFirst (fun _ => fate) store [t] := rfl
  rw [hlist, deleteTuplesFgaFirst_sound_iff]
  constructor
  · intro h hin
    by_contra hmisread
    have htolerated : fate.refused = false := by
      cases fate with
      | answered missing => rfl
      | other applied e => simp_all [Fate.misread, Fate.refused]
    obtain ⟨i, -, hheard⟩ := h (fun _ _ => htolerated) t List.mem_cons_self hin
    exact hmisread hheard
  · intro h _ u hu hin
    obtain rfl := List.mem_singleton.mp hu
    exact ⟨0, rfl, h hin⟩

/-- A revoke reports success soundly just when no tuple of the store has only requests that fail
without effect and with a text that reads like that of a missing tuple. -/
theorem revokes_sound_iff (fates : Nat → Fate) (store : Finset κ) (tuples : List κ) :
    (Sound (deleteTuplesFgaFirst fates store tuples) tuples ↔ Heard fates store tuples) ∧
      ∀ fate t, (Sound (revokeMember fate store t) [t] ↔ (t ∈ store → fate.misread = false)) ∧
        (Sound (deleteTupleIdempotently fate store t) [t] ↔
          (t ∈ store → fate.misread = false)) := by
  refine ⟨deleteTuplesFgaFirst_sound_iff fates store tuples, fun fate t => ?_⟩
  have houtbox : deleteTupleIdempotently fate store t = revokeMember fate store t := by
    rw [deleteTupleIdempotently, isIdempotentOutcome_tupleDelete, revokeMember]
  rw [houtbox]
  exact ⟨revokeMember_sound_iff fate store t, revokeMember_sound_iff fate store t⟩

section UnknownStore

def sharedWithTwo : TupleKey := ⟨.user 2, .explicitViewer, .document 5⟩

/-- A 404 of the router in front of OpenFGA, or of OpenFGA for a store id that it does not know. -/
def unknownStore : Fate := .other false (.openFga 404 "Store ID not found".toList)

theorem unknown_store_passes_for_revoked :
    (deleteTuplesFgaFirst (fun _ => unknownStore) {sharedWithTwo} [sharedWithTwo]).2.isOk = true ∧
      sharedWithTwo ∈
        (deleteTuplesFgaFirst (fun _ => unknownStore) {sharedWithTwo} [sharedWithTwo]).1 := by
  decide +kernel

end UnknownStore

section Batches

variable {store : Finset κ} {requests : List (List κ × Fate)} {t : κ}

end Batches

/-- Every listed tuple of the store is in a batch that is taken out as a whole. -/
def TakenWhole (fates : Nat → Fate) (store : Finset κ) (tuples : List κ) : Prop :=
  (∀ request ∈ deleteRequests fates tuples, request.2.refused = false) →
    ∀ t ∈ tuples, t ∈ store → ∃ before batch fate after,
      deleteRequests fates tuples = before ++ (batch, fate) :: after ∧ t ∈ batch ∧
        Effective (remaining store before) batch fate

/-- The tuples of a tenant are revoked soundly just when each one that is there comes in a batch of
which none is missing when its turn comes. -/
theorem deleteOpenfgaTuples_sound_iff (fates : Nat → Fate) (store : Finset κ) (tuples : List κ) :
    Sound (deleteOpenfgaTuples fates store tuples) tuples ↔ TakenWhole fates store tuples := by
  rw [deleteOpenfgaTuples, revokeAll_sound_iff, TakenWhole]
  refine forall_congr' fun _ => forall_congr' fun t => forall_congr' fun _ => ?_
  rw [mem_remaining, not_and]
  refine forall_congr' fun _ => ?_
  push Not
  rfl

section RevokedBefore

def missingReply : TupleNotFound :=
  ⟨.openFga 400 "cannot delete a tuple which does not exist".toList, by decide +kernel⟩

def ownerOfTenant : TupleKey := ⟨.user 1, .owner, .tenant 3⟩

/-- One tuple that is gone already, and the whole batch stays. -/
theorem absent_tuple_keeps_its_batch :
    (deleteOpenfgaTuples (fun _ => .answered missingReply) {ownerOfTenant}
        [sharedWithTwo, ownerOfTenant]).2.isOk = true ∧
      ownerOfTenant ∈ (deleteOpenfgaTuples (fun _ => .answered missingReply) {ownerOfTenant}
        [sharedWithTwo, ownerOfTenant]).1 := by
  decide +kernel

end RevokedBefore

end GmragApi.Revokes

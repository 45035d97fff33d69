import GmragApi.ChatMoves

/-! Whose messages a session holds when it can be deleted and opened again. -/

namespace GmragApi.Chat

open Transition ProcessPool

/-- Every stored message was produced by a request of the session's owner in its workspace. -/
def MessagesOwned (s : State) : Prop :=
  ∀ m ∈ s.messages, ∃ (row : SessionRow) (i : Nat) (c : ChatCall),
    s.sessions m.sessionId = some row ∧ m.request = some i ∧ s.calls[i]? = some c ∧
    c.sessionId = m.sessionId ∧ row.OwnedBy c.request

/-- The next statement of a request makes a message visible. -/
def ChatCall.Stores (s : State) (c : ChatCall) : Prop :=
  match c.phase, c.turn with
  | .commitTurn _, _ => True
  | .persistAssistant _ _, some turn => ¬ s.Taken c.sessionId turn.assistantSequence
  | _, _ => False

instance (s : State) (c : ChatCall) : Decidable (c.Stores s) := by
  unfold ChatCall.Stores
  split <;> infer_instance

/-- A request that makes a message visible finds its session with the owner it has checked. -/
def OwnerKept (s : State) : Event → Prop
  | .chat (.statement i) => ∀ c ∈ s.calls[i]?, c.Stores s →
    ∀ row ∈ s.sessions c.sessionId, row.OwnedBy c.request
  | _ => True

instance (s : State) (e : Event) : Decidable (OwnerKept s e) := by
  unfold OwnerKept
  split <;> infer_instance

/-- What the foreign key and the row locks keep. -/
structure Anchored (s : State) : Prop where
  stored : ∀ m ∈ s.messages, (s.sessions m.sessionId).isSome = true
  locked : ∀ (i : Nat) (c : ChatCall), s.calls[i]? = some c → c.phase.inTransaction = true →
    s.locks c.sessionId = some i ∧ (s.sessions c.sessionId).isSome = true

section Moves

variable {s t : State} {i : Nat} {c : ChatCall} {e : ChatEvent}

theorem Moves.session_kept (h : Moves s i c e t) {k : Nat} (hk : (s.sessions k).isSome = true) :
    (t.sessions k).isSome = true := by
  obtain ⟨row, hrow⟩ := Option.isSome_iff_exists.mp hk
  obtain ⟨row', hrow', -⟩ := h.owner_kept hrow
  simp [hrow']

/-- A request comes into its transaction by locking a session that exists. -/
theorem Moves.locked_self (h : Moves s i c e t) (hi : s.calls[i]? = some c)
    (hc : c.phase.inTransaction = true →
      s.locks c.sessionId = some i ∧ (s.sessions c.sessionId).isSome = true)
    {c' : ChatCall} (hi' : t.calls[i]? = some c') (hphase : c'.phase.inTransaction = true) :
    t.locks c'.sessionId = some i ∧ (t.sessions c'.sessionId).isSome = true := by
  cases h with
  | stop =>
    cases eq_of_getElem?_set_self hi hi'
    cases hphase
  | create _ _ =>
    cases eq_of_getElem?_set_self hi hi'
    cases hphase
  | build _ =>
    cases eq_of_getElem?_set_self hi hi'
    cases hphase
  | persist _ _ _ _ _ =>
    cases eq_of_getElem?_set_self hi hi'
    cases hphase
  | commit _ =>
    cases eq_of_getElem?_set_self hi hi'
    cases hphase
  | lock _ hrow _ =>
    cases eq_of_getElem?_set_self hi hi'
    exact ⟨Function.update_self .., Option.isSome_iff_exists.mpr ⟨_, hrow⟩⟩
  | advance hp =>
    cases eq_of_getElem?_set_self hi hi'
    cases hp with
    | owned _ _ _ => cases hphase
    | missing _ => cases hphase
    | conflict _ => cases hphase
    | again _ _ _ => cases hphase
    | streamed _ => cases hphase
    | filtered _ => cases hphase
    | counted hbefore _ => exact hc (by rw [hbefore]; rfl)
    | updated hbefore => exact hc (by rw [hbefore]; rfl)
    | written hbefore _ => exact hc (by rw [hbefore]; rfl)

theorem Anchored.moves (hs : Anchored s) (hi : s.calls[i]? = some c) (h : Moves s i c e t) :
    Anchored t where
  stored := by
    intro m hm
    rcases h.messages_cases hm with hm | ⟨turn, hphase, -, rfl⟩ | ⟨_, _, _, -, -, hrow, -, rfl⟩
    · exact h.session_kept (hs.stored m hm)
    · exact h.session_kept (hs.locked i c hi (by rw [hphase]; rfl)).2
    · exact h.session_kept hrow
  locked := by
    intro j d hd hphase
    by_cases hj : j = i
    · subst hj
      exact h.locked_self hi (hs.locked j c hi) hd hphase
    · obtain ⟨c', hcalls, -, -⟩ := h.calls_eq
      rw [hcalls, List.getElem?_set_ne (Ne.symm hj)] at hd
      obtain ⟨hlock, hrow⟩ := hs.locked j d hd hphase
      obtain ⟨hlock', hsame⟩ :=
        h.lock_kept (fun hphase => (hs.locked i c hi hphase).1) hj hlock hrow
      exact ⟨hlock', hsame ▸ hrow⟩

theorem Anchored.send (hs : Anchored s) (r : ChatRequest) :
    Anchored { s with calls := s.calls ++ [⟨r, .selectOwner, none, none⟩] } where
  stored := hs.stored
  locked := by
    intro j d hd hphase
    rcases getElem?_push_iff.mp hd with hd | ⟨-, rfl⟩
    · exact hs.locked j d hd hphase
    · cases hphase

theorem Anchored.cascade (hs : Anchored s) {sessionId : Nat} (hfree : s.locks sessionId = none) :
    Anchored (s.cascade sessionId) where
  stored := by
    intro m hm
    obtain ⟨hm, hne⟩ := List.mem_filter.mp hm
    have hne : m.sessionId ≠ sessionId := of_decide_eq_true hne
    have hkept : (s.cascade sessionId).sessions m.sessionId = s.sessions m.sessionId :=
      Function.update_of_ne hne _ _
    rw [hkept]
    exact hs.stored m hm
  locked := by
    intro j d hd hphase
    obtain ⟨hlock, hrow⟩ := hs.locked j d hd hphase
    have hne : d.sessionId ≠ sessionId := by
      rintro rfl
      rw [hfree] at hlock
      cases hlock
    have hkept : (s.cascade sessionId).sessions d.sessionId = s.sessions d.sessionId :=
      Function.update_of_ne hne _ _
    exact ⟨hlock, hkept ▸ hrow⟩

theorem deleteStatement_cases {j : Nat} {d : DeleteCall} (h : deleteStatement s j d = some t) :
    (∃ p, t = s.gotoDelete j d p) ∨
    s.locks d.sessionId = none ∧ t = (s.cascade d.sessionId).gotoDelete j d .over := by
  unfold deleteStatement at h
  split at h
  next =>
    cases Option.some.inj h
    exact .inl ⟨_, rfl⟩
  next =>
    unfold deleteRow at h
    split at h
    next =>
      obtain ⟨hfree, h⟩ := Option.ite_none_right_eq_some.mp h
      cases Option.some.inj h
      exact .inr ⟨hfree, rfl⟩
    next =>
      cases Option.some.inj h
      exact .inl ⟨_, rfl⟩
  next => cases h

/-- A step moves a chat request, leaves the tables and the requests as they are, or deletes an
unlocked session. -/
theorem step_cases {e : Event} (h : step s e = some t) :
    (∃ e', e = .chat e' ∧ chatStep s e' = some t) ∨
    (∃ deletions, t = { s with deletions := deletions }) ∨
    ∃ sessionId deletions, s.locks sessionId = none ∧
      t = { s.cascade sessionId with deletions := deletions } := by
  cases e with
  | chat e' => exact .inl ⟨e', rfl, h⟩
  | sendDelete sessionId workspaceId userId =>
    cases Option.some.inj h
    exact .inr (.inl ⟨_, rfl⟩)
  | deleteStatement j =>
    obtain ⟨d, -, h⟩ := Option.bind_eq_some_iff.mp h
    rcases deleteStatement_cases h with ⟨p, rfl⟩ | ⟨hfree, rfl⟩
    · exact .inr (.inl ⟨_, rfl⟩)
    · exact .inr (.inr ⟨_, _, hfree, rfl⟩)
  | abandonDelete j =>
    obtain ⟨d, -, rfl⟩ := Option.map_eq_some_iff.mp h
    exact .inr (.inl ⟨_, rfl⟩)

theorem Anchored.with_deletions (hs : Anchored s) (deletions : List DeleteCall) :
    Anchored { s with deletions := deletions } :=
  ⟨hs.stored, hs.locked⟩

theorem Anchored.step {e : Event} (hs : Anchored s) (h : step s e = some t) : Anchored t := by
  rcases step_cases h with ⟨e', rfl, h⟩ | ⟨deletions, rfl⟩ | ⟨sessionId, deletions, hfree, rfl⟩
  · rcases chatStep_cases h with ⟨r, -, rfl⟩ | ⟨i, c, hi, hmoves⟩
    · exact hs.send r
    · exact hs.moves hi hmoves
  · exact hs.with_deletions deletions
  · exact (hs.cascade hfree).with_deletions deletions

end Moves

section Owner

variable {s t : State} {i : Nat} {c : ChatCall} {e : ChatEvent}

/-- A message and the request behind it, carried over a move. -/
theorem Moves.owned_message (h : Moves s i c e t) (hi : s.calls[i]? = some c) {m : MessageRow}
    {row : SessionRow} {j : Nat} {d : ChatCall} (hrow : s.sessions m.sessionId = some row)
    (hj : m.request = some j) (hd : s.calls[j]? = some d) (hsession : d.sessionId = m.sessionId)
    (howned : row.OwnedBy d.request) :
    ∃ (row : SessionRow) (i : Nat) (c : ChatCall), t.sessions m.sessionId = some row ∧
      m.request = some i ∧ t.calls[i]? = some c ∧ c.sessionId = m.sessionId ∧
      row.OwnedBy c.request := by
  obtain ⟨row', hrow', hworkspace, huser⟩ := h.owner_kept hrow
  have howned' : row'.OwnedBy d.request := ⟨hworkspace.trans howned.1, huser.trans howned.2⟩
  obtain ⟨c', hcalls, hrequest, -⟩ := h.calls_eq
  by_cases hji : j = i
  · subst hji
    cases Option.some.inj (hi.symm.trans hd)
    refine ⟨row', j, c', hrow', hj, ?_, ?_, hrequest ▸ howned'⟩
    · rw [hcalls]
      exact List.getElem?_set_self (List.getElem?_eq_some_iff.mp hi).1
    · exact (congrArg ChatRequest.sessionId hrequest).trans hsession
  · refine ⟨row', j, d, hrow', hj, ?_, hsession, howned'⟩
    rw [hcalls]
    exact (List.getElem?_set_ne (Ne.symm hji)).trans hd

theorem Moves.messagesOwned (h : Moves s i c e t) (hs : Anchored s) (hp : MessagesOwned s)
    (hi : s.calls[i]? = some c) (hok : OwnerKept s (.chat e)) : MessagesOwned t := by
  have hlen := (List.getElem?_eq_some_iff.mp hi).1
  have old : ∀ m ∈ s.messages, ∃ (row : SessionRow) (i : Nat) (c : ChatCall),
      t.sessions m.sessionId = some row ∧ m.request = some i ∧ t.calls[i]? = some c ∧
      c.sessionId = m.sessionId ∧ row.OwnedBy c.request := by
    intro m hm
    obtain ⟨row, j, d, hrow, hj, hd, hsession, howned⟩ := hp m hm
    exact h.owned_message hi hrow hj hd hsession howned
  cases h with
  | stop => exact old
  | advance _ => exact old
  | create _ _ => exact old
  | lock _ _ _ => exact old
  | build _ => exact old
  | @commit turn hphase =>
    intro m hm
    rcases List.mem_append.mp hm with hm | hm
    · exact old m hm
    · cases List.mem_singleton.mp hm
      obtain ⟨row, hrow⟩ :=
        Option.isSome_iff_exists.mp (hs.locked i c hi (by rw [hphase]; rfl)).2
      have howned := hok c hi (by simp [ChatCall.Stores, hphase]) row hrow
      exact ⟨_, i, _, commitTurn_session hrow, rfl, List.getElem?_set_self hlen, rfl, howned⟩
  | @persist turn content citations row hphase hturn hrow _ hfree =>
    intro m hm
    rcases List.mem_append.mp hm with hm | hm
    · exact old m hm
    · cases List.mem_singleton.mp hm
      have howned := hok c hi (by simpa [ChatCall.Stores, hphase, hturn] using hfree) row hrow
      exact ⟨row, i, _, hrow, rfl, List.getElem?_set_self hlen, rfl, howned⟩

theorem messagesOwned_keep {e : Event} (hs : Anchored s) (hp : MessagesOwned s)
    (hok : OwnerKept s e) (h : step s e = some t) : MessagesOwned t := by
  rcases step_cases h with ⟨e', rfl, h⟩ | ⟨deletions, rfl⟩ | ⟨sessionId, deletions, hfree, rfl⟩
  · rcases chatStep_cases h with ⟨r, -, rfl⟩ | ⟨i, c, hi, hmoves⟩
    · intro m hm
      obtain ⟨row, j, d, hrow, hj, hd, howned⟩ := hp m hm
      exact ⟨row, j, d, hrow, hj, getElem?_push_iff.mpr (.inl hd), howned⟩
    · exact hmoves.messagesOwned hs hp hi hok
  · exact hp
  · intro m hm
    obtain ⟨hm, hne⟩ := List.mem_filter.mp hm
    obtain ⟨row, j, d, hrow, howned⟩ := hp m hm
    exact ⟨row, j, d, (Function.update_of_ne (of_decide_eq_true hne) _ _).trans hrow, howned⟩

theorem persistAssistant_stored {turn : ChatTurnSequence} {content : String}
    {citations : List Nat} {row : SessionRow} (hrow : s.sessions c.sessionId = some row)
    (hfree : ¬ s.Taken c.sessionId turn.assistantSequence)
    (h : persistAssistant s i c turn content citations = some t) :
    t = (s.insertMessage (answerRow i c turn content citations)).goto i c .over := by
  simp only [persistAssistant, hrow] at h
  obtain ⟨-, h⟩ := Option.ite_none_left_eq_some.mp h
  rw [if_neg hfree] at h
  exact (Option.some.inj h).symm

/-- The row that a step makes visible belongs to its requester only if the session does. -/
theorem messagesOwned_exact {e : Event} (h : step s e = some t) (hp : MessagesOwned t) :
    OwnerKept s e := by
  unfold OwnerKept
  split
  next i =>
    intro c hi hstores row hrow
    have hi : s.calls[i]? = some c := hi
    have hrow : s.sessions c.sessionId = some row := hrow
    have hlen := (List.getElem?_eq_some_iff.mp hi).1
    have hstep : statement s i c = some t := by simpa [step, chatStep, hi] using h
    unfold ChatCall.Stores at hstores
    split at hstores
    next _ _ turn hphase =>
      have ht : commitTurn s i c turn = t := by simpa [statement, hphase] using hstep
      subst ht
      obtain ⟨row', j, d, hrow', hj, hd, -, howned⟩ :=
        hp (questionRow i c turn) (List.mem_append_right _ (List.mem_singleton_self _))
      cases hj
      cases Option.some.inj (hd.symm.trans (List.getElem?_set_self hlen))
      cases Option.some.inj (hrow'.symm.trans (commitTurn_session hrow))
      exact howned
    next _ _ content citations turn hphase hturn =>
      have hpersist : persistAssistant s i c turn content citations = some t := by
        simpa [statement, hphase, hturn] using hstep
      have ht := persistAssistant_stored hrow hstores hpersist
      subst ht
      obtain ⟨row', j, d, hrow', hj, hd, -, howned⟩ := hp (answerRow i c turn content citations)
        (List.mem_append_right _ (List.mem_singleton_self _))
      cases hj
      cases Option.some.inj (hd.symm.trans (List.getElem?_set_self hlen))
      cases Option.some.inj (hrow'.symm.trans hrow)
      exact howned
    next => exact absurd hstores not_false
  next => trivial

end Owner

/-- Every message belongs to its session's owner throughout a run just when no message is stored
in a session that has changed hands. -/
theorem messages_owned_iff_owner_kept {u : State} {as : List Event}
    (hr : run step .empty as = some u) :
    Always step MessagesOwned .empty as ↔ Meets step OwnerKept .empty as := by
  have hi : Anchored .empty :=
    ⟨fun _ h => absurd h List.not_mem_nil, fun i c h => by simp [State.empty] at h⟩
  have hp : MessagesOwned .empty := fun _ h => absurd h List.not_mem_nil
  refine always_iff_meets ?_ ?_ ?_ hi hp hr
  · exact fun s t e hs hstep => hs.step hstep
  · exact fun s t e hs hp hok hstep => messagesOwned_keep hs hp hok hstep
  · exact fun s t e _ _ hstep hp => messagesOwned_exact hstep hp

section Examples

def firstOwner : ChatRequest := ⟨0, 0, 0, "a"⟩

def nextOwner : ChatRequest := ⟨0, 0, 1, "b"⟩

/-- A user asks, gets the answer, and deletes the session. -/
def askThenDelete : List Event :=
  [.chat (.send firstOwner)] ++ List.replicate 9 (.chat (.statement 0)) ++
    [.chat (.streamEnd 0 "x"), .chat (.filtered 0 "x" []), .chat (.statement 0)] ++
    [.sendDelete 0 0 0, .deleteStatement 0, .deleteStatement 0]

theorem messages_owned_iff_owner_kept_askThenDelete :
    Meets step OwnerKept .empty askThenDelete ∧
      Always step MessagesOwned .empty askThenDelete := by
  have hrun : (run step .empty askThenDelete).isSome = true := by decide +kernel
  obtain ⟨u, hu⟩ := Option.isSome_iff_exists.mp hrun
  have hmeets : Meets step OwnerKept .empty askThenDelete := by decide +kernel
  exact ⟨hmeets, (messages_owned_iff_owner_kept hu).mpr hmeets⟩

/-- The session is deleted while its owner's answer streams, and opened again by another user. -/
def answerAfterDelete : List Event :=
  [.chat (.send firstOwner)] ++ List.replicate 9 (.chat (.statement 0)) ++
    [.sendDelete 0 0 0, .deleteStatement 0, .deleteStatement 0] ++
    [.chat (.send nextOwner)] ++ List.replicate 8 (.chat (.statement 1)) ++
    [.chat (.streamEnd 0 "x"), .chat (.filtered 0 "x" []), .chat (.statement 0)]

theorem answer_in_foreign_session :
    ∃ s, run step .empty answerAfterDelete = some s ∧ ¬ MessagesOwned s := by
  have hrun : (run step .empty answerAfterDelete).any (fun s =>
      s.sessions 0 == some ⟨0, 1, 3⟩ && (s.calls[0]?.map ChatCall.request) == some firstOwner &&
        s.messages.any fun m => m.sessionId == 0 && m.request == some 0) = true := by
    decide +kernel
  obtain ⟨s, hs, h⟩ := (Option.any_eq_true _ _).mp hrun
  simp only [Bool.and_eq_true, beq_iff_eq] at h
  obtain ⟨⟨hsession, hcall⟩, hmessage⟩ := h
  obtain ⟨m, hm, hkey⟩ := List.any_eq_true.mp hmessage
  simp only [Bool.and_eq_true, beq_iff_eq] at hkey
  refine ⟨s, hs, fun howned => ?_⟩
  obtain ⟨row, i, c, hrow, hi, hc, -, hown⟩ := howned m hm
  cases Option.some.inj (hkey.2.symm.trans hi)
  rw [hkey.1, hsession] at hrow
  rw [hc] at hcall
  cases Option.some.inj hrow
  have huser : (1 : Nat) = firstOwner.userId := Option.some.inj hcall ▸ hown.2
  cases huser

end Examples

end GmragApi.Chat

import GmragApi.ChatTurns
import GmragApi.ProcessPool

/-! What one statement of a chat request can change. -/

namespace GmragApi.Chat

/-- The steps of a request that change no table and no lock. -/
inductive Advance (s : State) (c : ChatCall) : ChatPhase → Prop
  | owned {row} : c.phase = .selectOwner → s.sessions c.sessionId = some row →
      row.OwnedBy c.request → Advance s c .lockSession
  | missing : c.phase = .selectOwner → Advance s c .insertSession
  | conflict : c.phase = .insertSession → Advance s c .selectAgain
  | again {row} : c.phase = .selectAgain → s.sessions c.sessionId = some row →
      row.OwnedBy c.request → Advance s c .lockSession
  | counted {storedNext turn} : c.phase = .readMaximum storedNext →
      reserveTurn storedNext (s.maxExisting c.sessionId) = .ok turn →
      Advance s c (.updateCounter turn)
  | updated {turn} : c.phase = .updateCounter turn → Advance s c (.insertQuestion turn)
  | written {turn} : c.phase = .insertQuestion turn →
      ¬ s.Taken c.sessionId turn.userSequence → Advance s c (.commitTurn turn)
  | streamed : c.phase = .streaming → Advance s c .filterCitations
  | filtered {content citations} : c.phase = .filterCitations →
      Advance s c (.persistAssistant content citations)

/-- Everything that request `i` can do from where it stands. -/
inductive Moves (s : State) (i : Nat) (c : ChatCall) : ChatEvent → State → Prop
  | stop {e} : Moves s i c e (s.stop i c)
  | advance {e p} : Advance s c p → Moves s i c e (s.goto i c p)
  | create {e} : c.phase = .insertSession → s.sessions c.sessionId = none →
      Moves s i c e ((s.setSession c.sessionId (some c.request.newSession)).goto i c .selectAgain)
  | lock {e row} : c.phase = .lockSession → s.sessions c.sessionId = some row →
      s.locks c.sessionId = none →
      Moves s i c e
        ((s.setLock c.sessionId (some i)).goto i c (.readMaximum row.nextMessageSequence))
  | commit {turn} : c.phase = .commitTurn turn →
      Moves s i c (.statement i) (commitTurn s i c turn)
  | build : c.phase = .buildContext → Moves s i c (.statement i) (buildContext s i c)
  | persist {turn content citations row} : c.phase = .persistAssistant content citations →
      c.turn = some turn → s.sessions c.sessionId = some row → s.locks c.sessionId = none →
      ¬ s.Taken c.sessionId turn.assistantSequence →
      Moves s i c (.statement i)
        ((s.insertMessage (answerRow i c turn content citations)).goto i c .over)

section Inversion

variable {s t : State} {i : Nat} {c : ChatCall} {e : ChatEvent}

theorem selectOwner_moves (hc : c.phase = .selectOwner) : Moves s i c e (selectOwner s i c) := by
  unfold selectOwner
  split
  next row hrow =>
    split
    next howned => exact .advance (.owned hc hrow howned)
    next => exact .stop
  next => exact .advance (.missing hc)

theorem insertSession_moves (hc : c.phase = .insertSession) :
    Moves s i c e (insertSession s i c) := by
  unfold insertSession
  split
  next => exact .advance (.conflict hc)
  next hnone => exact .create hc hnone

theorem selectAgain_moves (hc : c.phase = .selectAgain) : Moves s i c e (selectAgain s i c) := by
  unfold selectAgain
  split
  next row hrow =>
    split
    next howned => exact .advance (.again hc hrow howned)
    next => exact .stop
  next => exact .stop

theorem lockSession_moves (hc : c.phase = .lockSession) (h : lockSession s i c = some t) :
    Moves s i c e t := by
  unfold lockSession at h
  split at h
  next =>
    cases Option.some.inj h
    exact .stop
  next row hrow =>
    obtain ⟨hfree, h⟩ := Option.ite_none_right_eq_some.mp h
    cases Option.some.inj h
    exact .lock hc hrow hfree

theorem readMaximum_moves {storedNext : Int} (hc : c.phase = .readMaximum storedNext) :
    Moves s i c e (readMaximum s i c storedNext) := by
  unfold readMaximum
  split
  next turn hturn => exact .advance (.counted hc hturn)
  next => exact .stop

theorem insertQuestion_moves {turn : ChatTurnSequence} (hc : c.phase = .insertQuestion turn) :
    Moves s i c e (insertQuestion s i c turn) := by
  unfold insertQuestion
  split
  next => exact .stop
  next hfree => exact .advance (.written hc hfree)

theorem persistAssistant_moves {turn : ChatTurnSequence} {content : String} {citations : List Nat}
    (hc : c.phase = .persistAssistant content citations) (hturn : c.turn = some turn)
    (h : persistAssistant s i c turn content citations = some t) :
    Moves s i c (.statement i) t := by
  unfold persistAssistant at h
  split at h
  next =>
    cases Option.some.inj h
    exact .stop
  next row hrow =>
    obtain ⟨hfree, h⟩ := Option.ite_none_left_eq_some.mp h
    split at h
    next =>
      cases Option.some.inj h
      exact .stop
    next hvacant =>
      cases Option.some.inj h
      exact .persist hc hturn hrow (not_not.mp hfree) hvacant

theorem statement_moves (h : statement s i c = some t) : Moves s i c (.statement i) t := by
  unfold statement at h
  split at h
  next hc =>
    cases Option.some.inj h
    exact selectOwner_moves hc
  next hc =>
    cases Option.some.inj h
    exact insertSession_moves hc
  next hc =>
    cases Option.some.inj h
    exact selectAgain_moves hc
  next hc => exact lockSession_moves hc h
  next hc =>
    cases Option.some.inj h
    exact readMaximum_moves hc
  next hc =>
    cases Option.some.inj h
    exact .advance (.updated hc)
  next hc =>
    cases Option.some.inj h
    exact insertQuestion_moves hc
  next hc =>
    cases Option.some.inj h
    exact .commit hc
  next hc =>
    cases Option.some.inj h
    exact .build hc
  next hc =>
    split at h
    next turn hturn => exact persistAssistant_moves hc hturn h
    next => cases h
  next => cases h

theorem streamEnd_moves {text : String} (h : streamEnd s i c text = some t) :
    Moves s i c e t := by
  obtain ⟨hc, h⟩ := Option.ite_none_right_eq_some.mp h
  cases Option.some.inj h
  split
  next => exact .stop
  next => exact .advance (.streamed hc)

theorem filtered_moves {content : String} {citations : List Nat}
    (h : filtered s i c content citations = some t) : Moves s i c e t := by
  obtain ⟨hc, h⟩ := Option.ite_none_right_eq_some.mp h
  cases Option.some.inj h
  exact .advance (.filtered hc)

/-- A step of the chat requests starts one or moves one. -/
theorem chatStep_cases (h : chatStep s e = some t) :
    (∃ r, r.message ≠ "" ∧ t = { s with calls := s.calls ++ [⟨r, .selectOwner, none, none⟩] }) ∨
    ∃ i c, s.calls[i]? = some c ∧ Moves s i c e t := by
  cases e with
  | send r =>
    obtain ⟨hmessage, h⟩ := Option.ite_none_left_eq_some.mp h
    cases Option.some.inj h
    exact .inl ⟨r, hmessage, rfl⟩
  | statement i =>
    obtain ⟨c, hc, h⟩ := Option.bind_eq_some_iff.mp h
    exact .inr ⟨i, c, hc, statement_moves h⟩
  | streamEnd i text =>
    obtain ⟨c, hc, h⟩ := Option.bind_eq_some_iff.mp h
    exact .inr ⟨i, c, hc, streamEnd_moves h⟩
  | filtered i content citations =>
    obtain ⟨c, hc, h⟩ := Option.bind_eq_some_iff.mp h
    exact .inr ⟨i, c, hc, filtered_moves h⟩
  | abandon i =>
    obtain ⟨c, hc, rfl⟩ := Option.map_eq_some_iff.mp h
    exact .inr ⟨i, c, hc, .stop⟩

end Inversion

/-- Where the row of a request's session is locked by the request. -/
def ChatPhase.inTransaction : ChatPhase → Bool
  | readMaximum _ => true
  | updateCounter _ => true
  | insertQuestion _ => true
  | commitTurn _ => true
  | _ => false

/-- The session of a request is one of its user in its workspace. -/
def Owned (s : State) (c : ChatCall) : Prop :=
  ∃ row, s.sessions c.sessionId = some row ∧ row.OwnedBy c.request

section Effects

variable {s t : State} {i : Nat} {c : ChatCall} {e : ChatEvent}

theorem taken_append {m : MessageRow} {sessionId : Nat} {p : Int}
    (h : (s.insertMessage m).Taken sessionId p) :
    s.Taken sessionId p ∨ m.key = (sessionId, p) := by
  obtain ⟨n, hn, hkey⟩ := h
  rcases List.mem_append.mp hn with hn | hn
  · exact .inl ⟨n, hn, hkey⟩
  · cases List.mem_singleton.mp hn
    exact .inr hkey

/-- A row is written only by a commit or by a persisted answer. -/
theorem Moves.messages_cases (h : Moves s i c e t) {m : MessageRow} (hm : m ∈ t.messages) :
    m ∈ s.messages ∨
    (∃ turn, c.phase = .commitTurn turn ∧ t = commitTurn s i c turn ∧ m = questionRow i c turn) ∨
    ∃ turn content citations, c.phase = .persistAssistant content citations ∧
      c.turn = some turn ∧ (s.sessions c.sessionId).isSome = true ∧
      t = (s.insertMessage (answerRow i c turn content citations)).goto i c .over ∧
      m = answerRow i c turn content citations := by
  cases h with
  | stop => exact .inl hm
  | advance _ => exact .inl hm
  | create _ _ => exact .inl hm
  | lock _ _ _ => exact .inl hm
  | build _ => exact .inl hm
  | @commit turn hphase =>
    rcases List.mem_append.mp hm with hm | hm
    · exact .inl hm
    · exact .inr (.inl ⟨turn, hphase, rfl, List.mem_singleton.mp hm⟩)
  | @persist turn content citations row hphase hturn hrow _ _ =>
    rcases List.mem_append.mp hm with hm | hm
    · exact .inl hm
    · exact .inr (.inr ⟨turn, content, citations, hphase, hturn, by simp [hrow], rfl,
        List.mem_singleton.mp hm⟩)

/-- Where a request goes, its turn goes with it; a commit gives it one. -/
theorem Moves.calls_eq (h : Moves s i c e t) : ∃ c', t.calls = s.calls.set i c' ∧
    c'.request = c.request ∧
    (c'.turn = c.turn ∧ (c.phase = .over → c'.phase = .over) ∨
      ∃ turn, c.phase = .commitTurn turn ∧ c'.turn = some turn ∧ t = commitTurn s i c turn) := by
  cases h with
  | stop => exact ⟨_, rfl, rfl, .inl ⟨rfl, fun _ => rfl⟩⟩
  | advance hp =>
    refine ⟨_, rfl, rfl, .inl ⟨rfl, fun hover => ?_⟩⟩
    cases hp <;> simp_all
  | create hphase _ => exact ⟨_, rfl, rfl, .inl ⟨rfl, fun hover => by simp_all⟩⟩
  | lock hphase _ _ => exact ⟨_, rfl, rfl, .inl ⟨rfl, fun hover => by simp_all⟩⟩
  | build hphase => exact ⟨_, rfl, rfl, .inl ⟨rfl, fun hover => by simp_all⟩⟩
  | persist _ _ _ _ _ => exact ⟨_, rfl, rfl, .inl ⟨rfl, fun _ => rfl⟩⟩
  | @commit turn hphase =>
    exact ⟨_, rfl, rfl, .inr ⟨turn, hphase, rfl, rfl⟩⟩

theorem commitTurn_session {turn : ChatTurnSequence} {row : SessionRow}
    (hrow : s.sessions c.sessionId = some row) :
    (commitTurn s i c turn).sessions c.sessionId =
      some { row with nextMessageSequence := turn.nextSequence } :=
  (Function.update_self ..).trans (congrArg (Option.map _) hrow)

theorem Moves.owner_kept (h : Moves s i c e t) {k : Nat} {row : SessionRow}
    (hrow : s.sessions k = some row) : ∃ row', t.sessions k = some row' ∧
      row'.workspaceId = row.workspaceId ∧ row'.userId = row.userId := by
  cases h with
  | stop => exact ⟨row, hrow, rfl, rfl⟩
  | advance _ => exact ⟨row, hrow, rfl, rfl⟩
  | lock _ _ _ => exact ⟨row, hrow, rfl, rfl⟩
  | build _ => exact ⟨row, hrow, rfl, rfl⟩
  | persist _ _ _ _ _ => exact ⟨row, hrow, rfl, rfl⟩
  | create _ hnone =>
    have hk : k ≠ c.sessionId := by
      rintro rfl
      rw [hnone] at hrow
      cases hrow
    exact ⟨row, (Function.update_of_ne hk _ _).trans hrow, rfl, rfl⟩
  | commit _ =>
    by_cases hk : k = c.sessionId
    · subst hk
      exact ⟨_, commitTurn_session hrow, rfl, rfl⟩
    · exact ⟨row, (Function.update_of_ne hk _ _).trans hrow, rfl, rfl⟩

theorem Moves.owned_kept (h : Moves s i c e t) {d d' : ChatCall} (hd : Owned s d)
    (hrequest : d'.request = d.request) : Owned t d' := by
  obtain ⟨row, hrow, hworkspace, huser⟩ := hd
  obtain ⟨row', hrow', hworkspace', huser'⟩ := h.owner_kept hrow
  have hsession : d'.sessionId = d.sessionId := congrArg ChatRequest.sessionId hrequest
  refine ⟨row', hsession ▸ hrow', ?_, ?_⟩
  · rw [hworkspace', hworkspace, hrequest]
  · rw [huser', huser, hrequest]

/-- A row that another request has locked stays locked, and as it is. -/
theorem Moves.lock_kept (h : Moves s i c e t)
    (hc : c.phase.inTransaction = true → s.locks c.sessionId = some i) {j : Nat} (hj : j ≠ i)
    {k : Nat} (hlock : s.locks k = some j) (hrow : (s.sessions k).isSome) :
    t.locks k = some j ∧ t.sessions k = s.sessions k := by
  cases h with
  | stop =>
    refine ⟨?_, rfl⟩
    have hne : s.locks k ≠ some i := by
      rw [hlock]
      exact fun h => hj (Option.some.inj h)
    exact (if_neg hne).trans hlock
  | advance _ => exact ⟨hlock, rfl⟩
  | build _ => exact ⟨hlock, rfl⟩
  | persist _ _ _ _ _ => exact ⟨hlock, rfl⟩
  | create _ hnone =>
    have hk : k ≠ c.sessionId := by
      rintro rfl
      simp [hnone] at hrow
    exact ⟨hlock, Function.update_of_ne hk _ _⟩
  | lock _ _ hfree =>
    have hk : k ≠ c.sessionId := by
      rintro rfl
      simp [hfree] at hlock
    exact ⟨(Function.update_of_ne hk _ _).trans hlock, rfl⟩
  | commit hphase =>
    have hown : s.locks c.sessionId = some i := hc (by rw [hphase]; rfl)
    have hk : k ≠ c.sessionId := by
      rintro rfl
      exact hj (Option.some.inj (hlock.symm.trans hown))
    exact ⟨(Function.update_of_ne hk _ _).trans hlock, Function.update_of_ne hk _ _⟩

end Effects

end GmragApi.Chat

import GmragApi.ChatMoves
import Mathlib.Data.List.Nodup
import Mathlib.Data.List.Perm.Basic

/-! The turns of a session keep to positions of their own. -/

namespace GmragApi.Chat

open Transition ProcessPool

/-- A database as the migration leaves it: positions are unique, the counters are ahead of them,
and no request is in flight. -/
structure Migrated (s : State) : Prop where
  unique : (s.messages.map MessageRow.key).Nodup
  ahead : ∀ m ∈ s.messages, m.request = none ∧
    ∃ row, s.sessions m.sessionId = some row ∧ m.messageSequence < row.nextMessageSequence
  idle : s.calls = []

def ChatTurnSequence.positions (turn : ChatTurnSequence) : List Int :=
  [turn.userSequence, turn.assistantSequence]

theorem mem_positions {turn : ChatTurnSequence} {p : Int} :
    p ∈ turn.positions ↔ p = turn.userSequence ∨ p = turn.assistantSequence := by
  simp [ChatTurnSequence.positions]

/-- The messages of a session as they are shown. -/
def OrderedHistory (s : State) (sessionId : Nat) (history : List MessageRow) : Prop :=
  history.Perm (s.sessionMessages sessionId) ∧
    history.Pairwise fun a b => a.messageSequence ≤ b.messageSequence

/-- The answer of a request stands right behind its question. -/
def AnswersInPlace (history : List MessageRow) : Prop :=
  ∀ earlier answer later i, history = earlier ++ answer :: later → answer.role = .assistant →
    answer.request = some i →
    ∃ front asked, earlier = front ++ [asked] ∧ asked.role = .user ∧ asked.request = some i

/-- The insert that a request is about to make. -/
def ChatCall.inserts? (c : ChatCall) : Option Int :=
  match c.phase with
  | .insertQuestion turn => some turn.userSequence
  | .persistAssistant _ _ => c.turn.map ChatTurnSequence.assistantSequence
  | _ => none

structure TurnsSequenced (s : State) : Prop where
  disjoint : ∀ (i j : Nat) (c d : ChatCall) (turn other : ChatTurnSequence), i ≠ j →
    s.calls[i]? = some c → s.calls[j]? = some d → c.sessionId = d.sessionId →
    c.turn = some turn → d.turn = some other → turn.positions.Disjoint other.positions
  adjacent : ∀ (i : Nat) (c : ChatCall) (turn : ChatTurnSequence), s.calls[i]? = some c →
    c.turn = some turn → turn.assistantSequence = turn.userSequence + 1
  aheadOfUsed : ∀ m ∈ s.messages, ∃ row, s.sessions m.sessionId = some row ∧
    m.messageSequence < row.nextMessageSequence
  aheadOfReserved : ∀ (i : Nat) (c : ChatCall) (turn : ChatTurnSequence), s.calls[i]? = some c →
    c.turn = some turn → ∃ row, s.sessions c.sessionId = some row ∧
      ∀ p ∈ turn.positions, p < row.nextMessageSequence
  unique : (s.messages.map MessageRow.key).Nodup
  vacant : ∀ (i : Nat) (c : ChatCall) (p : Int), s.calls[i]? = some c → c.inserts? = some p →
    ¬ s.Taken c.sessionId p
  inPlace : ∀ sessionId history, OrderedHistory s sessionId history → AnswersInPlace history

section Invariant

/-- The positions that a transaction is about to reserve are ahead of the counter. -/
def State.Pending (s : State) (sessionId : Nat) (turn : ChatTurnSequence) : Prop :=
  turn.assistantSequence = turn.userSequence + 1 ∧
    ∃ row, s.sessions sessionId = some row ∧ row.nextMessageSequence ≤ turn.userSequence

/-- What is known where a request stands. -/
def ChatCall.Stands (s : State) (i : Nat) (c : ChatCall) : Prop :=
  match c.phase with
  | .selectOwner => c.turn = none
  | .insertSession => c.turn = none
  | .selectAgain => c.turn = none
  | .lockSession => c.turn = none
  | .readMaximum storedNext => c.turn = none ∧ s.locks c.sessionId = some i ∧
    ∃ row, s.sessions c.sessionId = some row ∧ row.nextMessageSequence = storedNext
  | .updateCounter turn => c.turn = none ∧ s.locks c.sessionId = some i ∧ s.Pending c.sessionId turn
  | .insertQuestion turn =>
    c.turn = none ∧ s.locks c.sessionId = some i ∧ s.Pending c.sessionId turn
  | .commitTurn turn => c.turn = none ∧ s.locks c.sessionId = some i ∧ s.Pending c.sessionId turn
  | .over => True
  | _ => ∃ turn, c.turn = some turn ∧ ¬ s.Taken c.sessionId turn.assistantSequence

/-- A turn once it is reserved. -/
structure Reserved (s : State) (i : Nat) (c : ChatCall) (turn : ChatTurnSequence) : Prop where
  adjacent : turn.assistantSequence = turn.userSequence + 1
  ahead : ∃ row, s.sessions c.sessionId = some row ∧
    turn.assistantSequence < row.nextMessageSequence
  asked : questionRow i c turn ∈ s.messages

/-- The rows that a request has written are those of its turn. -/
def MessageRow.WrittenBy (m : MessageRow) (i : Nat) (c : ChatCall) (turn : ChatTurnSequence) :
    Prop :=
  m = questionRow i c turn ∨
    c.phase = .over ∧ ∃ content citations, m = answerRow i c turn content citations

structure Sequenced (s : State) : Prop where
  unique : (s.messages.map MessageRow.key).Nodup
  stored : ∀ m ∈ s.messages, ∃ row, s.sessions m.sessionId = some row ∧
    m.messageSequence < row.nextMessageSequence
  calls : ∀ (i : Nat) (c : ChatCall), s.calls[i]? = some c → c.Stands s i
  turns : ∀ (i : Nat) (c : ChatCall), s.calls[i]? = some c → ∀ turn, c.turn = some turn →
    Reserved s i c turn
  apart : ∀ (i j : Nat) (c d : ChatCall), i ≠ j → s.calls[i]? = some c → s.calls[j]? = some d →
    c.sessionId = d.sessionId → ∀ turn other, c.turn = some turn → d.turn = some other →
    turn.assistantSequence < other.userSequence ∨ other.assistantSequence < turn.userSequence
  written : ∀ m ∈ s.messages, ∀ i, m.request = some i → ∃ c turn, s.calls[i]? = some c ∧
    c.turn = some turn ∧ m.WrittenBy i c turn

variable {s t : State} {i : Nat} {c : ChatCall} {e : ChatEvent}

theorem reserveTurn_ahead {storedNext : Int} {maxExisting : Option Int} {turn : ChatTurnSequence}
    (h : reserveTurn storedNext maxExisting = .ok turn) :
    turn.assistantSequence = turn.userSequence + 1 ∧ storedNext ≤ turn.userSequence := by
  unfold reserveTurn at h
  cases hf : firstAvailable maxExisting with
  | error e =>
    rw [hf] at h
    cases h
  | ok first =>
    rw [hf] at h
    change (if max storedNext first > i64Max - 2 then _ else _) = _ at h
    split at h
    · cases h
    · cases h
      exact ⟨rfl, le_max_left _ _⟩

/-- The counters only grow, and no row is lost. -/
structure Grows (s t : State) : Prop where
  counters : ∀ k row, s.sessions k = some row → ∃ row', t.sessions k = some row' ∧
    row.nextMessageSequence ≤ row'.nextMessageSequence
  messages : ∀ m ∈ s.messages, m ∈ t.messages

theorem grows_of_eq (hs : t.sessions = s.sessions) (hm : t.messages = s.messages) : Grows s t := by
  refine ⟨fun k row hrow => ⟨row, ?_, le_rfl⟩, fun m hmem => ?_⟩
  · rw [hs]
    exact hrow
  · rw [hm]
    exact hmem

theorem Moves.grows (h : Moves s i c e t) (hc : c.Stands s i) : Grows s t := by
  cases h with
  | stop => exact grows_of_eq rfl rfl
  | advance _ => exact grows_of_eq rfl rfl
  | lock _ _ _ => exact grows_of_eq rfl rfl
  | build _ => exact grows_of_eq rfl rfl
  | persist _ _ _ _ _ =>
    exact ⟨fun k row hrow => ⟨row, hrow, le_rfl⟩, fun m hm => List.mem_append_left _ hm⟩
  | create _ hnone =>
    refine ⟨fun k row hrow => ⟨row, ?_, le_rfl⟩, fun m hm => hm⟩
    have hk : k ≠ c.sessionId := by
      rintro rfl
      rw [hnone] at hrow
      cases hrow
    exact (Function.update_of_ne hk _ _).trans hrow
  | commit hphase =>
    simp only [ChatCall.Stands, hphase] at hc
    obtain ⟨-, -, -, row, hrow, hle⟩ := hc
    refine ⟨fun k old hold => ?_, fun m hm => List.mem_append_left _ hm⟩
    by_cases hk : k = c.sessionId
    · subst hk
      cases Option.some.inj (hrow.symm.trans hold)
      refine ⟨_, (Function.update_self ..).trans (congrArg (Option.map _) hrow), ?_⟩
      simp only [ChatTurnSequence.nextSequence]
      omega
    · exact ⟨old, (Function.update_of_ne hk _ _).trans hold, le_rfl⟩

theorem Grows.reserved {turn : ChatTurnSequence} {c' : ChatCall} (h : Grows s t)
    (hr : Reserved s i c turn) (hrequest : c'.request = c.request) : Reserved t i c' turn := by
  obtain ⟨row, hrow, hlt⟩ := hr.ahead
  obtain ⟨row', hrow', hle⟩ := h.counters _ row hrow
  have hsession : c'.sessionId = c.sessionId := congrArg ChatRequest.sessionId hrequest
  refine ⟨hr.adjacent, ⟨row', ?_, by omega⟩, ?_⟩
  · rw [hsession]
    exact hrow'
  · have hasked := h.messages _ hr.asked
    simpa only [questionRow, hsession, hrequest] using hasked

theorem stored_not_taken {sessionId : Nat} {row : SessionRow} {p : Int}
    (hstored : ∀ m ∈ s.messages, ∃ row, s.sessions m.sessionId = some row ∧
      m.messageSequence < row.nextMessageSequence)
    (hrow : s.sessions sessionId = some row) (hp : row.nextMessageSequence ≤ p) :
    ¬ s.Taken sessionId p := by
  rintro ⟨m, hm, hkey⟩
  obtain ⟨rfl, rfl⟩ := Prod.mk.inj hkey
  obtain ⟨row', hrow', hlt⟩ := hstored m hm
  cases Option.some.inj (hrow.symm.trans hrow')
  omega

theorem ChatCall.Stands.locked (h : c.Stands s i) (hphase : c.phase.inTransaction = true) :
    s.locks c.sessionId = some i := by
  unfold ChatCall.Stands at h
  split at h <;> simp_all [ChatPhase.inTransaction]

theorem Advance.stands {p : ChatPhase} (h : Advance s c p) (hc : c.Stands s i) :
    ChatCall.Stands (s.goto i c p) i { c with phase := p } := by
  cases h with
  | owned hphase _ _ =>
    simp only [ChatCall.Stands, hphase] at hc
    exact hc
  | missing hphase =>
    simp only [ChatCall.Stands, hphase] at hc
    exact hc
  | conflict hphase =>
    simp only [ChatCall.Stands, hphase] at hc
    exact hc
  | again hphase _ _ =>
    simp only [ChatCall.Stands, hphase] at hc
    exact hc
  | updated hphase =>
    simp only [ChatCall.Stands, hphase] at hc
    exact hc
  | written hphase _ =>
    simp only [ChatCall.Stands, hphase] at hc
    exact hc
  | streamed hphase =>
    simp only [ChatCall.Stands, hphase] at hc
    exact hc
  | filtered hphase =>
    simp only [ChatCall.Stands, hphase] at hc
    exact hc
  | counted hphase hturn =>
    simp only [ChatCall.Stands, hphase] at hc
    obtain ⟨hnone, hlock, row, hrow, rfl⟩ := hc
    obtain ⟨hadjacent, hle⟩ := reserveTurn_ahead hturn
    exact ⟨hnone, hlock, hadjacent, row, hrow, hle⟩

theorem Moves.stands_self (h : Moves s i c e t) (hs : Sequenced s) (hi : s.calls[i]? = some c)
    {c' : ChatCall} (hi' : t.calls[i]? = some c') : c'.Stands t i := by
  have hc := hs.calls i c hi
  cases h with
  | stop =>
    cases eq_of_getElem?_set_self hi hi'
    exact trivial
  | advance hp =>
    cases eq_of_getElem?_set_self hi hi'
    exact hp.stands hc
  | create hphase _ =>
    cases eq_of_getElem?_set_self hi hi'
    simp only [ChatCall.Stands, hphase] at hc
    exact hc
  | @lock _ row hphase hrow hfree =>
    cases eq_of_getElem?_set_self hi hi'
    simp only [ChatCall.Stands, hphase] at hc
    exact ⟨hc, Function.update_self .., row, hrow, rfl⟩
  | build hphase =>
    cases eq_of_getElem?_set_self hi hi'
    simp only [ChatCall.Stands, hphase] at hc
    exact hc
  | persist _ _ _ _ _ =>
    cases eq_of_getElem?_set_self hi hi'
    exact trivial
  | @commit turn hphase =>
    cases eq_of_getElem?_set_self hi hi'
    simp only [ChatCall.Stands, hphase] at hc
    obtain ⟨-, -, hadjacent, row, hrow, hle⟩ := hc
    refine ⟨turn, rfl, fun htaken => ?_⟩
    rcases taken_append (s := s) htaken with htaken | hkey
    · exact stored_not_taken hs.stored hrow (by omega) htaken
    · have := (Prod.mk.inj hkey).2
      simp only [questionRow] at this
      omega

/-- What a request knows stays true when the row of its session stays locked and its answer's
position stays free. -/
theorem ChatCall.Stands.frame {j : Nat} {d : ChatCall} (h : d.Stands s j)
    (hlocked : s.locks d.sessionId = some j → (s.sessions d.sessionId).isSome →
      t.locks d.sessionId = some j ∧ t.sessions d.sessionId = s.sessions d.sessionId)
    (hfree : ∀ turn, d.turn = some turn →
      ¬ s.Taken d.sessionId turn.assistantSequence → ¬ t.Taken d.sessionId turn.assistantSequence) :
    d.Stands t j := by
  have pending : ∀ turn, s.locks d.sessionId = some j → s.Pending d.sessionId turn →
      t.locks d.sessionId = some j ∧ t.Pending d.sessionId turn := by
    rintro turn hlock ⟨hadjacent, row, hrow, hle⟩
    obtain ⟨hlock', hsame⟩ := hlocked hlock (by simp [hrow])
    exact ⟨hlock', hadjacent, row, hsame.trans hrow, hle⟩
  unfold ChatCall.Stands at h ⊢
  split
  next hphase => simpa only [hphase] using h
  next hphase => simpa only [hphase] using h
  next hphase => simpa only [hphase] using h
  next hphase => simpa only [hphase] using h
  next hphase =>
    simp only [hphase] at h
    obtain ⟨hnone, hlock, row, hrow, hnext⟩ := h
    obtain ⟨hlock', hsame⟩ := hlocked hlock (by simp [hrow])
    exact ⟨hnone, hlock', row, hsame.trans hrow, hnext⟩
  next hphase =>
    simp only [hphase] at h
    exact ⟨h.1, pending _ h.2.1 h.2.2⟩
  next hphase =>
    simp only [hphase] at h
    exact ⟨h.1, pending _ h.2.1 h.2.2⟩
  next hphase =>
    simp only [hphase] at h
    exact ⟨h.1, pending _ h.2.1 h.2.2⟩
  next => trivial
  next hover =>
    have : ∃ turn, d.turn = some turn ∧ ¬ s.Taken d.sessionId turn.assistantSequence := by
      cases hphase : d.phase <;> simp_all
    obtain ⟨turn, hturn, hvacant⟩ := this
    exact ⟨turn, hturn, hfree turn hturn hvacant⟩

theorem Moves.free_kept (h : Moves s i c e t) (hs : Sequenced s) (hi : s.calls[i]? = some c)
    {j : Nat} {d : ChatCall} (hj : j ≠ i) (hd : s.calls[j]? = some d) {turn : ChatTurnSequence}
    (hturn : d.turn = some turn) (hfree : ¬ s.Taken d.sessionId turn.assistantSequence) :
    ¬ t.Taken d.sessionId turn.assistantSequence := by
  cases h with
  | stop => exact hfree
  | advance _ => exact hfree
  | create _ _ => exact hfree
  | lock _ _ _ => exact hfree
  | build _ => exact hfree
  | @persist own content citations row _ hown _ _ _ =>
    intro htaken
    rcases taken_append (s := s) htaken with htaken | hkey
    · exact hfree htaken
    · obtain ⟨hsession, hsequence⟩ := Prod.mk.inj hkey
      simp only [answerRow] at hsession hsequence
      have hadjacent := (hs.turns j d hd turn hturn).adjacent
      have hown' := (hs.turns i c hi own hown).adjacent
      have := hs.apart i j c d (Ne.symm hj) hi hd hsession own turn hown hturn
      omega
  | @commit own hphase =>
    intro htaken
    rcases taken_append (s := s) htaken with htaken | hkey
    · exact hfree htaken
    · obtain ⟨hsession, hsequence⟩ := Prod.mk.inj hkey
      simp only [questionRow] at hsession hsequence
      have hc := hs.calls i c hi
      simp only [ChatCall.Stands, hphase] at hc
      obtain ⟨-, -, -, row, hrow, hle⟩ := hc
      obtain ⟨row', hrow', hlt⟩ := (hs.turns j d hd turn hturn).ahead
      rw [hsession] at hrow
      cases Option.some.inj (hrow.symm.trans hrow')
      omega

theorem Moves.unique_kept (h : Moves s i c e t) (hs : Sequenced s) (hi : s.calls[i]? = some c) :
    (t.messages.map MessageRow.key).Nodup := by
  have insert : ∀ m : MessageRow, ¬ s.Taken m.sessionId m.messageSequence →
      ((s.messages ++ [m]).map MessageRow.key).Nodup := by
    intro m hfree
    rw [List.map_append, List.nodup_append]
    refine ⟨hs.unique, by simp, ?_⟩
    intro key hkey other hother heq
    obtain ⟨n, hn, rfl⟩ := List.mem_map.mp hkey
    cases List.mem_singleton.mp hother
    exact hfree ⟨n, hn, heq⟩
  cases h with
  | stop => exact hs.unique
  | advance _ => exact hs.unique
  | create _ _ => exact hs.unique
  | lock _ _ _ => exact hs.unique
  | build _ => exact hs.unique
  | persist _ _ _ _ hfree => exact insert _ hfree
  | commit hphase =>
    have hc := hs.calls i c hi
    simp only [ChatCall.Stands, hphase] at hc
    obtain ⟨-, -, -, row, hrow, hle⟩ := hc
    exact insert _ (stored_not_taken hs.stored hrow hle)

theorem Moves.stored_kept (h : Moves s i c e t) (hs : Sequenced s) (hi : s.calls[i]? = some c) :
    ∀ m ∈ t.messages, ∃ row, t.sessions m.sessionId = some row ∧
      m.messageSequence < row.nextMessageSequence := by
  intro m hm
  have hgrows := h.grows (hs.calls i c hi)
  rcases h.messages_cases hm with hm | ⟨turn, hphase, rfl, rfl⟩ | ⟨turn, _, _, _, hturn, -, -, rfl⟩
  · obtain ⟨row, hrow, hlt⟩ := hs.stored m hm
    obtain ⟨row', hrow', hle⟩ := hgrows.counters _ row hrow
    exact ⟨row', hrow', by omega⟩
  · have hc := hs.calls i c hi
    simp only [ChatCall.Stands, hphase] at hc
    obtain ⟨-, -, -, row, hrow, -⟩ := hc
    refine ⟨_, commitTurn_session hrow, ?_⟩
    simp only [questionRow, ChatTurnSequence.nextSequence]
    omega
  · obtain ⟨row, hrow, hlt⟩ := (hs.turns i c hi turn hturn).ahead
    obtain ⟨row', hrow', hle⟩ := hgrows.counters _ row hrow
    exact ⟨row', hrow', by simp only [answerRow]; omega⟩

/-- A commit reserves what lies behind every turn of its session. -/
theorem commit_behind {turn other : ChatTurnSequence} (hs : Sequenced s)
    (hi : s.calls[i]? = some c) (hphase : c.phase = .commitTurn turn) {j : Nat} {d : ChatCall}
    (hd : s.calls[j]? = some d) (hsession : c.sessionId = d.sessionId)
    (hother : d.turn = some other) : other.assistantSequence < turn.userSequence := by
  have hc := hs.calls i c hi
  simp only [ChatCall.Stands, hphase] at hc
  obtain ⟨-, -, -, row, hrow, hle⟩ := hc
  obtain ⟨row', hrow', hlt⟩ := (hs.turns j d hd other hother).ahead
  rw [hsession] at hrow
  cases Option.some.inj (hrow.symm.trans hrow')
  omega

/-- The turn of a request after a step is the one before it, or it was reserved just now. -/
theorem Moves.turn_cases (h : Moves s i c e t) (hi : s.calls[i]? = some c) {j : Nat} {d : ChatCall}
    (hd : t.calls[j]? = some d) {turn : ChatTurnSequence} (hturn : d.turn = some turn) :
    (∃ d', s.calls[j]? = some d' ∧ d.request = d'.request ∧ d'.turn = some turn) ∨
    (j = i ∧ c.phase = .commitTurn turn ∧ t = commitTurn s i c turn ∧ d.request = c.request) := by
  obtain ⟨c', hcalls, hrequest, ⟨hsame, -⟩ | ⟨own, hphase, hown, ht⟩⟩ := h.calls_eq
  · rw [hcalls] at hd
    rcases (getElem?_set_iff hi).mp hd with ⟨rfl, rfl⟩ | ⟨-, hd⟩
    · exact .inl ⟨c, hi, hrequest, hsame.symm.trans hturn⟩
    · exact .inl ⟨d, hd, rfl, hturn⟩
  · rw [hcalls] at hd
    rcases (getElem?_set_iff hi).mp hd with ⟨rfl, rfl⟩ | ⟨-, hd⟩
    · cases Option.some.inj (hown.symm.trans hturn)
      exact .inr ⟨rfl, hphase, ht, hrequest⟩
    · exact .inl ⟨d, hd, rfl, hturn⟩

theorem Moves.turns_kept (h : Moves s i c e t) (hs : Sequenced s) (hi : s.calls[i]? = some c)
    {j : Nat} {d : ChatCall} (hd : t.calls[j]? = some d) {turn : ChatTurnSequence}
    (hturn : d.turn = some turn) : Reserved t j d turn := by
  rcases h.turn_cases hi hd hturn with ⟨d', hd', hrequest, hturn'⟩ | ⟨rfl, hphase, rfl, hrequest⟩
  · exact (h.grows (hs.calls i c hi)).reserved (hs.turns j d' hd' turn hturn') hrequest
  · have hc := hs.calls j c hi
    simp only [ChatCall.Stands, hphase] at hc
    obtain ⟨-, -, hadjacent, row, hrow, -⟩ := hc
    have hsession : d.sessionId = c.sessionId := congrArg ChatRequest.sessionId hrequest
    refine ⟨hadjacent, ?_, ?_⟩
    · rw [hsession]
      refine ⟨_, commitTurn_session hrow, ?_⟩
      simp only [ChatTurnSequence.nextSequence]
      omega
    · refine List.mem_append_right _ (List.mem_singleton.mpr ?_)
      simp only [questionRow, hsession, hrequest]

theorem Moves.apart_kept (h : Moves s i c e t) (hs : Sequenced s) (hi : s.calls[i]? = some c)
    {j k : Nat} {d f : ChatCall} (hjk : j ≠ k) (hd : t.calls[j]? = some d)
    (hf : t.calls[k]? = some f) (hsession : d.sessionId = f.sessionId)
    {turn other : ChatTurnSequence} (hturn : d.turn = some turn) (hother : f.turn = some other) :
    turn.assistantSequence < other.userSequence ∨ other.assistantSequence < turn.userSequence := by
  have session : ∀ {x y : ChatCall}, x.request = y.request → x.sessionId = y.sessionId :=
    fun h => congrArg ChatRequest.sessionId h
  rcases h.turn_cases hi hd hturn with ⟨d', hd', hrd, hturn'⟩ | ⟨rfl, hphase, -, hrd⟩
  · have hsd := (session hrd).symm.trans hsession
    rcases h.turn_cases hi hf hother with ⟨f', hf', hrf, hother'⟩ | ⟨rfl, hphase, -, hrf⟩
    · exact hs.apart j k d' f' hjk hd' hf' (hsd.trans (session hrf)) turn other hturn' hother'
    · exact .inl (commit_behind hs hi hphase hd' (hsd.trans (session hrf)).symm hturn')
  · have hsd := (session hrd).symm.trans hsession
    rcases h.turn_cases hi hf hother with ⟨f', hf', hrf, hother'⟩ | ⟨rfl, -, -, -⟩
    · exact .inr (commit_behind hs hi hphase hf' (hsd.trans (session hrf)) hother')
    · exact absurd rfl hjk

theorem MessageRow.WrittenBy.moved {m : MessageRow} {turn : ChatTurnSequence} {c' : ChatCall}
    (hm : m.WrittenBy i c turn) (hrequest : c'.request = c.request)
    (hover : c.phase = .over → c'.phase = .over) : m.WrittenBy i c' turn := by
  have hsession : c'.sessionId = c.sessionId := congrArg ChatRequest.sessionId hrequest
  rcases hm with rfl | ⟨hphase, content, citations, rfl⟩
  · exact .inl (by simp only [questionRow, hsession, hrequest])
  · exact .inr ⟨hover hphase, content, citations, by simp only [answerRow, hsession]⟩

theorem Moves.written_kept (h : Moves s i c e t) (hs : Sequenced s) (hi : s.calls[i]? = some c)
    {m : MessageRow} (hm : m ∈ t.messages) {j : Nat} (hj : m.request = some j) :
    ∃ d turn, t.calls[j]? = some d ∧ d.turn = some turn ∧ m.WrittenBy j d turn := by
  have hlen := (List.getElem?_eq_some_iff.mp hi).1
  rcases h.messages_cases hm with
    hm | ⟨turn, hphase, rfl, rfl⟩ | ⟨turn, _, _, _, hturn, -, rfl, rfl⟩
  · obtain ⟨d, turn, hd, hturn, hwritten⟩ := hs.written m hm j hj
    obtain ⟨c', hcalls, hrequest, hstep⟩ := h.calls_eq
    rw [hcalls]
    by_cases hji : j = i
    · subst hji
      cases Option.some.inj (hi.symm.trans hd)
      rcases hstep with ⟨hsame, hover⟩ | ⟨own, hphase, -, -⟩
      · exact ⟨c', turn, List.getElem?_set_self hlen, hsame.trans hturn,
          hwritten.moved hrequest hover⟩
      · have hc := hs.calls j c hi
        simp only [ChatCall.Stands, hphase] at hc
        simp [hc.1] at hturn
    · exact ⟨d, turn, (List.getElem?_set_ne (Ne.symm hji)).trans hd, hturn, hwritten⟩
  · cases hj
    exact ⟨_, turn, List.getElem?_set_self hlen, rfl, .inl rfl⟩
  · cases hj
    exact ⟨_, turn, List.getElem?_set_self hlen, hturn, .inr ⟨rfl, _, _, rfl⟩⟩

theorem Sequenced.moves (hs : Sequenced s) (hi : s.calls[i]? = some c) (h : Moves s i c e t) :
    Sequenced t where
  unique := h.unique_kept hs hi
  stored := h.stored_kept hs hi
  turns _ _ hd _ hturn := h.turns_kept hs hi hd hturn
  apart _ _ _ _ hjk hd hf hsession _ _ hturn hother :=
    h.apart_kept hs hi hjk hd hf hsession hturn hother
  written _ hm _ hj := h.written_kept hs hi hm hj
  calls := by
    intro j d hd
    obtain ⟨c', hcalls, -, -⟩ := h.calls_eq
    by_cases hj : j = i
    · subst hj
      exact h.stands_self hs hi hd
    · rw [hcalls, List.getElem?_set_ne (Ne.symm hj)] at hd
      exact (hs.calls j d hd).frame
        (fun hlock hrow => h.lock_kept (hs.calls i c hi).locked hj hlock hrow)
        (fun turn hturn hfree => h.free_kept hs hi hj hd hturn hfree)

theorem Sequenced.send (hs : Sequenced s) (r : ChatRequest) :
    Sequenced { s with calls := s.calls ++ [⟨r, .selectOwner, none, none⟩] } where
  unique := hs.unique
  stored := hs.stored
  calls := by
    refine forall_push ?_ hs.calls
    exact rfl
  turns := by
    intro j d hd turn hturn
    rcases getElem?_push_iff.mp hd with hd | ⟨-, rfl⟩
    · obtain ⟨hadjacent, hahead, hasked⟩ := hs.turns j d hd turn hturn
      exact ⟨hadjacent, hahead, hasked⟩
    · cases hturn
  apart := by
    intro j k d f hjk hd hf hsession turn other hturn hother
    rcases getElem?_push_iff.mp hd with hd | ⟨-, rfl⟩
    · rcases getElem?_push_iff.mp hf with hf | ⟨-, rfl⟩
      · exact hs.apart j k d f hjk hd hf hsession turn other hturn hother
      · cases hother
    · cases hturn
  written := by
    intro m hm j hj
    obtain ⟨d, turn, hd, hturn, hwritten⟩ := hs.written m hm j hj
    exact ⟨d, turn, getElem?_push_iff.mpr (.inl hd), hturn, hwritten⟩

theorem Migrated.sequenced (h : Migrated s) : Sequenced s where
  unique := h.unique
  stored m hm := (h.ahead m hm).2
  calls i c hc := by simp [h.idle] at hc
  turns i c hc := by simp [h.idle] at hc
  apart i j c d _ hc := by simp [h.idle] at hc
  written m hm i hi := by
    rw [(h.ahead m hm).1] at hi
    cases hi

theorem Sequenced.step (hs : Sequenced s) (h : chatStep s e = some t) : Sequenced t := by
  rcases chatStep_cases h with ⟨r, -, rfl⟩ | ⟨i, c, hi, hmoves⟩
  · exact hs.send r
  · exact hs.moves hi hmoves

theorem reach_sequenced (h : Reach Migrated chatStep anyStep s) : Sequenced s :=
  h.invariant (fun _ hs => hs.sequenced) fun _ _ _ hs _ hstep => hs.step hstep

end Invariant

section History

variable {s : State} {sessionId : Nat} {history : List MessageRow}

theorem mem_sessionMessages {m : MessageRow} :
    m ∈ s.sessionMessages sessionId ↔ m ∈ s.messages ∧ m.sessionId = sessionId := by
  simp [State.sessionMessages]

theorem Sequenced.eq_of_position (hs : Sequenced s) {m n : MessageRow} (hm : m ∈ s.messages)
    (hn : n ∈ s.messages) (hsession : m.sessionId = n.sessionId)
    (hposition : m.messageSequence = n.messageSequence) : m = n :=
  List.inj_on_of_nodup_map hs.unique hm hn (Prod.ext hsession hposition)

/-- The question of an answer, one position before it. -/
theorem Sequenced.asked (hs : Sequenced s) {answer : MessageRow} (hm : answer ∈ s.messages)
    (hrole : answer.role = .assistant) {i : Nat} (hi : answer.request = some i) :
    ∃ asked ∈ s.messages, asked.sessionId = answer.sessionId ∧ asked.role = .user ∧
      asked.request = some i ∧ answer.messageSequence = asked.messageSequence + 1 := by
  obtain ⟨c, turn, hc, hturn, rfl | ⟨-, content, citations, rfl⟩⟩ := hs.written answer hm i hi
  · cases hrole
  · have hreserved := hs.turns i c hc turn hturn
    exact ⟨_, hreserved.asked, rfl, rfl, rfl, hreserved.adjacent⟩

theorem Sequenced.answersInPlace (hs : Sequenced s)
    (hhistory : OrderedHistory s sessionId history) : AnswersInPlace history := by
  rintro earlier answer later i rfl hrole hi
  obtain ⟨hperm, hsorted⟩ := hhistory
  have mem : ∀ m, m ∈ earlier ++ answer :: later → m ∈ s.messages ∧ m.sessionId = sessionId :=
    fun m hm => mem_sessionMessages.mp (hperm.mem_iff.mp hm)
  obtain ⟨hanswer, hsession⟩ := mem answer (by simp)
  obtain ⟨asked, hasked, hsame, huser, hrequest, hnext⟩ := hs.asked hanswer hrole hi
  have hin : asked ∈ earlier ++ answer :: later :=
    hperm.mem_iff.mpr (mem_sessionMessages.mpr ⟨hasked, hsame.trans hsession⟩)
  obtain ⟨-, hlater, hcross⟩ := List.pairwise_append.mp hsorted
  have hbefore : asked ∈ earlier := by
    rcases List.mem_append.mp hin with h | h
    · exact h
    · rcases List.mem_cons.mp h with rfl | h
      · omega
      · have := (List.pairwise_cons.mp hlater).1 asked h
        omega
  obtain ⟨front, last, rfl⟩ : ∃ front last, earlier = front ++ [last] :=
    ⟨earlier.dropLast, earlier.getLast (List.ne_nil_of_mem hbefore),
      (List.dropLast_append_getLast _).symm⟩
  have hlast := hcross last (by simp) answer (by simp)
  have hle : asked.messageSequence ≤ last.messageSequence := by
    rcases List.mem_append.mp hbefore with h | h
    · exact (List.pairwise_append.mp (List.pairwise_append.mp hsorted).1).2.2 asked h last (by simp)
    · cases List.mem_singleton.mp h
      exact le_rfl
  obtain ⟨hlastmem, hlastsession⟩ := mem last (by simp)
  have hnodup : (front ++ [last] ++ answer :: later).Nodup :=
    hperm.nodup_iff.mpr (List.Nodup.filter _ (List.Nodup.of_map _ hs.unique))
  have hne : last.messageSequence ≠ answer.messageSequence := by
    intro hposition
    have hsame := hs.eq_of_position hlastmem hanswer (hlastsession.trans hsession.symm) hposition
    exact (List.nodup_append.mp hnodup).2.2 last (by simp) answer (by simp) hsame
  have heq : last = asked :=
    hs.eq_of_position hlastmem hasked (by rw [hlastsession, hsame, hsession]) (by omega)
  subst heq
  exact ⟨front, _, rfl, huser, hrequest⟩

end History

/-- Whatever the requests of the sessions do, and wherever they are abandoned, the turns keep to
their positions. -/
theorem reach_turnsSequenced {s : State} (h : Reach Migrated chatStep anyStep s) :
    TurnsSequenced s := by
  have hs := reach_sequenced h
  refine ⟨?_, ?_, hs.stored, ?_, hs.unique, ?_, ?_⟩
  · intro i j c d turn other hij hc hd hsession hturn hother
    have hturnpos := (hs.turns i c hc turn hturn).adjacent
    have hotherpos := (hs.turns j d hd other hother).adjacent
    have hapart := hs.apart i j c d hij hc hd hsession turn other hturn hother
    intro p hp hq
    rcases mem_positions.mp hp with rfl | rfl
    all_goals rcases mem_positions.mp hq with hq | hq
    all_goals omega
  · intro i c turn hc hturn
    exact (hs.turns i c hc turn hturn).adjacent
  · intro i c turn hc hturn
    obtain ⟨hadjacent, ⟨row, hrow, hlt⟩, -⟩ := hs.turns i c hc turn hturn
    refine ⟨row, hrow, fun p hp => ?_⟩
    rcases mem_positions.mp hp with rfl | rfl
    all_goals omega
  · intro i c p hc hp
    have hstands := hs.calls i c hc
    unfold ChatCall.inserts? at hp
    split at hp
    next turn hphase =>
      cases hp
      simp only [ChatCall.Stands, hphase] at hstands
      obtain ⟨-, -, -, row, hrow, hle⟩ := hstands
      exact stored_not_taken hs.stored hrow hle
    next hphase =>
      obtain ⟨turn, hturn, rfl⟩ := Option.map_eq_some_iff.mp hp
      simp only [ChatCall.Stands, hphase] at hstands
      obtain ⟨own, hown, hfree⟩ := hstands
      cases Option.some.inj (hturn.symm.trans hown)
      exact hfree
    next => cases hp
  · intro sessionId history hhistory
    exact hs.answersInPlace hhistory

section Examples

/-- One user asks twice before the first answer is kept. -/
def twoTurns : List ChatEvent :=
  let r : ChatRequest := ⟨0, 0, 0, "a"⟩
  let other : ChatRequest := ⟨0, 0, 0, "b"⟩
  [.send r] ++ List.replicate 9 (.statement 0) ++ [.send other] ++
    List.replicate 7 (.statement 1) ++
    [.streamEnd 0 "x", .filtered 0 "x" [], .statement 0, .abandon 1]

theorem reach_turnsSequenced_twoTurns :
    ∃ s, run chatStep .empty twoTurns = some s ∧ s.messages.map MessageRow.messageSequence =
      [1, 3, 2] ∧ TurnsSequenced s := by
  have hrun : (run chatStep .empty twoTurns).any (fun s =>
      s.messages.map MessageRow.messageSequence == [1, 3, 2]) = true := by decide +kernel
  obtain ⟨s, hs, h⟩ := (Option.any_eq_true _ _).mp hrun
  have hempty : Migrated .empty :=
    ⟨List.nodup_nil, fun _ h => absurd h List.not_mem_nil, rfl⟩
  exact ⟨s, hs, eq_of_beq h, reach_turnsSequenced (.of_free_run hempty hs)⟩

end Examples

end GmragApi.Chat

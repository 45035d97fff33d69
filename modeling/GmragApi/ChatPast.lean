import GmragApi.ChatSequence
import Mathlib.Data.List.Sort

/-! What a prompt is made of when other turns of the session go on. -/

namespace GmragApi.Chat

open Transition ProcessPool

/-- Rows of the session below the turn, in their order, and the question of the turn behind them. -/
def PastThenQuestion (s : State) (c : ChatCall) (turn : ChatTurnSequence)
    (entries : List PromptEntry) : Prop :=
  ∃ (past : List MessageRow) (own : PromptEntry), entries = past.map MessageRow.entry ++ [own] ∧
    (∀ m ∈ past, m ∈ s.messages ∧ m.sessionId = c.sessionId ∧
      m.messageSequence < turn.userSequence) ∧
    past.Pairwise (fun a b => a.messageSequence < b.messageSequence) ∧
    own.message = question c.request.message ∧
    (own.position = none ∨ own.position = some turn.userSequence)

/-- Every prompt that was built consists of the past of its turn and its question. -/
def PromptsInPast (s : State) : Prop :=
  ∀ (i : Nat) (c : ChatCall) (entries : List PromptEntry), s.calls[i]? = some c →
    c.prompt = some entries → ∃ turn, c.turn = some turn ∧ PastThenQuestion s c turn entries

/-- A request that builds its context finds no message behind its question. -/
def BuildsInTime (s : State) : ChatEvent → Prop
  | .statement i => ∀ c ∈ s.calls[i]?, c.phase = .buildContext → ∀ turn ∈ c.turn,
    ∀ m ∈ s.messages, m.sessionId = c.sessionId → m.messageSequence ≤ turn.userSequence
  | _ => True

instance (s : State) (e : ChatEvent) : Decidable (BuildsInTime s e) := by
  cases e <;> unfold BuildsInTime <;> infer_instance

section Owner

variable {s t : State} {i : Nat} {c : ChatCall} {e : ChatEvent}

/-- Where `ensure_chat_session` has succeeded and the history is still to be read. -/
def ChatPhase.ensured : ChatPhase → Bool
  | lockSession => true
  | readMaximum _ => true
  | updateCounter _ => true
  | insertQuestion _ => true
  | commitTurn _ => true
  | buildContext => true
  | _ => false

def SessionsEnsured (s : State) : Prop :=
  ∀ (i : Nat) (c : ChatCall), s.calls[i]? = some c → c.phase.ensured = true → Owned s c

/-- A request comes into an ensured phase from one, or by finding its own session. -/
theorem Moves.ensured_self (h : Moves s i c e t) (hi : s.calls[i]? = some c)
    (hc : c.phase.ensured = true → Owned s c) {c' : ChatCall} (hi' : t.calls[i]? = some c')
    (hensured : c'.phase.ensured = true) : Owned t c' := by
  have kept : c.phase.ensured = true → c'.request = c.request → Owned t c' :=
    fun hphase hrequest => h.owned_kept (hc hphase) hrequest
  cases h with
  | stop =>
    cases eq_of_getElem?_set_self hi hi'
    cases hensured
  | create _ _ =>
    cases eq_of_getElem?_set_self hi hi'
    cases hensured
  | build _ =>
    cases eq_of_getElem?_set_self hi hi'
    cases hensured
  | persist _ _ _ _ _ =>
    cases eq_of_getElem?_set_self hi hi'
    cases hensured
  | lock hphase _ _ =>
    cases eq_of_getElem?_set_self hi hi'
    exact kept (by rw [hphase]; rfl) rfl
  | commit hphase =>
    cases eq_of_getElem?_set_self hi hi'
    exact kept (by rw [hphase]; rfl) rfl
  | advance hp =>
    cases eq_of_getElem?_set_self hi hi'
    cases hp with
    | missing _ => cases hensured
    | conflict _ => cases hensured
    | streamed _ => cases hensured
    | filtered _ => cases hensured
    | owned _ hrow howned => exact ⟨_, hrow, howned⟩
    | again _ hrow howned => exact ⟨_, hrow, howned⟩
    | counted hphase _ => exact kept (by rw [hphase]; rfl) rfl
    | updated hphase => exact kept (by rw [hphase]; rfl) rfl
    | written hphase _ => exact kept (by rw [hphase]; rfl) rfl

theorem SessionsEnsured.step (hs : SessionsEnsured s) (h : chatStep s e = some t) :
    SessionsEnsured t := by
  rcases chatStep_cases h with ⟨r, -, rfl⟩ | ⟨i, c, hi, hmoves⟩
  · intro j d hd hensured
    rcases getElem?_push_iff.mp hd with hd | ⟨-, rfl⟩
    · exact hs j d hd hensured
    · cases hensured
  · intro j d hd hensured
    by_cases hj : j = i
    · subst hj
      exact hmoves.ensured_self hi (hs j c hi) hd hensured
    · obtain ⟨c', hcalls, -, -⟩ := hmoves.calls_eq
      rw [hcalls, List.getElem?_set_ne (Ne.symm hj)] at hd
      exact hmoves.owned_kept (hs j d hd hensured) rfl

end Owner

section History

variable {s : State} {sessionId workspaceId : Nat}

theorem mem_newestFirst {m : MessageRow} :
    m ∈ newestFirst s sessionId ↔ m ∈ s.messages ∧ m.sessionId = sessionId :=
  (List.mem_insertionSort _).trans mem_sessionMessages

theorem mem_fetchChatHistory {m : MessageRow} (hm : m ∈ fetchChatHistory s sessionId workspaceId) :
    m ∈ s.messages ∧ m.sessionId = sessionId := by
  unfold fetchChatHistory at hm
  split at hm
  next => exact absurd hm List.not_mem_nil
  next =>
    split at hm
    next =>
      exact mem_newestFirst.mp (List.mem_of_mem_take (List.mem_reverse.mp hm))
    next => exact absurd hm List.not_mem_nil

theorem newestFirst_sorted (s : State) (sessionId : Nat) :
    (newestFirst s sessionId).Pairwise MessageRow.Descending :=
  List.pairwise_insertionSort _ _

theorem Sequenced.newestFirst_strict (hs : Sequenced s) (sessionId : Nat) :
    (newestFirst s sessionId).Pairwise fun a b => b.messageSequence < a.messageSequence := by
  have hnodup : (newestFirst s sessionId).Nodup :=
    (List.perm_insertionSort ..).nodup_iff.mpr
      (List.Nodup.filter _ (List.Nodup.of_map _ hs.unique))
  refine ((newestFirst_sorted s sessionId).and hnodup).imp_of_mem ?_
  intro a b ha hb hab
  obtain ⟨ha, hsa⟩ := mem_newestFirst.mp ha
  obtain ⟨hb, hsb⟩ := mem_newestFirst.mp hb
  refine lt_of_le_of_ne hab.1 fun heq => hab.2 ?_
  exact hs.eq_of_position ha hb (hsa.trans hsb.symm) heq.symm

theorem fetchChatHistory_eq {row : SessionRow} (hrow : s.sessions sessionId = some row) :
    fetchChatHistory s sessionId row.workspaceId = ((newestFirst s sessionId).take 5).reverse := by
  simp [fetchChatHistory, hrow]

/-- The history ends in the last row of the session, and the rows before it stand before it. -/
theorem Sequenced.history_last (hs : Sequenced s) {row : SessionRow}
    (hrow : s.sessions sessionId = some row) {m : MessageRow} (hm : m ∈ s.messages)
    (hsession : m.sessionId = sessionId) :
    ∃ front last, fetchChatHistory s sessionId row.workspaceId = front ++ [last] ∧
      m.messageSequence ≤ last.messageSequence ∧
      (front ++ [last]).Pairwise fun a b => a.messageSequence < b.messageSequence := by
  have hstrict := hs.newestFirst_strict sessionId
  have hmem := mem_newestFirst.mpr ⟨hm, hsession⟩
  have hhistory := fetchChatHistory_eq hrow
  cases hnewest : newestFirst s sessionId with
  | nil =>
    rw [hnewest] at hmem
    exact absurd hmem List.not_mem_nil
  | cons last rest =>
    rw [hnewest] at hmem hstrict hhistory
    rw [List.take_succ_cons, List.reverse_cons] at hhistory
    refine ⟨(rest.take 4).reverse, last, hhistory, ?_, ?_⟩
    · rcases List.mem_cons.mp hmem with rfl | hrest
      · exact le_rfl
      · exact le_of_lt ((List.pairwise_cons.mp hstrict).1 m hrest)
    · have htake : (last :: rest.take 4).Pairwise fun a b : MessageRow =>
          b.messageSequence < a.messageSequence :=
        hstrict.sublist ((List.take_sublist 4 rest).cons_cons last)
      have hreverse := List.pairwise_reverse.mpr htake
      rwa [List.reverse_cons] at hreverse

theorem promptMessages_ends (front : List MessageRow) (last : MessageRow) (message : String) :
    promptMessages (front ++ [last]) message =
      if last.role = .user ∧ last.content = message then
        front.map MessageRow.entry ++ [last.entry]
      else front.map MessageRow.entry ++ [last.entry] ++ [⟨none, question message⟩] := by
  simp only [promptMessages, List.getLast?_append, List.getLast?_singleton, List.map_append,
    List.map_cons, List.map_nil]
  split <;> split <;> simp_all

end History

section Build

variable {s t : State} {i : Nat} {c : ChatCall} {turn : ChatTurnSequence}

theorem PastThenQuestion.grows {entries : List PromptEntry} {c' : ChatCall}
    (h : PastThenQuestion s c turn entries) (hgrows : Grows s t)
    (hrequest : c'.request = c.request) : PastThenQuestion t c' turn entries := by
  obtain ⟨past, own, rfl, hrows, hsorted, hmessage, hposition⟩ := h
  have hsession : c'.sessionId = c.sessionId := congrArg ChatRequest.sessionId hrequest
  refine ⟨past, own, rfl, fun m hm => ?_, hsorted, hrequest ▸ hmessage, hposition⟩
  obtain ⟨hmem, hs, hlt⟩ := hrows m hm
  exact ⟨hgrows.messages m hmem, hs.trans hsession.symm, hlt⟩

/-- What the context of a request is made of, read off the last row of its session. -/
theorem buildContext_past_iff (hs : Sequenced s) (hi : s.calls[i]? = some c) (howned : Owned s c)
    (hturn : c.turn = some turn) :
    PastThenQuestion s c turn
        (promptMessages (fetchChatHistory s c.sessionId c.request.workspaceId) c.request.message) ↔
      ∀ m ∈ s.messages, m.sessionId = c.sessionId → m.messageSequence ≤ turn.userSequence := by
  obtain ⟨row, hrow, hworkspace, -⟩ := howned
  have hasked := (hs.turns i c hi turn hturn).asked
  rw [← hworkspace]
  constructor
  · intro h m hm hsession
    obtain ⟨front, last, hhistory, hle, -⟩ := hs.history_last hrow hm hsession
    refine hle.trans ?_
    rw [hhistory, promptMessages_ends] at h
    obtain ⟨past, own, heq, hrows, -, -, hposition⟩ := h
    split at heq
    · obtain ⟨-, hown⟩ := List.append_inj' heq rfl
      cases List.singleton_inj.mp hown
      rcases hposition with hnone | hsome
      · cases hnone
      · exact le_of_eq (Option.some.inj hsome)
    · obtain ⟨hpast, -⟩ := List.append_inj' heq rfl
      have hlast : last.entry ∈ past.map MessageRow.entry := by
        rw [← hpast]
        simp
      obtain ⟨m', hm', hentry⟩ := List.mem_map.mp hlast
      have hsame : m'.messageSequence = last.messageSequence :=
        Option.some.inj (congrArg PromptEntry.position hentry)
      have := (hrows m' hm').2.2
      omega
  · intro hall
    obtain ⟨front, last, hhistory, hle, hsorted⟩ := hs.history_last hrow hasked rfl
    have mem : ∀ m ∈ front ++ [last], m ∈ s.messages ∧ m.sessionId = c.sessionId := by
      intro m hm
      rw [← hhistory] at hm
      exact mem_fetchChatHistory hm
    obtain ⟨hlastmem, hlastsession⟩ := mem last (by simp)
    have hlast : last = questionRow i c turn := by
      refine hs.eq_of_position hlastmem hasked hlastsession ?_
      exact le_antisymm (hall last hlastmem hlastsession) hle
    subst hlast
    rw [hhistory, promptMessages_ends, if_pos ⟨rfl, rfl⟩]
    obtain ⟨hfront, -, hbefore⟩ := List.pairwise_append.mp hsorted
    refine ⟨front, _, rfl, fun m hm => ?_, hfront, rfl, .inr rfl⟩
    obtain ⟨hmem, hsession⟩ := mem m (List.mem_append_left _ hm)
    exact ⟨hmem, hsession, hbefore m hm _ (List.mem_singleton_self _)⟩

theorem Moves.prompt_cases {e : ChatEvent} (h : Moves s i c e t) (hs : Sequenced s)
    (hi : s.calls[i]? = some c) {j : Nat} {d : ChatCall} (hd : t.calls[j]? = some d)
    {entries : List PromptEntry} (hprompt : d.prompt = some entries) :
    (∃ d', s.calls[j]? = some d' ∧ d.request = d'.request ∧ d'.prompt = some entries ∧
      ∀ turn, d'.turn = some turn → d.turn = some turn) ∨
    (j = i ∧ c.phase = .buildContext ∧ e = .statement i ∧ t = buildContext s i c ∧
      d.request = c.request ∧ d.turn = c.turn ∧ entries = promptMessages
        (fetchChatHistory s c.sessionId c.request.workspaceId) c.request.message) := by
  by_cases hj : j = i
  · subst hj
    have hc := hs.calls j c hi
    cases h with
    | build hphase =>
      cases eq_of_getElem?_set_self hi hd
      exact .inr ⟨rfl, hphase, rfl, rfl, rfl, rfl, (Option.some.inj hprompt).symm⟩
    | commit hphase =>
      cases eq_of_getElem?_set_self hi hd
      simp only [ChatCall.Stands, hphase] at hc
      refine .inl ⟨c, hi, rfl, hprompt, fun turn hturn => ?_⟩
      rw [hc.1] at hturn
      cases hturn
    | stop =>
      cases eq_of_getElem?_set_self hi hd
      exact .inl ⟨c, hi, rfl, hprompt, fun _ hturn => hturn⟩
    | advance _ =>
      cases eq_of_getElem?_set_self hi hd
      exact .inl ⟨c, hi, rfl, hprompt, fun _ hturn => hturn⟩
    | create _ _ =>
      cases eq_of_getElem?_set_self hi hd
      exact .inl ⟨c, hi, rfl, hprompt, fun _ hturn => hturn⟩
    | lock _ _ _ =>
      cases eq_of_getElem?_set_self hi hd
      exact .inl ⟨c, hi, rfl, hprompt, fun _ hturn => hturn⟩
    | persist _ _ _ _ _ =>
      cases eq_of_getElem?_set_self hi hd
      exact .inl ⟨c, hi, rfl, hprompt, fun _ hturn => hturn⟩
  · obtain ⟨c', hcalls, -, -⟩ := h.calls_eq
    rw [hcalls, List.getElem?_set_ne (Ne.symm hj)] at hd
    exact .inl ⟨d, hd, rfl, hprompt, fun _ hturn => hturn⟩

/-- The request that builds its context has reserved a turn in a session of its own. -/
theorem building_turn (hs : Sequenced s) (hensured : SessionsEnsured s)
    (hi : s.calls[i]? = some c) (hphase : c.phase = .buildContext) :
    Owned s c ∧ ∃ turn, c.turn = some turn := by
  have hc := hs.calls i c hi
  simp only [ChatCall.Stands, hphase] at hc
  obtain ⟨turn, hturn, -⟩ := hc
  exact ⟨hensured i c hi (by rw [hphase]; rfl), turn, hturn⟩

theorem promptsInPast_keep {e : ChatEvent} (hs : Sequenced s) (hensured : SessionsEnsured s)
    (hp : PromptsInPast s) (hok : BuildsInTime s e) (hstep : chatStep s e = some t) :
    PromptsInPast t := by
  rcases chatStep_cases hstep with ⟨r, -, rfl⟩ | ⟨i, c, hi, hmoves⟩
  · intro j d entries hd hprompt
    rcases getElem?_push_iff.mp hd with hd | ⟨-, rfl⟩
    · exact hp j d entries hd hprompt
    · cases hprompt
  · have hgrows := hmoves.grows (hs.calls i c hi)
    intro j d entries hd hprompt
    rcases hmoves.prompt_cases hs hi hd hprompt with
      ⟨d', hd', hrequest, hprompt', hkept⟩ | ⟨rfl, hphase, rfl, rfl, hrequest, hsame, rfl⟩
    · obtain ⟨turn, hturn, hpast⟩ := hp j d' entries hd' hprompt'
      exact ⟨turn, hkept turn hturn, hpast.grows hgrows hrequest⟩
    · obtain ⟨howned, turn, hturn⟩ := building_turn hs hensured hi hphase
      refine ⟨turn, hsame.trans hturn, PastThenQuestion.grows ?_ hgrows hrequest⟩
      exact (buildContext_past_iff hs hi howned hturn).mpr (hok c hi hphase turn hturn)

theorem promptsInPast_exact {e : ChatEvent} (hs : Sequenced s) (hensured : SessionsEnsured s)
    (hstep : chatStep s e = some t) (hp : PromptsInPast t) : BuildsInTime s e := by
  cases e with
  | statement i =>
    intro c hi hphase turn hturn
    have hi : s.calls[i]? = some c := hi
    have hturn : c.turn = some turn := hturn
    obtain ⟨howned, -⟩ := building_turn hs hensured hi hphase
    have ht : t = buildContext s i c := by
      simpa [chatStep, hi, statement, hphase] using hstep.symm
    subst ht
    have hlen := (List.getElem?_eq_some_iff.mp hi).1
    obtain ⟨own, hown, hpast⟩ := hp i _ _ (List.getElem?_set_self hlen) rfl
    cases Option.some.inj (hturn.symm.trans hown)
    exact (buildContext_past_iff hs hi howned hturn).mp hpast
  | send _ => trivial
  | streamEnd _ _ => trivial
  | filtered _ _ _ => trivial
  | abandon _ => trivial

end Build

def Settled (s : State) : Prop := Sequenced s ∧ SessionsEnsured s

/-- The prompts of a run see only the past of their turns just when no context is built after a
later message of its session was stored. -/
theorem prompts_in_past_iff_built_in_time {s u : State} {as : List ChatEvent} (hs : Migrated s)
    (hr : run chatStep s as = some u) :
    Always chatStep PromptsInPast s as ↔ Meets chatStep BuildsInTime s as := by
  have hi : Settled s := ⟨hs.sequenced, fun i c hc => by simp [hs.idle] at hc⟩
  have hp : PromptsInPast s := fun i c entries hc => by simp [hs.idle] at hc
  refine always_iff_meets ?_ ?_ ?_ hi hp hr
  · exact fun s t a hs hstep => ⟨hs.1.step hstep, hs.2.step hstep⟩
  · exact fun s t a hs hp hok hstep => promptsInPast_keep hs.1 hs.2 hp hok hstep
  · exact fun s t a hs _ hstep hp => promptsInPast_exact hs.1 hs.2 hstep hp

section Examples

theorem migrated_empty : Migrated .empty :=
  ⟨List.nodup_nil, fun _ h => absurd h List.not_mem_nil, rfl⟩

def firstRequest : ChatRequest := ⟨0, 0, 0, "a"⟩

def secondRequest : ChatRequest := ⟨0, 0, 0, "b"⟩

/-- One question after the other, each with its context and its answer. -/
def turnByTurn : List ChatEvent :=
  [.send firstRequest] ++ List.replicate 9 (.statement 0) ++
    [.streamEnd 0 "x", .filtered 0 "x" [], .statement 0] ++
    [.send secondRequest] ++ List.replicate 7 (.statement 1)

theorem prompts_in_past_iff_built_in_time_turnByTurn :
    Meets chatStep BuildsInTime .empty turnByTurn ∧
      Always chatStep PromptsInPast .empty turnByTurn := by
  have hrun : (run chatStep .empty turnByTurn).isSome = true := by decide +kernel
  obtain ⟨u, hu⟩ := Option.isSome_iff_exists.mp hrun
  have hmeets : Meets chatStep BuildsInTime .empty turnByTurn := by decide +kernel
  exact ⟨hmeets, (prompts_in_past_iff_built_in_time migrated_empty hu).mpr hmeets⟩

/-- The second question is stored before the first request reads the history. -/
def questionBetween : List ChatEvent :=
  [.send firstRequest] ++ List.replicate 8 (.statement 0) ++ [.send secondRequest] ++
    List.replicate 6 (.statement 1) ++ [.statement 0]

/-- The prompt of the first request: its question, the second question, its question again. -/
def mixedPrompt : List PromptEntry :=
  [⟨some 1, question "a"⟩, ⟨some 3, question "b"⟩, ⟨none, question "a"⟩]

theorem later_question_in_prompt :
    ∃ s, run chatStep .empty questionBetween = some s ∧ ¬ PromptsInPast s := by
  have hrun : (run chatStep .empty questionBetween).any (fun s =>
      s.calls[0]?.any fun c => c.prompt == some mixedPrompt && c.turn == some ⟨1, 2⟩) = true := by
    decide +kernel
  obtain ⟨s, hs, h⟩ := (Option.any_eq_true _ _).mp hrun
  obtain ⟨c, hc, h⟩ := (Option.any_eq_true _ _).mp h
  obtain ⟨hprompt, hturn⟩ := Bool.and_eq_true_iff.mp h
  refine ⟨s, hs, fun hpast => ?_⟩
  obtain ⟨turn, hturn', past, own, heq, hrows, -⟩ := hpast 0 c mixedPrompt hc (eq_of_beq hprompt)
  obtain rfl := Option.some.inj ((eq_of_beq hturn).symm.trans hturn')
  have heq : [⟨some 1, question "a"⟩, ⟨some 3, question "b"⟩] ++ [⟨none, question "a"⟩] =
      past.map MessageRow.entry ++ [own] := heq
  have hlater : (⟨some 3, question "b"⟩ : PromptEntry) ∈ past.map MessageRow.entry := by
    rw [← (List.append_inj' heq rfl).1]
    simp
  obtain ⟨m, hm, hentry⟩ := List.mem_map.mp hlater
  have hposition : m.messageSequence = 3 := Option.some.inj (congrArg PromptEntry.position hentry)
  have hbelow : m.messageSequence < 1 := (hrows m hm).2.2
  omega

end Examples

end GmragApi.Chat

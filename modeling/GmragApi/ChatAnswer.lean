import GmragApi.ChatHistory
import GmragApi.CitationRedaction
import GmragApi.DocumentSecrecy
import GmragApi.StreamTokens

/-! The answer of a chat request: the events that its client gets, one after the other, and the
message that is stored when the stream ends or the client goes away. -/

namespace GmragApi.ChatAnswer

open Citations Deepseek DocumentReads

inductive SseEvent
  | data (token : List Char)
  | error (message : List Char)
  | citations (citations : List StreamCitation)
  | done (sessionId : Uuid)
  deriving DecidableEq

def clientMessage : List Char := "Generation service unavailable".toList

def terminalSseEvents (citations : List StreamCitation) (sessionId : Uuid) : List SseEvent :=
  [.citations citations, .done sessionId]

/-- What is settled when the stream begins. -/
structure ChatStream where
  sessionId : Uuid
  workspaceId : Uuid
  userId : List Char
  messageSequence : Int
  chunkIds : ChunkIds
  fromStr : List Char → Option DeepseekStreamChunk
  idleTimeoutSecs : Nat
  digits : DigitClass

/-- A row of `chat_messages` with the role of the assistant. -/
structure AssistantRow where
  sessionId : Uuid
  messageSequence : Int
  content : List Char
  citations : List Uuid
  deriving DecidableEq

/-- Where the stream stands, or the task that its drop has spawned. -/
inductive Phase
  | streaming
  | hydrating
  | closing (rest : List SseEvent)
  | rechecking (content : List Char) (citations : List Uuid)
  | inserting (content : List Char) (citations : List Uuid)
  | over

/-- `lost` records that a failure kept the answer from being stored. -/
structure State where
  phase : Phase
  stream : List StreamItem
  parser : DeepseekTokenParser
  buffer : List Char
  sent : List SseEvent
  rows : List AssistantRow
  lost : Bool

inductive Act
  | pull
  | hydrate (found : Option (List HydratedCitation))
  | emit
  | drop (inRuntime : Bool)
  | recheck (service : Service) (db : Contents)
  | insert (ok : Bool)

/-- `PersistAssistantOnDrop`: the text so far is resolved, and a task stores it. -/
def dropGuard (c : ChatStream) (s : State) (inRuntime : Bool) : State :=
  if s.buffer.isEmpty then { s with phase := .over }
  else if inRuntime then
    let resolved := resolveChunkIndexCitations c.digits s.buffer c.chunkIds
    { s with phase := .rechecking resolved.1 resolved.2 }
  else { s with phase := .over, lost := true }

def step (c : ChatStream) (s : State) : Act → Option State
  | .pull =>
    match s.phase with
    | .streaming =>
      (nextStreamToken c.fromStr c.idleTimeoutSecs s.stream s.parser).map
        fun (result, stream, parser) =>
          let s := { s with stream := stream, parser := parser }
          match result with
          | some (.ok token) =>
            { s with buffer := s.buffer ++ token, sent := s.sent ++ [.data token] }
          | some (.error _) =>
            { s with phase := .hydrating, sent := s.sent ++ [.error clientMessage] }
          | none => { s with phase := .hydrating }
    | _ => none
  | .hydrate found =>
    match s.phase with
    | .hydrating =>
      let citations := (found.getD []).map HydratedCitation.intoResolved
      let events := terminalSseEvents (buildStreamCitations c.chunkIds.ids citations) c.sessionId
      some { s with phase := .closing events }
    | _ => none
  | .emit =>
    match s.phase with
    | .closing (event :: rest) =>
      some { s with phase := .closing rest, sent := s.sent ++ [event] }
    | _ => none
  | .drop inRuntime =>
    match s.phase with
    | .streaming => some (dropGuard c s inRuntime)
    | .hydrating => some (dropGuard c s inRuntime)
    | .closing _ => some (dropGuard c s inRuntime)
    | _ => none
  | .recheck service db =>
    match s.phase with
    | .rechecking content citations =>
      match filterCitationsForUser service db c.workspaceId c.userId content citations with
      | .ok (content, citations) => some { s with phase := .inserting content citations }
      | .error _ => some { s with phase := .over, lost := true }
    | _ => none
  | .insert ok =>
    match s.phase with
    | .inserting content citations =>
      if ok then
        some { s with
          phase := .over
          rows := s.rows ++ [⟨c.sessionId, c.messageSequence, content, citations⟩] }
      else some { s with phase := .over, lost := true }
    | _ => none

def begin (stream : List StreamItem) : State :=
  ⟨.streaming, stream, .new, [], [], [], false⟩

section Tokens

variable {fromStr : List Char → Option DeepseekStreamChunk} {secs : Nat}

/-- Calls that each gave a token, with what is left after them. -/
inductive Draws (fromStr : List Char → Option DeepseekStreamChunk) (secs : Nat)
    (stream : List StreamItem) (parser : DeepseekTokenParser) :
    List (List Char) → List StreamItem → DeepseekTokenParser → Prop
  | nil : Draws fromStr secs stream parser [] stream parser
  | snoc {tokens token stream' parser' stream'' parser''} :
      Draws fromStr secs stream parser tokens stream' parser' →
      nextStreamToken fromStr secs stream' parser' = some (some (.ok token), stream'', parser'') →
      Draws fromStr secs stream parser (tokens ++ [token]) stream'' parser''

variable {stream stream' : List StreamItem} {parser parser' : DeepseekTokenParser}
  {tokens : List (List Char)}

theorem Draws.streamTokens_append (h : Draws fromStr secs stream parser tokens stream' parser')
    (n : Nat) :
    streamTokens fromStr secs (tokens.length + n) stream parser =
      (streamTokens fromStr secs n stream' parser').map fun results =>
        (tokens.map fun token => some (.ok token)) ++ results := by
  induction h generalizing n with
  | nil => simp
  | @snoc tokens token stream' parser' stream'' parser'' hdrawn hcall ih =>
    have hlength : (tokens ++ [token]).length + n = tokens.length + (n + 1) := by
      simp only [List.length_append, List.length_singleton]
      omega
    rw [hlength, ih, streamTokens_succ hcall]
    simp [Option.map_map, Function.comp_def]

theorem Draws.streamTokens_eq (h : Draws fromStr secs stream parser tokens stream' parser') :
    streamTokens fromStr secs tokens.length stream parser =
      some (tokens.map fun token => some (.ok token)) := by
  have hall := h.streamTokens_append 0
  simpa [streamTokens] using hall

end Tokens

section Invariant

variable {c : ChatStream} {stream : List StreamItem} {s t : State}

/-- What the task stores of a text: its markers resolved, and those that the user may not see at
that time taken out. -/
def StoredOf (c : ChatStream) (text content : List Char) (citations : List Uuid) : Prop :=
  ∃ service db, filterCitationsForUser service db c.workspaceId c.userId
    (resolveChunkIndexCitations c.digits text c.chunkIds).1
    (resolveChunkIndexCitations c.digits text c.chunkIds).2 = .ok (content, citations)

/-- The end of what is sent: perhaps an error, then the events that close a stream. -/
def Ending (c : ChatStream) (rest pending : List SseEvent) : Prop :=
  ∃ failure citations, (failure = [] ∨ failure = [.error clientMessage]) ∧
    rest ++ pending = failure ++ terminalSseEvents citations c.sessionId

/-- What the phase says of the text and of what has been sent after it. -/
def PhaseOk (c : ChatStream) (s : State) (tokens : List (List Char)) (rest : List SseEvent) :
    Prop :=
  match s.phase with
  | .streaming => rest = [] ∧ s.rows = [] ∧ s.lost = false
  | .hydrating => (rest = [] ∨ rest = [.error clientMessage]) ∧ s.rows = [] ∧ s.lost = false
  | .closing pending => Ending c rest pending ∧ s.rows = [] ∧ s.lost = false
  | .rechecking content citations =>
    (content, citations) = resolveChunkIndexCitations c.digits tokens.flatten c.chunkIds ∧
      tokens.flatten ≠ [] ∧ (∃ pending, Ending c rest pending) ∧ s.rows = [] ∧ s.lost = false
  | .inserting content citations =>
    StoredOf c tokens.flatten content citations ∧
      tokens.flatten ≠ [] ∧ (∃ pending, Ending c rest pending) ∧ s.rows = [] ∧ s.lost = false
  | .over =>
    (∃ pending, Ending c rest pending) ∧
      ((s.rows = [] ∧ (tokens.flatten = [] ∨ s.lost = true)) ∨
        tokens.flatten ≠ [] ∧ ∃ content citations, StoredOf c tokens.flatten content citations ∧
          s.rows = [⟨c.sessionId, c.messageSequence, content, citations⟩])

structure Inv (c : ChatStream) (stream : List StreamItem) (s : State) (tokens : List (List Char))
    (rest : List SseEvent) : Prop where
  sent : s.sent = tokens.map .data ++ rest
  buffer : s.buffer = tokens.flatten
  drawn : ∃ stream' parser', Draws c.fromStr c.idleTimeoutSecs stream .new tokens stream' parser' ∧
    (s.phase = .streaming → stream' = s.stream ∧ parser' = s.parser)
  phase : PhaseOk c s tokens rest

theorem inv_begin : Inv c stream (begin stream) [] [] :=
  ⟨rfl, rfl, ⟨stream, .new, .nil, fun _ => ⟨rfl, rfl⟩⟩, rfl, rfl, rfl⟩

theorem ending_close {rest : List SseEvent} (h : rest = [] ∨ rest = [.error clientMessage])
    (citations : List StreamCitation) :
    Ending c rest (terminalSseEvents citations c.sessionId) :=
  ⟨rest, citations, h, rfl⟩

/-- The guard stores nothing of an empty text, and loses a text only outside of the runtime. -/
theorem dropGuard_inv {tokens : List (List Char)} {rest : List SseEvent} {inRuntime : Bool}
    (h : Inv c stream s tokens rest) (hstreaming : ∃ pending, Ending c rest pending)
    (hrows : s.rows = []) (hlost : s.lost = false) :
    Inv c stream (dropGuard c s inRuntime) tokens rest := by
  obtain ⟨stream', parser', hdrawn, -⟩ := h.drawn
  unfold dropGuard
  split
  next hempty =>
    have htext : tokens.flatten = [] := h.buffer.symm.trans (List.isEmpty_iff.mp hempty)
    exact ⟨h.sent, h.buffer, ⟨stream', parser', hdrawn, nofun⟩, hstreaming,
      .inl ⟨hrows, .inl htext⟩⟩
  next hempty =>
    have htext : tokens.flatten ≠ [] := by
      rw [← h.buffer]
      exact fun heq => hempty (List.isEmpty_iff.mpr heq)
    split
    · refine ⟨h.sent, h.buffer, ⟨stream', parser', hdrawn, nofun⟩, ?_, htext, hstreaming, hrows,
        hlost⟩
      rw [← h.buffer]
    · exact ⟨h.sent, h.buffer, ⟨stream', parser', hdrawn, nofun⟩, hstreaming,
        .inl ⟨hrows, .inr rfl⟩⟩

theorem pull_inv {tokens : List (List Char)} {rest : List SseEvent} (h : Inv c stream s tokens rest)
    (hs : step c s .pull = some t) : ∃ tokens rest, Inv c stream t tokens rest := by
  obtain ⟨stream', parser', hdrawn, hnow⟩ := h.drawn
  have hphase := h.phase
  unfold PhaseOk at hphase
  simp only [step] at hs
  split at hs
  next hstreaming =>
    obtain ⟨rfl, rfl⟩ := hnow hstreaming
    rw [hstreaming] at hphase
    obtain ⟨rfl, hrows, hlost⟩ := hphase
    obtain ⟨⟨result, stream'', parser''⟩, hcall, rfl⟩ := Option.map_eq_some_iff.mp hs
    cases result with
    | none =>
      exact ⟨tokens, [], h.sent, h.buffer, ⟨_, _, hdrawn, nofun⟩, .inl rfl, hrows, hlost⟩
    | some result =>
      cases result with
      | error e =>
        refine ⟨tokens, [.error clientMessage], ?_, h.buffer, ⟨_, _, hdrawn, nofun⟩, .inr rfl,
          hrows, hlost⟩
        rw [h.sent, List.append_nil]
      | ok token =>
        have hsent : s.sent ++ [.data token] = (tokens ++ [token]).map .data ++ [] := by
          rw [h.sent]
          simp
        have hbuffer : s.buffer ++ token = (tokens ++ [token]).flatten := by
          rw [h.buffer]
          simp
        refine ⟨tokens ++ [token], [], hsent, hbuffer,
          ⟨_, _, hdrawn.snoc hcall, fun _ => ⟨rfl, rfl⟩⟩, ?_⟩
        simp only [PhaseOk, hstreaming]
        exact ⟨trivial, hrows, hlost⟩
  next => cases hs

theorem drop_inv {tokens : List (List Char)} {rest : List SseEvent} {inRuntime : Bool}
    (h : Inv c stream s tokens rest) (hs : step c s (.drop inRuntime) = some t) :
    Inv c stream t tokens rest := by
  have hphase := h.phase
  unfold PhaseOk at hphase
  simp only [step] at hs
  split at hs
  next hstreaming =>
    cases Option.some.inj hs
    rw [hstreaming] at hphase
    obtain ⟨rfl, hrows, hlost⟩ := hphase
    exact dropGuard_inv h ⟨_, ending_close (.inl rfl) []⟩ hrows hlost
  next hhydrating =>
    cases Option.some.inj hs
    rw [hhydrating] at hphase
    exact dropGuard_inv h ⟨_, ending_close hphase.1 []⟩ hphase.2.1 hphase.2.2
  next pending hclosing =>
    cases Option.some.inj hs
    rw [hclosing] at hphase
    exact dropGuard_inv h ⟨pending, hphase.1⟩ hphase.2.1 hphase.2.2
  next => cases hs

theorem task_inv {tokens : List (List Char)} {rest : List SseEvent} {a : Act}
    (h : Inv c stream s tokens rest)
    (ha : (∃ service db, a = .recheck service db) ∨ ∃ ok, a = .insert ok)
    (hs : step c s a = some t) : Inv c stream t tokens rest := by
  obtain ⟨stream', parser', hdrawn, -⟩ := h.drawn
  have hphase := h.phase
  unfold PhaseOk at hphase
  obtain ⟨service, db, rfl⟩ | ⟨ok, rfl⟩ := ha
  · simp only [step] at hs
    split at hs
    next content citations hrechecking =>
      rw [hrechecking] at hphase
      obtain ⟨hresolved, htext, hending, hrows, hlost⟩ := hphase
      split at hs
      next content' citations' hfilter =>
        cases Option.some.inj hs
        refine ⟨h.sent, h.buffer, ⟨_, _, hdrawn, nofun⟩, ⟨service, db, ?_⟩, htext, hending, hrows,
          hlost⟩
        rw [← hresolved]
        exact hfilter
      next =>
        cases Option.some.inj hs
        exact ⟨h.sent, h.buffer, ⟨_, _, hdrawn, nofun⟩, hending, .inl ⟨hrows, .inr rfl⟩⟩
    next => cases hs
  · simp only [step] at hs
    split at hs
    next content citations hinserting =>
      rw [hinserting] at hphase
      obtain ⟨hstored, htext, hending, hrows, hlost⟩ := hphase
      split at hs
      · cases Option.some.inj hs
        refine ⟨h.sent, h.buffer, ⟨_, _, hdrawn, nofun⟩, hending,
          .inr ⟨htext, content, citations, hstored, ?_⟩⟩
        rw [hrows, List.nil_append]
      · cases Option.some.inj hs
        exact ⟨h.sent, h.buffer, ⟨_, _, hdrawn, nofun⟩, hending, .inl ⟨hrows, .inr rfl⟩⟩
    next => cases hs

theorem step_inv {a : Act} (h : ∃ tokens rest, Inv c stream s tokens rest)
    (hs : step c s a = some t) : ∃ tokens rest, Inv c stream t tokens rest := by
  obtain ⟨tokens, rest, h⟩ := h
  cases a with
  | pull => exact pull_inv h hs
  | drop inRuntime => exact ⟨tokens, rest, drop_inv h hs⟩
  | recheck service db => exact ⟨tokens, rest, task_inv h (.inl ⟨service, db, rfl⟩) hs⟩
  | insert ok => exact ⟨tokens, rest, task_inv h (.inr ⟨ok, rfl⟩) hs⟩
  | hydrate found =>
    obtain ⟨stream', parser', hdrawn, -⟩ := h.drawn
    have hphase := h.phase
    unfold PhaseOk at hphase
    simp only [step] at hs
    split at hs
    next hhydrating =>
      cases Option.some.inj hs
      rw [hhydrating] at hphase
      exact ⟨tokens, rest, h.sent, h.buffer, ⟨_, _, hdrawn, nofun⟩, ending_close hphase.1 _,
        hphase.2⟩
    next => cases hs
  | emit =>
    obtain ⟨stream', parser', hdrawn, -⟩ := h.drawn
    have hphase := h.phase
    unfold PhaseOk at hphase
    simp only [step] at hs
    split at hs
    next event pending hclosing =>
      cases Option.some.inj hs
      rw [hclosing] at hphase
      obtain ⟨⟨failure, citations, hfailure, hall⟩, hrest⟩ := hphase
      refine ⟨tokens, rest ++ [event], ?_, h.buffer, ⟨_, _, hdrawn, nofun⟩,
        ⟨failure, citations, hfailure, ?_⟩, hrest⟩
      · rw [h.sent, List.append_assoc]
      · rw [← hall, List.append_assoc]
        rfl
    next => cases hs

end Invariant

/-- However the network cuts the stream and wherever the client goes away, what was sent is a run of
tokens of the stream, then perhaps an error, and the closing events as far as they came; at most one
message is stored, at the reserved place, and its text is that run, resolved and redacted. A run that
is not empty is stored unless a failure is in the way. -/
theorem answer_stored_as_shown {c : ChatStream} {stream : List StreamItem} {s : State}
    (h : Transition.Reach (· = begin stream) (step c) Transition.anyStep s) :
    ∃ (tokens : List (List Char)) (rest : List SseEvent),
      s.sent = tokens.map .data ++ rest ∧
      streamTokens c.fromStr c.idleTimeoutSecs tokens.length stream .new =
        some (tokens.map fun token => some (.ok token)) ∧
      (∃ pending, Ending c rest pending) ∧
      (s.rows = [] ∨ tokens.flatten ≠ [] ∧ ∃ content citations,
        StoredOf c tokens.flatten content citations ∧
          s.rows = [⟨c.sessionId, c.messageSequence, content, citations⟩]) ∧
      (s.phase = .over → s.lost = false → tokens.flatten ≠ [] → s.rows ≠ []) := by
  have hrun : ∃ tokens rest, Inv c stream s tokens rest := by
    refine h.invariant (fun s hs => ?_) fun s t a hs _ hstep => step_inv hs hstep
    rw [hs]
    exact ⟨[], [], inv_begin⟩
  obtain ⟨tokens, rest, hinv⟩ := hrun
  obtain ⟨stream', parser', hdrawn, -⟩ := hinv.drawn
  refine ⟨tokens, rest, hinv.sent, hdrawn.streamTokens_eq, ?_⟩
  have hphase := hinv.phase
  unfold PhaseOk at hphase
  split at hphase
  next hnow =>
    obtain ⟨rfl, hrows, -⟩ := hphase
    exact ⟨⟨_, ending_close (.inl rfl) []⟩, .inl hrows, fun hover => by rw [hnow] at hover; cases hover⟩
  next hnow =>
    exact ⟨⟨_, ending_close hphase.1 []⟩, .inl hphase.2.1,
      fun hover => by rw [hnow] at hover; cases hover⟩
  next pending hnow =>
    exact ⟨⟨pending, hphase.1⟩, .inl hphase.2.1, fun hover => by rw [hnow] at hover; cases hover⟩
  next hnow =>
    exact ⟨hphase.2.2.1, .inl hphase.2.2.2.1, fun hover => by rw [hnow] at hover; cases hover⟩
  next hnow =>
    exact ⟨hphase.2.2.1, .inl hphase.2.2.2.1, fun hover => by rw [hnow] at hover; cases hover⟩
  next =>
    obtain ⟨hending, ⟨hrows, hwhy⟩ | ⟨htext, content, citations, hstored, hrows⟩⟩ := hphase
    · refine ⟨hending, .inl hrows, fun _ hlost htext => ?_⟩
      rcases hwhy with hempty | hwas
      · exact absurd hempty htext
      · rw [hlost] at hwas
        cases hwas
    · refine ⟨hending, .inr ⟨htext, content, citations, hstored, hrows⟩, fun _ _ _ => ?_⟩
      rw [hrows]
      exact List.cons_ne_nil _ _

/-- One token, and a client that goes away before the stream ends. -/
def hiStream : List StreamItem := [.bytes (asciiBytes (hiLine ++ ['\n']))]

theorem hiStream_token : ∃ stream parser,
    nextStreamToken readHi 30 hiStream .new = some (some (.ok "Hi".toList), stream, parser) := by
  have hall : (hiLine ++ ['\n']).all (fun c => decide (c.toNat < 128)) = true := by decide +kernel
  have hascii : ∀ c ∈ hiLine ++ ['\n'], c.toNat < 128 := fun c hc =>
    of_decide_eq_true (List.all_eq_true.mp hall c hc)
  have hplain : '\n' ∉ hiLine := by decide +kernel
  have hwhole : wholeLines (asciiBytes (hiLine ++ ['\n'])) = [hiLine] := by
    rw [wholeLines, decode_ascii hascii, lines_cons hplain, lines_rest List.not_mem_nil]
  have hempty : hasDone [] = false := by
    rw [hasDone, wholeLines, Utf8.decode_nil, lines_rest List.not_mem_nil]
    rfl
  have hread : chunksRead [] [asciiBytes (hiLine ++ ['\n'])] = asciiBytes (hiLine ++ ['\n']) := by
    rw [chunksRead, hempty]
    rfl
  have htokens : [hiLine].flatMap (lineTokens readHi) = ["Hi".toList] := by decide +kernel
  have hyields := yields_chunksRead readHi 30 [asciiBytes (hiLine ++ ['\n'])] 1
  rw [hread, hwhole, htokens] at hyields
  obtain ⟨⟨result, stream, parser⟩, hcall, hrest⟩ := Option.bind_eq_some_iff.mp hyields
  cases Option.some.inj hrest
  exact ⟨stream, parser, hcall⟩

def hiChat : ChatStream where
  sessionId := .ofNat 1
  workspaceId := .ofNat 2
  userId := ['u']
  messageSequence := 2
  chunkIds := noChunks
  fromStr := readHi
  idleTimeoutSecs := 30
  digits := asciiDigits

theorem answer_stored_as_shown_hi : ∃ s : State,
    s.sent = [.data "Hi".toList] ∧ s.rows = [⟨.ofNat 1, 2, "Hi".toList, []⟩] ∧
    ∃ (tokens : List (List Char)) (rest : List SseEvent), s.sent = tokens.map .data ++ rest := by
  obtain ⟨stream, parser, hcall⟩ := hiStream_token
  have hpull : step hiChat (begin hiStream) .pull =
      some ⟨.streaming, stream, parser, "Hi".toList, [.data "Hi".toList], [], false⟩ := by
    simp only [step, begin, hiChat, hcall]
    rfl
  let s : State := ⟨.over, stream, parser, "Hi".toList, [.data "Hi".toList],
    [⟨.ofNat 1, 2, "Hi".toList, []⟩], false⟩
  have hreach : Transition.Reach (· = begin hiStream) (step hiChat) Transition.anyStep s :=
    .next (.next (.next (.next (.start rfl) trivial hpull)
      (a := .drop true) trivial rfl) (a := .recheck memberService (contentsWith 3)) trivial rfl)
      (a := .insert true) trivial rfl
  obtain ⟨tokens, rest, hsent, -⟩ := answer_stored_as_shown hreach
  exact ⟨s, rfl, rfl, tokens, rest, hsent⟩

end GmragApi.ChatAnswer

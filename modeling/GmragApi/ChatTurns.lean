import GmragApi.Retry
import GmragApi.Transition
import Mathlib.Logic.Function.Basic
import Mathlib.Data.Int.Order.Basic
import Mathlib.Data.List.Sort

/-! Chat sessions: the requests that answer in them and the requests that delete them, one SQL
statement after the other. -/

namespace GmragApi.Chat

inductive ChatRole
  | user
  | assistant
  deriving DecidableEq

/-- A row of `chat_sessions`. -/
structure SessionRow where
  workspaceId : Nat
  userId : Nat
  nextMessageSequence : Int
  deriving DecidableEq

/-- A row of `chat_messages`, with the request that wrote it if one of this run did. -/
structure MessageRow where
  sessionId : Nat
  messageSequence : Int
  role : ChatRole
  content : String
  citations : List Nat
  request : Option Nat
  deriving DecidableEq

structure ChatRequest where
  sessionId : Nat
  workspaceId : Nat
  userId : Nat
  message : String
  deriving DecidableEq

structure ChatTurnSequence where
  userSequence : Int
  assistantSequence : Int
  deriving DecidableEq

structure ChatMessage where
  role : ChatRole
  content : String
  deriving DecidableEq

/-- A message of the prompt, with the position of the row that it was read from. -/
structure PromptEntry where
  position : Option Int
  message : ChatMessage
  deriving DecidableEq

/-- The next statement of a chat request. -/
inductive ChatPhase
  | selectOwner
  | insertSession
  | selectAgain
  | lockSession
  | readMaximum (storedNext : Int)
  | updateCounter (turn : ChatTurnSequence)
  | insertQuestion (turn : ChatTurnSequence)
  | commitTurn (turn : ChatTurnSequence)
  | buildContext
  | streaming
  | filterCitations
  | persistAssistant (content : String) (citations : List Nat)
  | over
  deriving DecidableEq

/-- A chat request in flight, with the turn that it has reserved and the prompt that it has
built. -/
structure ChatCall where
  request : ChatRequest
  phase : ChatPhase
  turn : Option ChatTurnSequence
  prompt : Option (List PromptEntry)
  deriving DecidableEq

inductive DeletePhase
  | verifyOwner
  | deleteRow
  | over
  deriving DecidableEq

structure DeleteCall where
  sessionId : Nat
  workspaceId : Nat
  userId : Nat
  phase : DeletePhase
  deriving DecidableEq

structure State where
  sessions : Nat → Option SessionRow
  locks : Nat → Option Nat
  messages : List MessageRow
  calls : List ChatCall
  deletions : List DeleteCall

def State.empty : State := ⟨fun _ => none, fun _ => none, [], [], []⟩

def ChatCall.sessionId (c : ChatCall) : Nat := c.request.sessionId

def MessageRow.key (m : MessageRow) : Nat × Int := (m.sessionId, m.messageSequence)

def SessionRow.OwnedBy (row : SessionRow) (r : ChatRequest) : Prop :=
  row.workspaceId = r.workspaceId ∧ row.userId = r.userId

instance (row : SessionRow) (r : ChatRequest) : Decidable (row.OwnedBy r) :=
  inferInstanceAs (Decidable (_ ∧ _))

/-- The unique constraint on `(session_id, message_sequence)` would be violated. -/
def State.Taken (s : State) (sessionId : Nat) (sequence : Int) : Prop :=
  ∃ m ∈ s.messages, m.key = (sessionId, sequence)

instance (s : State) (sessionId : Nat) (sequence : Int) : Decidable (s.Taken sessionId sequence) :=
  inferInstanceAs (Decidable (∃ m ∈ s.messages, _))

def State.sessionMessages (s : State) (sessionId : Nat) : List MessageRow :=
  s.messages.filter fun m => m.sessionId = sessionId

def ChatRequest.newSession (r : ChatRequest) : SessionRow := ⟨r.workspaceId, r.userId, 1⟩

def State.setSession (s : State) (sessionId : Nat) (row : Option SessionRow) : State :=
  { s with sessions := Function.update s.sessions sessionId row }

def State.setLock (s : State) (sessionId : Nat) (holder : Option Nat) : State :=
  { s with locks := Function.update s.locks sessionId holder }

def State.insertMessage (s : State) (m : MessageRow) : State :=
  { s with messages := s.messages ++ [m] }

def State.put (s : State) (i : Nat) (c : ChatCall) : State :=
  { s with calls := s.calls.set i c }

def State.goto (s : State) (i : Nat) (c : ChatCall) (p : ChatPhase) : State :=
  s.put i { c with phase := p }

/-- A request ends, and with it the transaction that it may have open. -/
def State.stop (s : State) (i : Nat) (c : ChatCall) : State :=
  { s.goto i c .over with locks := fun k => if s.locks k = some i then none else s.locks k }

section Reserve

inductive ReserveError
  | sequenceExhausted
  deriving DecidableEq

def firstAvailable (maxExisting : Option Int) : Except ReserveError Int :=
  match maxExisting with
  | some maximum => if maximum = i64Max then .error .sequenceExhausted else .ok (maximum + 1)
  | none => .ok 1

def reserveTurn (storedNext : Int) (maxExisting : Option Int) :
    Except ReserveError ChatTurnSequence := do
  let userSequence := max storedNext (← firstAvailable maxExisting)
  if userSequence > i64Max - 2 then
    throw .sequenceExhausted
  return { userSequence, assistantSequence := userSequence + 1 }

def ChatTurnSequence.nextSequence (turn : ChatTurnSequence) : Int := turn.userSequence + 2

def State.maxExisting (s : State) (sessionId : Nat) : Option Int :=
  ((s.sessionMessages sessionId).map MessageRow.messageSequence).max?

end Reserve

section Context

/-- The order of `ORDER BY message_sequence DESC`. -/
def MessageRow.Descending (m n : MessageRow) : Prop := n.messageSequence ≤ m.messageSequence

instance : DecidableRel MessageRow.Descending :=
  fun m n => inferInstanceAs (Decidable (n.messageSequence ≤ m.messageSequence))

instance : Std.Total MessageRow.Descending :=
  ⟨fun m n => le_total n.messageSequence m.messageSequence⟩

instance : IsTrans MessageRow MessageRow.Descending := ⟨fun _ _ _ hmn hno => le_trans hno hmn⟩

/-- The rows of a session from the last position to the first. -/
def newestFirst (s : State) (sessionId : Nat) : List MessageRow :=
  (s.sessionMessages sessionId).insertionSort MessageRow.Descending

/-- The last five messages of the session, oldest first. -/
def fetchChatHistory (s : State) (sessionId workspaceId : Nat) : List MessageRow :=
  match s.sessions sessionId with
  | none => []
  | some row =>
    if row.workspaceId = workspaceId then ((newestFirst s sessionId).take 5).reverse else []

def MessageRow.entry (m : MessageRow) : PromptEntry :=
  ⟨some m.messageSequence, ⟨m.role, m.content⟩⟩

def question (message : String) : ChatMessage := ⟨.user, message⟩

/-- The messages of `build_chat_context`. -/
def promptMessages (history : List MessageRow) (message : String) : List PromptEntry :=
  let entries := history.map MessageRow.entry
  if (history.getLast?.map fun m => m.role) ≠ some .user ∨
      (history.getLast?.map fun m => m.content) ≠ some message then
    entries ++ [⟨none, question message⟩]
  else entries

end Context

section Statements

variable (s : State) (i : Nat) (c : ChatCall)

/-- Where the first ownership check of `ensure_chat_session` leads. -/
def selectOwner : State :=
  match s.sessions c.sessionId with
  | some row => if row.OwnedBy c.request then s.goto i c .lockSession else s.stop i c
  | none => s.goto i c .insertSession

/-- `INSERT … ON CONFLICT (id) DO NOTHING`. -/
def insertSession : State :=
  match s.sessions c.sessionId with
  | some _ => s.goto i c .selectAgain
  | none => (s.setSession c.sessionId (some c.request.newSession)).goto i c .selectAgain

def selectAgain : State :=
  match s.sessions c.sessionId with
  | some row => if row.OwnedBy c.request then s.goto i c .lockSession else s.stop i c
  | none => s.stop i c

/-- `SELECT … FOR UPDATE`: waits for the lock, and fails when there is no row. -/
def lockSession : Option State :=
  match s.sessions c.sessionId with
  | none => some (s.stop i c)
  | some row =>
    if s.locks c.sessionId = none then
      some ((s.setLock c.sessionId (some i)).goto i c (.readMaximum row.nextMessageSequence))
    else none

def readMaximum (storedNext : Int) : State :=
  match reserveTurn storedNext (s.maxExisting c.sessionId) with
  | .ok turn => s.goto i c (.updateCounter turn)
  | .error _ => s.stop i c

def insertQuestion (turn : ChatTurnSequence) : State :=
  if s.Taken c.sessionId turn.userSequence then s.stop i c else s.goto i c (.commitTurn turn)

def questionRow (turn : ChatTurnSequence) : MessageRow :=
  ⟨c.sessionId, turn.userSequence, .user, c.request.message, [], some i⟩

/-- The counter and the question become visible, and the lock is released. -/
def commitTurn (turn : ChatTurnSequence) : State :=
  let counted := s.setSession c.sessionId ((s.sessions c.sessionId).map fun row =>
    { row with nextMessageSequence := turn.nextSequence })
  ((counted.insertMessage (questionRow i c turn)).setLock c.sessionId none).put i
    { c with phase := .buildContext, turn := some turn }

def buildContext : State :=
  s.put i { c with
    phase := .streaming
    prompt := some (promptMessages
      (fetchChatHistory s c.sessionId c.request.workspaceId) c.request.message) }

def answerRow (turn : ChatTurnSequence) (content : String) (citations : List Nat) : MessageRow :=
  ⟨c.sessionId, turn.assistantSequence, .assistant, content, citations, some i⟩

/-- `insert_chat_message` from `PersistAssistantOnDrop`: the foreign key waits for a locked
session. -/
def persistAssistant (turn : ChatTurnSequence) (content : String) (citations : List Nat) :
    Option State :=
  match s.sessions c.sessionId with
  | none => some (s.stop i c)
  | some _ =>
    if s.locks c.sessionId ≠ none then none
    else if s.Taken c.sessionId turn.assistantSequence then some (s.stop i c)
    else some ((s.insertMessage (answerRow i c turn content citations)).goto i c .over)

/-- The next statement of a request. -/
def statement : Option State :=
  match c.phase with
  | .selectOwner => some (selectOwner s i c)
  | .insertSession => some (insertSession s i c)
  | .selectAgain => some (selectAgain s i c)
  | .lockSession => lockSession s i c
  | .readMaximum storedNext => some (readMaximum s i c storedNext)
  | .updateCounter turn => some (s.goto i c (.insertQuestion turn))
  | .insertQuestion turn => some (insertQuestion s i c turn)
  | .commitTurn turn => some (commitTurn s i c turn)
  | .buildContext => some (buildContext s i c)
  | .persistAssistant content citations =>
    match c.turn with
    | some turn => persistAssistant s i c turn content citations
    | none => none
  | _ => none

/-- The stream ends, also when the client is gone: only a text that is not empty is kept. -/
def streamEnd (text : String) : Option State :=
  if c.phase = .streaming then
    some (if text = "" then s.stop i c else s.goto i c .filterCitations)
  else none

/-- What `filter_citations_for_user` leaves of the answer. -/
def filtered (content : String) (citations : List Nat) : Option State :=
  if c.phase = .filterCitations then some (s.goto i c (.persistAssistant content citations))
  else none

end Statements

inductive ChatEvent
  | send (r : ChatRequest)
  | statement (i : Nat)
  | streamEnd (i : Nat) (text : String)
  | filtered (i : Nat) (content : String) (citations : List Nat)
  | abandon (i : Nat)
  deriving DecidableEq

def send (s : State) (r : ChatRequest) : Option State :=
  if r.message = "" then none
  else some { s with calls := s.calls ++ [⟨r, .selectOwner, none, none⟩] }

/-- What happens in the chat requests alone. -/
def chatStep (s : State) : ChatEvent → Option State
  | .send r => send s r
  | .statement i => s.calls[i]?.bind fun c => statement s i c
  | .streamEnd i text => s.calls[i]?.bind fun c => streamEnd s i c text
  | .filtered i content citations => s.calls[i]?.bind fun c => filtered s i c content citations
  | .abandon i => s.calls[i]?.map fun c => s.stop i c

section Delete

def State.gotoDelete (s : State) (j : Nat) (d : DeleteCall) (p : DeletePhase) : State :=
  { s with deletions := s.deletions.set j { d with phase := p } }

/-- A session is gone with all its messages. -/
def State.cascade (s : State) (sessionId : Nat) : State :=
  { s.setSession sessionId none with
    messages := s.messages.filter fun m => m.sessionId ≠ sessionId }

/-- `verify_chat_session_owner`. -/
def verifyChatSessionOwner (s : State) (d : DeleteCall) : Bool :=
  match s.sessions d.sessionId with
  | some row => row.workspaceId = d.workspaceId && row.userId = d.userId
  | none => false

/-- `DELETE FROM chat_sessions` with its cascade: waits for a locked row, then looks at the row
again. -/
def deleteRow (s : State) (j : Nat) (d : DeleteCall) : Option State :=
  if verifyChatSessionOwner s d then
    if s.locks d.sessionId = none then
      some ((s.cascade d.sessionId).gotoDelete j d .over)
    else none
  else some (s.gotoDelete j d .over)

def deleteStatement (s : State) (j : Nat) (d : DeleteCall) : Option State :=
  match d.phase with
  | .verifyOwner =>
    some (s.gotoDelete j d (if verifyChatSessionOwner s d then .deleteRow else .over))
  | .deleteRow => deleteRow s j d
  | .over => none

end Delete

inductive Event
  | chat (e : ChatEvent)
  | sendDelete (sessionId workspaceId userId : Nat)
  | deleteStatement (j : Nat)
  | abandonDelete (j : Nat)
  deriving DecidableEq

def step (s : State) : Event → Option State
  | .chat e => chatStep s e
  | .sendDelete sessionId workspaceId userId => some { s with
      deletions := s.deletions ++ [⟨sessionId, workspaceId, userId, .verifyOwner⟩] }
  | .deleteStatement j => s.deletions[j]?.bind fun d => deleteStatement s j d
  | .abandonDelete j => s.deletions[j]?.map fun d => s.gotoDelete j d .over

end GmragApi.Chat

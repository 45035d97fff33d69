import GmragApi.ChatTurns
import GmragApi.CitationRedaction
import GmragApi.DocumentSecrecy

/-! A page of the history of a chat session: the sources of all its answers are authorized and read
once for the page, and every message gets what it would get by itself. -/

namespace GmragApi.DocumentReads

open Chat (ChatRole)
open Citations (HydratedCitation collectMap insertNew removeInOrder hydrateCitations
  filterCitationsForAllowedIds)
open DocumentAcl
open Upload (ApiError)

section Model

structure ChatSession where
  id : Uuid
  workspaceId : Uuid
  userId : List Char
  deriving DecidableEq

structure StoredChatMessage where
  id : Uuid
  role : ChatRole
  content : List Char
  citations : List Uuid
  createdAt : Int
  deriving DecidableEq

/-- A row of `chat_messages`. -/
structure ChatMessageRow where
  sessionId : Uuid
  messageSequence : Int
  message : StoredChatMessage
  deriving DecidableEq

structure ChatTables where
  sessions : List ChatSession
  messages : List ChatMessageRow

/-- The primary keys, and the unique index on the positions in a session. -/
structure ChatTables.WellFormed (chat : ChatTables) : Prop where
  sessionIds : (chat.sessions.map ChatSession.id).Nodup
  messageIds : (chat.messages.map fun row => row.message.id).Nodup
  positions : (chat.messages.map fun row => (row.sessionId, row.messageSequence)).Nodup

structure StoredChatMessagePage where
  messages : List StoredChatMessage
  total : Nat
  limit : Int
  offset : Int

structure HistoryCitation where
  chunkId : Uuid
  documentId : Uuid
  documentName : List Char
  snippet : List Char
  deriving DecidableEq

structure ChatHistoryMessageResponse where
  id : Uuid
  role : ChatRole
  content : List Char
  citations : List HistoryCitation
  createdAt : Int
  deriving DecidableEq

structure ChatHistoryPageResponse where
  messages : List ChatHistoryMessageResponse
  total : Nat
  limit : Int
  offset : Int

def resolveForQuery (s : Service) (c : HydratedCitation) (query : Option (List Char)) :
    HistoryCitation :=
  ⟨c.chunkId, c.documentId, c.documentName, snippetFor s.tables query c.originalText⟩

/-- The question that an answer was given to: the message of the user right before it. -/
def questionOf (previous : Option StoredChatMessage) (row : StoredChatMessage) :
    Option (List Char) :=
  if row.role = .assistant then
    (previous.filter fun p => p.role == .user).map StoredChatMessage.content
  else none

def queryByMessageId : Option StoredChatMessage → List StoredChatMessage →
    List (Uuid × List Char)
  | _, [] => []
  | previous, row :: rows =>
    match questionOf previous row with
    | some query => (row.id, query) :: queryByMessageId (some row) rows
    | none => queryByMessageId (some row) rows

def historyCitationPlan (rows : List StoredChatMessage) :
    List Uuid × List (Uuid × List Char) :=
  ((rows.flatMap StoredChatMessage.citations).foldl insertNew [],
    collectMap Prod.fst (queryByMessageId none rows))

/-- A message of the page, from what was read for the whole page. -/
def projectMessage (s : Service) (hydrated : List HydratedCitation)
    (queries : List (Uuid × List Char)) (row : StoredChatMessage) : ChatHistoryMessageResponse :=
  let query := (queries.find? fun entry => entry.1 == row.id).map Prod.snd
  match row.role with
  | .assistant =>
    let filtered := filterCitationsForAllowedIds row.content row.citations
      (hydrated.map HydratedCitation.chunkId)
    ⟨row.id, row.role, filtered.1, filtered.2.filterMap fun id =>
      (hydrated.find? fun c => c.chunkId == id).map fun c => resolveForQuery s c query,
      row.createdAt⟩
  | .user => ⟨row.id, row.role, row.content, [], row.createdAt⟩

def buildHistoryPageWithAcl (s : Service) (db : Contents) (workspaceId : Uuid)
    (userId : List Char) (page : StoredChatMessagePage) :
    Except ApiError ChatHistoryPageResponse :=
  let plan := historyCitationPlan page.messages
  match filterCitationIdsForUser s db workspaceId userId plan.1 with
  | .error _ => .error (fromStatus 500)
  | .ok allowedIds =>
    let hydrated := collectMap HydratedCitation.chunkId (hydrate s db workspaceId allowedIds none)
    .ok ⟨page.messages.map (projectMessage s hydrated plan.2), page.total, page.limit, page.offset⟩

def filterCitationsForUser (s : Service) (db : Contents) (workspaceId : Uuid)
    (userId assistantText : List Char) (citations : List Uuid) :
    Except DocumentAclError (List Char × List Uuid) :=
  match filterCitationIdsForUser s db workspaceId userId citations with
  | .error e => .error e
  | .ok allowed => .ok (filterCitationsForAllowedIds assistantText citations allowed)

/-- What one message gets when it is authorized and read by itself. -/
def historyMessage (s : Service) (db : Contents) (workspaceId : Uuid) (userId : List Char)
    (query : Option (List Char)) (row : StoredChatMessage) :
    Except DocumentAclError ChatHistoryMessageResponse :=
  match row.role with
  | .assistant =>
    match filterCitationsForUser s db workspaceId userId row.content row.citations with
    | .error e => .error e
    | .ok (content, visible) =>
      .ok ⟨row.id, row.role, content, (hydrate s db workspaceId visible query).map fun c =>
        ⟨c.chunkId, c.documentId, c.documentName, c.snippet⟩, row.createdAt⟩
  | .user => .ok ⟨row.id, row.role, row.content, [], row.createdAt⟩

/-- Every message of the page with its question; none is known for the first one. -/
def withQuestions : Option StoredChatMessage → List StoredChatMessage →
    List (Option (List Char) × StoredChatMessage)
  | _, [] => []
  | previous, row :: rows => (questionOf previous row, row) :: withQuestions (some row) rows

inductive SessionOwner
  | absent
  | owned
  | forbidden
  deriving DecidableEq

def verifyChatSessionOwner (chat : ChatTables) (sessionId workspaceId : Uuid)
    (userId : List Char) : SessionOwner :=
  match chat.sessions.find? fun c => c.id == sessionId && c.workspaceId == workspaceId with
  | none => .absent
  | some session => if session.userId = userId then .owned else .forbidden

/-- `INNER JOIN chat_sessions cs ON cs.id = cm.session_id`, for one session of a user. -/
def isMessageOf (chat : ChatTables) (sessionId workspaceId : Uuid) (userId : List Char)
    (row : ChatMessageRow) : Bool :=
  row.sessionId == sessionId && chat.sessions.any fun c =>
    c.id == row.sessionId && c.workspaceId == workspaceId && c.userId == userId

def sessionMessages (chat : ChatTables) (sessionId workspaceId : Uuid) (userId : List Char) :
    List ChatMessageRow :=
  Query.orderBy ChatMessageRow.messageSequence
    (chat.messages.filter (isMessageOf chat sessionId workspaceId userId))

def fetchSessionChatMessages (chat : ChatTables) (sessionId workspaceId : Uuid)
    (userId : List Char) (limit offset : Int) : StoredChatMessagePage :=
  ⟨(Query.page limit.toNat offset.toNat (sessionMessages chat sessionId workspaceId userId)).map
      ChatMessageRow.message,
    chat.messages.countP (isMessageOf chat sessionId workspaceId userId), limit, offset⟩

def chatPageWindow (limit offset : Option Int) : Except ApiError (Int × Int) :=
  let limit := limit.getD 20
  let offset := offset.getD 0
  if ¬(0 ≤ limit ∧ limit ≤ 100) ∨ offset < 0 then .error invalidPage else .ok (limit, offset)

def emptyChatHistoryPage (limit offset : Int) : ChatHistoryPageResponse := ⟨[], 0, limit, offset⟩

inductive HistoryReply
  | page (page : ChatHistoryPageResponse)
  | notAccessible
  | error (e : ApiError)

def workspaceChatHistory (s : Service) (db : Contents) (chat : ChatTables) (userId : List Char)
    (workspaceId sessionId : Uuid) (limit offset : Option Int) : HistoryReply :=
  match requireRelation s userId .member (workspaceObject workspaceId) with
  | .error e => .error e
  | .ok () =>
    match chatPageWindow limit offset with
    | .error e => .error e
    | .ok (limit, offset) =>
      match verifyChatSessionOwner chat sessionId workspaceId userId with
      | .absent => .page (emptyChatHistoryPage limit offset)
      | .forbidden => .notAccessible
      | .owned =>
        match buildHistoryPageWithAcl s db workspaceId userId
            (fetchSessionChatMessages chat sessionId workspaceId userId limit offset) with
        | .error e => .error e
        | .ok page => .page page

end Model

section Sources

variable {s : Service} {db : Contents} {workspaceId : Uuid} {userId : List Char}
  {citations allowed ids : List Uuid}

/-- Whether the user may see the chunk of an id; there is nothing to see in an unknown one. -/
def passes (s : Service) (db : Contents) (workspaceId : Uuid) (userId : List Char) (id : Uuid) :
    Except DocumentAclError Bool :=
  match chunkOfCitation db workspaceId id with
  | none => .ok false
  | some row => canView s userId row.2

def isPassed : Except DocumentAclError Bool → Bool
  | .ok allowed => allowed
  | .error _ => false

theorem filterCitationIdsForUser_cons (id : Uuid) :
    filterCitationIdsForUser s db workspaceId userId (id :: citations) =
      (passes s db workspaceId userId id).bind fun allowed =>
        (filterCitationIdsForUser s db workspaceId userId citations).map fun rest =>
          if allowed then id :: rest else rest := by
  rw [filterCitationIdsForUser, passes]
  cases chunkOfCitation db workspaceId id with
  | none => cases filterCitationIdsForUser s db workspaceId userId citations <;> rfl
  | some row =>
    cases hview : canView s userId row.2 with
    | error e => simp only [Except.bind, hview]
    | ok viewable =>
      cases viewable <;> simp only [hview] <;>
        cases filterCitationIdsForUser s db workspaceId userId citations <;> rfl

/-- The answer for a list is that for each of its ids. -/
theorem filterCitationIdsForUser_ok_iff :
    filterCitationIdsForUser s db workspaceId userId citations = .ok allowed ↔
      (∀ id ∈ citations, ∃ b, passes s db workspaceId userId id = .ok b) ∧
        allowed = citations.filter fun id => isPassed (passes s db workspaceId userId id) := by
  induction citations generalizing allowed with
  | nil => simp [filterCitationIdsForUser, eq_comm]
  | cons id rest ih =>
    rw [filterCitationIdsForUser_cons, List.forall_mem_cons]
    cases hpass : passes s db workspaceId userId id with
    | error e => simp [Except.bind]
    | ok b =>
      cases hrest : filterCitationIdsForUser s db workspaceId userId rest with
      | error e =>
        have hnot : ¬ ∀ id ∈ rest, ∃ b, passes s db workspaceId userId id = .ok b := by
          intro hall
          have hok := ih.mpr ⟨hall, rfl⟩
          rw [hrest] at hok
          cases hok
        refine iff_of_false (fun heq => ?_) fun hright => hnot hright.1.2
        cases heq
      | ok others =>
        obtain ⟨hall, rfl⟩ := ih.mp hrest
        have hpassed : isPassed (.ok b) = b := rfl
        simp only [Except.bind, Except.map, Except.ok.injEq, List.filter_cons, hpass, hpassed]
        exact ⟨fun heq => ⟨⟨⟨b, rfl⟩, hall⟩, heq.symm⟩, fun hright => hright.2.symm⟩

/-- A source as the tables have it, with the snippet for a question. -/
def hydratedRow (s : Service) (query : Option (List Char)) (row : ChunkRow × DocumentRow) :
    HydratedCitation :=
  ⟨row.1.id, row.1.documentId, row.2.filename, row.1.originalText,
    snippetFor s.tables query row.1.originalText, row.1.chunkIndex⟩

/-- Ids that differ find their entries without regard to each other. -/
theorem removeInOrder_eq {β : Type} {key : β → Uuid} (hids : ids.Nodup) (entries : List β)
    (position : Nat) : (removeInOrder key position ids entries).map Prod.snd =
      ids.filterMap fun id => entries.find? (key · == id) := by
  induction ids generalizing position entries with
  | nil => rfl
  | cons id ids ih =>
    obtain ⟨hid, hids⟩ := List.nodup_cons.mp hids
    cases hentry : entries.find? (key · == id) with
    | none => simp only [removeInOrder, hentry, List.filterMap_cons, ih hids]
    | some value =>
      have hrest : (ids.filterMap fun other => (entries.filter (key · != id)).find? (key · == other)) =
          ids.filterMap fun other => entries.find? (key · == other) := by
        refine List.filterMap_congr fun other hother => ?_
        have hne : other ≠ id := fun heq => hid (heq ▸ hother)
        rw [List.find?_filter]
        refine congrArg (entries.find? ·) (funext fun entry => ?_)
        rw [Bool.eq_iff_iff]
        simp only [bne_iff_ne, beq_iff_eq, decide_eq_true_eq, and_iff_right_iff_imp]
        intro heq
        rw [heq]
        exact hne
      simp only [removeInOrder, hentry, List.map_cons, List.filterMap_cons, ih hids, hrest]

theorem chunkOfCitation_id {row : ChunkRow × DocumentRow} {id : Uuid}
    (h : chunkOfCitation db workspaceId id = some row) : row.1.id = id :=
  beq_iff_eq.mp (List.find?_some (p := fun row : ChunkRow × DocumentRow => row.1.id == id) h)

theorem hydrateCitations_eq (rows : List Citations.CitationHydrationRow) (ids : List Uuid)
    (selectSnippet : List Char → List Char) :
    hydrateCitations rows ids selectSnippet =
      ((Citations.removeInOrder Citations.CitationHydrationRow.chunkId 0 ids
        (Citations.collectMap Citations.CitationHydrationRow.chunkId rows)).map Prod.snd).map
          fun row => ⟨row.chunkId, row.documentId, row.documentName, row.originalText,
            selectSnippet row.originalText, row.chunkIndex⟩ := by
  rw [List.map_map]
  rfl

/-- The sources of ids that differ are their rows, one by one. -/
theorem hydrate_eq (h : db.WellFormed) (hids : ids.Nodup) (query : Option (List Char)) :
    hydrate s db workspaceId ids query =
      ids.filterMap fun id => (chunkOfCitation db workspaceId id).map (hydratedRow s query) := by
  have hrows : ((hydrationRows db workspaceId ids).map
      Citations.CitationHydrationRow.chunkId).Nodup := by
    unfold hydrationRows
    rw [List.map_map]
    exact (joinedChunks_nodup h).sublist (List.filter_sublist.map _)
  have hkeyed : Query.KeyedBy Citations.CitationHydrationRow.chunkId
      (Citations.collectMap Citations.CitationHydrationRow.chunkId
        (hydrationRows db workspaceId ids)) :=
    Query.keyedBy_of_nodup (Citations.collectMap_nodup _)
  unfold hydrate
  rw [hydrateCitations_eq, removeInOrder_congr hkeyed (collectMap_perm hrows),
    removeInOrder_eq hids, List.map_filterMap]
  refine List.filterMap_congr fun id hid => ?_
  have hfind : (hydrationRows db workspaceId ids).find? (fun row => row.chunkId == id) =
      (chunkOfCitation db workspaceId id).map hydrationRow := by
    unfold hydrationRows
    rw [List.find?_map, chunkOfCitation_eq, List.find?_filter]
    refine congrArg (Option.map hydrationRow) (congrArg ((joinedChunks db).find? ·) ?_)
    funext row
    rw [Bool.eq_iff_iff]
    simp only [hydrationRow, Function.comp_apply, Bool.and_eq_true, beq_iff_eq, decide_eq_true_eq]
    constructor
    · rintro ⟨⟨hworkspace, -⟩, heq⟩
      exact ⟨hworkspace, heq⟩
    · rintro ⟨hworkspace, rfl⟩
      exact ⟨⟨hworkspace, hid⟩, rfl⟩
  rw [hfind, Option.map_map]
  rfl

theorem filterCitationsForAllowedIds_congr {others : List Uuid} (text : List Char)
    (h : ∀ id ∈ citations, id ∈ allowed ↔ id ∈ others) :
    filterCitationsForAllowedIds text citations allowed =
      filterCitationsForAllowedIds text citations others := by
  unfold filterCitationsForAllowedIds
  refine Prod.ext ?_ ?_
  · exact List.foldl_ext _ _ _ fun sanitized id hid => by simp only [h id hid]
  · exact List.foldl_ext _ _ _ fun visible id hid => by simp only [h id hid]

/-- The citations that go out are the allowed ones, each once. -/
theorem visible_eq_foldl (text : List Char) (citations allowed : List Uuid) :
    (filterCitationsForAllowedIds text citations allowed).2 =
      (citations.filter fun id => decide (id ∈ allowed)).foldl insertNew [] := by
  rw [List.foldl_filter]
  simp only [filterCitationsForAllowedIds, decide_eq_true_eq]

end Sources

section Page

variable {s : Service} {db db' : Contents} {workspaceId : Uuid} {userId : List Char}
  {rows : List StoredChatMessage} {previous : Option StoredChatMessage}

theorem row_of_passed {id : Uuid} (h : isPassed (passes s db workspaceId userId id) = true) :
    ∃ row, chunkOfCitation db workspaceId id = some row := by
  cases hrow : chunkOfCitation db workspaceId id with
  | none =>
    rw [passes, hrow] at h
    cases h
  | some row => exact ⟨row, rfl⟩

section Hydrated

variable {allowed : List Uuid} (h : db.WellFormed) (hids : allowed.Nodup)
  (hpassed : ∀ id ∈ allowed, isPassed (passes s db workspaceId userId id) = true)

include h hids hpassed

theorem hydrate_ids : (hydrate s db workspaceId allowed none).map HydratedCitation.chunkId =
    allowed := by
  have hself : ∀ id ∈ allowed, ((chunkOfCitation db workspaceId id).map (hydratedRow s none)).map
      HydratedCitation.chunkId = some id := by
    intro id hid
    obtain ⟨row, hrow⟩ := row_of_passed (hpassed id hid)
    rw [hrow, ← chunkOfCitation_id hrow]
    rfl
  rw [hydrate_eq h hids, List.map_filterMap, List.filterMap_congr hself, List.filterMap_some]

theorem mem_hydrated_ids (id : Uuid) :
    id ∈ (collectMap HydratedCitation.chunkId (hydrate s db workspaceId allowed none)).map
      HydratedCitation.chunkId ↔ id ∈ allowed := by
  have hread := hydrate_ids h hids hpassed
  have hnodup : ((hydrate s db workspaceId allowed none).map HydratedCitation.chunkId).Nodup := by
    rw [hread]
    exact hids
  rw [((collectMap_perm hnodup).map _).mem_iff, hread]

theorem find_hydrated {id : Uuid} (hid : id ∈ allowed) :
    (collectMap HydratedCitation.chunkId (hydrate s db workspaceId allowed none)).find?
        (fun c => c.chunkId == id) =
      (chunkOfCitation db workspaceId id).map (hydratedRow s none) := by
  have hnodup : ((hydrate s db workspaceId allowed none).map HydratedCitation.chunkId).Nodup := by
    rw [hydrate_ids h hids hpassed]
    exact hids
  obtain ⟨row, hrow⟩ := row_of_passed (hpassed id hid)
  rw [hrow]
  refine Query.find?_of_mem (fun a ha b hb hpa hpb => ?_) ?_ ?_
  · exact Query.keyedBy_of_nodup (Citations.collectMap_nodup _) a ha b hb
      ((beq_iff_eq.mp hpa).trans (beq_iff_eq.mp hpb).symm)
  · refine (Citations.mem_collectMap hnodup).mpr ?_
    rw [hydrate_eq h hids]
    exact List.mem_filterMap.mpr ⟨id, hid, by rw [hrow]; rfl⟩
  · exact beq_iff_eq.mpr (chunkOfCitation_id hrow)

/-- A message whose sources are among those that were read is what it is by itself. -/
theorem projectMessage_eq {row : StoredChatMessage} {query : Option (List Char)}
    {queries : List (Uuid × List Char)}
    (hcitations : ∀ id ∈ row.citations, ∃ b, passes s db workspaceId userId id = .ok b)
    (hplanned : ∀ id ∈ row.citations,
      isPassed (passes s db workspaceId userId id) = true → id ∈ allowed)
    (hquery : ((queries.find? fun entry => entry.1 == row.id).map Prod.snd) = query) :
    historyMessage s db workspaceId userId query row =
      .ok (projectMessage s (collectMap HydratedCitation.chunkId
        (hydrate s db workspaceId allowed none)) queries row) := by
  cases hrole : row.role with
  | user => simp only [historyMessage, projectMessage, hrole]
  | assistant =>
    have hown := filterCitationIdsForUser_ok_iff.mpr ⟨hcitations, rfl⟩
    have hsame : ∀ id ∈ row.citations,
        (id ∈ row.citations.filter fun id => isPassed (passes s db workspaceId userId id)) ↔
          id ∈ (collectMap HydratedCitation.chunkId
            (hydrate s db workspaceId allowed none)).map HydratedCitation.chunkId := by
      intro id hid
      rw [mem_hydrated_ids h hids hpassed, List.mem_filter]
      exact ⟨fun hpass => hplanned id hid hpass.2, fun hmem => ⟨hid, hpassed id hmem⟩⟩
    have hfiltered := filterCitationsForAllowedIds_congr row.content hsame
    have hvisible : ∀ id ∈ (filterCitationsForAllowedIds row.content row.citations
        ((collectMap HydratedCitation.chunkId
          (hydrate s db workspaceId allowed none)).map HydratedCitation.chunkId)).2,
        id ∈ allowed := by
      intro id hid
      rw [← mem_hydrated_ids h hids hpassed]
      rw [visible_eq_foldl] at hid
      have hmem := (Citations.mem_foldl_insertNew.mp hid).resolve_left List.not_mem_nil
      exact of_decide_eq_true (List.mem_filter.mp hmem).2
    have hnodup : (filterCitationsForAllowedIds row.content row.citations
        ((collectMap HydratedCitation.chunkId
          (hydrate s db workspaceId allowed none)).map HydratedCitation.chunkId)).2.Nodup := by
      rw [visible_eq_foldl]
      exact Citations.foldl_insertNew_nodup List.nodup_nil
    simp only [historyMessage, projectMessage, hrole, filterCitationsForUser, hown, hfiltered]
    rw [hydrate_eq h hnodup, List.map_filterMap, hquery]
    refine congrArg Except.ok (congrArg (ChatHistoryMessageResponse.mk row.id .assistant _ ·
      row.createdAt) (List.filterMap_congr fun id hid => ?_))
    rw [find_hydrated h hids hpassed (hvisible id hid), Option.map_map, Option.map_map]
    rfl

end Hydrated

theorem queryByMessageId_ids (previous : Option StoredChatMessage) (rows : List StoredChatMessage) :
    ((queryByMessageId previous rows).map Prod.fst).Sublist (rows.map StoredChatMessage.id) := by
  induction rows generalizing previous with
  | nil => exact .slnil
  | cons row rows ih =>
    rw [queryByMessageId]
    cases questionOf previous row with
    | none => exact (ih _).cons _
    | some query => exact (ih _).cons_cons _

theorem withQuestions_snd (previous : Option StoredChatMessage) (rows : List StoredChatMessage) :
    (withQuestions previous rows).map Prod.snd = rows := by
  induction rows generalizing previous with
  | nil => rfl
  | cons row rows ih => rw [withQuestions, List.map_cons, ih]

/-- Every message finds its own question among those of the page. -/
theorem find_question (hids : (rows.map StoredChatMessage.id).Nodup)
    {entry : Option (List Char) × StoredChatMessage} (h : entry ∈ withQuestions previous rows) :
    ((queryByMessageId previous rows).find? fun e => e.1 == entry.2.id).map Prod.snd =
      entry.1 := by
  induction rows generalizing previous with
  | nil => cases h
  | cons row rows ih =>
    obtain ⟨hrow, hrest⟩ := List.nodup_cons.mp hids
    rw [queryByMessageId]
    rcases List.mem_cons.mp h with rfl | h
    · cases hquestion : questionOf previous row with
      | some query => simp
      | none =>
        refine Option.map_eq_none_iff.mpr (List.find?_eq_none.mpr fun e he heq => hrow ?_)
        rw [← beq_iff_eq.mp heq]
        exact (queryByMessageId_ids _ _).subset (List.mem_map_of_mem he)
    · have hne : ¬ (row.id == entry.2.id) = true := by
        intro heq
        have hmem : entry.2 ∈ rows := by
          rw [← withQuestions_snd (some row) rows]
          exact List.mem_map_of_mem h
        rw [beq_iff_eq.mp heq] at hrow
        exact hrow (List.mem_map_of_mem hmem)
      cases questionOf previous row with
      | none => exact ih hrest h
      | some query =>
        rw [← ih hrest h]
        exact congrArg _ (List.find?_cons_of_neg (by exact hne))

theorem find_planned_question (hids : (rows.map StoredChatMessage.id).Nodup)
    {entry : Option (List Char) × StoredChatMessage} (h : entry ∈ withQuestions none rows) :
    ((historyCitationPlan rows).2.find? fun e => e.1 == entry.2.id).map Prod.snd = entry.1 := by
  have hnodup := hids.sublist (queryByMessageId_ids none rows)
  refine (congrArg _ (Query.find?_congr (fun a ha b hb hpa hpb => ?_)
    (collectMap_perm hnodup))).trans (find_question hids h)
  exact Query.keyedBy_of_nodup (Citations.collectMap_nodup _) a ha b hb
    ((beq_iff_eq.mp hpa).trans (beq_iff_eq.mp hpb).symm)

/-- The page of messages that were authorized and read together is the page of messages that were
each authorized and read alone. -/
theorem buildHistoryPage_messages (h : db.WellFormed) {page : StoredChatMessagePage}
    (hids : (page.messages.map StoredChatMessage.id).Nodup) {response : ChatHistoryPageResponse}
    (hbuild : buildHistoryPageWithAcl s db workspaceId userId page = .ok response) :
    (withQuestions none page.messages).map (fun entry =>
        historyMessage s db workspaceId userId entry.1 entry.2) = response.messages.map .ok ∧
      response.total = page.total ∧ response.limit = page.limit ∧
      response.offset = page.offset := by
  unfold buildHistoryPageWithAcl at hbuild
  cases hallowed : filterCitationIdsForUser s db workspaceId userId
      (historyCitationPlan page.messages).1 with
  | error e =>
    simp only [hallowed] at hbuild
    cases hbuild
  | ok allowed =>
    simp only [hallowed] at hbuild
    cases hbuild
    refine ⟨?_, rfl, rfl, rfl⟩
    obtain ⟨hall, rfl⟩ := filterCitationIdsForUser_ok_iff.mp hallowed
    have hnodup : ((historyCitationPlan page.messages).1.filter fun id =>
        isPassed (passes s db workspaceId userId id)).Nodup :=
      (Citations.foldl_insertNew_nodup List.nodup_nil).filter _
    have hrows : ∀ f : StoredChatMessage → Except DocumentAclError ChatHistoryMessageResponse,
        page.messages.map f = (withQuestions none page.messages).map fun entry => f entry.2 := by
      intro f
      conv_lhs => rw [← withQuestions_snd none page.messages]
      rw [List.map_map]
      rfl
    rw [List.map_map, hrows]
    refine List.map_congr_left fun entry hentry => ?_
    have hrow : entry.2 ∈ page.messages := by
      rw [← withQuestions_snd none page.messages]
      exact List.mem_map_of_mem hentry
    have hplanned : ∀ id ∈ entry.2.citations, id ∈ (historyCitationPlan page.messages).1 :=
      fun id hid =>
        Citations.mem_foldl_insertNew.mpr (.inr (List.mem_flatMap.mpr ⟨entry.2, hrow, hid⟩))
    exact projectMessage_eq h hnodup (fun id hid => (List.mem_filter.mp hid).2)
      (fun id hid => hall id (hplanned id hid))
      (fun id hid hpass => List.mem_filter.mpr ⟨hplanned id hid, hpass⟩)
      (find_planned_question hids hentry)

/-- The page fails only where the sources of one of its messages cannot be authorized. -/
theorem buildHistoryPage_error {page : StoredChatMessagePage} {e : ApiError}
    (hbuild : buildHistoryPageWithAcl s db workspaceId userId page = .error e) :
    e = fromStatus 500 ∧ ∃ row ∈ page.messages, ∃ error,
      filterCitationIdsForUser s db workspaceId userId row.citations = .error error := by
  unfold buildHistoryPageWithAcl at hbuild
  cases hallowed : filterCitationIdsForUser s db workspaceId userId
      (historyCitationPlan page.messages).1 with
  | ok allowed =>
    simp only [hallowed] at hbuild
    cases hbuild
  | error error =>
    simp only [hallowed] at hbuild
    cases hbuild
    refine ⟨rfl, ?_⟩
    by_contra hnone
    have hall : ∀ id ∈ (historyCitationPlan page.messages).1,
        ∃ b, passes s db workspaceId userId id = .ok b := by
      intro id hid
      obtain ⟨row, hrow, hid⟩ := List.mem_flatMap.mp
        ((Citations.mem_foldl_insertNew.mp hid).resolve_left List.not_mem_nil)
      cases hown : filterCitationIdsForUser s db workspaceId userId row.citations with
      | error error => exact absurd ⟨row, hrow, error, hown⟩ hnone
      | ok allowed => exact (filterCitationIdsForUser_ok_iff.mp hown).1 id hid
    have hok := filterCitationIdsForUser_ok_iff.mpr ⟨hall, rfl⟩
    rw [hallowed] at hok
    cases hok

theorem buildHistoryPage_same (same : SameView s userId db db') (h : db.WellFormed)
    (h' : db'.WellFormed) (page : StoredChatMessagePage) :
    buildHistoryPageWithAcl s db workspaceId userId page =
      buildHistoryPageWithAcl s db' workspaceId userId page := by
  unfold buildHistoryPageWithAcl
  obtain ⟨e, hfail, hfail'⟩ | ⟨allowed, hallowed, hallowed', hhydrate⟩ :=
    hydrate_filtered_same same h h' workspaceId (historyCitationPlan page.messages).1 none
  · simp only [hfail, hfail']
  · simp only [hallowed, hallowed', hhydrate]

end Page

section History

variable {s : Service} {db db' : Contents} {chat : ChatTables} {userId : List Char}
  {workspaceId sessionId : Uuid} {limit offset : Option Int} {page : ChatHistoryPageResponse}

/-- A session that is not there has no messages to show. -/
theorem sessionMessages_absent
    (h : verifyChatSessionOwner chat sessionId workspaceId userId = .absent) :
    sessionMessages chat sessionId workspaceId userId = [] := by
  have hnone : chat.sessions.find? (fun c => c.id == sessionId && c.workspaceId == workspaceId) =
      none := by
    unfold verifyChatSessionOwner at h
    cases hfind : chat.sessions.find? fun c => c.id == sessionId && c.workspaceId == workspaceId with
    | none => rfl
    | some session =>
      simp only [hfind] at h
      split at h
      · cases h
      · cases h
  have hempty : chat.messages.filter (isMessageOf chat sessionId workspaceId userId) = [] := by
    refine List.filter_eq_nil_iff.mpr fun row _ hof => ?_
    obtain ⟨hsession, hany⟩ := Bool.and_eq_true_iff.mp hof
    obtain ⟨session, hmem, hsame⟩ := List.any_eq_true.mp hany
    rw [beq_iff_eq] at hsession
    simp only [Bool.and_eq_true, beq_iff_eq, hsession] at hsame
    have hnot := List.find?_eq_none.mp hnone session hmem
    simp [hsame.1] at hnot
  rw [sessionMessages, hempty]
  exact List.mergeSort_nil

theorem sessionMessages_ids (h : chat.WellFormed) (n m : Nat) :
    (((Query.page n m (sessionMessages chat sessionId workspaceId userId)).map
      ChatMessageRow.message).map StoredChatMessage.id).Nodup := by
  have hall : ((sessionMessages chat sessionId workspaceId userId).map
      fun row => row.message.id).Nodup :=
    ((Query.orderBy_perm _ _).map _).nodup_iff.mpr
      (h.messageIds.sublist (List.filter_sublist.map _))
  rw [List.map_map]
  exact hall.sublist (((List.take_sublist _ _).trans (List.drop_sublist _ _)).map _)

/-- What a request for history is answered with, if with a page. -/
theorem workspaceChatHistory_page
    (h : workspaceChatHistory s db chat userId workspaceId sessionId limit offset = .page page) :
    (sessionMessages chat sessionId workspaceId userId = [] ∧ page.messages = [] ∧
        page.total = 0) ∨
      ∃ l o, buildHistoryPageWithAcl s db workspaceId userId
        (fetchSessionChatMessages chat sessionId workspaceId userId l o) = .ok page := by
  unfold workspaceChatHistory at h
  cases hmember : requireRelation s userId .member (workspaceObject workspaceId) with
  | error e => simp only [hmember] at h; cases h
  | ok _ =>
    simp only [hmember] at h
    cases hwindow : chatPageWindow limit offset with
    | error e => simp only [hwindow] at h; cases h
    | ok window =>
      simp only [hwindow] at h
      cases howner : verifyChatSessionOwner chat sessionId workspaceId userId with
      | forbidden => simp only [howner] at h; cases h
      | absent =>
        simp only [howner] at h
        cases h
        exact .inl ⟨sessionMessages_absent howner, rfl, rfl⟩
      | owned =>
        simp only [howner] at h
        cases hbuild : buildHistoryPageWithAcl s db workspaceId userId
            (fetchSessionChatMessages chat sessionId workspaceId userId window.1 window.2) with
        | error e => simp only [hbuild] at h; cases h
        | ok built =>
          simp only [hbuild] at h
          cases h
          exact .inr ⟨window.1, window.2, hbuild⟩

/-- A page of the history has the messages at its place in the session, in their order, and every
one of them as it would be if its sources were authorized and read for it alone; and it is the same
whatever is in the documents that are hidden from the reader. -/
theorem history_page_exact (h : db.WellFormed) (hchat : chat.WellFormed)
    (hreply : workspaceChatHistory s db chat userId workspaceId sessionId limit offset =
      .page page) :
    (withQuestions none ((Query.page page.limit.toNat page.offset.toNat
        (sessionMessages chat sessionId workspaceId userId)).map ChatMessageRow.message)).map
          (fun entry => historyMessage s db workspaceId userId entry.1 entry.2) =
        page.messages.map .ok ∧
      page.total = (sessionMessages chat sessionId workspaceId userId).length ∧
      ∀ db' : Contents, db'.WellFormed → SameView s userId db db' →
        workspaceChatHistory s db' chat userId workspaceId sessionId limit offset =
          .page page := by
  have hsame : ∀ db' : Contents, db'.WellFormed → SameView s userId db db' →
      workspaceChatHistory s db' chat userId workspaceId sessionId limit offset = .page page := by
    intro db' h' same
    rw [← hreply]
    simp only [workspaceChatHistory, buildHistoryPage_same same h h']
  rcases workspaceChatHistory_page hreply with ⟨hempty, hmessages, htotal⟩ | ⟨l, o, hbuild⟩
  · refine ⟨?_, ?_, hsame⟩
    · rw [hempty, hmessages]
      simp [Query.page, withQuestions]
    · rw [hempty, htotal]
      rfl
  · obtain ⟨hexact, htotal, hlimit, hoffset⟩ :=
      buildHistoryPage_messages h (sessionMessages_ids hchat l.toNat o.toNat) hbuild
    refine ⟨?_, ?_, hsame⟩
    · rw [hlimit, hoffset]
      exact hexact
    · rw [htotal, sessionMessages, (Query.orderBy_perm _ _).length_eq,
        ← List.countP_eq_length_filter]
      rfl

/-- A question and its answer, which cites a chunk of the open document and one of the hidden
one. -/
def sampleChat : ChatTables where
  sessions := [⟨.ofNat 9, .ofNat 1, ['v']⟩]
  messages := [⟨.ofNat 9, 2, ⟨.ofNat 52, .assistant, ['b'], [.ofNat 20, .ofNat 23], 6⟩⟩,
    ⟨.ofNat 9, 1, ⟨.ofNat 51, .user, ['a'], [], 5⟩⟩]

theorem passes_memberService (db : Contents) (workspaceId : Uuid) (userId : List Char)
    (id : Uuid) : ∃ b, passes memberService db workspaceId userId id = .ok b := by
  unfold passes
  cases chunkOfCitation db workspaceId id with
  | none => exact ⟨false, rfl⟩
  | some row =>
    cases hmode : row.2.accessMode with
    | restricted => exact ⟨false, by simp only [canView, hmode]; rfl⟩
    | workspaceDefault => exact ⟨true, by simp only [canView, hmode]; rfl⟩

theorem history_page_exact_sample : ∃ page : ChatHistoryPageResponse,
    (withQuestions none ((Query.page page.limit.toNat page.offset.toNat
        (sessionMessages sampleChat (.ofNat 9) (.ofNat 1) ['v'])).map ChatMessageRow.message)).map
          (fun entry => historyMessage memberService (contentsWith 3) (.ofNat 1) ['v'] entry.1
            entry.2) = page.messages.map .ok ∧
      page.total = (sessionMessages sampleChat (.ofNat 9) (.ofNat 1) ['v']).length ∧
      ∀ db' : Contents, db'.WellFormed → SameView memberService ['v'] (contentsWith 3) db' →
        workspaceChatHistory memberService db' sampleChat ['v'] (.ofNat 1) (.ofNat 9) none none =
          .page page := by
  have hwf : (contentsWith 3).WellFormed := by constructor <;> decide
  have hchat : sampleChat.WellFormed := by constructor <;> decide
  have hall : ∀ id ∈ (historyCitationPlan
      (fetchSessionChatMessages sampleChat (.ofNat 9) (.ofNat 1) ['v'] 20 0).messages).1,
      ∃ b, passes memberService (contentsWith 3) (.ofNat 1) ['v'] id = .ok b :=
    fun id _ => passes_memberService (contentsWith 3) (.ofNat 1) ['v'] id
  have hread := filterCitationIdsForUser_ok_iff.mpr ⟨hall, rfl⟩
  have howner : verifyChatSessionOwner sampleChat (.ofNat 9) (.ofNat 1) ['v'] = .owned := by decide
  have hreply : ∃ page, workspaceChatHistory memberService (contentsWith 3) sampleChat ['v']
      (.ofNat 1) (.ofNat 9) none none = .page page := by
    have hmember : requireRelation memberService ['v'] .member (workspaceObject (.ofNat 1)) =
      .ok () := rfl
    have hwindow : chatPageWindow none none = .ok (20, 0) := rfl
    simp only [workspaceChatHistory, hmember, hwindow, howner, buildHistoryPageWithAcl, hread]
    exact ⟨_, rfl⟩
  obtain ⟨page, hpage⟩ := hreply
  exact ⟨page, history_page_exact hwf hchat hpage⟩

end History

end GmragApi.DocumentReads

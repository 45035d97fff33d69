import GmragApi.CitationSnippet
import GmragApi.ContentDisposition
import GmragApi.DocumentVisibility
import GmragApi.Query
import GmragApi.StreamCitations

/-! What members of a workspace read of its documents: the directory, the status, the preview and
the file of a document, one chunk, the sources of an answer, and the chunks for a prompt. -/

namespace GmragApi.DocumentReads

open Citation (CharTables selectCitationSnippet)
open Citations (CitationHydrationRow HydratedCitation ResolvedCitation hydrateCitations)
open DocumentAcl
open Download (HeaderValue dispositionHeader)
open Ingestion (DocumentStatus Stage)
open Upload (ApiError)

section Tables

structure DocumentRow where
  id : Uuid
  workspaceId : Uuid
  filename : List Char
  status : DocumentStatus
  processingStage : Stage
  failureCode : Option (List Char)
  failureMessage : Option (List Char)
  createdAt : Int
  sizeBytes : Option Int
  accessMode : DocumentAccessMode
  uploadedBy : List Char
  contentType : Option (List Char)
  objectKey : List Char
  deriving DecidableEq

structure ChunkRow where
  id : Uuid
  workspaceId : Uuid
  documentId : Uuid
  chunkIndex : Int
  originalText : List Char
  deriving DecidableEq

/-- A row of `ingestion_jobs`. -/
structure JobRow where
  workspaceId : Uuid
  documentId : Uuid
  updatedAt : Int
  deriving DecidableEq

structure UserRow where
  id : List Char
  email : List Char
  deriving DecidableEq

/-- What `get_original_document` answers for a key. -/
inductive ObjectReply
  | found (bytes : List UInt8)
  | objectNotFound
  | failed

/-- The tables, and the object storage by its keys. -/
structure Contents where
  documents : List DocumentRow
  chunks : List ChunkRow
  jobs : List JobRow
  users : List UserRow
  objects : List Char → ObjectReply

def ChunkRow.position (c : ChunkRow) : Uuid × Uuid × Int :=
  (c.workspaceId, c.documentId, c.chunkIndex)

/-- The primary keys, and the unique index on the positions of chunks. -/
structure Contents.WellFormed (db : Contents) : Prop where
  documentIds : (db.documents.map DocumentRow.id).Nodup
  chunkIds : (db.chunks.map ChunkRow.id).Nodup
  chunkPositions : (db.chunks.map ChunkRow.position).Nodup
  userIds : (db.users.map UserRow.id).Nodup

end Tables

section Replies

/-- `ApiError::from_status`. -/
def fromStatus (status : Nat) : ApiError :=
  match status with
  | 400 => ⟨status, "INVALID_REQUEST".toList, "The request is invalid".toList⟩
  | 401 => ⟨status, "UNAUTHORIZED".toList, "Authentication is required".toList⟩
  | 403 => ⟨status, "FORBIDDEN".toList, "Access denied".toList⟩
  | 404 => ⟨status, "RESOURCE_NOT_FOUND".toList, "Resource not found".toList⟩
  | 405 => ⟨status, "METHOD_NOT_ALLOWED".toList, "Method not allowed".toList⟩
  | 409 => ⟨status, "CONFLICT".toList, "The request conflicts with current state".toList⟩
  | 410 => ⟨status, "RESOURCE_GONE".toList, "Resource is no longer available".toList⟩
  | 413 => ⟨status, "PAYLOAD_TOO_LARGE".toList, "Request payload is too large".toList⟩
  | 415 => ⟨status, "UNSUPPORTED_MEDIA_TYPE".toList, "Unsupported media type".toList⟩
  | 422 => ⟨status, "UNPROCESSABLE_ENTITY".toList, "Request cannot be processed".toList⟩
  | 429 => ⟨status, "RATE_LIMITED".toList, "Too many requests. Please retry later.".toList⟩
  | 502 =>
    ⟨status, "GENERATION_SERVICE_UNAVAILABLE".toList, "Generation service unavailable".toList⟩
  | 503 => ⟨status, "SERVICE_UNAVAILABLE".toList, "Service unavailable".toList⟩
  | _ => ⟨status, "INTERNAL_ERROR".toList, "Internal server error".toList⟩

structure ChunkResponse where
  id : Uuid
  originalText : List Char

structure PreviewChunkItem where
  chunkIndex : Int
  text : List Char
  id : Uuid

structure PreviewDocumentMeta where
  id : Uuid
  filename : List Char
  contentType : Option (List Char)
  createdAt : Int
  sizeBytes : Option Int
  accessMode : DocumentAccessMode
  status : DocumentStatus

structure DocumentPreviewResponse where
  content : List Char
  chunks : List PreviewChunkItem
  document : PreviewDocumentMeta

structure DocumentDirectoryItem where
  id : Uuid
  filename : List Char
  status : DocumentStatus
  processingStage : Stage
  failureCode : Option (List Char)
  failureMessage : Option (List Char)
  createdAt : Int
  updatedAt : Int
  chunkCount : Nat
  sizeBytes : Option Int
  accessMode : DocumentAccessMode
  uploadedBy : List Char
  uploadedByEmail : Option (List Char)
  contentType : Option (List Char)

structure DocumentDirectoryPage where
  documents : List DocumentDirectoryItem
  total : Nat
  limit : Int
  offset : Int

structure DocumentStatusResponse where
  documentId : Uuid
  filename : List Char
  status : DocumentStatus
  processingStage : Stage
  failureCode : Option (List Char)
  failureMessage : Option (List Char)
  accessMode : DocumentAccessMode
  createdAt : Int
  updatedAt : Int
  chunkCount : Nat

def DocumentDirectoryItem.intoStatus (d : DocumentDirectoryItem) : DocumentStatusResponse :=
  ⟨d.id, d.filename, d.status, d.processingStage, d.failureCode, d.failureMessage, d.accessMode,
    d.createdAt, d.updatedAt, d.chunkCount⟩

inductive Body
  | chunk (chunk : ChunkResponse)
  | preview (preview : DocumentPreviewResponse)
  | status (document : DocumentStatusResponse)
  | directory (page : DocumentDirectoryPage) (canManageDocuments : Bool)
  | citations (citations : List ResolvedCitation)

inductive Reply
  | json (body : Body)
  | file (contentType disposition : List Char) (bytes : List UInt8)
  | status (code : Nat)
  | error (e : ApiError)

/-- `normalize_error_responses`: a status alone becomes an error with its code and message. -/
def normalizeErrorResponses : Reply → Reply
  | .status code => .error (fromStatus code)
  | reply => reply

end Replies

/-- What the requests rest on besides the contents. -/
structure Service where
  client : AuthzClient
  ilike : List Char → List Char → Bool
  tables : CharTables
  header : HeaderValue
  documentMaxUploadBytes : Nat

section Authorization

def workspaceObject (id : Uuid) : List Char := "workspace:".toList ++ id.display

def authzUnavailable : ApiError :=
  ⟨500, "AUTHZ_ERROR".toList, "Authorization service unavailable".toList⟩

/-- How `require_relation` refuses. -/
def relationDenied : Relation → ApiError
  | .admin => ⟨403, "WORKSPACE_ADMIN_REQUIRED".toList, "Workspace admin access required".toList⟩
  | .owner => ⟨403, "TENANT_OWNER_REQUIRED".toList, "Tenant owner access required".toList⟩
  | .canAssignRole =>
    ⟨403, "ROLE_ASSIGNMENT_DENIED".toList, "Only tenant owners can assign roles".toList⟩
  | .canManageMember =>
    ⟨403, "MEMBER_MANAGEMENT_DENIED".toList,
      "Workspace admin or tenant owner access required to manage members".toList⟩
  | _ => ⟨403, "FORBIDDEN".toList, "Access denied".toList⟩

def requireRelation (s : Service) (userId : List Char) (relation : Relation)
    (object : List Char) : Except ApiError Unit :=
  match s.client.checkFga (formatUser userId) relation object with
  | .ok true => .ok ()
  | .ok false => .error (relationDenied relation)
  | .error _ => .error authzUnavailable

/-- "Not there" and "not allowed" are one answer; an error of the service stays an error. -/
def hideDocumentExistence (e : ApiError) : ApiError :=
  if 500 ≤ e.status then e else fromStatus 404

def canView (s : Service) (userId : List Char) (d : DocumentRow) : Except DocumentAclError Bool :=
  canUserViewDocument uuidText s.client userId d.id d.accessMode

end Authorization

section Queries

/-- The row of a document, by its id and its workspace. -/
def fetchDocument (db : Contents) (workspaceId documentId : Uuid) : Option DocumentRow :=
  db.documents.find? fun d => d.id == documentId && d.workspaceId == workspaceId

/-- `d.id = dc.document_id AND d.workspace_id = dc.workspace_id`. -/
def isChunkOf (c : ChunkRow) (d : DocumentRow) : Bool :=
  d.id == c.documentId && d.workspaceId == c.workspaceId

def joinedChunks (db : Contents) : List (ChunkRow × DocumentRow) :=
  Query.join isChunkOf db.chunks db.documents

def fetchWorkspaceChunkWithAcl (db : Contents) (workspaceId chunkId : Uuid) :
    Option (ChunkRow × DocumentRow) :=
  (joinedChunks db).find? fun row => row.1.id == chunkId && row.1.workspaceId == workspaceId

def previewChunks (db : Contents) (workspaceId documentId : Uuid) : List PreviewChunkItem :=
  (Query.orderBy ChunkRow.chunkIndex (db.chunks.filter fun c =>
    c.workspaceId == workspaceId && c.documentId == documentId)).map fun c =>
      ⟨c.chunkIndex, c.originalText, c.id⟩

def chunkSeparator : List Char := ['\n', '\n']

def fetchDocumentPreview (db : Contents) (workspaceId documentId : Uuid)
    (document : PreviewDocumentMeta) : DocumentPreviewResponse :=
  let chunks := previewChunks db workspaceId documentId
  ⟨chunkSeparator.intercalate (chunks.map PreviewChunkItem.text), chunks, document⟩

/-- `COALESCE(MAX(ij.updated_at), d.created_at)`. -/
def updatedAt (db : Contents) (d : DocumentRow) : Int :=
  match ((db.jobs.filter fun j => j.documentId == d.id && j.workspaceId == d.workspaceId).map
      JobRow.updatedAt).max? with
  | some latest => latest
  | none => d.createdAt

def directoryItem (db : Contents) (d : DocumentRow) : DocumentDirectoryItem where
  id := d.id
  filename := d.filename
  status := d.status
  processingStage := d.processingStage
  failureCode := d.failureCode
  failureMessage := d.failureMessage
  createdAt := d.createdAt
  updatedAt := updatedAt db d
  chunkCount := db.chunks.countP fun c => c.documentId == d.id && c.workspaceId == d.workspaceId
  sizeBytes := d.sizeBytes
  accessMode := d.accessMode
  uploadedBy := d.uploadedBy
  uploadedByEmail := (db.users.find? fun u => u.id == d.uploadedBy).map UserRow.email
  contentType := d.contentType

/-- What the `WHERE` of the directory asks for. -/
structure DirectoryFilter where
  workspaceId : Uuid
  visibleRestrictedIds : Finset Uuid
  query : Option (List Char)
  status : Option DocumentStatus
  documentId : Option Uuid

def DirectoryFilter.selects (f : DirectoryFilter) (ilike : List Char → List Char → Bool)
    (d : DocumentRow) : Bool :=
  d.workspaceId == f.workspaceId &&
    (!d.accessMode.isRestricted || decide (d.id ∈ f.visibleRestrictedIds)) &&
    f.query.all (fun q => ilike q d.filename) && f.status.all (fun status => d.status == status) &&
    f.documentId.all (fun id => d.id == id)

/-- `ORDER BY d.created_at DESC, d.id DESC`. -/
def newestFirst (d : DocumentRow) : Lex (Intᵒᵈ × Natᵒᵈ) :=
  toLex (OrderDual.toDual d.createdAt, OrderDual.toDual d.id.bits.toNat)

def directoryRows (db : Contents) (ilike : List Char → List Char → Bool) (f : DirectoryFilter) :
    List DocumentRow :=
  Query.orderBy newestFirst (db.documents.filter (f.selects ilike))

def fetchDocuments (db : Contents) (ilike : List Char → List Char → Bool) (f : DirectoryFilter)
    (limit offset : Int) : List DocumentDirectoryItem :=
  (Query.page limit.toNat offset.toNat (directoryRows db ilike f)).map (directoryItem db)

/-- `list_documents` of the directory. -/
def listDocumentDirectory (db : Contents) (ilike : List Char → List Char → Bool)
    (f : DirectoryFilter) (limit offset : Int) : DocumentDirectoryPage :=
  ⟨fetchDocuments db ilike f limit offset, db.documents.countP (f.selects ilike), limit, offset⟩

/-- `get_document` of the directory: the document is let through by its own id. -/
def getDocumentDirectory (db : Contents) (ilike : List Char → List Char → Bool)
    (workspaceId documentId : Uuid) : Option DocumentDirectoryItem :=
  (fetchDocuments db ilike ⟨workspaceId, {documentId}, none, none, some documentId⟩ 1 0).getLast?

end Queries

section Requests

/-- A request about one document that is there: its visibility decides what follows. -/
def ifViewable (s : Service) (userId : List Char) (d : DocumentRow) (reply : Reply) : Reply :=
  match canView s userId d with
  | .ok true => reply
  | .ok false => .status 404
  | .error _ => .status 500

def getDocumentChunk (s : Service) (db : Contents) (userId : List Char)
    (workspaceId chunkId : Uuid) : Reply :=
  match requireRelation s userId .member (workspaceObject workspaceId) with
  | .error e => .error e
  | .ok () =>
    match fetchWorkspaceChunkWithAcl db workspaceId chunkId with
    | none => .status 404
    | some row => ifViewable s userId row.2 (.json (.chunk ⟨row.1.id, row.1.originalText⟩))

def documentNotReadyError : ApiError :=
  ⟨409, "DOCUMENT_NOT_READY".toList, "Document is not ready yet; status must be COMPLETED".toList⟩

def getDocumentPreview (s : Service) (db : Contents) (userId : List Char)
    (workspaceId documentId : Uuid) : Reply :=
  match requireRelation s userId .member (workspaceObject workspaceId) with
  | .error e => .error e
  | .ok () =>
    match fetchDocument db workspaceId documentId with
    | none => .status 404
    | some d =>
      ifViewable s userId d <|
        if d.status ≠ .completed then .error documentNotReadyError
        else .json (.preview (fetchDocumentPreview db workspaceId documentId
          ⟨documentId, d.filename, d.contentType, d.createdAt, d.sizeBytes, d.accessMode,
            d.status⟩))

def documentFileTooLarge : ApiError :=
  ⟨500, "DOCUMENT_FILE_TOO_LARGE".toList,
    "Original document exceeds the size limit for this endpoint".toList⟩

def documentObjectMissing : ApiError :=
  ⟨410, "DOCUMENT_OBJECT_MISSING".toList, "Original document object is missing".toList⟩

def octetStream : List Char := "application/octet-stream".toList

def contentTypeHeader (value : HeaderValue) (contentType : Option (List Char)) : List Char :=
  if value.fromStr (contentType.getD octetStream) then contentType.getD octetStream
  else octetStream

/-- The bytes of a completed document, unless its size is unknown or over the limit. -/
def serveFile (s : Service) (db : Contents) (d : DocumentRow) : Reply :=
  if d.sizeBytes.all fun size => decide ((s.documentMaxUploadBytes : Int) < size ∨ size < 0) then
    .error documentFileTooLarge
  else
    match db.objects d.objectKey with
    | .found bytes =>
      .file (contentTypeHeader s.header d.contentType) (dispositionHeader s.header d.filename) bytes
    | .objectNotFound => .error documentObjectMissing
    | .failed => .status 500

def getDocumentFile (s : Service) (db : Contents) (userId : List Char)
    (workspaceId documentId : Uuid) : Reply :=
  match requireRelation s userId .member (workspaceObject workspaceId) with
  | .error e => .error e
  | .ok () =>
    match fetchDocument db workspaceId documentId with
    | none => .status 404
    | some d =>
      ifViewable s userId d <|
        if d.status ≠ .completed then .error documentNotReadyError else serveFile s db d

/-- How an error of the document ACL is answered. -/
def aclErrorReply : DocumentAclError → Reply
  | .authz _ => .error authzUnavailable
  | _ => .status 500

def getDocumentStatus (s : Service) (db : Contents) (userId : List Char)
    (workspaceId documentId : Uuid) : Reply :=
  match requireRelation s userId .member (workspaceObject workspaceId) with
  | .error e => .error (hideDocumentExistence e)
  | .ok () =>
    match getDocumentDirectory db s.ilike workspaceId documentId with
    | none => .status 404
    | some document =>
      match canUserViewDocument uuidText s.client userId documentId document.accessMode with
      | .ok true => .json (.status document.intoStatus)
      | .ok false => .status 404
      | .error e => aclErrorReply e

structure ListDocumentsQuery where
  limit : Option Int
  offset : Option Int
  q : Option (List Char)
  status : Option (List Char)

def invalidPage : ApiError :=
  ⟨400, "INVALID_REQUEST".toList,
    "limit must be between 0 and 100 and offset must be non-negative".toList⟩

def invalidStatus : ApiError :=
  ⟨400, "INVALID_REQUEST".toList, "status must be PROCESSING, COMPLETED, or FAILED".toList⟩

def parseStatus (raw : List Char) : Option DocumentStatus :=
  if raw = "PROCESSING".toList then some .processing
  else if raw = "COMPLETED".toList then some .completed
  else if raw = "FAILED".toList then some .failed
  else none

/-- The status that the directory is asked for, if the text names one. -/
def readStatus : Option (List Char) → Except ApiError (Option DocumentStatus)
  | none => .ok none
  | some raw =>
    match parseStatus raw with
    | some status => .ok (some status)
    | none => .error invalidStatus

def readQuery (q : Option (List Char)) : Option (List Char) :=
  (q.map trim).filter fun q => !q.isEmpty

def listDocuments (s : Service) (db : Contents) (userId : List Char) (workspaceId : Uuid)
    (params : ListDocumentsQuery) : Reply :=
  match requireRelation s userId .member (workspaceObject workspaceId) with
  | .error e => .error e
  | .ok () =>
    let limit := params.limit.getD 20
    let offset := params.offset.getD 0
    if ¬(0 ≤ limit ∧ limit ≤ 100) ∨ offset < 0 then .error invalidPage
    else
      match readStatus params.status with
      | .error e => .error e
      | .ok status =>
        match s.client.checkFga (formatUser userId) .admin (workspaceObject workspaceId) with
        | .error _ => .error authzUnavailable
        | .ok canManageDocuments =>
          match collectViewableRestrictedDocumentIds uuidText s.client userId with
          | .error e => aclErrorReply e
          | .ok visible =>
            .json (.directory (listDocumentDirectory db s.ilike
              ⟨workspaceId, visible, readQuery params.q, status, none⟩ limit offset)
              canManageDocuments)

end Requests

section Sources

def chunkOfCitation (db : Contents) (workspaceId citation : Uuid) :
    Option (ChunkRow × DocumentRow) :=
  ((joinedChunks db).filter fun row => row.1.workspaceId == workspaceId).find? fun row =>
    row.1.id == citation

/-- The ids whose chunk the user may see, in the order in which they are asked for. -/
def filterCitationIdsForUser (s : Service) (db : Contents) (workspaceId : Uuid)
    (userId : List Char) : List Uuid → Except DocumentAclError (List Uuid)
  | [] => .ok []
  | citation :: rest =>
    match chunkOfCitation db workspaceId citation with
    | none => filterCitationIdsForUser s db workspaceId userId rest
    | some row =>
      match canView s userId row.2 with
      | .error e => .error e
      | .ok true => (filterCitationIdsForUser s db workspaceId userId rest).map (citation :: ·)
      | .ok false => filterCitationIdsForUser s db workspaceId userId rest

def hydrationRow (row : ChunkRow × DocumentRow) : CitationHydrationRow :=
  ⟨row.1.id, row.1.documentId, row.2.filename, row.1.originalText, row.1.chunkIndex⟩

def hydrationRows (db : Contents) (workspaceId : Uuid) (allowedIds : List Uuid) :
    List CitationHydrationRow :=
  ((joinedChunks db).filter fun row =>
    row.1.workspaceId == workspaceId && decide (row.1.id ∈ allowedIds)).map hydrationRow

/-- The selection ends for every text. -/
def snippetFor (tables : CharTables) (query : Option (List Char)) (text : List Char) : List Char :=
  (selectCitationSnippet tables text query).getD []

def hydrate (s : Service) (db : Contents) (workspaceId : Uuid) (allowedIds : List Uuid)
    (query : Option (List Char)) : List HydratedCitation :=
  hydrateCitations (hydrationRows db workspaceId allowedIds) allowedIds (snippetFor s.tables query)

def maxCitationIds : Nat := 64

def malformedCitations : ApiError :=
  ⟨400, "INVALID_REQUEST".toList, "Malformed citation resolve request".toList⟩

def tooManyCitations : ApiError :=
  ⟨400, "INVALID_REQUEST".toList, "chunk_ids must contain at most 64 items".toList⟩

/-- `payload` is nothing when the body is no request. -/
def parseCitationIds (payload : Option (List Uuid)) : Except ApiError (List Uuid) :=
  match payload with
  | none => .error malformedCitations
  | some chunkIds =>
    if maxCitationIds < chunkIds.length then .error tooManyCitations
    else .ok (chunkIds.foldl Citations.insertNew [])

def resolveWorkspaceCitations (s : Service) (db : Contents) (userId : List Char)
    (workspaceId : Uuid) (payload : Option (List Uuid)) : Reply :=
  match requireRelation s userId .member (workspaceObject workspaceId) with
  | .error e => .error (if 500 ≤ e.status then fromStatus 500 else e)
  | .ok () =>
    match parseCitationIds payload with
    | .error e => .error e
    | .ok chunkIds =>
      match filterCitationIdsForUser s db workspaceId userId chunkIds with
      | .error _ => .error (fromStatus 500)
      | .ok allowedIds =>
        .json (.citations ((hydrate s db workspaceId allowedIds none).map
          HydratedCitation.intoResolved))

end Sources

section Retrieval

structure RetrievedChunk where
  id : Uuid
  documentId : Uuid
  accessMode : DocumentAccessMode
  originalText : List Char
  documentFilename : List Char
  deriving DecidableEq

def retrievedChunk (row : ChunkRow × DocumentRow) : RetrievedChunk :=
  ⟨row.1.id, row.1.documentId, row.2.accessMode, row.1.originalText, row.2.filename⟩

def isRetrievable (d : DocumentRow) : Bool := d.status == .completed && d.processingStage == .done

/-- `ORDER BY array_position($2, dc.id)`. -/
def fetchChunksByIds (db : Contents) (workspaceId : Uuid) (chunkIds : List Uuid) :
    List (ChunkRow × DocumentRow) :=
  Query.orderBy (fun row => chunkIds.idxOf row.1.id) ((joinedChunks db).filter fun row =>
    row.1.workspaceId == workspaceId && decide (row.1.id ∈ chunkIds) && isRetrievable row.2)

def recheckRetrievedChunks (s : Service) (userId : List Char) :
    List (ChunkRow × DocumentRow) → Except DocumentAclError (List RetrievedChunk)
  | [] => .ok []
  | row :: rest =>
    match canView s userId row.2 with
    | .error e => .error e
    | .ok true => (recheckRetrievedChunks s userId rest).map (retrievedChunk row :: ·)
    | .ok false => recheckRetrievedChunks s userId rest

def fetchCompletedWorkspaceDocumentAclRows (db : Contents) (workspaceId : Uuid) :
    List DocumentAclRow :=
  (db.documents.filter fun d => d.workspaceId == workspaceId && isRetrievable d).map fun d =>
    ⟨d.id, d.accessMode⟩

/-- The documents that the searches of a chat request are limited to. -/
def searchedDocumentIds (s : Service) (db : Contents) (workspaceId : Uuid) (userId : List Char) :
    Except DocumentAclError (Finset Uuid) :=
  collectViewableDocumentIds uuidText s.client userId
    (fetchCompletedWorkspaceDocumentAclRows db workspaceId)

/-- The chunks of the prompt: those that the vector index ranked, as the tables have them, if the
user may see their documents. -/
def promptChunks (s : Service) (db : Contents) (workspaceId : Uuid) (userId : List Char)
    (retrievedChunkIds : List Uuid) : Except DocumentAclError (List RetrievedChunk) :=
  recheckRetrievedChunks s userId (fetchChunksByIds db workspaceId retrievedChunkIds)

end Retrieval

inductive Request
  | chunk (workspaceId chunkId : Uuid)
  | preview (workspaceId documentId : Uuid)
  | file (workspaceId documentId : Uuid)
  | status (workspaceId documentId : Uuid)
  | list (workspaceId : Uuid) (params : ListDocumentsQuery)
  | citations (workspaceId : Uuid) (payload : Option (List Uuid))

/-- What the client of a request sees. -/
def respond (s : Service) (db : Contents) (userId : List Char) (request : Request) : Reply :=
  normalizeErrorResponses <|
    match request with
    | .chunk workspaceId chunkId => getDocumentChunk s db userId workspaceId chunkId
    | .preview workspaceId documentId => getDocumentPreview s db userId workspaceId documentId
    | .file workspaceId documentId => getDocumentFile s db userId workspaceId documentId
    | .status workspaceId documentId => getDocumentStatus s db userId workspaceId documentId
    | .list workspaceId params => listDocuments s db userId workspaceId params
    | .citations workspaceId payload => resolveWorkspaceCitations s db userId workspaceId payload

end GmragApi.DocumentReads

import GmragApi.DocumentUpload
import GmragApi.PointLifetimes
import GmragApi.ProcessPool
import GmragApi.Transition
import GmragApi.TupleLifetimes

/-! The upload of one file is a turn of the loop here, and a process in the models that follow the
objects, the tuples and the points of documents. With the answers of the same calls, each of these
processes leaves what the turn leaves. -/

namespace GmragApi.Upload

open Transition

section Rows

variable (stores : Stores) (documentId workspaceId : Uuid) (done : Bool)

/-- A deletion without a row to delete is one that deletes nothing. -/
theorem deleteDocument_documents :
    (stores.deleteDocument documentId workspaceId true).documents = stores.documents.filter
      fun row => !(row.id == documentId && row.workspaceId == workspaceId) := by
  unfold Stores.deleteDocument
  rw [if_pos rfl]
  split
  next => rfl
  next hnone =>
    refine (List.filter_eq_self.mpr fun row hrow => ?_).symm
    rw [Bool.not_eq_true']
    exact Bool.eq_false_iff.mpr fun hown => hnone (List.any_eq_true.mpr ⟨row, hrow, hown⟩)

theorem deleteDocument_rest :
    (stores.deleteDocument documentId workspaceId done).objects = stores.objects ∧
      (stores.deleteDocument documentId workspaceId done).tuples = stores.tuples := by
  unfold Stores.deleteDocument
  split
  · split <;> exact ⟨rfl, rfl⟩
  · exact ⟨rfl, rfl⟩

@[simp] theorem documents_put (object : StoredObject) :
    (stores.putOriginalDocument object done).documents = stores.documents := by
  cases done <;> rfl

@[simp] theorem documents_deleteObject (ref : StoredObjects.ObjectRef) :
    (stores.deleteObject ref done).documents = stores.documents := by
  cases done <;> rfl

@[simp] theorem documents_relate (t : TupleKey) :
    (stores.ensureDocumentWorkspaceRelation t done).documents = stores.documents := by
  cases done <;> rfl

@[simp] theorem documents_audit (event : AuditEvent) :
    (stores.insertAuditEvent event done).documents = stores.documents := by
  cases done <;> rfl

end Rows

section Objects

variable {ctx : UploadContext} {c : FileCalls} {file : PendingUploadFile} {stores : Stores}
  {s u : StoredObjects.State} {i : Nat} {p q : StoredObjects.Proc} {r : StoredObjects.Reply}
  {replies : List StoredObjects.Reply}

def CallReply.reply {α : Type} : CallReply α → StoredObjects.Reply
  | ok _ => .ok
  | failed => .failed
  | lost => .lost

/-- The answer to the transaction, whichever of its statements fails. -/
def FileCalls.persistReply (c : FileCalls) : StoredObjects.Reply :=
  if c.beginTransaction && c.insertDocument && c.enqueueJob then c.commit.reply else .failed

def FileCalls.linkReplies (c : FileCalls) : List StoredObjects.Reply :=
  if c.writeTuple.isOk then [.ok] else [c.writeTuple.reply, c.deleteDocument.reply, .ok]

def FileCalls.persistReplies (c : FileCalls) : List StoredObjects.Reply :=
  if c.persistReply = .ok then .ok :: c.linkReplies else [c.persistReply, .ok]

/-- The answers that the process of an upload gets, while its compensating delete succeeds. -/
def FileCalls.objectReplies (c : FileCalls) : List StoredObjects.Reply :=
  if c.putObject.isOk then .ok :: c.persistReplies else [c.putObject.reply]

def DocumentRow.stored (row : DocumentRow) : StoredObjects.Document :=
  ⟨row.id, row.workspaceId, row.bucket, row.objectKey⟩

def uploadOf (ctx : UploadContext) (documentId : Uuid) : StoredObjects.Document :=
  ⟨documentId, ctx.workspaceId, ctx.service.bucket, objectKeyOf ctx documentId⟩

/-- The names of the objects, and the columns of the rows that name them. -/
structure ObjectsAgree (stores : Stores) (s : StoredObjects.State) : Prop where
  objects : ∀ ref, ref ∈ s.objects ↔ ∃ o ∈ stores.objects, o.ref = ref
  documents : s.documents = stores.documents.map DocumentRow.stored

theorem ObjectsAgree.put (ctx : UploadContext) (c : FileCalls) (file : PendingUploadFile)
    (h : ObjectsAgree stores s) :
    ObjectsAgree (stores.putOriginalDocument (objectOf ctx c file) true)
      (s.put (uploadOf ctx c.documentId).ref) := by
  refine ⟨fun ref => ?_, h.documents⟩
  have hown : (objectOf ctx c file).ref = (uploadOf ctx c.documentId).ref := rfl
  simp only [StoredObjects.State.put, Stores.putOriginalDocument, if_pos, Finset.mem_insert,
    h.objects, List.mem_append, List.mem_filter, List.mem_singleton, decide_eq_true_eq]
  constructor
  · rintro (rfl | ⟨o, ho, rfl⟩)
    · exact ⟨_, .inr rfl, hown⟩
    · by_cases heq : o.ref = (objectOf ctx c file).ref
      · exact ⟨_, .inr rfl, heq.symm⟩
      · exact ⟨o, .inl ⟨ho, heq⟩, rfl⟩
  · rintro ⟨o, ⟨ho, -⟩ | rfl, rfl⟩
    · exact .inr ⟨o, ho, rfl⟩
    · exact .inl hown

theorem ObjectsAgree.deleteObject (ctx : UploadContext) (h : ObjectsAgree stores s)
    (documentId : Uuid) :
    ObjectsAgree (stores.deleteObject (refOf ctx documentId) true)
      (s.deleteObject (uploadOf ctx documentId).ref) := by
  refine ⟨fun ref => ?_, h.documents⟩
  have hown : (uploadOf ctx documentId).ref = refOf ctx documentId := rfl
  simp only [StoredObjects.State.deleteObject, Stores.deleteObject, if_pos, Finset.mem_erase,
    h.objects, List.mem_filter, decide_eq_true_eq, hown]
  constructor
  · rintro ⟨hne, o, ho, rfl⟩
    exact ⟨o, ⟨ho, hne⟩, rfl⟩
  · rintro ⟨o, ⟨ho, hne⟩, rfl⟩
    exact ⟨hne, o, ho, rfl⟩

theorem ObjectsAgree.commit (ctx : UploadContext) (c : FileCalls) (file : PendingUploadFile)
    (h : ObjectsAgree stores s) (etag : Option (List Char)) :
    ObjectsAgree ((stores.insertDocument (rowOf ctx c file etag)).enqueueJobTx (jobOf ctx c))
      { s with documents := s.documents ++ [uploadOf ctx c.documentId] } := by
  refine ⟨h.objects, ?_⟩
  dsimp only [Stores.insertDocument, Stores.enqueueJobTx]
  rw [h.documents, List.map_append]
  rfl

theorem ObjectsAgree.removeRows (h : ObjectsAgree stores s) (documentId workspaceId : Uuid) :
    ObjectsAgree (stores.deleteDocument documentId workspaceId true)
      (s.removeRows (StoredObjects.isDocument workspaceId documentId)) := by
  have hrows : s.documents.filter (fun d => !StoredObjects.isDocument workspaceId documentId d) =
      (stores.documents.filter fun row =>
        !(row.id == documentId && row.workspaceId == workspaceId)).map DocumentRow.stored := by
    rw [h.documents, List.filter_map]
    rfl
  refine ⟨?_, hrows.trans ?_⟩
  · rw [(deleteDocument_rest stores documentId workspaceId true).1]
    exact h.objects
  · rw [deleteDocument_documents]

/-- What the process does from here leaves these stores. -/
def ObjectsEnd (i : Nat) (stores : Stores) (s : StoredObjects.State)
    (replies : List StoredObjects.Reply) : Prop :=
  Ends StoredObjects.step (fun t => t.procs[i]? = some .done ∧ ObjectsAgree stores t) s
    (replies.map (.advance i))

theorem ObjectsEnd.nil (hp : s.procs[i]? = some p) (h : ObjectsAgree stores s) :
    ObjectsEnd i stores (s.goto i .done) [] :=
  Ends.nil ⟨ProcessPool.getElem?_set_own _ hp, h.objects, h.documents⟩

theorem ObjectsEnd.cons (hp : s.procs[i]? = some p)
    (ha : StoredObjects.advance s i p r = some u) (h : ObjectsEnd i stores u replies) :
    ObjectsEnd i stores s (r :: replies) :=
  Ends.cons (by simp only [StoredObjects.step, hp, Option.bind_some, ha]) h

theorem objects_compensating (ctx : UploadContext) (h : ObjectsAgree stores s)
    (hp : s.procs[i]? = some p) (documentId : Uuid) :
    ObjectsEnd i (stores.deleteObject (refOf ctx documentId) true)
      (s.goto i (.compensating (uploadOf ctx documentId))) [.ok] := by
  have hown := ProcessPool.getElem?_set_own
    (StoredObjects.Proc.compensating (uploadOf ctx documentId)) hp
  refine .cons hown rfl (.nil hown ?_)
  have hgone := h.deleteObject ctx documentId
  exact ⟨hgone.objects, hgone.documents⟩

theorem objects_removingRow (ctx : UploadContext) (h : ObjectsAgree stores s)
    (hp : s.procs[i]? = some p) (documentId : Uuid) (reply : CallReply Unit) :
    ObjectsEnd i ((stores.deleteDocument documentId ctx.workspaceId reply.applied).deleteObject
        (refOf ctx documentId) true)
      (s.goto i (.removingRow (uploadOf ctx documentId))) [reply.reply, .ok] := by
  have hown := ProcessPool.getElem?_set_own
    (StoredObjects.Proc.removingRow (uploadOf ctx documentId)) hp
  have hrows := h.removeRows documentId ctx.workspaceId
  have hagree : ObjectsAgree (stores.deleteDocument documentId ctx.workspaceId true)
      ((s.goto i (.removingRow (uploadOf ctx documentId))).removeRows
        (StoredObjects.isDocument ctx.workspaceId documentId)) := ⟨hrows.objects, hrows.documents⟩
  cases reply with
  | ok _ => exact .cons hown rfl (objects_compensating ctx hagree hown documentId)
  | lost => exact .cons hown rfl (objects_compensating ctx hagree hown documentId)
  | failed =>
    have hsame : ObjectsAgree (stores.deleteDocument documentId ctx.workspaceId false)
        (s.goto i (.removingRow (uploadOf ctx documentId))) := ⟨h.objects, h.documents⟩
    exact .cons hown rfl (objects_compensating ctx hsame hown documentId)

/-- Neither the tuple nor the audit event is seen here. -/
theorem objects_syncing (ctx : UploadContext) (c : FileCalls) (event : AuditEvent)
    (h : ObjectsAgree stores s) (hp : s.procs[i]? = some p) :
    let related :=
      stores.ensureDocumentWorkspaceRelation (tupleOf ctx c.documentId) c.writeTuple.applied
    ObjectsEnd i
      (if c.writeTuple.isOk then related.insertAuditEvent event c.auditEvent.applied
        else (related.deleteDocument c.documentId ctx.workspaceId
          c.deleteDocument.applied).deleteObject (refOf ctx c.documentId) true)
      (s.goto i (.syncing (uploadOf ctx c.documentId))) c.linkReplies := by
  have hown := ProcessPool.getElem?_set_own
    (StoredObjects.Proc.syncing (uploadOf ctx c.documentId)) hp
  have hrelated (done : Bool) :
      ObjectsAgree (stores.ensureDocumentWorkspaceRelation (tupleOf ctx c.documentId) done)
        (s.goto i (.syncing (uploadOf ctx c.documentId))) := by
    cases done <;> exact ⟨h.objects, h.documents⟩
  have hremove (done : Bool) :=
    objects_removingRow ctx (hrelated done) hown c.documentId c.deleteDocument
  unfold FileCalls.linkReplies
  cases c.writeTuple with
  | ok _ =>
    have haudited : ObjectsAgree ((stores.ensureDocumentWorkspaceRelation
        (tupleOf ctx c.documentId) true).insertAuditEvent event c.auditEvent.applied)
        (s.goto i (.syncing (uploadOf ctx c.documentId))) := by
      cases c.auditEvent.applied <;> exact ⟨(hrelated true).objects, (hrelated true).documents⟩
    exact .cons hown rfl (.nil hown haudited)
  | failed => exact .cons hown rfl (hremove false)
  | lost => exact .cons hown rfl (hremove true)

/-- The transaction of an upload, and what comes after it. -/
theorem objects_persisting (file : PendingUploadFile) (etag : Option (List Char))
    (h : ObjectsAgree (stores.putOriginalDocument (objectOf ctx c file) true) s)
    (hp : s.procs[i]? = some (.persisting (uploadOf ctx c.documentId)))
    (hworkspace : (s.workspaces ctx.workspaceId).isSome = true)
    (hput : c.putObject = .ok etag) (hcompensates : c.deleteObject.applied = true) :
    ObjectsEnd i (persistFile ctx c file stores).1 s c.persistReplies := by
  have hstop := objects_compensating ctx h hp c.documentId
  have hfailed := ObjectsEnd.cons (r := .failed) hp rfl hstop
  unfold FileCalls.persistReplies FileCalls.persistReply
  cases hstatements : c.beginTransaction && c.insertDocument && c.enqueueJob with
  | false =>
    rw [persistFile_of_statement_failed file stores hput hstatements, hcompensates]
    exact hfailed
  | true =>
    have hcommitted := h.commit ctx c file etag
    have hpersist (next : StoredObjects.Proc) :
        StoredObjects.persistUpload s i (uploadOf ctx c.documentId) next =
          some (StoredObjects.State.goto
            { s with documents := s.documents ++ [uploadOf ctx c.documentId] } i next) :=
      if_pos hworkspace
    cases hcommit : c.commit with
    | failed =>
      rw [persistFile_of_commit_failed file stores hput hstatements (by rw [hcommit]; rfl),
        commitUpload, hcommit, hcompensates]
      exact hfailed
    | lost =>
      rw [persistFile_of_commit_failed file stores hput hstatements (by rw [hcommit]; rfl),
        commitUpload, hcommit, hcompensates]
      exact .cons hp (hpersist _) (objects_compensating ctx hcommitted hp c.documentId)
    | ok _ =>
      refine ObjectsEnd.cons hp (hpersist _) (?_ : ObjectsEnd i _ _ c.linkReplies)
      have hend := objects_syncing ctx c (auditEventOf ctx c file) hcommitted hp
      cases hwrite : c.writeTuple.isOk with
      | true =>
        obtain ⟨_, hwritten⟩ := CallReply.isOk_iff.mp hwrite
        rw [persistFile_of_written file stores hput hstatements hcommit hwritten]
        rw [hwritten] at hend
        exact hend
      | false =>
        rw [persistFile_of_write_failed file stores hput hstatements hcommit hwrite, hcompensates]
        rw [hwrite] at hend
        exact hend

/-- The process of an upload leaves the objects and the rows that the turn of the loop leaves. -/
theorem persistFile_objects (file : PendingUploadFile) (h : ObjectsAgree stores s)
    (hp : s.procs[i]? = some (.putting (uploadOf ctx c.documentId)))
    (hworkspace : (s.workspaces ctx.workspaceId).isSome = true)
    (hcompensates : c.deleteObject.applied = true) :
    ObjectsEnd i (persistFile ctx c file stores).1 s c.objectReplies := by
  have hstored := h.put ctx c file
  cases hput : c.putObject with
  | failed =>
    rw [persistFile_of_put_failed file stores (by rw [hput]; rfl), FileCalls.objectReplies, hput]
    exact .cons hp rfl (.nil hp ⟨h.objects, h.documents⟩)
  | lost =>
    rw [persistFile_of_put_failed file stores (by rw [hput]; rfl), FileCalls.objectReplies, hput]
    exact .cons hp rfl (.nil hp ⟨hstored.objects, hstored.documents⟩)
  | ok etag =>
    have hreplies : c.objectReplies = .ok :: c.persistReplies := by
      rw [FileCalls.objectReplies, hput]
      rfl
    rw [hreplies]
    have hagree : ObjectsAgree (stores.putOriginalDocument (objectOf ctx c file) true)
        ((s.put (uploadOf ctx c.documentId).ref).goto i (.persisting (uploadOf ctx c.documentId))) :=
      ⟨hstored.objects, hstored.documents⟩
    exact .cons hp rfl (objects_persisting file etag hagree (ProcessPool.getElem?_set_own _ hp)
      hworkspace hput hcompensates)

end Objects

section Tuples

variable {ctx : UploadContext} {c : FileCalls} {file : PendingUploadFile} {stores : Stores}
  {s : ResourceTuples.State} {i : Nat} {p : ResourceTuples.Proc}

/-- The tuples, and which rows there are in which workspace. -/
structure TuplesAgree (stores : Stores) (s : ResourceTuples.State) : Prop where
  tuples : s.tuples = stores.tuples
  documents : ∀ d, d ∈ s.documents ↔ ∃ row ∈ stores.documents, row.id.bits.toNat = d
  homes : ∀ row ∈ stores.documents,
    (s.document row.id.bits.toNat).workspace = row.workspaceId.bits.toNat

theorem TuplesAgree.put (h : TuplesAgree stores s) (object : StoredObject) (done : Bool) :
    TuplesAgree (stores.putOriginalDocument object done) s := by
  cases done <;> exact ⟨h.tuples, h.documents, h.homes⟩

theorem TuplesAgree.deleteObject (h : TuplesAgree stores s) (ref : StoredObjects.ObjectRef)
    (done : Bool) : TuplesAgree (stores.deleteObject ref done) s := by
  cases done <;> exact ⟨h.tuples, h.documents, h.homes⟩

theorem TuplesAgree.commit (ctx : UploadContext) (c : FileCalls) (file : PendingUploadFile)
    (h : TuplesAgree stores s) (etag : Option (List Char))
    (hnew : c.documentId.bits.toNat ∉ s.documents) :
    TuplesAgree ((stores.insertDocument (rowOf ctx c file etag)).enqueueJobTx (jobOf ctx c))
      { s with
        documents := insert c.documentId.bits.toNat s.documents
        document := Function.update s.document c.documentId.bits.toNat
          ⟨ctx.workspaceId.bits.toNat, ctx.accessMode⟩ } := by
  have hother : ∀ row ∈ stores.documents, row.id.bits.toNat ≠ c.documentId.bits.toNat :=
    fun row hrow heq => hnew ((h.documents _).mpr ⟨row, hrow, heq⟩)
  refine ⟨h.tuples, fun d => ?_, fun row hrow => ?_⟩
  · simp only [Stores.insertDocument, Stores.enqueueJobTx, Finset.mem_insert, h.documents,
      List.mem_append, List.mem_singleton]
    constructor
    · rintro (rfl | ⟨row, hrow, rfl⟩)
      · exact ⟨_, .inr rfl, rfl⟩
      · exact ⟨row, .inl hrow, rfl⟩
    · rintro ⟨row, hrow | rfl, rfl⟩
      · exact .inr ⟨row, hrow, rfl⟩
      · exact .inl rfl
  · rcases List.mem_append.mp hrow with hrow | hrow
    · dsimp only
      rw [Function.update_of_ne (hother row hrow)]
      exact h.homes row hrow
    · rw [List.mem_singleton.mp hrow]
      dsimp only [rowOf]
      rw [Function.update_self]

/-- A deletion names the same row on both sides. -/
theorem TuplesAgree.names_iff (h : TuplesAgree stores s) {row : DocumentRow}
    (hrow : row ∈ stores.documents) (documentId workspaceId : Uuid) :
    (FgaObject.document row.id.bits.toNat ∈
        s.objectsOf (.document workspaceId.bits.toNat documentId.bits.toNat)) ↔
      row.id = documentId ∧ row.workspaceId = workspaceId := by
  rw [ResourceTuples.mem_objectsOf_document, ResourceTuples.mem_documentsOf,
    FgaObject.document.injEq, Uuid.toNat_inj]
  constructor
  · rintro ⟨⟨-, hhome⟩, rfl⟩
    exact ⟨rfl, Uuid.toNat_inj.mp ((h.homes row hrow).symm.trans hhome)⟩
  · rintro ⟨rfl, rfl⟩
    exact ⟨⟨(h.documents _).mpr ⟨row, hrow, rfl⟩, h.homes row hrow⟩, rfl⟩

theorem TuplesAgree.drop (h : TuplesAgree stores s) (documentId workspaceId : Uuid) :
    TuplesAgree (stores.deleteDocument documentId workspaceId true)
      (s.drop (.document workspaceId.bits.toNat documentId.bits.toNat)) := by
  refine ⟨?_, fun d => ?_, fun row hrow => ?_⟩
  · rw [(deleteDocument_rest stores documentId workspaceId true).2]
    exact h.tuples
  · rw [deleteDocument_documents]
    simp only [ResourceTuples.State.drop, Finset.mem_filter, h.documents, List.mem_filter,
      Bool.not_eq_true', Bool.and_eq_false_iff, beq_eq_false_iff_ne]
    constructor
    · rintro ⟨⟨row, hrow, rfl⟩, hkept⟩
      rw [h.names_iff hrow, not_and_or] at hkept
      exact ⟨row, ⟨hrow, hkept⟩, rfl⟩
    · rintro ⟨row, ⟨hrow, hkept⟩, rfl⟩
      rw [h.names_iff hrow, not_and_or]
      exact ⟨⟨row, hrow, rfl⟩, hkept⟩
  · rw [deleteDocument_documents] at hrow
    exact h.homes row (List.mem_of_mem_filter hrow)

/-- The statements before the commit succeed. -/
def FileCalls.reachesCommit (c : FileCalls) : Bool :=
  c.putObject.isOk && (c.beginTransaction && c.insertDocument && c.enqueueJob)

def FileCalls.linkActs (c : FileCalls) (i : Nat) : List ResourceTuples.Act :=
  match c.writeTuple with
  | .ok _ => [.advance i (.called .done)]
  | .failed => [.advance i (.called (.failed .http)), .advance i (.sql c.deleteDocument.applied)]
  | .lost => [.advance i .lost, .advance i (.sql c.deleteDocument.applied)]

/-- The answers that the process of an upload gets; one whose commit is reported as failed makes
no further step. -/
def FileCalls.tupleActs (c : FileCalls) (i : Nat) : List ResourceTuples.Act :=
  if c.reachesCommit then
    match c.commit with
    | .ok _ => .advance i (.sql true) :: c.linkActs i
    | .failed => [.advance i (.sql false)]
    | .lost => [.advance i (.sql true), .abort i]
  else [.advance i (.sql false)]

variable {maxRetries : Int} {answer : ResourceTuples.Answer} {u : ResourceTuples.State}
  {acts : List ResourceTuples.Act}

def TuplesEnd (maxRetries : Int) (i : Nat) (stores : Stores) (s : ResourceTuples.State)
    (acts : List ResourceTuples.Act) : Prop :=
  Ends (ResourceTuples.step maxRetries)
    (fun t => t.procs[i]? = some .done ∧ TuplesAgree stores t) s acts

theorem TuplesEnd.nil (hp : s.procs[i]? = some p) (h : TuplesAgree stores s) :
    TuplesEnd maxRetries i stores (s.goto i .done) [] :=
  Ends.nil ⟨ProcessPool.getElem?_set_own _ hp, h.tuples, h.documents, h.homes⟩

theorem TuplesEnd.cons (hp : s.procs[i]? = some p)
    (ha : ResourceTuples.advance s i p answer = some u)
    (h : TuplesEnd maxRetries i stores u acts) :
    TuplesEnd maxRetries i stores s (.advance i answer :: acts) :=
  Ends.cons (by simp only [ResourceTuples.step, hp, ha]) h

theorem TuplesAgree.relate (h : TuplesAgree stores s) (t : TupleKey) :
    TuplesAgree (stores.ensureDocumentWorkspaceRelation t true)
      { s with tuples := insert t s.tuples } :=
  ⟨congrArg (insert t) h.tuples, h.documents, h.homes⟩

theorem tuples_removingRow (h : TuplesAgree stores s)
    (hp : s.procs[i]? =
      some (.removingRow ctx.workspaceId.bits.toNat c.documentId.bits.toNat))
    (hlock : s.documentLocks c.documentId.bits.toNat = none) :
    TuplesEnd maxRetries i ((stores.deleteDocument c.documentId ctx.workspaceId
        c.deleteDocument.applied).deleteObject (refOf ctx c.documentId) c.deleteObject.applied) s
      [.advance i (.sql c.deleteDocument.applied)] := by
  cases c.deleteDocument.applied with
  | true =>
    have hdropped := h.drop c.documentId ctx.workspaceId
    exact .cons hp (if_pos hlock) (.nil hp (hdropped.deleteObject _ _))
  | false =>
    have hkept : TuplesAgree (stores.deleteDocument c.documentId ctx.workspaceId false) s := h
    exact .cons hp rfl (.nil hp (hkept.deleteObject _ _))

/-- The write of the tuple, behind the commit. -/
theorem tuples_linking (maxRetries : Int) (event : AuditEvent) (h : TuplesAgree stores s)
    (hp : s.procs[i]? =
      some (.linkingDocument ctx.workspaceId.bits.toNat c.documentId.bits.toNat))
    (hlock : s.documentLocks c.documentId.bits.toNat = none)
    (hnone : tupleOf ctx c.documentId ∉ s.tuples) :
    let related :=
      stores.ensureDocumentWorkspaceRelation (tupleOf ctx c.documentId) c.writeTuple.applied
    TuplesEnd maxRetries i
      (if c.writeTuple.isOk then related.insertAuditEvent event c.auditEvent.applied
        else (related.deleteDocument c.documentId ctx.workspaceId
          c.deleteDocument.applied).deleteObject (refOf ctx c.documentId) c.deleteObject.applied)
      s (c.linkActs i) := by
  have hrelated := h.relate (tupleOf ctx c.documentId)
  unfold FileCalls.linkActs
  cases c.writeTuple with
  | ok _ =>
    have haudited : TuplesAgree ((stores.ensureDocumentWorkspaceRelation
        (tupleOf ctx c.documentId) true).insertAuditEvent event c.auditEvent.applied)
        { s with tuples := insert (tupleOf ctx c.documentId) s.tuples } := by
      cases c.auditEvent.applied <;> exact ⟨hrelated.tuples, hrelated.documents, hrelated.homes⟩
    have hwritten : Fga.write s.tuples (tupleOf ctx c.documentId) .done =
        some (insert (tupleOf ctx c.documentId) s.tuples) := if_neg hnone
    refine .cons hp (congrArg (Option.map _) hwritten) (.nil hp haudited)
  | failed =>
    have hagree : TuplesAgree stores (s.goto i (.removingRow ctx.workspaceId.bits.toNat
        c.documentId.bits.toNat)) := ⟨h.tuples, h.documents, h.homes⟩
    exact .cons hp rfl (tuples_removingRow hagree (ProcessPool.getElem?_set_own _ hp) hlock)
  | lost =>
    have hagree : TuplesAgree (stores.ensureDocumentWorkspaceRelation (tupleOf ctx c.documentId)
        true) (ResourceTuples.loseWrite s i (tupleOf ctx c.documentId)
          (.removingRow ctx.workspaceId.bits.toNat c.documentId.bits.toNat)) :=
      ⟨hrelated.tuples, hrelated.documents, hrelated.homes⟩
    exact .cons hp rfl (tuples_removingRow hagree (ProcessPool.getElem?_set_own _ hp) hlock)

/-- The process of an upload leaves the tuples and the rows that the turn of the loop leaves. -/
theorem persistFile_tuples (file : PendingUploadFile) (h : TuplesAgree stores s)
    (hp : s.procs[i]? = some (.uploading ctx.workspaceId.bits.toNat c.documentId.bits.toNat
      ctx.accessMode))
    (hworkspace : ctx.workspaceId.bits.toNat ∈ s.workspaces)
    (hfree : s.workspaceLocks ctx.workspaceId.bits.toNat = none)
    (hlock : s.documentLocks c.documentId.bits.toNat = none)
    (hunused : s.unused (.document c.documentId.bits.toNat) = true) :
    TuplesEnd maxRetries i (persistFile ctx c file stores).1 s (c.tupleActs i) := by
  unfold FileCalls.tupleActs FileCalls.reachesCommit
  have hput (done : Bool) := h.put (objectOf ctx c file) done
  have hdeleted := (hput true).deleteObject (refOf ctx c.documentId) c.deleteObject.applied
  cases hstored : c.putObject with
  | failed =>
    rw [persistFile_of_put_failed file stores (by rw [hstored]; rfl), hstored]
    exact .cons hp rfl (.nil hp (hput false))
  | lost =>
    rw [persistFile_of_put_failed file stores (by rw [hstored]; rfl), hstored]
    exact .cons hp rfl (.nil hp (hput true))
  | ok etag =>
    cases hstatements : c.beginTransaction && c.insertDocument && c.enqueueJob with
    | false =>
      rw [persistFile_of_statement_failed file stores hstored hstatements]
      exact .cons hp rfl (.nil hp hdeleted)
    | true =>
      have hnone : tupleOf ctx c.documentId ∉ s.tuples := fun hin =>
        ResourceTuples.unused_tuples hunused _ hin rfl
      have hnew : c.documentId.bits.toNat ∉ s.documents := fun hin => by
        simp [ResourceTuples.State.unused, ResourceTuples.State.has,
          ResourceTuples.resourceExists, ResourceTuples.State.inventory, hin] at hunused
      have hinserted := (hput true).commit ctx c file etag hnew
      have hown := ProcessPool.getElem?_set_own (ResourceTuples.Proc.linkingDocument
        ctx.workspaceId.bits.toNat c.documentId.bits.toNat) hp
      let u := ResourceTuples.State.goto
        { s with
          documents := insert c.documentId.bits.toNat s.documents
          document := Function.update s.document c.documentId.bits.toNat
            ⟨ctx.workspaceId.bits.toNat, ctx.accessMode⟩ } i
        (.linkingDocument ctx.workspaceId.bits.toNat c.documentId.bits.toNat)
      have hagree : TuplesAgree (((stores.putOriginalDocument (objectOf ctx c file)
          true).insertDocument (rowOf ctx c file etag)).enqueueJobTx (jobOf ctx c)) u :=
        ⟨hinserted.tuples, hinserted.documents, hinserted.homes⟩
      have hadvance : ResourceTuples.advance s i (.uploading ctx.workspaceId.bits.toNat
          c.documentId.bits.toNat ctx.accessMode) (.sql true) = some u :=
        (if_pos hworkspace).trans (if_pos ⟨hfree, hunused⟩)
      cases hcommit : c.commit with
      | failed =>
        rw [persistFile_of_commit_failed file stores hstored hstatements (by rw [hcommit]; rfl),
          commitUpload, hcommit]
        exact .cons hp rfl (.nil hp hdeleted)
      | lost =>
        rw [persistFile_of_commit_failed file stores hstored hstatements (by rw [hcommit]; rfl),
          commitUpload, hcommit]
        have hownU : u.procs[i]? = _ := hown
        refine .cons hp hadvance (Ends.cons ?_ (TuplesEnd.nil hownU (hagree.deleteObject _ _)))
        simp only [ResourceTuples.step, hownU]
        rfl
      | ok _ =>
        refine .cons hp hadvance ?_
        have hlinked := tuples_linking maxRetries (auditEventOf ctx c file) hagree hown hlock hnone
        cases hwrite : c.writeTuple.isOk with
        | true =>
          obtain ⟨_, hwritten⟩ := CallReply.isOk_iff.mp hwrite
          rw [persistFile_of_written file stores hstored hstatements hcommit hwritten]
          rw [hwritten] at hlinked
          exact hlinked
        | false =>
          rw [persistFile_of_write_failed file stores hstored hstatements hcommit hwrite]
          rw [hwrite] at hlinked
          exact hlinked

end Tuples

section Points

variable {ctx : UploadContext} {c : FileCalls} {file : PendingUploadFile} {stores : Stores}
  {config : Ingestion.WorkerConfig} {s : VectorIndex.State} {i workspaceId documentId : Nat}

/-- The row was committed, and is gone again. -/
def FileCalls.rollsBack (c : FileCalls) : Bool :=
  c.commit.isOk && !c.writeTuple.isOk && c.deleteDocument.applied

def CallReply.pointReply {α : Type} : CallReply α → VectorIndex.Reply
  | ok _ => .ok
  | failed => .failed
  | lost => .lost

/-- The answers behind the commit; one that is reported as failed ends the process. -/
def FileCalls.pointReplies (c : FileCalls) : List VectorIndex.Reply :=
  if c.commit.isOk && !c.writeTuple.isOk then [c.writeTuple.pointReply, c.deleteDocument.pointReply]
  else [.ok]

/-- The row of a committed upload stays unless it is rolled back. -/
theorem persistFile_row_iff (file : PendingUploadFile) (hreaches : c.reachesCommit = true)
    (hcommit : c.commit.applied = true)
    (hnew : ∀ row ∈ stores.documents, row.id ≠ c.documentId) :
    (∃ row ∈ (persistFile ctx c file stores).1.documents, row.id = c.documentId) ↔
      c.rollsBack = false := by
  obtain ⟨hput, hstatements⟩ := Bool.and_eq_true_iff.mp hreaches
  obtain ⟨etag, hetag⟩ := CallReply.isOk_iff.mp hput
  have hthere : ∃ row ∈ stores.documents ++ [rowOf ctx c file etag], row.id = c.documentId :=
    ⟨_, List.mem_append_right _ (List.mem_singleton_self _), rfl⟩
  have hgone : ¬ ∃ row ∈ (stores.documents ++ [rowOf ctx c file etag]).filter
      (fun row => !(row.id == c.documentId && row.workspaceId == ctx.workspaceId)),
      row.id = c.documentId := by
    rintro ⟨row, hrow, hid⟩
    obtain ⟨hrow, hkept⟩ := List.mem_filter.mp hrow
    rcases List.mem_append.mp hrow with hrow | hrow
    · exact hnew row hrow hid
    · rw [List.mem_singleton.mp hrow] at hkept
      simp [rowOf] at hkept
  have hcommitted : (((stores.putOriginalDocument (objectOf ctx c file) true).insertDocument
      (rowOf ctx c file etag)).enqueueJobTx (jobOf ctx c)).documents =
        stores.documents ++ [rowOf ctx c file etag] :=
    congrArg (· ++ _) (documents_put ..)
  unfold FileCalls.rollsBack
  cases hok : c.commit.isOk with
  | false =>
    rw [persistFile_of_commit_failed file stores hetag hstatements hok, commitUpload, hcommit]
    simpa [hcommitted] using hthere
  | true =>
    obtain ⟨_, hdone⟩ := CallReply.isOk_iff.mp hok
    cases hwrite : c.writeTuple.isOk with
    | true =>
      obtain ⟨_, hwritten⟩ := CallReply.isOk_iff.mp hwrite
      rw [persistFile_of_written file stores hetag hstatements hdone hwritten]
      simpa [hcommitted] using hthere
    | false =>
      rw [persistFile_of_write_failed file stores hetag hstatements hdone hwrite]
      cases hdelete : c.deleteDocument.applied with
      | true => simpa [deleteDocument_documents, hcommitted] using hgone
      | false => simpa [Stores.deleteDocument, hcommitted] using hthere

/-- The row is where `here` says, and all others are as they were. -/
def RowLeft (s : VectorIndex.State) (i workspaceId documentId : Nat) (here : Bool)
    (t : VectorIndex.State) : Prop :=
  t.procs[i]? = some .done ∧
    (t.index.queue.workspaceOf documentId = some workspaceId ↔ here = true) ∧
    ∀ d, d ≠ documentId → t.index.queue.workspaceOf d = s.index.queue.workspaceOf d

theorem points_removingRow (config : Ingestion.WorkerConfig) (reply : CallReply Unit)
    (hp : s.procs[i]? = some (.removingRow workspaceId documentId))
    (hhome : s.index.queue.workspaceOf documentId = some workspaceId)
    (hfree : (Indexing.step config s.index (.queue (.deleteDocument documentId))).isSome = true) :
    Ends (VectorIndex.step config) (RowLeft s i workspaceId documentId !reply.applied) s
      [.advance i reply.pointReply] := by
  obtain ⟨index, hindex⟩ := Option.isSome_iff_exists.mp hfree
  have hremoved : VectorIndex.removeDocument config s workspaceId documentId =
      some { s with index := index } :=
    (if_pos hhome).trans (congrArg (Option.map fun index => { s with index := index }) hindex)
  have hown := ProcessPool.getElem?_set_own VectorIndex.Proc.done hp
  rcases VectorIndex.removeDocument_cases hremoved with ⟨hother, -⟩ | ⟨-, _, heq, -, hhomes, -⟩
  · exact absurd hhome hother
  cases congrArg VectorIndex.State.index heq
  have hgone : RowLeft s i workspaceId documentId false
      (VectorIndex.State.goto { s with index := index } i .done) := by
    refine ⟨hown, ?_, fun d hd => ?_⟩
    · rw [VectorIndex.State.goto, hhomes, if_pos rfl]
      simp
    · rw [VectorIndex.State.goto, hhomes, if_neg hd]
  have hstep : ∀ r : VectorIndex.Reply, VectorIndex.step config s (.advance i r) =
      VectorIndex.advance config s i (.removingRow workspaceId documentId) r := fun r => by
    simp only [VectorIndex.step, hp, Option.bind_some]
  have hadvance : (VectorIndex.removeDocument config s workspaceId documentId).map
      (fun t => t.goto i .done) =
        some (VectorIndex.State.goto { s with index := index } i .done) := by
    rw [hremoved]
    rfl
  cases reply with
  | ok _ => exact .cons ((hstep _).trans hadvance) (.nil hgone)
  | lost => exact .cons ((hstep _).trans hadvance) (.nil hgone)
  | failed =>
    refine .cons ((hstep _).trans rfl) (.nil ⟨hown, ?_, fun _ _ => rfl⟩)
    exact ⟨fun _ => rfl, fun _ => hhome⟩

/-- The process of an upload leaves the row where the turn of the loop leaves it. -/
theorem persistFile_points (file : PendingUploadFile) (hreaches : c.reachesCommit = true)
    (hcommit : c.commit.applied = true)
    (hnew : ∀ row ∈ stores.documents, row.id ≠ c.documentId)
    (hp : s.procs[i]? = some (.syncing workspaceId documentId))
    (hhome : s.index.queue.workspaceOf documentId = some workspaceId)
    (hfree : (Indexing.step config s.index (.queue (.deleteDocument documentId))).isSome = true) :
    Ends (VectorIndex.step config) (RowLeft s i workspaceId documentId
        (decide (∃ row ∈ (persistFile ctx c file stores).1.documents, row.id = c.documentId)))
      s (c.pointReplies.map (.advance i)) := by
  have hrow : decide (∃ row ∈ (persistFile ctx c file stores).1.documents,
      row.id = c.documentId) = !c.rollsBack := by
    rw [Bool.eq_iff_iff, decide_eq_true_iff, persistFile_row_iff file hreaches hcommit hnew,
      Bool.not_eq_true']
  have hstep : ∀ r : VectorIndex.Reply, VectorIndex.step config s (.advance i r) =
      VectorIndex.advance config s i (.syncing workspaceId documentId) r := fun r => by
    simp only [VectorIndex.step, hp, Option.bind_some]
  rw [hrow]
  unfold FileCalls.pointReplies FileCalls.rollsBack
  cases hlinks : c.commit.isOk && !c.writeTuple.isOk with
  | false =>
    refine .cons ((hstep .ok).trans rfl) (.nil ⟨ProcessPool.getElem?_set_own _ hp, ?_, fun _ _ => rfl⟩)
    exact ⟨fun _ => rfl, fun _ => hhome⟩
  | true =>
    have hremove := points_removingRow (i := i) config
      (s := s.goto i (.removingRow workspaceId documentId)) c.deleteDocument
      (ProcessPool.getElem?_set_own _ hp) hhome hfree
    obtain ⟨-, hwrite⟩ := Bool.and_eq_true_iff.mp hlinks
    cases hreply : c.writeTuple with
    | ok _ =>
      rw [hreply] at hwrite
      cases hwrite
    | failed => exact .cons ((hstep .failed).trans rfl) hremove
    | lost => exact .cons ((hstep .lost).trans rfl) hremove

end Points

end GmragApi.Upload

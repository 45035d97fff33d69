import GmragApi.ObjectLifetimes
import GmragApi.UploadAccounting

/-! What an upload leaves of each of its files: all of an object, a row, a job and a tuple, or
nothing of them, as the calls for this file alone decide; but the object or the tuple of a call that
is reported as failed and has taken effect stays. -/

namespace GmragApi.Upload

/-- What the stores hold about a document of the workspace. -/
structure FileView where
  objects : List StoredObject
  documents : List DocumentRow
  jobs : List JobRow
  related : Bool
  deriving DecidableEq

def viewOf (ctx : UploadContext) (s : Stores) (documentId : Uuid) : FileView where
  objects := s.objects.filter (·.ref = refOf ctx documentId)
  documents := s.documents.filter (·.id = documentId)
  jobs := s.jobs.filter (·.documentId = documentId)
  related := decide (tupleOf ctx documentId ∈ s.tuples)

def nothing : FileView := ⟨[], [], [], false⟩

/-- One object, one row in `PROCESSING`/`QUEUED`, one job in `QUEUED`, and the tuple. -/
def everything (ctx : UploadContext) (c : FileCalls) (file : PendingUploadFile)
    (etag : Option (List Char)) : FileView :=
  ⟨[objectOf ctx c file], [rowOf ctx c file etag], [jobOf ctx c], true⟩

namespace FileCalls

/-- The compensating calls take effect. -/
def compensates (c : FileCalls) : Bool := c.deleteObject.applied && c.deleteDocument.applied

/-- The object of a put that is reported as failed is there. -/
def strandsObject (c : FileCalls) : Bool := c.putObject.isLost

/-- The rows of the file are committed. -/
def commits (c : FileCalls) : Bool :=
  c.putObject.isOk && (c.beginTransaction && c.insertDocument && c.enqueueJob && c.commit.isOk)

/-- The last write of a file is reported as failed, and its tuple is there. -/
def strandsTuple (c : FileCalls) : Bool := c.commits && c.writeTuple.isLost

def strands (c : FileCalls) : Bool := c.strandsObject || c.strandsTuple

end FileCalls

/-- What stays of a rejected file. -/
def remains (ctx : UploadContext) (c : FileCalls) (file : PendingUploadFile) : FileView :=
  ⟨if c.strandsObject then [objectOf ctx c file] else [], [], [], c.strandsTuple⟩

/-- What is to be there of a file after its turn. -/
def dueView (ctx : UploadContext) (c : FileCalls) (file : PendingUploadFile) : FileView :=
  match c.verdict, c.putObject with
  | none, .ok etag => everything ctx c file etag
  | _, _ => remains ctx c file

theorem remains_eq_nothing_iff (ctx : UploadContext) (c : FileCalls) (file : PendingUploadFile) :
    remains ctx c file = nothing ↔ c.strands = false := by
  unfold remains nothing FileCalls.strands
  cases c.strandsObject <;> cases c.strandsTuple <;> simp

section Keys

variable (ctx : UploadContext) {a b : Uuid}

theorem refOf_inj : refOf ctx a = refOf ctx b ↔ a = b := by
  refine ⟨fun h => ?_, fun h => by rw [h]⟩
  have hkey : objectKeyOf ctx a = objectKeyOf ctx b := congrArg StoredObjects.ObjectRef.key h
  exact (StoredObjects.objectKey_inj hkey).2.2

theorem tupleOf_inj : tupleOf ctx a = tupleOf ctx b ↔ a = b := by
  refine ⟨fun h => ?_, fun h => by rw [h]⟩
  have hobject : FgaObject.document a.bits.toNat = .document b.bits.toNat :=
    congrArg TupleKey.object h
  exact Uuid.toNat_inj.mp (FgaObject.document.inj hobject)

end Keys

section Filter

variable {α : Type} {p : α → Prop} [DecidablePred p] {l : List α} {x : α}

/-- An element that is put beside a list without its kind goes again with its kind. -/
theorem filter_not_append_singleton (hl : l.filter p = []) (hx : p x) :
    (l ++ [x]).filter (fun a => ¬ p a) = l := by
  have hkeep : l.filter (fun a => ¬ p a) = l :=
    List.filter_eq_self.mpr fun a ha =>
      decide_eq_true fun hp => List.filter_eq_nil_iff.mp hl a ha (decide_eq_true hp)
  rw [List.filter_append, hkeep, List.filter_cons_of_neg (by simpa using hx), List.filter_nil,
    List.append_nil]

theorem filter_append_own (hl : l.filter p = []) (hx : p x) : (l ++ [x]).filter p = [x] := by
  rw [List.filter_append, hl, List.nil_append, List.filter_singleton, decide_eq_true hx]
  rfl

theorem filter_append_other (hx : ¬ p x) : (l ++ [x]).filter p = l.filter p := by
  rw [List.filter_append, List.filter_cons_of_neg (by simpa using hx), List.filter_nil,
    List.append_nil]

end Filter

section Turn

variable {ctx : UploadContext} {c : FileCalls} {file : PendingUploadFile} {s : Stores}

/-- The stores with all that an accepted file brings. -/
def Stores.record (s : Stores) (ctx : UploadContext) (c : FileCalls) (file : PendingUploadFile)
    (etag : Option (List Char)) : Stores :=
  { objects := s.objects ++ [objectOf ctx c file]
    documents := s.documents ++ [rowOf ctx c file etag]
    jobs := s.jobs ++ [jobOf ctx c]
    tuples := insert (tupleOf ctx c.documentId) s.tuples
    auditEvents :=
      if c.auditEvent.applied then s.auditEvents ++ [auditEventOf ctx c file] else s.auditEvents }

/-- The stores with what stays of a rejected file. -/
def Stores.strand (s : Stores) (ctx : UploadContext) (c : FileCalls) (file : PendingUploadFile) :
    Stores :=
  { s with
    objects := if c.strandsObject then s.objects ++ [objectOf ctx c file] else s.objects
    tuples := if c.strandsTuple then insert (tupleOf ctx c.documentId) s.tuples else s.tuples }

theorem putOriginalDocument_new (hnew : viewOf ctx s c.documentId = nothing) :
    s.putOriginalDocument (objectOf ctx c file) true =
      { s with objects := s.objects ++ [objectOf ctx c file] } := by
  have hnone : s.objects.filter (·.ref = refOf ctx c.documentId) = [] :=
    congrArg FileView.objects hnew
  have hkeep : s.objects.filter (·.ref ≠ (objectOf ctx c file).ref) = s.objects :=
    List.filter_eq_self.mpr fun o ho =>
      decide_eq_true fun href => List.filter_eq_nil_iff.mp hnone o ho (decide_eq_true href)
  rw [Stores.putOriginalDocument, if_pos rfl, hkeep]

/-- Deleting the object undoes putting it. -/
theorem deleteObject_put (file : PendingUploadFile)
    (hobjects : s.objects.filter (·.ref = refOf ctx c.documentId) = []) :
    ({ s with objects := s.objects ++ [objectOf ctx c file] } : Stores).deleteObject
      (refOf ctx c.documentId) true = s := by
  have hgone := filter_not_append_singleton (x := objectOf ctx c file) hobjects rfl
  rw [Stores.deleteObject, if_pos rfl]
  dsimp only
  rw [hgone]

/-- Deleting the row undoes what the transaction committed. -/
theorem deleteDocument_committed (file : PendingUploadFile) (etag : Option (List Char))
    (hrows : s.documents.filter (·.id = c.documentId) = [])
    (hjobs : s.jobs.filter (·.documentId = c.documentId) = []) :
    ((s.insertDocument (rowOf ctx c file etag)).enqueueJobTx (jobOf ctx c)).deleteDocument
      c.documentId ctx.workspaceId true = s := by
  have hthere : (s.documents ++ [rowOf ctx c file etag]).any (fun row =>
      row.id == c.documentId && row.workspaceId == ctx.workspaceId) = true :=
    List.any_eq_true.mpr ⟨_, List.mem_append_right _ (List.mem_singleton_self _), by simp [rowOf]⟩
  have hrowsKept : s.documents.filter (fun row =>
      !(row.id == c.documentId && row.workspaceId == ctx.workspaceId)) = s.documents := by
    refine List.filter_eq_self.mpr fun row hrow => ?_
    have hid : row.id ≠ c.documentId := fun h =>
      List.filter_eq_nil_iff.mp hrows row hrow (decide_eq_true h)
    simp [hid]
  have hrowsGone : (s.documents ++ [rowOf ctx c file etag]).filter (fun row =>
      !(row.id == c.documentId && row.workspaceId == ctx.workspaceId)) = s.documents := by
    rw [List.filter_append, hrowsKept, List.filter_cons_of_neg (by simp [rowOf]), List.filter_nil,
      List.append_nil]
  have hjobsGone := filter_not_append_singleton (x := jobOf ctx c) hjobs rfl
  unfold Stores.deleteDocument
  rw [if_pos rfl]
  refine (if_pos hthere).trans ?_
  dsimp only [Stores.insertDocument, Stores.enqueueJobTx]
  rw [hrowsGone, hjobsGone]

theorem verdict_eq_none_iff : c.verdict = none ↔ c.commits = true ∧ c.writeTuple.isOk = true := by
  unfold FileCalls.verdict FileCalls.commits
  cases c.putObject.isOk <;>
    cases (c.beginTransaction && c.insertDocument && c.enqueueJob && c.commit.isOk) <;>
    cases c.writeTuple.isOk <;> decide

theorem verdict_eq_none :
    c.verdict = none ↔ ∃ etag, c.putObject = .ok etag ∧ c.beginTransaction = true ∧
      c.insertDocument = true ∧ c.enqueueJob = true ∧ c.commit = .ok () ∧
      c.writeTuple = .ok () := by
  simp only [verdict_eq_none_iff, FileCalls.commits, Bool.and_eq_true, CallReply.isOk_iff]
  constructor
  · rintro ⟨⟨⟨etag, hput⟩, ⟨⟨hbegin, hinsert⟩, henqueue⟩, _, hcommit⟩, _, htuple⟩
    exact ⟨etag, hput, hbegin, hinsert, henqueue, hcommit, htuple⟩
  · rintro ⟨etag, hput, hbegin, hinsert, henqueue, hcommit, htuple⟩
    exact ⟨⟨⟨etag, hput⟩, ⟨⟨hbegin, hinsert⟩, henqueue⟩, (), hcommit⟩, (), htuple⟩

theorem persistFile_accepted (file : PendingUploadFile)
    (hnew : viewOf ctx s c.documentId = nothing)
    (h : c.verdict = none) :
    ∃ etag, c.putObject = .ok etag ∧
      (persistFile ctx c file s).1 = s.record ctx c file etag := by
  obtain ⟨etag, hput, hbegin, hinsert, henqueue, hcommit, htuple⟩ := verdict_eq_none.mp h
  have hstatements : (c.beginTransaction && c.insertDocument && c.enqueueJob) = true := by
    rw [hbegin, hinsert, henqueue]
    rfl
  refine ⟨etag, hput, ?_⟩
  rw [persistFile_of_written file s hput hstatements hcommit htuple, putOriginalDocument_new hnew]
  unfold Stores.record
  cases c.auditEvent with
  | ok _ => rfl
  | failed => rfl
  | lost => rfl

section Rejected

variable (hnew : viewOf ctx s c.documentId = nothing)

include hnew

/-- A put that is reported as failed leaves its object, if it has put one. -/
theorem persistFile_unstored (file : PendingUploadFile) (hput : c.putObject.value? = none) :
    (persistFile ctx c file s).1 = s.strand ctx c file := by
  have hok : c.putObject.isOk = false := by rw [CallReply.isOk, hput, Option.isSome_none]
  have htuple : c.strandsTuple = false := by simp [FileCalls.strandsTuple, FileCalls.commits, hok]
  have hobject : c.strandsObject = c.putObject.applied := by
    rw [FileCalls.strandsObject, CallReply.isLost, hok, Bool.not_false, Bool.and_true]
  rw [persistFile_of_put_failed file s hput, Stores.strand, htuple, hobject]
  cases c.putObject.applied with
  | true =>
    rw [putOriginalDocument_new hnew]
    rfl
  | false => rfl

variable {etag : Option (List Char)} (hput : c.putObject = .ok etag)

include hput

/-- Up to the commit a failure leaves the object only, and that is deleted. -/
theorem persistFile_uncommitted (file : PendingUploadFile) (hdelete : c.deleteObject.applied = true)
    (hcommit : c.commit ≠ .lost) (h : c.commits = false) : (persistFile ctx c file s).1 = s := by
  have hundone := deleteObject_put file (congrArg FileView.objects hnew)
  cases hstatements : c.beginTransaction && c.insertDocument && c.enqueueJob with
  | false =>
    rw [persistFile_of_statement_failed file s hput hstatements, putOriginalDocument_new hnew,
      hdelete]
    exact hundone
  | true =>
    have hfailed : c.commit.isOk = false := by
      rw [FileCalls.commits, hput, hstatements] at h
      exact h
    have happlied : c.commit.applied = false := by
      cases hreply : c.commit with
      | failed => rfl
      | lost => exact absurd hreply hcommit
      | ok _ =>
        rw [hreply] at hfailed
        cases hfailed
    rw [persistFile_of_commit_failed file s hput hstatements hfailed, commitUpload, happlied,
      putOriginalDocument_new hnew, hdelete]
    exact hundone

/-- Behind the commit only the tuple can stay. -/
theorem persistFile_unrelated (file : PendingUploadFile) (hcomp : c.compensates = true)
    (h : c.commits = true) (htuple : c.writeTuple.isOk = false) :
    (persistFile ctx c file s).1 =
      s.ensureDocumentWorkspaceRelation (tupleOf ctx c.documentId) c.writeTuple.applied := by
  obtain ⟨hobject, hdocument⟩ := Bool.and_eq_true_iff.mp hcomp
  obtain ⟨hstatements, hcommit⟩ := Bool.and_eq_true_iff.mp (Bool.and_eq_true_iff.mp h).2
  obtain ⟨_, hcommit⟩ := CallReply.isOk_iff.mp hcommit
  let related : Stores :=
    s.ensureDocumentWorkspaceRelation (tupleOf ctx c.documentId) c.writeTuple.applied
  have hkept : related.objects = s.objects ∧ related.documents = s.documents ∧
      related.jobs = s.jobs := by
    simp only [related, Stores.ensureDocumentWorkspaceRelation]
    split <;> exact ⟨rfl, rfl, rfl⟩
  let stored : Stores := { related with objects := related.objects ++ [objectOf ctx c file] }
  have hgone : ((stored.insertDocument (rowOf ctx c file etag)).enqueueJobTx
      (jobOf ctx c)).deleteDocument c.documentId ctx.workspaceId true = stored :=
    deleteDocument_committed file etag (by rw [hkept.2.1]; exact congrArg FileView.documents hnew)
      (by rw [hkept.2.2]; exact congrArg FileView.jobs hnew)
  have hundone := deleteObject_put (s := related) file
    (by rw [hkept.1]; exact congrArg FileView.objects hnew)
  have hcommuted : (((({ s with objects := s.objects ++ [objectOf ctx c file] } :
      Stores).insertDocument (rowOf ctx c file etag)).enqueueJobTx
        (jobOf ctx c)).ensureDocumentWorkspaceRelation (tupleOf ctx c.documentId)
          c.writeTuple.applied) =
      (stored.insertDocument (rowOf ctx c file etag)).enqueueJobTx (jobOf ctx c) := by
    simp only [stored, related, Stores.ensureDocumentWorkspaceRelation]
    split <;> rfl
  rw [persistFile_of_write_failed file s hput hstatements hcommit htuple, hobject, hdocument,
    putOriginalDocument_new hnew, hcommuted, hgone]
  exact hundone

omit hput

/-- A rejected file leaves the stores as they were, but for what it strands. -/
theorem persistFile_rejected (file : PendingUploadFile) (hcomp : c.compensates = true)
    (hcommit : c.commit ≠ .lost) (h : c.verdict ≠ none) :
    (persistFile ctx c file s).1 = s.strand ctx c file := by
  cases hput : c.putObject with
  | failed | lost => exact persistFile_unstored hnew file (by rw [hput]; rfl)
  | ok etag =>
    have hobject : c.strandsObject = false := by
      rw [FileCalls.strandsObject, hput]
      rfl
    cases hcommits : c.commits with
    | false =>
      have htuple : c.strandsTuple = false := by rw [FileCalls.strandsTuple, hcommits, Bool.false_and]
      rw [persistFile_uncommitted hnew hput file (Bool.and_eq_true_iff.mp hcomp).1 hcommit hcommits,
        Stores.strand, hobject, htuple]
      rfl
    | true =>
      have hwrite : c.writeTuple.isOk = false :=
        Bool.eq_false_iff.mpr fun hok => h (verdict_eq_none_iff.mpr ⟨hcommits, hok⟩)
      have htuple : c.strandsTuple = c.writeTuple.applied := by
        rw [FileCalls.strandsTuple, hcommits, Bool.true_and, CallReply.isLost, hwrite,
          Bool.not_false, Bool.and_true]
      rw [persistFile_unrelated hnew hput file hcomp hcommits hwrite, Stores.strand, hobject, htuple,
        Stores.ensureDocumentWorkspaceRelation]
      split <;> rfl

end Rejected

/-- The stores after an accepted file, as seen from its id and from any other. -/
theorem viewOf_record {etag : Option (List Char)} (hnew : viewOf ctx s c.documentId = nothing) :
    viewOf ctx (s.record ctx c file etag) c.documentId = everything ctx c file etag ∧
      ∀ id, id ≠ c.documentId →
        viewOf ctx (s.record ctx c file etag) id = viewOf ctx s id := by
  have hobjects : s.objects.filter (·.ref = refOf ctx c.documentId) = [] :=
    congrArg FileView.objects hnew
  have hrows : s.documents.filter (·.id = c.documentId) = [] := congrArg FileView.documents hnew
  have hjobs : s.jobs.filter (·.documentId = c.documentId) = [] := congrArg FileView.jobs hnew
  constructor
  · rw [viewOf, Stores.record, everything]
    dsimp only
    rw [filter_append_own hobjects rfl, filter_append_own hrows rfl, filter_append_own hjobs rfl,
      decide_eq_true (Finset.mem_insert_self ..)]
  · intro id hid
    have href : ¬ (objectOf ctx c file).ref = refOf ctx id :=
      fun h => hid ((refOf_inj ctx).mp h).symm
    have hrow : ¬ (rowOf ctx c file etag).id = id := fun h => hid h.symm
    have hjob : ¬ (jobOf ctx c).documentId = id := fun h => hid h.symm
    have htuple : tupleOf ctx id ∈ insert (tupleOf ctx c.documentId) s.tuples ↔
        tupleOf ctx id ∈ s.tuples := by
      rw [Finset.mem_insert, or_iff_right fun h => hid ((tupleOf_inj ctx).mp h)]
    have hobjectsKept :=
      filter_append_other (p := fun o : StoredObject => o.ref = refOf ctx id) (l := s.objects) href
    have hrowsKept :=
      filter_append_other (p := fun row : DocumentRow => row.id = id) (l := s.documents) hrow
    have hjobsKept :=
      filter_append_other (p := fun job : JobRow => job.documentId = id) (l := s.jobs) hjob
    rw [viewOf, Stores.record, viewOf]
    dsimp only
    rw [hobjectsKept, hrowsKept, hjobsKept, decide_eq_decide.mpr htuple]

/-- The stores after a rejected file, as seen from its id and from any other. -/
theorem viewOf_strand (file : PendingUploadFile) (hnew : viewOf ctx s c.documentId = nothing) :
    viewOf ctx (s.strand ctx c file) c.documentId = remains ctx c file ∧
      ∀ id, id ≠ c.documentId → viewOf ctx (s.strand ctx c file) id = viewOf ctx s id := by
  have hobjects : s.objects.filter (·.ref = refOf ctx c.documentId) = [] :=
    congrArg FileView.objects hnew
  have hrows : (s.strand ctx c file).documents.filter (·.id = c.documentId) = [] :=
    congrArg FileView.documents hnew
  have hjobs : (s.strand ctx c file).jobs.filter (·.documentId = c.documentId) = [] :=
    congrArg FileView.jobs hnew
  have hrelated : decide (tupleOf ctx c.documentId ∈ s.tuples) = false :=
    congrArg FileView.related hnew
  constructor
  · have hobject : (s.strand ctx c file).objects.filter (·.ref = refOf ctx c.documentId) =
        if c.strandsObject then [objectOf ctx c file] else [] := by
      unfold Stores.strand
      cases c.strandsObject with
      | true => exact filter_append_own hobjects rfl
      | false => exact hobjects
    have htuple : decide (tupleOf ctx c.documentId ∈ (s.strand ctx c file).tuples) =
        c.strandsTuple := by
      unfold Stores.strand
      cases c.strandsTuple with
      | true => exact decide_eq_true (Finset.mem_insert_self ..)
      | false => exact hrelated
    rw [viewOf, hobject, hrows, hjobs, htuple, remains]
  · intro id hid
    have href : ¬ (objectOf ctx c file).ref = refOf ctx id :=
      fun h => hid ((refOf_inj ctx).mp h).symm
    have hmem : tupleOf ctx id ∈ insert (tupleOf ctx c.documentId) s.tuples ↔
        tupleOf ctx id ∈ s.tuples := by
      rw [Finset.mem_insert, or_iff_right fun h => hid ((tupleOf_inj ctx).mp h)]
    have hobject : (s.strand ctx c file).objects.filter (·.ref = refOf ctx id) =
        s.objects.filter (·.ref = refOf ctx id) := by
      unfold Stores.strand
      cases c.strandsObject with
      | true => exact filter_append_other href
      | false => rfl
    have htuple : decide (tupleOf ctx id ∈ (s.strand ctx c file).tuples) =
        decide (tupleOf ctx id ∈ s.tuples) := by
      unfold Stores.strand
      cases c.strandsTuple with
      | true => exact decide_eq_decide.mpr hmem
      | false => rfl
    rw [viewOf, hobject, htuple]
    rfl

/-- One turn of the loop: the file gets what is due to it, and nothing else changes. -/
theorem persistFile_view (file : PendingUploadFile)
    (hnew : viewOf ctx s c.documentId = nothing)
    (hcomp : c.compensates = true) (hcommit : c.commit ≠ .lost) :
    viewOf ctx (persistFile ctx c file s).1 c.documentId = dueView ctx c file ∧
      ∀ id, id ≠ c.documentId →
        viewOf ctx (persistFile ctx c file s).1 id = viewOf ctx s id := by
  unfold dueView
  cases hv : c.verdict with
  | none =>
    obtain ⟨etag, hput, hstores⟩ := persistFile_accepted file hnew hv
    rw [hput, hstores]
    exact viewOf_record hnew
  | some reason =>
    rw [persistFile_rejected hnew file hcomp hcommit (by rw [hv]; exact Option.some_ne_none _)]
    exact viewOf_strand file hnew

end Turn

section Loop

variable {ctx : UploadContext} {calls : Nat → FileCalls}

theorem persistNext_stores (ctx : UploadContext) (c : FileCalls) (file : PendingUploadFile)
    (p : Progress) : (persistNext ctx c file p).stores = (persistFile ctx c file p.stores).1 := by
  unfold persistNext
  split
  next stores item hfile => rw [hfile]
  next stores reason hfile => rw [hfile]

/-- The ids of the files from position `i` on are new and differ from each other. -/
structure FreshFrom (ctx : UploadContext) (calls : Nat → FileCalls) (i n : Nat) (s : Stores) :
    Prop where
  unused : ∀ j, i ≤ j → j < i + n → viewOf ctx s (calls j).documentId = nothing
  distinct : ∀ j k, i ≤ j → j < k → k < i + n → (calls j).documentId ≠ (calls k).documentId

/-- What a whole loop leaves of its files and of all other documents. -/
theorem persistPendingFiles_view (i : Nat) (files : List PendingUploadFile) (p : Progress)
    (hfresh : FreshFrom ctx calls i files.length p.stores)
    (hcomp : ∀ j, i ≤ j → j < i + files.length → (calls j).compensates = true)
    (hcommit : ∀ j, i ≤ j → j < i + files.length → (calls j).commit ≠ .lost) :
    (∀ k file, files[k]? = some file →
      viewOf ctx (persistPendingFiles ctx calls i files p).stores (calls (i + k)).documentId =
        dueView ctx (calls (i + k)) file) ∧
    ∀ id, (∀ j, i ≤ j → j < i + files.length → id ≠ (calls j).documentId) →
      viewOf ctx (persistPendingFiles ctx calls i files p).stores id = viewOf ctx p.stores id := by
  induction files generalizing i p with
  | nil => exact ⟨fun k file h => (by cases h), fun _ _ => rfl⟩
  | cons file rest ih =>
    have hlen : (file :: rest).length = rest.length + 1 := List.length_cons
    rw [hlen] at hfresh hcomp hcommit ⊢
    obtain ⟨hown, hother⟩ := persistFile_view file
      (hfresh.unused i le_rfl (by omega)) (hcomp i le_rfl (by omega))
      (hcommit i le_rfl (by omega))
    rw [← persistNext_stores] at hown
    simp only [← persistNext_stores] at hother
    have hfresh' : FreshFrom ctx calls (i + 1) rest.length
        (persistNext ctx (calls i) file p).stores := by
      refine ⟨fun j hij hj => ?_, fun j k hij hjk hk =>
        hfresh.distinct j k (by omega) hjk (by omega)⟩
      have hne := hfresh.distinct i j le_rfl (by omega) (by omega)
      rw [hother _ hne.symm]
      exact hfresh.unused j (by omega) (by omega)
    obtain ⟨hfiles, hrest⟩ := ih (i + 1) (persistNext ctx (calls i) file p) hfresh'
      (fun j hij hj => hcomp j (by omega) (by omega))
      fun j hij hj => hcommit j (by omega) (by omega)
    rw [persistPendingFiles]
    refine ⟨fun k file' hk => ?_, fun id hid => ?_⟩
    · cases k with
      | zero =>
        cases hk
        have hzero : i + 0 = i := rfl
        rw [hzero, hrest _ fun j hij hj =>
          hfresh.distinct i j le_rfl (by omega) (by omega)]
        exact hown
      | succ k =>
        have hpos : i + (k + 1) = i + 1 + k := by omega
        rw [hpos]
        exact hfiles k file' hk
    · rw [hrest id fun j hij hj => hid j (by omega) (by omega)]
      exact hother id (hid i le_rfl (by omega))

/-- What the loop is to leave: each file listed by the answers to its own calls alone, a document
with all that belongs to it, a rejected file with nothing, and all others as they were. -/
structure AllOrNothing (ctx : UploadContext) (calls : Nat → FileCalls)
    (files : List PendingUploadFile) (start p : Progress) : Prop where
  uploaded : p.uploaded = start.uploaded ++ files.zipIdx.filterMap (persistedItem? calls)
  rejected : p.rejected = start.rejected ++ files.zipIdx.filterMap (unpersistedItem? calls)
  complete : ∀ i file, files[i]? = some file → (calls i).verdict = none →
    ∃ etag, viewOf ctx p.stores (calls i).documentId = everything ctx (calls i) file etag
  absent : ∀ i file, files[i]? = some file → (calls i).verdict ≠ none →
    viewOf ctx p.stores (calls i).documentId = nothing
  others : ∀ id, (∀ i < files.length, id ≠ (calls i).documentId) →
    viewOf ctx p.stores id = viewOf ctx start.stores id

theorem dueView_of_accepted (ctx : UploadContext) {c : FileCalls} (file : PendingUploadFile)
    (h : c.verdict = none) :
    ∃ etag, dueView ctx c file = everything ctx c file etag := by
  obtain ⟨etag, hput, -⟩ := verdict_eq_none.mp h
  refine ⟨etag, ?_⟩
  unfold dueView
  rw [h, hput]

theorem dueView_of_rejected (ctx : UploadContext) {c : FileCalls} (file : PendingUploadFile)
    (h : c.verdict ≠ none) : dueView ctx c file = remains ctx c file := by
  obtain ⟨reason, hreason⟩ := Option.ne_none_iff_exists'.mp h
  unfold dueView
  rw [hreason]

/-- What a call strands is not of an accepted file. -/
theorem verdict_of_strands {c : FileCalls} (h : c.strands = true) : c.verdict ≠ none := by
  intro hv
  obtain ⟨etag, hput, -, -, -, -, htuple⟩ := verdict_eq_none.mp hv
  rw [FileCalls.strands, FileCalls.strandsObject, FileCalls.strandsTuple, hput, htuple] at h
  simp [CallReply.isLost, CallReply.applied, CallReply.isOk, CallReply.value?] at h

/-- As long as the ids are new, the compensating calls take effect and no commit that is reported as
failed has committed, an upload is all or nothing for each of its files exactly if no put and no last
write of a tuple that is reported as failed has taken effect. -/
theorem upload_all_or_nothing_iff (ctx : UploadContext) (calls : Nat → FileCalls)
    (files : List PendingUploadFile) (start : Progress)
    (hfresh : FreshFrom ctx calls 0 files.length start.stores)
    (hcomp : ∀ i < files.length, (calls i).compensates = true)
    (hcommit : ∀ i < files.length, (calls i).commit ≠ .lost) :
    AllOrNothing ctx calls files start (persistPendingFiles ctx calls 0 files start) ↔
      ∀ i < files.length, (calls i).strands = false := by
  obtain ⟨huploaded, hrejected⟩ := persistPendingFiles_lists ctx calls 0 files start
  obtain ⟨hfiles, hothers⟩ := persistPendingFiles_view 0 files start hfresh
    (fun j _ hj => hcomp j (by omega)) fun j _ hj => hcommit j (by omega)
  simp only [Nat.zero_add] at hfiles hothers
  constructor
  · intro h i hi
    refine Bool.eq_false_iff.mpr fun hstrands => ?_
    have hv := verdict_of_strands hstrands
    have hview := hfiles i files[i] (List.getElem?_eq_getElem hi)
    rw [h.absent i files[i] (List.getElem?_eq_getElem hi) hv, dueView_of_rejected ctx files[i] hv]
      at hview
    rw [(remains_eq_nothing_iff ctx (calls i) files[i]).mp hview.symm] at hstrands
    cases hstrands
  · intro h
    refine ⟨huploaded, hrejected, fun i file hi hv => ?_, fun i file hi hv => ?_, fun id hid =>
      hothers id fun j _ hj => hid j hj⟩
    · obtain ⟨etag, hdue⟩ := dueView_of_accepted ctx file hv
      exact ⟨etag, (hfiles i file hi).trans hdue⟩
    · have hlt := (List.getElem?_eq_some_iff.mp hi).1
      rw [hfiles i file hi, dueView_of_rejected ctx file hv]
      exact (remains_eq_nothing_iff ctx (calls i) file).mpr (h i hlt)

end Loop

section Pair

def pairContext : UploadContext :=
  ⟨plainService, .ofNat 1, .ofNat 2, ['u'], .workspaceDefault⟩

/-- OpenFGA refuses the tuple of the second file. -/
def pairCalls (i : Nat) : FileCalls :=
  if i = 1 then { steadyFile i with writeTuple := .failed } else steadyFile i

def pairFiles : List PendingUploadFile :=
  [⟨"a.txt".toList, .text, [104, 105]⟩, ⟨"b.txt".toList, .text, [104, 111]⟩]

theorem pairCalls_fresh (calls : Nat → FileCalls)
    (hids : ∀ i, (calls i).documentId = .ofNat (i + 3)) :
    FreshFrom pairContext calls 0 pairFiles.length emptyStores where
  unused _ _ _ := rfl
  distinct j k _ hjk hk := by
    have hlen : pairFiles.length = 2 := rfl
    obtain ⟨rfl, rfl⟩ : j = 0 ∧ k = 1 := by omega
    rw [hids, hids]
    decide

theorem upload_all_or_nothing_iff_pair :
    AllOrNothing pairContext pairCalls pairFiles ⟨emptyStores, [], []⟩
        (persistPendingFiles pairContext pairCalls 0 pairFiles ⟨emptyStores, [], []⟩) ↔
      ∀ i < pairFiles.length, (pairCalls i).strands = false :=
  upload_all_or_nothing_iff pairContext pairCalls pairFiles ⟨emptyStores, [], []⟩
    (pairCalls_fresh pairCalls fun i => by unfold pairCalls; split <;> rfl) (by decide) (by decide)

/-- The second file is stored, and the reply to its put is lost. -/
def lostPut (i : Nat) : FileCalls :=
  if i = 1 then { steadyFile i with putObject := .lost } else steadyFile i

/-- The tuple of the second file is written, and the reply is lost. -/
def lostWrite (i : Nat) : FileCalls :=
  if i = 1 then { steadyFile i with writeTuple := .lost } else steadyFile i

def afterPair (calls : Nat → FileCalls) : Progress :=
  persistPendingFiles pairContext calls 0 pairFiles ⟨emptyStores, [], []⟩

/-- A rejected file keeps its object, or its tuple. -/
theorem rejected_files_leave_traces :
    ((afterPair lostPut).rejected =
        [RejectedUploadItem.new "b.txt".toList .storageWriteFailed] ∧
      (viewOf pairContext (afterPair lostPut).stores (lostPut 1).documentId).objects ≠ [] ∧
      ¬ AllOrNothing pairContext lostPut pairFiles ⟨emptyStores, [], []⟩ (afterPair lostPut)) ∧
    (afterPair lostWrite).rejected =
        [RejectedUploadItem.new "b.txt".toList .authzSyncFailed] ∧
      (viewOf pairContext (afterPair lostWrite).stores (lostWrite 1).documentId).related = true ∧
      ¬ AllOrNothing pairContext lostWrite pairFiles ⟨emptyStores, [], []⟩
        (afterPair lostWrite) := by
  have hobject : (viewOf pairContext (afterPair lostPut).stores
      (lostPut 1).documentId).objects ≠ [] := by decide +kernel
  have htuple : (viewOf pairContext (afterPair lostWrite).stores
      (lostWrite 1).documentId).related = true := by decide +kernel
  refine ⟨⟨by decide +kernel, hobject, fun h => hobject ?_⟩, by decide +kernel, htuple,
    fun h => ?_⟩
  · exact congrArg FileView.objects (h.absent 1 _ rfl (by decide))
  · have hnone := congrArg FileView.related (h.absent 1 _ rfl (by decide))
    exact Bool.false_ne_true (hnone.symm.trans htuple)

end Pair

end GmragApi.Upload

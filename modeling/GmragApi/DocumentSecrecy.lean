import GmragApi.DocumentReads

/-! What a user reads of a workspace says nothing about the documents that are hidden from the
user: contents that differ only in these give the same answers. -/

namespace GmragApi.DocumentReads

open Citations (CitationHydrationRow hydrateCitations removeInOrder collectMap insertEntry)
open DocumentAcl

section Hidden

def isDenied : Except DocumentAclError Bool → Bool
  | .ok allowed => !allowed
  | .error _ => false

def isListed (s : Service) (userId : List Char) (id : Uuid) : Bool :=
  match collectViewableRestrictedDocumentIds uuidText s.client userId with
  | .ok ids => decide (id ∈ ids)
  | .error _ => false

/-- OpenFGA denies the user the document, in its checks and in its listings. -/
def hidden (s : Service) (userId : List Char) (d : DocumentRow) : Bool :=
  isDenied (canView s userId d) && !isListed s userId d.id

def shown (s : Service) (userId : List Char) (d : DocumentRow) : Bool := !hidden s userId d

/-- The id is that of a hidden document. -/
def ofHidden (s : Service) (userId : List Char) (db : Contents) (documentId : Uuid) : Bool :=
  db.documents.any fun d => d.id == documentId && hidden s userId d

/-- The tables without the hidden documents and what belongs to them. -/
def Contents.visibleTo (db : Contents) (s : Service) (userId : List Char) : Contents where
  documents := db.documents.filter (shown s userId)
  chunks := db.chunks.filter fun c => !ofHidden s userId db c.documentId
  jobs := db.jobs.filter fun j => !ofHidden s userId db j.documentId
  users := db.users
  objects := db.objects

/-- The contents agree on all that is not hidden; their rows stand in any order. -/
structure SameView (s : Service) (userId : List Char) (db db' : Contents) : Prop where
  documents : (db.visibleTo s userId).documents.Perm (db'.visibleTo s userId).documents
  chunks : (db.visibleTo s userId).chunks.Perm (db'.visibleTo s userId).chunks
  jobs : (db.visibleTo s userId).jobs.Perm (db'.visibleTo s userId).jobs
  users : db.users.Perm db'.users
  objects : ∀ d ∈ (db.visibleTo s userId).documents, db.objects d.objectKey = db'.objects d.objectKey

end Hidden

theorem Contents.WellFormed.document_eq {db : Contents} (h : db.WellFormed) {a b : DocumentRow}
    (ha : a ∈ db.documents) (hb : b ∈ db.documents) (heq : a.id = b.id) : a = b :=
  Query.keyedBy_of_nodup h.documentIds a ha b hb heq

section Rows

variable {s : Service} {userId : List Char} {db db' : Contents} {d : DocumentRow} {c : ChunkRow}
  {row : ChunkRow × DocumentRow}

theorem canView_of_hidden (h : hidden s userId d = true) : canView s userId d = .ok false := by
  have hdenied := (Bool.and_eq_true_iff.mp h).1
  cases hview : canView s userId d with
  | ok allowed =>
    rw [hview, isDenied, Bool.not_eq_true_eq_eq_false] at hdenied
    rw [hdenied]
  | error e =>
    rw [hview] at hdenied
    cases hdenied

theorem isRestricted_of_hidden (h : hidden s userId d = true) : d.accessMode.isRestricted = true := by
  have hview := canView_of_hidden h
  cases hmode : d.accessMode with
  | restricted => rfl
  | workspaceDefault =>
    rw [canView, hmode, canUserViewDocument_open] at hview
    cases hview

theorem notMem_listed_of_hidden (h : hidden s userId d = true) {ids : Finset Uuid}
    (hids : collectViewableRestrictedDocumentIds uuidText s.client userId = .ok ids) :
    d.id ∉ ids := by
  have hlisted := (Bool.and_eq_true_iff.mp h).2
  rw [isListed, hids] at hlisted
  simpa using hlisted

theorem shown_eq_false : shown s userId d = false ↔ hidden s userId d = true := by
  simp [shown]

/-- Documents have ids of their own, so the id of a document tells whether it is hidden. -/
theorem ofHidden_id (h : db.WellFormed) (hd : d ∈ db.documents) :
    ofHidden s userId db d.id = hidden s userId d := by
  rw [Bool.eq_iff_iff, ofHidden, List.any_eq_true]
  constructor
  · rintro ⟨e, he, heq⟩
    obtain ⟨hid, hhidden⟩ := Bool.and_eq_true_iff.mp heq
    rwa [h.document_eq he hd (beq_iff_eq.mp hid)] at hhidden
  · intro hhidden
    exact ⟨d, hd, by simp [hhidden]⟩

theorem SameView.symm (same : SameView s userId db db') : SameView s userId db' db where
  documents := same.documents.symm
  chunks := same.chunks.symm
  jobs := same.jobs.symm
  users := same.users.symm
  objects := fun d hd => (same.objects d (same.documents.mem_iff.mpr hd)).symm

theorem mem_visible_documents :
    d ∈ (db.visibleTo s userId).documents ↔ d ∈ db.documents ∧ shown s userId d = true :=
  List.mem_filter

theorem mem_joinedChunks : row ∈ joinedChunks db ↔
    row.1 ∈ db.chunks ∧ row.2 ∈ db.documents ∧ isChunkOf row.1 row.2 = true := Query.mem_join

theorem documentId_of_isChunkOf (h : isChunkOf c d = true) : c.documentId = d.id := by
  have hid := (Bool.and_eq_true_iff.mp h).1
  exact (beq_iff_eq.mp hid).symm

/-- The joined rows of documents that are not hidden are the same in both. -/
theorem SameView.joinedChunks (same : SameView s userId db db') (h : db.WellFormed)
    (h' : db'.WellFormed) :
    ((joinedChunks db).filter fun row => shown s userId row.2).Perm
      ((joinedChunks db').filter fun row => shown s userId row.2) := by
  have herase : ∀ {db : Contents}, db.WellFormed →
      Query.join isChunkOf (db.visibleTo s userId).chunks (db.visibleTo s userId).documents =
        (DocumentReads.joinedChunks db).filter fun row => shown s userId row.2 := by
    intro db h
    refine Query.join_filter fun c hc d hd hof => ?_
    rw [documentId_of_isChunkOf hof, ofHidden_id h hd]
    rfl
  rw [← herase h, ← herase h']
  exact Query.join_perm same.chunks same.documents

theorem joinedChunks_keyed (h : db.WellFormed) :
    Query.KeyedBy (fun row : ChunkRow × DocumentRow => row.1.id) (joinedChunks db) := by
  intro a ha b hb heq
  obtain ⟨hac, had, haof⟩ := mem_joinedChunks.mp ha
  obtain ⟨hbc, hbd, hbof⟩ := mem_joinedChunks.mp hb
  have hchunk := Query.keyedBy_of_nodup h.chunkIds a.1 hac b.1 hbc heq
  have hdocument : a.2 = b.2 := by
    refine h.document_eq had hbd ?_
    rw [← documentId_of_isChunkOf haof, ← documentId_of_isChunkOf hbof, hchunk]
  exact Prod.ext hchunk hdocument

/-- A document that is found is the same in both, unless it is hidden. -/
theorem SameView.fetchDocument (same : SameView s userId db db') (h : db.WellFormed)
    (h' : db'.WellFormed) (workspaceId documentId : Uuid) :
    (fetchDocument db workspaceId documentId).filter (shown s userId) =
      (fetchDocument db' workspaceId documentId).filter (shown s userId) := by
  have hone : ∀ {db : Contents}, db.WellFormed → ∀ a ∈ db.documents, ∀ b ∈ db.documents,
      (a.id == documentId && a.workspaceId == workspaceId) = true →
        (b.id == documentId && b.workspaceId == workspaceId) = true → a = b := by
    intro db h a ha b hb hpa hpb
    simp only [Bool.and_eq_true, beq_iff_eq] at hpa hpb
    exact h.document_eq ha hb (hpa.1.trans hpb.1.symm)
  unfold DocumentReads.fetchDocument
  rw [← Query.find?_filter_eq (hone h), ← Query.find?_filter_eq (hone h')]
  refine Query.find?_congr (fun a ha b hb => ?_) same.documents
  exact hone h a (List.mem_of_mem_filter ha) b (List.mem_of_mem_filter hb)

theorem SameView.find_joined (same : SameView s userId db db') (h : db.WellFormed)
    (h' : db'.WellFormed) (chunkId : Uuid) {p : ChunkRow × DocumentRow → Bool}
    (hp : ∀ row, p row = true → row.1.id = chunkId) :
    ((DocumentReads.joinedChunks db).find? p).filter (fun row => shown s userId row.2) =
      ((DocumentReads.joinedChunks db').find? p).filter fun row => shown s userId row.2 := by
  have hone : ∀ {db : Contents}, db.WellFormed → ∀ a ∈ DocumentReads.joinedChunks db,
      ∀ b ∈ DocumentReads.joinedChunks db, p a = true → p b = true → a = b := by
    intro db h a ha b hb hpa hpb
    exact joinedChunks_keyed h a ha b hb ((hp a hpa).trans (hp b hpb).symm)
  rw [← Query.find?_filter_eq (hone h), ← Query.find?_filter_eq (hone h')]
  refine Query.find?_congr (fun a ha b hb => ?_) (same.joinedChunks h h')
  exact hone h a (List.mem_of_mem_filter ha) b (List.mem_of_mem_filter hb)

/-- The chunks of a document that is not hidden. -/
theorem SameView.chunks_of (same : SameView s userId db db') (h : db.WellFormed)
    (h' : db'.WellFormed) (hd : d ∈ db.documents) (hd' : d ∈ db'.documents)
    (hshown : shown s userId d = true) {p : ChunkRow → Bool}
    (hp : ∀ c, p c = true → c.documentId = d.id) :
    (db.chunks.filter p).Perm (db'.chunks.filter p) := by
  have herase : ∀ {db : Contents}, db.WellFormed → d ∈ db.documents →
      (db.visibleTo s userId).chunks.filter p = db.chunks.filter p := by
    intro db h hd
    refine Query.filter_filter_of_imp fun c _ hc => ?_
    rw [hp c hc, ofHidden_id h hd]
    exact hshown
  rw [← herase h hd, ← herase h' hd']
  exact same.chunks.filter p

theorem SameView.jobs_of (same : SameView s userId db db') (h : db.WellFormed)
    (h' : db'.WellFormed) (hd : d ∈ db.documents) (hd' : d ∈ db'.documents)
    (hshown : shown s userId d = true) {p : JobRow → Bool}
    (hp : ∀ j, p j = true → j.documentId = d.id) :
    (db.jobs.filter p).Perm (db'.jobs.filter p) := by
  have herase : ∀ {db : Contents}, db.WellFormed → d ∈ db.documents →
      (db.visibleTo s userId).jobs.filter p = db.jobs.filter p := by
    intro db h hd
    refine Query.filter_filter_of_imp fun j _ hj => ?_
    rw [hp j hj, ofHidden_id h hd]
    exact hshown
  rw [← herase h hd, ← herase h' hd']
  exact same.jobs.filter p

end Rows

section Directory

variable {s : Service} {userId : List Char} {db db' : Contents} {d : DocumentRow}

theorem max?_perm {xs ys : List Int} (h : xs.Perm ys) : xs.max? = ys.max? := by
  refine Option.ext fun a => ?_
  rw [List.max?_eq_some_iff, List.max?_eq_some_iff, h.mem_iff]
  simp only [h.mem_iff]

theorem SameView.directoryItem (same : SameView s userId db db') (h : db.WellFormed)
    (h' : db'.WellFormed) (hd : d ∈ db.documents) (hd' : d ∈ db'.documents)
    (hshown : shown s userId d = true) : directoryItem db d = directoryItem db' d := by
  have hcount : (db.chunks.countP fun c => c.documentId == d.id && c.workspaceId == d.workspaceId) =
      db'.chunks.countP fun c => c.documentId == d.id && c.workspaceId == d.workspaceId := by
    rw [List.countP_eq_length_filter, List.countP_eq_length_filter]
    refine (same.chunks_of h h' hd hd' hshown fun c hc => ?_).length_eq
    exact beq_iff_eq.mp (Bool.and_eq_true_iff.mp hc).1
  have hupdated : updatedAt db d = updatedAt db' d := by
    have hjobs := same.jobs_of h h' hd hd' hshown
      (p := fun j => j.documentId == d.id && j.workspaceId == d.workspaceId)
      fun j hj => beq_iff_eq.mp (Bool.and_eq_true_iff.mp hj).1
    have hmax := max?_perm (hjobs.map JobRow.updatedAt)
    unfold updatedAt
    rw [hmax]
  have huser : (db.users.find? fun u => u.id == d.uploadedBy) =
      db'.users.find? fun u => u.id == d.uploadedBy := by
    refine Query.find?_congr (fun a ha b hb hpa hpb => ?_) same.users
    exact Query.keyedBy_of_nodup h.userIds a ha b hb ((beq_iff_eq.mp hpa).trans (beq_iff_eq.mp hpb).symm)
  unfold DocumentReads.directoryItem
  rw [hcount, hupdated, huser]

theorem newestFirst_keyed (h : db.WellFormed) : Query.KeyedBy newestFirst db.documents := by
  intro a ha b hb heq
  have hid : a.id.bits.toNat = b.id.bits.toNat :=
    OrderDual.toDual_inj.mp (congrArg Prod.snd (toLex.injective heq))
  exact h.document_eq ha hb (Uuid.toNat_inj.mp hid)

/-- A filter that lets no hidden document through. -/
def Discreet (s : Service) (userId : List Char) (f : DirectoryFilter) : Prop :=
  ∀ d, hidden s userId d = true → d.id ∉ f.visibleRestrictedIds

theorem Discreet.shown_of_selects {f : DirectoryFilter} (hf : Discreet s userId f)
    {ilike : List Char → List Char → Bool} (h : f.selects ilike d = true) :
    shown s userId d = true := by
  cases hshown : shown s userId d with
  | true => rfl
  | false =>
    have hhidden := shown_eq_false.mp hshown
    simp only [DirectoryFilter.selects, Bool.and_eq_true, Bool.or_eq_true, decide_eq_true_eq,
      Bool.not_eq_true_eq_eq_false] at h
    obtain ⟨⟨⟨⟨-, h | h⟩, -⟩, -⟩, -⟩ := h
    · rw [isRestricted_of_hidden hhidden] at h
      cases h
    · exact absurd h (hf d hhidden)

theorem SameView.selected (same : SameView s userId db db') {f : DirectoryFilter}
    (hf : Discreet s userId f) (ilike : List Char → List Char → Bool) :
    (db.documents.filter (f.selects ilike)).Perm (db'.documents.filter (f.selects ilike)) := by
  have herase : ∀ db : Contents, (db.visibleTo s userId).documents.filter (f.selects ilike) =
      db.documents.filter (f.selects ilike) :=
    fun db => Query.filter_filter_of_imp fun d _ hd => hf.shown_of_selects hd
  rw [← herase db, ← herase db']
  exact same.documents.filter _

theorem SameView.directoryRows (same : SameView s userId db db') (h : db.WellFormed)
    {f : DirectoryFilter} (hf : Discreet s userId f) (ilike : List Char → List Char → Bool) :
    directoryRows db ilike f = directoryRows db' ilike f :=
  Query.orderBy_congr ((newestFirst_keyed h).subset fun _ => List.mem_of_mem_filter)
    (same.selected hf ilike)

theorem SameView.fetchDocuments (same : SameView s userId db db') (h : db.WellFormed)
    (h' : db'.WellFormed) {f : DirectoryFilter} (hf : Discreet s userId f)
    (ilike : List Char → List Char → Bool) (limit offset : Int) :
    fetchDocuments db ilike f limit offset = fetchDocuments db' ilike f limit offset := by
  unfold DocumentReads.fetchDocuments
  rw [same.directoryRows h hf ilike]
  refine List.map_congr_left fun d hd => ?_
  have hrow : d ∈ DocumentReads.directoryRows db' ilike f :=
    List.mem_of_mem_drop (List.mem_of_mem_take hd)
  obtain ⟨hd', hselects⟩ := List.mem_filter.mp (Query.mem_orderBy.mp hrow)
  have hd := (same.selected hf ilike).mem_iff.mpr (List.mem_filter.mpr ⟨hd', hselects⟩)
  exact same.directoryItem h h' (List.mem_of_mem_filter hd) hd' (hf.shown_of_selects hselects)

theorem SameView.listDocumentDirectory (same : SameView s userId db db') (h : db.WellFormed)
    (h' : db'.WellFormed) {f : DirectoryFilter} (hf : Discreet s userId f)
    (ilike : List Char → List Char → Bool) (limit offset : Int) :
    listDocumentDirectory db ilike f limit offset =
      listDocumentDirectory db' ilike f limit offset := by
  unfold DocumentReads.listDocumentDirectory
  rw [same.fetchDocuments h h' hf ilike, List.countP_eq_length_filter,
    List.countP_eq_length_filter, (same.selected hf ilike).length_eq]

/-- The directory finds the document of the id, if the workspace has it. -/
theorem getDocumentDirectory_eq (h : db.WellFormed) (ilike : List Char → List Char → Bool)
    (workspaceId documentId : Uuid) :
    getDocumentDirectory db ilike workspaceId documentId =
      (DocumentReads.fetchDocument db workspaceId documentId).map (DocumentReads.directoryItem db) := by
  have hone : ∀ a ∈ db.documents, ∀ b ∈ db.documents,
      (a.id == documentId && a.workspaceId == workspaceId) = true →
        (b.id == documentId && b.workspaceId == workspaceId) = true → a = b := by
    intro a ha b hb hpa hpb
    simp only [Bool.and_eq_true, beq_iff_eq] at hpa hpb
    exact h.document_eq ha hb (hpa.1.trans hpb.1.symm)
  have hselects : (db.documents.filter
      ((⟨workspaceId, {documentId}, none, none, some documentId⟩ : DirectoryFilter).selects
        ilike)) = (fetchDocument db workspaceId documentId).toList := by
    unfold fetchDocument
    rw [← Query.filter_eq_find? hone (List.Nodup.of_map _ h.documentIds)]
    refine List.filter_congr fun d _ => ?_
    rw [Bool.eq_iff_iff]
    simp only [DirectoryFilter.selects, Bool.and_eq_true, Bool.or_eq_true, beq_iff_eq,
      Option.all_none, Option.all_some, Finset.mem_singleton, decide_eq_true_eq]
    tauto
  unfold getDocumentDirectory fetchDocuments directoryRows
  rw [hselects]
  cases hfetch : fetchDocument db workspaceId documentId with
  | none => simp [Query.orderBy, Query.page]
  | some d => simp [Query.orderBy, Query.page]

end Directory

section Requests

variable {s : Service} {userId : List Char} {db db' : Contents} {d : DocumentRow}
  {workspaceId documentId chunkId : Uuid} {found found' : Option DocumentRow}

/-- Nothing is found, or only what is hidden. -/
def Unseen (s : Service) (userId : List Char) {β : Type} (document : β → DocumentRow)
    (found : Option β) : Prop :=
  ∀ b, found = some b → hidden s userId (document b) = true

/-- Two answers of the tables that agree on what is not hidden: both are the same row, or neither
has anything to show. -/
theorem filter_shown_cases {β : Type} (document : β → DocumentRow) {found found' : Option β}
    (h : found.filter (fun b => shown s userId (document b)) =
      found'.filter fun b => shown s userId (document b)) :
    (∃ b, found = some b ∧ found' = some b ∧ shown s userId (document b) = true) ∨
      (Unseen s userId document found ∧ Unseen s userId document found') := by
  have hunseen : ∀ found : Option β, found.filter (fun b => shown s userId (document b)) = none →
      Unseen s userId document found := by
    rintro found hnone b rfl
    cases hshown : shown s userId (document b) with
    | true => simp [hshown] at hnone
    | false => exact shown_eq_false.mp hshown
  cases hseen : found.filter fun b => shown s userId (document b) with
  | none => exact .inr ⟨hunseen found hseen, hunseen found' (h ▸ hseen)⟩
  | some b =>
    obtain ⟨hfound, hshown⟩ := Option.filter_eq_some_iff.mp hseen
    obtain ⟨hfound', -⟩ := Option.filter_eq_some_iff.mp (h.symm.trans hseen)
    exact .inl ⟨b, hfound, hfound', hshown⟩

theorem ifViewable_hidden (h : hidden s userId d = true) (reply : Reply) :
    ifViewable s userId d reply = .status 404 := by
  rw [ifViewable, canView_of_hidden h]

theorem getDocumentPreview_unseen
    (hmember : requireRelation s userId .member (workspaceObject workspaceId) = .ok ())
    (h : Unseen s userId id (fetchDocument db workspaceId documentId)) :
    getDocumentPreview s db userId workspaceId documentId = .status 404 := by
  unfold getDocumentPreview
  rw [hmember]
  cases hfetch : fetchDocument db workspaceId documentId with
  | none => rfl
  | some d => exact ifViewable_hidden (h d hfetch) _

theorem getDocumentFile_unseen
    (hmember : requireRelation s userId .member (workspaceObject workspaceId) = .ok ())
    (h : Unseen s userId id (fetchDocument db workspaceId documentId)) :
    getDocumentFile s db userId workspaceId documentId = .status 404 := by
  unfold getDocumentFile
  rw [hmember]
  cases hfetch : fetchDocument db workspaceId documentId with
  | none => rfl
  | some d => exact ifViewable_hidden (h d hfetch) _

theorem getDocumentChunk_unseen
    (hmember : requireRelation s userId .member (workspaceObject workspaceId) = .ok ())
    (h : Unseen s userId Prod.snd (fetchWorkspaceChunkWithAcl db workspaceId chunkId)) :
    getDocumentChunk s db userId workspaceId chunkId = .status 404 := by
  unfold getDocumentChunk
  rw [hmember]
  cases hfetch : fetchWorkspaceChunkWithAcl db workspaceId chunkId with
  | none => rfl
  | some row => exact ifViewable_hidden (h row hfetch) _

theorem fetchDocument_spec (h : fetchDocument db workspaceId documentId = some d) :
    d ∈ db.documents ∧ d.id = documentId ∧ d.workspaceId = workspaceId := by
  have hfound := List.find?_some h
  rw [Bool.and_eq_true, beq_iff_eq, beq_iff_eq] at hfound
  exact ⟨List.mem_of_find?_eq_some h, hfound⟩

/-- How the status of a document that is there is answered. -/
def statusReply (s : Service) (db : Contents) (userId : List Char) (d : DocumentRow) : Reply :=
  match canView s userId d with
  | .ok true => .json (.status (directoryItem db d).intoStatus)
  | .ok false => .status 404
  | .error e => aclErrorReply e

theorem getDocumentStatus_eq (h : db.WellFormed)
    (hmember : requireRelation s userId .member (workspaceObject workspaceId) = .ok ()) :
    getDocumentStatus s db userId workspaceId documentId =
      (fetchDocument db workspaceId documentId).elim (.status 404) (statusReply s db userId) := by
  unfold getDocumentStatus
  rw [hmember, getDocumentDirectory_eq h]
  cases hfetch : fetchDocument db workspaceId documentId with
  | none => rfl
  | some d =>
    obtain ⟨-, rfl, -⟩ := fetchDocument_spec hfetch
    rfl

theorem getDocumentStatus_unseen (hdb : db.WellFormed)
    (hmember : requireRelation s userId .member (workspaceObject workspaceId) = .ok ())
    (h : Unseen s userId id (fetchDocument db workspaceId documentId)) :
    getDocumentStatus s db userId workspaceId documentId = .status 404 := by
  rw [getDocumentStatus_eq hdb hmember]
  cases hfetch : fetchDocument db workspaceId documentId with
  | none => rfl
  | some d =>
    have hview := canView_of_hidden (h d hfetch)
    simp only [id] at hview
    simp only [Option.elim_some, statusReply, hview]

variable (same : SameView s userId db db') (h : db.WellFormed) (h' : db'.WellFormed)

include same h h'

theorem getDocumentPreview_same :
    getDocumentPreview s db userId workspaceId documentId =
      getDocumentPreview s db' userId workspaceId documentId := by
  cases hmember : requireRelation s userId .member (workspaceObject workspaceId) with
  | error e => simp only [getDocumentPreview, hmember]
  | ok _ =>
    rcases filter_shown_cases id (same.fetchDocument h h' workspaceId documentId) with
      ⟨d, hfetch, hfetch', hshown⟩ | ⟨hunseen, hunseen'⟩
    · obtain ⟨hd, rfl, rfl⟩ := fetchDocument_spec hfetch
      have hd' := (fetchDocument_spec hfetch').1
      have hchunks : previewChunks db d.workspaceId d.id = previewChunks db' d.workspaceId d.id := by
        refine congrArg _ (Query.orderBy_congr ?_ (same.chunks_of h h' hd hd' hshown ?_))
        · intro a ha b hb heq
          obtain ⟨ha, hof⟩ := List.mem_filter.mp ha
          obtain ⟨hb, hof'⟩ := List.mem_filter.mp hb
          simp only [Bool.and_eq_true, beq_iff_eq] at hof hof'
          refine Query.keyedBy_of_nodup h.chunkPositions a ha b hb ?_
          simp only [ChunkRow.position, hof, hof', heq]
        · exact fun c hc => beq_iff_eq.mp (Bool.and_eq_true_iff.mp hc).2
      simp only [getDocumentPreview, hmember, hfetch, hfetch', fetchDocumentPreview, hchunks]
    · rw [getDocumentPreview_unseen hmember hunseen, getDocumentPreview_unseen hmember hunseen']

theorem getDocumentFile_same :
    getDocumentFile s db userId workspaceId documentId =
      getDocumentFile s db' userId workspaceId documentId := by
  cases hmember : requireRelation s userId .member (workspaceObject workspaceId) with
  | error e => simp only [getDocumentFile, hmember]
  | ok _ =>
    rcases filter_shown_cases id (same.fetchDocument h h' workspaceId documentId) with
      ⟨d, hfetch, hfetch', hshown⟩ | ⟨hunseen, hunseen'⟩
    · have hd := (fetchDocument_spec hfetch).1
      have hobject := same.objects d (mem_visible_documents.mpr ⟨hd, hshown⟩)
      simp only [getDocumentFile, hmember, hfetch, hfetch', serveFile, hobject]
    · rw [getDocumentFile_unseen hmember hunseen, getDocumentFile_unseen hmember hunseen']

theorem getDocumentChunk_same :
    getDocumentChunk s db userId workspaceId chunkId =
      getDocumentChunk s db' userId workspaceId chunkId := by
  cases hmember : requireRelation s userId .member (workspaceObject workspaceId) with
  | error e => simp only [getDocumentChunk, hmember]
  | ok _ =>
    have hfind := same.find_joined h h' chunkId
      (p := fun row => row.1.id == chunkId && row.1.workspaceId == workspaceId)
      fun row hrow => beq_iff_eq.mp (Bool.and_eq_true_iff.mp hrow).1
    rcases filter_shown_cases Prod.snd hfind with
      ⟨row, hfetch, hfetch', -⟩ | ⟨hunseen, hunseen'⟩
    · have hrow : fetchWorkspaceChunkWithAcl db workspaceId chunkId = some row := hfetch
      have hrow' : fetchWorkspaceChunkWithAcl db' workspaceId chunkId = some row := hfetch'
      simp only [getDocumentChunk, hmember, hrow, hrow']
    · rw [getDocumentChunk_unseen hmember hunseen, getDocumentChunk_unseen hmember hunseen']

theorem getDocumentStatus_same :
    getDocumentStatus s db userId workspaceId documentId =
      getDocumentStatus s db' userId workspaceId documentId := by
  cases hmember : requireRelation s userId .member (workspaceObject workspaceId) with
  | error e => simp only [getDocumentStatus, hmember]
  | ok _ =>
    rcases filter_shown_cases id (same.fetchDocument h h' workspaceId documentId) with
      ⟨d, hfetch, hfetch', hshown⟩ | ⟨hunseen, hunseen'⟩
    · have hd := (fetchDocument_spec hfetch).1
      have hd' := (fetchDocument_spec hfetch').1
      have hreply : statusReply s db userId d = statusReply s db' userId d := by
        simp only [statusReply, same.directoryItem h h' hd hd' hshown]
      rw [getDocumentStatus_eq h hmember, getDocumentStatus_eq h' hmember, hfetch, hfetch']
      exact hreply
    · rw [getDocumentStatus_unseen h hmember hunseen, getDocumentStatus_unseen h' hmember hunseen']

theorem listDocuments_same (params : ListDocumentsQuery) :
    listDocuments s db userId workspaceId params =
      listDocuments s db' userId workspaceId params := by
  unfold listDocuments
  cases hlisted : collectViewableRestrictedDocumentIds uuidText s.client userId with
  | error e => rfl
  | ok visible =>
    have hdiscreet : ∀ query status,
        Discreet s userId ⟨workspaceId, visible, query, status, none⟩ :=
      fun _ _ _ hhidden => notMem_listed_of_hidden hhidden hlisted
    simp only [same.listDocumentDirectory h h' (hdiscreet _ _)]

end Requests

section Sources

variable {s : Service} {userId : List Char} {db db' : Contents} {workspaceId : Uuid}

section Hydration

variable {β : Type} {key : β → Uuid} {entries entries' : List β}

theorem collectMap_perm {values : List β} (h : (values.map key).Nodup) :
    (collectMap key values).Perm values :=
  (List.perm_ext_iff_of_nodup (List.Nodup.of_map _ (Citations.collectMap_nodup values))
    (List.Nodup.of_map _ h)).mpr fun _ => Citations.mem_collectMap h

/-- What is taken out of a map does not depend on an order of its entries. -/
theorem removeInOrder_congr (hkey : Query.KeyedBy key entries) (h : entries.Perm entries')
    (ids : List Uuid) (position : Nat) :
    removeInOrder key position ids entries = removeInOrder key position ids entries' := by
  induction ids generalizing position entries entries' with
  | nil => rfl
  | cons id ids ih =>
    have hfind : entries.find? (key · == id) = entries'.find? (key · == id) :=
      Query.find?_congr (fun a ha b hb hpa hpb =>
        hkey a ha b hb ((beq_iff_eq.mp hpa).trans (beq_iff_eq.mp hpb).symm)) h
    have hrest := ih (hkey.subset fun _ => List.mem_of_mem_filter) (h.filter (key · != id))
      (position + 1)
    cases hentry : entries.find? (key · == id) with
    | none =>
      rw [hentry] at hfind
      simp only [removeInOrder, hentry, ← hfind, ih hkey h (position + 1)]
    | some value =>
      rw [hentry] at hfind
      simp only [removeInOrder, hentry, ← hfind, hrest]

theorem hydrateCitations_congr {rows rows' : List CitationHydrationRow}
    (hkey : (rows.map CitationHydrationRow.chunkId).Nodup) (h : rows.Perm rows')
    (allowedIds : List Uuid) (selectSnippet : List Char → List Char) :
    hydrateCitations rows allowedIds selectSnippet =
      hydrateCitations rows' allowedIds selectSnippet := by
  have hkey' : (rows'.map CitationHydrationRow.chunkId).Nodup := (h.map _).nodup_iff.mp hkey
  have hperm := (collectMap_perm hkey).trans (h.trans (collectMap_perm hkey').symm)
  have hkeyed : Query.KeyedBy CitationHydrationRow.chunkId
      (Citations.collectMap CitationHydrationRow.chunkId rows) :=
    Query.keyedBy_of_nodup (Citations.collectMap_nodup rows)
  unfold hydrateCitations
  rw [removeInOrder_congr hkeyed hperm]

end Hydration

theorem chunkOfCitation_eq (db : Contents) (workspaceId citation : Uuid) :
    chunkOfCitation db workspaceId citation = (joinedChunks db).find? fun row =>
      row.1.workspaceId == workspaceId && row.1.id == citation := by
  unfold chunkOfCitation
  rw [List.find?_filter]
  simp only [Bool.decide_and, Bool.decide_eq_true]

theorem shown_of_canView {d : DocumentRow} (h : canView s userId d = .ok true) :
    shown s userId d = true := by
  cases hshown : shown s userId d with
  | true => rfl
  | false =>
    rw [canView_of_hidden (shown_eq_false.mp hshown)] at h
    cases h

theorem filterCitationIdsForUser_shown {citations allowed : List Uuid}
    (h : filterCitationIdsForUser s db workspaceId userId citations = .ok allowed) :
    ∀ id ∈ allowed, ∃ row, chunkOfCitation db workspaceId id = some row ∧
      shown s userId row.2 = true := by
  induction citations generalizing allowed with
  | nil =>
    cases h
    exact fun _ hid => absurd hid List.not_mem_nil
  | cons citation rest ih =>
    rw [filterCitationIdsForUser] at h
    cases hrow : chunkOfCitation db workspaceId citation with
    | none =>
      simp only [hrow] at h
      exact ih h
    | some row =>
      simp only [hrow] at h
      cases hview : canView s userId row.2 with
      | error e =>
        simp only [hview] at h
        cases h
      | ok viewable =>
        cases viewable with
        | false =>
          simp only [hview] at h
          exact ih h
        | true =>
          simp only [hview] at h
          cases hothers : filterCitationIdsForUser s db workspaceId userId rest with
          | error e =>
            simp only [hothers, Except.map] at h
            cases h
          | ok others =>
            simp only [hothers, Except.map] at h
            cases h
            intro id hid
            rcases List.mem_cons.mp hid with rfl | hid
            · exact ⟨row, hrow, shown_of_canView hview⟩
            · exact ih hothers id hid

theorem joinedChunks_nodup (h : db.WellFormed) :
    ((joinedChunks db).map fun row => row.1.id).Nodup := by
  have hrows : (joinedChunks db).Nodup :=
    Query.join_nodup (List.Nodup.of_map _ h.chunkIds) (List.Nodup.of_map _ h.documentIds)
  exact hrows.map_on fun a ha b hb heq => joinedChunks_keyed h a ha b hb heq

section Same

variable (same : SameView s userId db db') (h : db.WellFormed) (h' : db'.WellFormed)

include same h h'

theorem filterCitationIdsForUser_same (citations : List Uuid) :
    filterCitationIdsForUser s db workspaceId userId citations =
      filterCitationIdsForUser s db' workspaceId userId citations := by
  induction citations with
  | nil => rfl
  | cons citation rest ih =>
    have hfind := same.find_joined h h' citation
      (p := fun row => row.1.workspaceId == workspaceId && row.1.id == citation)
      fun row hrow => beq_iff_eq.mp (Bool.and_eq_true_iff.mp hrow).2
    rw [← chunkOfCitation_eq, ← chunkOfCitation_eq] at hfind
    rcases filter_shown_cases Prod.snd hfind with
      ⟨row, hrow, hrow', -⟩ | ⟨hunseen, hunseen'⟩
    · simp only [filterCitationIdsForUser, hrow, hrow', ih]
    · have hskip : ∀ {db : Contents}, Unseen s userId Prod.snd
          (chunkOfCitation db workspaceId citation) →
          filterCitationIdsForUser s db workspaceId userId (citation :: rest) =
            filterCitationIdsForUser s db workspaceId userId rest := by
        intro db hunseen
        cases hrow : chunkOfCitation db workspaceId citation with
        | none => simp only [filterCitationIdsForUser, hrow]
        | some row =>
          have hview := canView_of_hidden (hunseen row hrow)
          simp only [filterCitationIdsForUser, hrow, hview]
      rw [hskip hunseen, hskip hunseen', ih]

theorem hydrate_same {allowed : List Uuid}
    (hallowed : ∀ id ∈ allowed, ∃ row, chunkOfCitation db workspaceId id = some row ∧
      shown s userId row.2 = true)
    (hallowed' : ∀ id ∈ allowed, ∃ row, chunkOfCitation db' workspaceId id = some row ∧
      shown s userId row.2 = true) (query : Option (List Char)) :
    hydrate s db workspaceId allowed query = hydrate s db' workspaceId allowed query := by
  have herase : ∀ {db : Contents}, db.WellFormed →
      (∀ id ∈ allowed, ∃ row, chunkOfCitation db workspaceId id = some row ∧
        shown s userId row.2 = true) →
      ((joinedChunks db).filter fun row => shown s userId row.2).filter (fun row =>
          row.1.workspaceId == workspaceId && decide (row.1.id ∈ allowed)) =
        (joinedChunks db).filter fun row =>
          row.1.workspaceId == workspaceId && decide (row.1.id ∈ allowed) := by
    intro db h hallowed
    refine Query.filter_filter_of_imp fun row hrow hof => ?_
    simp only [Bool.and_eq_true, beq_iff_eq, decide_eq_true_eq] at hof
    obtain ⟨row', hrow', hshown⟩ := hallowed _ hof.2
    rw [chunkOfCitation_eq] at hrow'
    have hid := List.find?_some hrow'
    simp only [Bool.and_eq_true, beq_iff_eq] at hid
    rwa [joinedChunks_keyed h row hrow row' (List.mem_of_find?_eq_some hrow') hid.2.symm]
  have hperm : (hydrationRows db workspaceId allowed).Perm
      (hydrationRows db' workspaceId allowed) := by
    unfold hydrationRows
    rw [← herase h hallowed, ← herase h' hallowed']
    exact ((same.joinedChunks h h').filter _).map _
  refine hydrateCitations_congr ?_ hperm allowed _
  unfold hydrationRows
  rw [List.map_map]
  exact (joinedChunks_nodup h).sublist (List.filter_sublist.map _)

/-- The same citations are allowed, and hydrated alike. -/
theorem hydrate_filtered_same (workspaceId : Uuid) (citations : List Uuid)
    (query : Option (List Char)) :
    (∃ e, filterCitationIdsForUser s db workspaceId userId citations = .error e ∧
        filterCitationIdsForUser s db' workspaceId userId citations = .error e) ∨
      ∃ allowed, filterCitationIdsForUser s db workspaceId userId citations = .ok allowed ∧
        filterCitationIdsForUser s db' workspaceId userId citations = .ok allowed ∧
        hydrate s db workspaceId allowed query = hydrate s db' workspaceId allowed query := by
  have hfilter : filterCitationIdsForUser s db workspaceId userId citations =
      filterCitationIdsForUser s db' workspaceId userId citations :=
    filterCitationIdsForUser_same same h h' citations
  cases hallowed : filterCitationIdsForUser s db workspaceId userId citations with
  | error e => exact .inl ⟨e, rfl, hfilter.symm.trans hallowed⟩
  | ok allowed =>
    have hallowed' := hfilter.symm.trans hallowed
    have hhydrate := hydrate_same same h h' (filterCitationIdsForUser_shown hallowed)
      (filterCitationIdsForUser_shown hallowed') query
    exact .inr ⟨allowed, rfl, hallowed', hhydrate⟩

theorem resolveWorkspaceCitations_same (payload : Option (List Uuid)) :
    resolveWorkspaceCitations s db userId workspaceId payload =
      resolveWorkspaceCitations s db' userId workspaceId payload := by
  unfold resolveWorkspaceCitations
  cases hpayload : parseCitationIds payload with
  | error e => rfl
  | ok chunkIds =>
    obtain ⟨e, hfail, hfail'⟩ | ⟨allowed, hallowed, hallowed', hhydrate⟩ :=
      hydrate_filtered_same same h h' workspaceId chunkIds none
    · simp only [hfail, hfail']
    · simp only [hallowed, hallowed', hhydrate]

end Same

end Sources

section Retrieval

variable {s : Service} {userId : List Char} {db db' : Contents} {workspaceId : Uuid}

/-- Rows of hidden documents are passed over. -/
theorem recheckRetrievedChunks_filter (rows : List (ChunkRow × DocumentRow)) :
    recheckRetrievedChunks s userId (rows.filter fun row => shown s userId row.2) =
      recheckRetrievedChunks s userId rows := by
  induction rows with
  | nil => rfl
  | cons row rows ih =>
    cases hshown : shown s userId row.2 with
    | true => simp only [List.filter_cons, hshown, if_true, recheckRetrievedChunks, ih]
    | false =>
      have hview := canView_of_hidden (shown_eq_false.mp hshown)
      simp only [List.filter_cons, hshown, Bool.false_eq_true, if_false, ih,
        recheckRetrievedChunks, hview]

theorem promptChunks_same (same : SameView s userId db db') (h : db.WellFormed)
    (h' : db'.WellFormed) (chunkIds : List Uuid) :
    promptChunks s db workspaceId userId chunkIds =
      promptChunks s db' workspaceId userId chunkIds := by
  have hkeyed : ∀ {db : Contents}, db.WellFormed →
      Query.KeyedBy (fun row : ChunkRow × DocumentRow => chunkIds.idxOf row.1.id)
        ((joinedChunks db).filter fun row =>
          row.1.workspaceId == workspaceId && decide (row.1.id ∈ chunkIds) &&
            isRetrievable row.2) := by
    intro db h a ha b hb heq
    obtain ⟨ha, hof⟩ := List.mem_filter.mp ha
    have hb := List.mem_of_mem_filter hb
    simp only [Bool.and_eq_true, decide_eq_true_eq] at hof
    exact joinedChunks_keyed h a ha b hb ((List.idxOf_inj hof.1.2).mp heq)
  unfold promptChunks
  rw [← recheckRetrievedChunks_filter, ← recheckRetrievedChunks_filter (fetchChunksByIds db' _ _)]
  unfold fetchChunksByIds
  rw [Query.filter_orderBy (hkeyed h), Query.filter_orderBy (hkeyed h'), List.filter_comm,
    List.filter_comm (l := joinedChunks db')]
  refine congrArg _ (Query.orderBy_congr ?_ ((same.joinedChunks h h').filter _))
  refine (hkeyed h).subset fun row hrow => ?_
  rw [List.filter_comm] at hrow
  exact List.mem_of_mem_filter hrow

theorem mem_aclRows {r : DocumentAclRow} :
    r ∈ fetchCompletedWorkspaceDocumentAclRows db workspaceId ↔
      ∃ d ∈ db.documents, (d.workspaceId == workspaceId && isRetrievable d) = true ∧
        r = ⟨d.id, d.accessMode⟩ := by
  simp only [fetchCompletedWorkspaceDocumentAclRows, List.mem_map, List.mem_filter, and_assoc,
    eq_comm]

theorem SameView.aclRow (same : SameView s userId db db') {d : DocumentRow}
    (hshown : shown s userId d = true) (hd : d ∈ db.documents)
    (hof : (d.workspaceId == workspaceId && isRetrievable d) = true) :
    (⟨d.id, d.accessMode⟩ : DocumentAclRow) ∈
      fetchCompletedWorkspaceDocumentAclRows db' workspaceId := by
  have hd' := same.documents.mem_iff.mp (mem_visible_documents.mpr ⟨hd, hshown⟩)
  exact mem_aclRows.mpr ⟨d, (mem_visible_documents.mp hd').1, hof, rfl⟩

/-- Once the listings are answered, the searches are limited to the same documents. -/
theorem searchedDocumentIds_same (same : SameView s userId db db') {ids : Finset Uuid}
    (hlisted : collectViewableRestrictedDocumentIds uuidText s.client userId = .ok ids) :
    searchedDocumentIds s db workspaceId userId = searchedDocumentIds s db' workspaceId userId := by
  have hsubset : ∀ {db db' : Contents}, SameView s userId db db' → ∀ id,
      id ∈ openIds (fetchCompletedWorkspaceDocumentAclRows db workspaceId) ∪
          ids.filter (· ∈ restrictedIds (fetchCompletedWorkspaceDocumentAclRows db workspaceId)) →
        id ∈ openIds (fetchCompletedWorkspaceDocumentAclRows db' workspaceId) ∪
          ids.filter
            (· ∈ restrictedIds (fetchCompletedWorkspaceDocumentAclRows db' workspaceId)) := by
    intro db db' same id hid
    rcases Finset.mem_union.mp hid with hid | hid
    · obtain ⟨r, hr, hmode, hid⟩ := mem_openIds.mp hid
      obtain ⟨d, hd, hof, rfl⟩ := mem_aclRows.mp hr
      have hshown : shown s userId d = true := by
        cases hshown : shown s userId d with
        | true => rfl
        | false =>
          have hrestricted := isRestricted_of_hidden (shown_eq_false.mp hshown)
          exact absurd (hmode.symm.trans hrestricted) Bool.false_ne_true
      exact Finset.mem_union_left _ (mem_openIds.mpr ⟨_, same.aclRow hshown hd hof, hmode, hid⟩)
    · obtain ⟨hid, hrestricted⟩ := Finset.mem_filter.mp hid
      obtain ⟨r, hr, hmode, rfl⟩ := mem_restrictedIds.mp hrestricted
      obtain ⟨d, hd, hof, rfl⟩ := mem_aclRows.mp hr
      have hshown : shown s userId d = true := by
        cases hshown : shown s userId d with
        | true => rfl
        | false => exact absurd hid (notMem_listed_of_hidden (shown_eq_false.mp hshown) hlisted)
      refine Finset.mem_union_right _ (Finset.mem_filter.mpr ⟨hid, ?_⟩)
      exact mem_restrictedIds.mpr ⟨_, same.aclRow hshown hd hof, hmode, rfl⟩
  unfold searchedDocumentIds
  rw [collectViewableDocumentIds_eq hlisted, collectViewableDocumentIds_eq hlisted]
  exact congrArg _ (Finset.ext fun id => ⟨hsubset same id, hsubset same.symm id⟩)

end Retrieval

section Answers

variable {s : Service} {userId : List Char} {db db' : Contents}

/-- The requests that name the document, or one of its chunks, find nothing. -/
structure NotFound (s : Service) (db : Contents) (userId : List Char) (workspaceId : Uuid)
    (d : DocumentRow) : Prop where
  preview : respond s db userId (.preview workspaceId d.id) = .error (fromStatus 404)
  file : respond s db userId (.file workspaceId d.id) = .error (fromStatus 404)
  status : respond s db userId (.status workspaceId d.id) = .error (fromStatus 404)
  chunk : ∀ c ∈ db.chunks, c.documentId = d.id →
    respond s db userId (.chunk workspaceId c.id) = .error (fromStatus 404)

theorem notFound_of_hidden (h : db.WellFormed) {d : DocumentRow} (hd : d ∈ db.documents)
    (hhidden : hidden s userId d = true) {workspaceId : Uuid}
    (hmember : requireRelation s userId .member (workspaceObject workspaceId) = .ok ()) :
    NotFound s db userId workspaceId d := by
  have hunseen : Unseen s userId id (fetchDocument db workspaceId d.id) := by
    intro e he
    obtain ⟨he, hid, -⟩ := fetchDocument_spec he
    rw [id, h.document_eq he hd hid]
    exact hhidden
  refine ⟨?_, ?_, ?_, fun c hc hof => ?_⟩
  · rw [respond, getDocumentPreview_unseen hmember hunseen]
    rfl
  · rw [respond, getDocumentFile_unseen hmember hunseen]
    rfl
  · rw [respond, getDocumentStatus_unseen h hmember hunseen]
    rfl
  · have hchunk : Unseen s userId Prod.snd (fetchWorkspaceChunkWithAcl db workspaceId c.id) := by
      intro row hrow
      have hid := List.find?_some hrow
      obtain ⟨hrowc, hrowd, hrowof⟩ := mem_joinedChunks.mp (List.mem_of_find?_eq_some hrow)
      simp only [Bool.and_eq_true, beq_iff_eq] at hid
      have heq := Query.keyedBy_of_nodup h.chunkIds row.1 hrowc c hc hid.1
      have hdocument := documentId_of_isChunkOf hrowof
      rw [heq, hof] at hdocument
      rw [h.document_eq hrowd hd hdocument.symm]
      exact hhidden
    rw [respond, getDocumentChunk_unseen hmember hchunk]
    rfl

theorem respond_same (same : SameView s userId db db') (h : db.WellFormed) (h' : db'.WellFormed)
    (request : Request) : respond s db userId request = respond s db' userId request := by
  unfold respond
  cases request with
  | chunk => simp only [getDocumentChunk_same same h h']
  | preview => simp only [getDocumentPreview_same same h h']
  | file => simp only [getDocumentFile_same same h h']
  | status => simp only [getDocumentStatus_same same h h']
  | list => simp only [listDocuments_same same h h']
  | citations => simp only [resolveWorkspaceCitations_same same h h']

/-- Contents that differ only in what is hidden from a user are the same to the user: every request
is answered alike, the prompt has the same chunks whatever the vector index returns, and, where
OpenFGA answers the listing of what the user may view, the searches are limited to the same
documents. A hidden document is one that is not there. -/
theorem hidden_documents_unobservable (h : db.WellFormed) (h' : db'.WellFormed)
    (same : SameView s userId db db') :
    (∀ request, respond s db userId request = respond s db' userId request) ∧
      (∀ workspaceId chunkIds, promptChunks s db workspaceId userId chunkIds =
        promptChunks s db' workspaceId userId chunkIds) ∧
      (∀ workspaceId ids,
        collectViewableRestrictedDocumentIds uuidText s.client userId = .ok ids →
          searchedDocumentIds s db workspaceId userId =
            searchedDocumentIds s db' workspaceId userId) ∧
      ∀ d ∈ db.documents, hidden s userId d = true → ∀ workspaceId,
        requireRelation s userId .member (workspaceObject workspaceId) = .ok () →
          NotFound s db userId workspaceId d :=
  ⟨respond_same same h h', fun _ => promptChunks_same same h h',
    fun _ _ hlisted => searchedDocumentIds_same same hlisted,
    fun _ hd hhidden _ hmember => notFound_of_hidden h hd hhidden hmember⟩

/-- A user who is a member everywhere and was given nothing. -/
def memberService : Service where
  client := ⟨fun _ relation _ => .ok (relation == .member), fun _ _ _ => .ok []⟩
  ilike := fun _ _ => true
  tables := ⟨Char.isAlphanum, fun c => [c.toLower]⟩
  header := Download.byteHeaderValue
  documentMaxUploadBytes := 50

def sampleDocument (n : Nat) (accessMode : DocumentAccessMode) : DocumentRow :=
  ⟨.ofNat n, .ofNat 1, ['a'], .completed, .done, none, none, n, some 3, accessMode, ['u'], none,
    ['k']⟩

def sampleChunk (n document : Nat) : ChunkRow := ⟨.ofNat n, .ofNat 1, .ofNat document, 0, ['t']⟩

def contentsWith (restricted : Nat) : Contents where
  documents := [sampleDocument restricted .restricted, sampleDocument 7 .workspaceDefault]
  chunks := [sampleChunk 20 7, sampleChunk (20 + restricted) restricted]
  jobs := [⟨.ofNat 1, .ofNat restricted, 5⟩]
  users := [⟨['u'], ['e']⟩]
  objects := fun _ => .found [1]

theorem hidden_documents_unobservable_sample :
    respond memberService (contentsWith 3) ['v'] (.list (.ofNat 1) ⟨none, none, none, none⟩) =
      respond memberService (contentsWith 4) ['v'] (.list (.ofNat 1) ⟨none, none, none, none⟩) := by
  have hwf : (contentsWith 3).WellFormed ∧ (contentsWith 4).WellFormed := by
    constructor <;> constructor <;> decide
  have hsame : SameView memberService ['v'] (contentsWith 3) (contentsWith 4) :=
    ⟨by decide, by decide, by decide, by decide, fun _ _ => rfl⟩
  exact (hidden_documents_unobservable hwf.1 hwf.2 hsame).1 _

end Answers

end GmragApi.DocumentReads

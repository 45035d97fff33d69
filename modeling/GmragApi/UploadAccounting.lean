import GmragApi.DocumentUpload
import Mathlib.Data.List.Perm.Basic

/-! Every file part of an accepted upload is listed once, among the documents or among the rejected
files; a stream that breaks off is told apart from one that ends only by what it lists. -/

namespace GmragApi.Upload

/-- What each member of a list gives to one of two lists, the other list left as it is. -/
theorem filterMap_append_perm {α β γ δ : Type} {f : α → Option β} {g : α → Option γ}
    {name : α → δ} {nameF : β → δ} {nameG : γ → δ}
    (h : ∀ a, (∃ b, f a = some b ∧ g a = none ∧ nameF b = name a) ∨
      ∃ c, f a = none ∧ g a = some c ∧ nameG c = name a) (l : List α) :
    ((l.filterMap f).map nameF ++ (l.filterMap g).map nameG).Perm (l.map name) := by
  induction l with
  | nil => exact .nil
  | cons a l ih =>
    rw [List.map_cons]
    rcases h a with ⟨b, hf, hg, hname⟩ | ⟨c, hf, hg, hname⟩
    · rw [List.filterMap_cons_some hf, List.filterMap_cons_none hg, List.map_cons, hname]
      exact ih.cons _
    · rw [List.filterMap_cons_none hf, List.filterMap_cons_some hg, List.map_cons, hname]
      exact List.perm_middle.trans (ih.cons _)

namespace Multipart

def fields : Multipart → List Field
  | finished => []
  | framingError => []
  | field f rest => f :: rest.fields

def endsInError : Multipart → Bool
  | finished => false
  | framingError => true
  | field _ rest => rest.endsInError

def fileParts (m : Multipart) : List Field := m.fields.filter Field.isFile

/-- No part asks for an access mode that there is not. -/
def modesValid (m : Multipart) : Prop :=
  ∀ f ∈ m.fields, f.isAccessMode → (readAccessMode f).isOk

end Multipart

section Reading

variable {service : Service} {m : Multipart} {s t : ReadState}

/-- The files of the parts that can be read. -/
def readableFile? (service : Service) (f : Field) : Option PendingUploadFile :=
  match readFile service f with
  | .ok file => some file
  | .error _ => none

def unreadableItem? (service : Service) (f : Field) : Option RejectedUploadItem :=
  match readFile service f with
  | .ok _ => none
  | .error reason => some (RejectedUploadItem.new f.uploadName reason)

theorem readFile_filename {f : Field} {file : PendingUploadFile}
    (h : readFile service f = .ok file) : file.filename = f.uploadName := by
  unfold readFile at h
  split at h
  next => cases h
  next =>
    split at h
    next => cases h
    next =>
      split at h
      next => cases h
      next =>
        cases h
        rfl

theorem readFile_partition (service : Service) (f : Field) :
    (∃ file, readableFile? service f = some file ∧ unreadableItem? service f = none ∧
      file.filename = f.uploadName) ∨
    ∃ item, readableFile? service f = none ∧ unreadableItem? service f = some item ∧
      item.filename = f.uploadName := by
  unfold readableFile? unreadableItem?
  cases h : readFile service f with
  | ok file => exact .inl ⟨file, rfl, rfl, readFile_filename h⟩
  | error reason => exact .inr ⟨_, rfl, rfl, rfl⟩

theorem Field.isFile_eq_false {f : Field} (h : f.isAccessMode = true) : f.isFile = false := by
  unfold Field.isAccessMode at h
  unfold Field.isFile
  rw [eq_of_beq h]
  decide

/-- What reading a part adds: nothing, a file, or an item about one. -/
theorem readField_ok {f : Field} (h : readField service s f = .ok t) :
    (f.isAccessMode → (readAccessMode f).isOk) ∧
      t.pendingFiles = s.pendingFiles ++
        ([f].filter Field.isFile).filterMap (readableFile? service) ∧
      t.rejected = s.rejected ++
        ([f].filter Field.isFile).filterMap (unreadableItem? service) := by
  unfold readField at h
  split at h
  next hmode =>
    have hother := Field.isFile_eq_false hmode
    split at h
    next => cases h
    next mode hread =>
      cases h
      refine ⟨fun _ => by rw [hread]; rfl, ?_, ?_⟩
      · rw [List.filter_cons_of_neg (by simp [hother]), List.filter_nil, List.filterMap_nil,
          List.append_nil]
      · rw [List.filter_cons_of_neg (by simp [hother]), List.filter_nil, List.filterMap_nil,
          List.append_nil]
  next hmode =>
    refine ⟨fun hm => absurd hm hmode, ?_⟩
    split at h
    next hfile =>
      rw [List.filter_cons_of_pos hfile, List.filter_nil]
      split at h
      next reason hread =>
        cases h
        rw [List.filterMap_cons_none (by rw [readableFile?, hread]),
          List.filterMap_cons_some (by rw [unreadableItem?, hread])]
        exact ⟨(List.append_nil _).symm, rfl⟩
      next file hread =>
        cases h
        rw [List.filterMap_cons_some (by rw [readableFile?, hread]),
          List.filterMap_cons_none (by rw [unreadableItem?, hread])]
        exact ⟨rfl, (List.append_nil _).symm⟩
    next hfile =>
      cases h
      rw [List.filter_cons_of_neg hfile, List.filter_nil]
      exact ⟨(List.append_nil _).symm, (List.append_nil _).symm⟩

theorem readField_returns (service : Service) (s : ReadState) {f : Field}
    (h : f.isAccessMode → (readAccessMode f).isOk) :
    ∃ t, readField service s f = .ok t := by
  unfold readField
  split
  next hmode =>
    have hok := h hmode
    split
    next e hread =>
      rw [hread] at hok
      cases hok
    next => exact ⟨_, rfl⟩
  next =>
    split
    next =>
      split
      next => exact ⟨_, rfl⟩
      next => exact ⟨_, rfl⟩
    next => exact ⟨_, rfl⟩

/-- The files that a whole request leaves to the second loop, and those it turns away at once. -/
theorem readMultipart_ok (h : readMultipart service s m = .ok t) :
    m.modesValid ∧
      t.pendingFiles = s.pendingFiles ++ m.fileParts.filterMap (readableFile? service) ∧
      t.rejected = s.rejected ++ m.fileParts.filterMap (unreadableItem? service) := by
  induction m generalizing s with
  | finished | framingError =>
    cases h
    exact ⟨fun f hf => (by cases hf), (List.append_nil _).symm, (List.append_nil _).symm⟩
  | field f rest ih =>
    rw [readMultipart] at h
    split at h
    next => cases h
    next u hu =>
      obtain ⟨hmode, hpending, hrejected⟩ := readField_ok hu
      obtain ⟨hmodes, hpending', hrejected'⟩ := ih h
      have hparts : (Multipart.field f rest).fileParts =
          [f].filter Field.isFile ++ rest.fileParts := by
        rw [Multipart.fileParts, Multipart.fields, ← List.singleton_append, List.filter_append]
        rfl
      refine ⟨fun g hg => ?_, ?_, ?_⟩
      · rcases List.mem_cons.mp hg with rfl | hg
        · exact hmode
        · exact hmodes g hg
      · rw [hparts, hpending', hpending, List.filterMap_append, List.append_assoc]
      · rw [hparts, hrejected', hrejected, List.filterMap_append, List.append_assoc]

theorem readMultipart_returns (service : Service) (s : ReadState) (h : m.modesValid) :
    ∃ t, readMultipart service s m = .ok t := by
  induction m generalizing s with
  | finished | framingError => exact ⟨s, rfl⟩
  | field f rest ih =>
    obtain ⟨u, hu⟩ := readField_returns service s (h f List.mem_cons_self)
    rw [readMultipart, hu]
    exact ih _ fun g hg => h g (List.mem_cons_of_mem _ hg)

end Reading

section Persisting

variable {ctx : UploadContext} {calls : Nat → FileCalls}

/-- Why a file of the second loop is rejected, if it is: the answers to its own calls decide. -/
def FileCalls.verdict (c : FileCalls) : Option UploadRejectionReason :=
  if !c.putObject.isOk then some .storageWriteFailed
  else if !(c.beginTransaction && c.insertDocument && c.enqueueJob && c.commit.isOk) then
    some .persistFailed
  else if !c.writeTuple.isOk then some .authzSyncFailed
  else none

def persistedItem? (calls : Nat → FileCalls) (entry : PendingUploadFile × Nat) :
    Option UploadedDocumentItem :=
  match (calls entry.2).verdict with
  | none => some ⟨(calls entry.2).documentId, entry.1.filename⟩
  | some _ => none

def unpersistedItem? (calls : Nat → FileCalls) (entry : PendingUploadFile × Nat) :
    Option RejectedUploadItem :=
  (calls entry.2).verdict.map (RejectedUploadItem.new entry.1.filename)

theorem persistFile_outcome (ctx : UploadContext) (c : FileCalls) (file : PendingUploadFile)
    (s : Stores) :
    (persistFile ctx c file s).2 =
      match c.verdict with
      | none => .ok ⟨c.documentId, file.filename⟩
      | some reason => .error reason := by
  unfold persistFile FileCalls.verdict CallReply.isOk
  dsimp only
  cases hput : c.putObject.value? with
  | none => rfl
  | some etag =>
    cases hbegin : c.beginTransaction <;> cases hinsert : c.insertDocument <;>
      cases henqueue : c.enqueueJob <;> cases hcommit : c.commit.value?.isSome <;>
      cases htuple : c.writeTuple.value?.isSome <;> rfl

theorem persistNext_accepted {c : FileCalls} {file : PendingUploadFile} {p : Progress}
    (h : c.verdict = none) :
    persistNext ctx c file p =
      ⟨(persistFile ctx c file p.stores).1, p.uploaded ++ [⟨c.documentId, file.filename⟩],
        p.rejected⟩ := by
  have hout := persistFile_outcome ctx c file p.stores
  rw [h] at hout
  unfold persistNext
  split
  next stores item hfile =>
    rw [hfile] at hout ⊢
    cases hout
    rfl
  next stores reason hfile =>
    rw [hfile] at hout
    cases hout

theorem persistNext_rejected {c : FileCalls} {file : PendingUploadFile} {p : Progress}
    {reason : UploadRejectionReason} (h : c.verdict = some reason) :
    persistNext ctx c file p =
      ⟨(persistFile ctx c file p.stores).1, p.uploaded,
        p.rejected ++ [RejectedUploadItem.new file.filename reason]⟩ := by
  have hout := persistFile_outcome ctx c file p.stores
  rw [h] at hout
  unfold persistNext
  split
  next stores item hfile =>
    rw [hfile] at hout
    cases hout
  next stores reason' hfile =>
    rw [hfile] at hout ⊢
    cases hout
    rfl

/-- The two lists that the loop leaves: each file is in one of them, under its own verdict. -/
theorem persistPendingFiles_lists (ctx : UploadContext) (calls : Nat → FileCalls) (i : Nat)
    (files : List PendingUploadFile) (p : Progress) :
    (persistPendingFiles ctx calls i files p).uploaded =
        p.uploaded ++ (files.zipIdx i).filterMap (persistedItem? calls) ∧
      (persistPendingFiles ctx calls i files p).rejected =
        p.rejected ++ (files.zipIdx i).filterMap (unpersistedItem? calls) := by
  induction files generalizing i p with
  | nil => exact ⟨(List.append_nil _).symm, (List.append_nil _).symm⟩
  | cons file rest ih =>
    obtain ⟨huploaded, hrejected⟩ := ih (i + 1) (persistNext ctx (calls i) file p)
    rw [persistPendingFiles, huploaded, hrejected, List.zipIdx_cons]
    cases hv : (calls i).verdict with
    | none =>
      have hup : persistedItem? calls (file, i) = some ⟨(calls i).documentId, file.filename⟩ := by
        rw [persistedItem?, hv]
      have hre : unpersistedItem? calls (file, i) = none := by
        rw [unpersistedItem?, hv]
        rfl
      rw [persistNext_accepted hv, List.filterMap_cons_some hup, List.filterMap_cons_none hre,
        List.append_assoc]
      exact ⟨rfl, rfl⟩
    | some reason =>
      have hup : persistedItem? calls (file, i) = none := by
        rw [persistedItem?, hv]
      have hre : unpersistedItem? calls (file, i) =
          some (RejectedUploadItem.new file.filename reason) := by
        rw [unpersistedItem?, hv]
        rfl
      rw [persistNext_rejected hv, List.filterMap_cons_none hup, List.filterMap_cons_some hre,
        List.append_assoc]
      exact ⟨rfl, rfl⟩

theorem persist_partition (calls : Nat → FileCalls) (entry : PendingUploadFile × Nat) :
    (∃ item, persistedItem? calls entry = some item ∧ unpersistedItem? calls entry = none ∧
      item.filename = entry.1.filename) ∨
    ∃ item, persistedItem? calls entry = none ∧ unpersistedItem? calls entry = some item ∧
      item.filename = entry.1.filename := by
  unfold persistedItem? unpersistedItem?
  cases h : (calls entry.2).verdict with
  | none => exact .inl ⟨_, rfl, rfl, rfl⟩
  | some reason => exact .inr ⟨_, rfl, rfl, rfl⟩

end Persisting

section Accounting

variable {service : Service} {calls : UploadCalls} {request : UploadRequest} {s : Stores}

/-- What the response to a request is to say of its file parts: each of them is listed once, and
not all of them as documents when the body ended in an error. -/
structure Accounted (m : Multipart) (response : UploadResponse) : Prop where
  listed : ∀ documents rejected, response = .accepted documents rejected →
    (documents.map UploadedDocumentItem.filename ++
      rejected.map RejectedUploadItem.filename).Perm (m.fileParts.map Field.uploadName)
  honest : m.endsInError = true → ∀ documents, response ≠ .accepted documents []

/-- All that was read before the body ended is sound, and every call for it succeeds. -/
structure FullyAcceptable (service : Service) (calls : UploadCalls) (m : Multipart) : Prop where
  admin : calls.admin = .allowed
  tenant : ∃ tenantId, calls.fetchTenantId = .ok (some tenantId)
  modes : m.modesValid
  some_file : m.fileParts ≠ []
  readable : ∀ f ∈ m.fileParts, (readFile service f).isOk
  persists : ∀ i < m.fileParts.length, (calls.file i).verdict = none

/-- The files of a request that reach the second loop, with their positions in it. -/
def pendingEntries (service : Service) (m : Multipart) : List (PendingUploadFile × Nat) :=
  (m.fileParts.filterMap (readableFile? service)).zipIdx

def documentsOf (service : Service) (calls : Nat → FileCalls) (m : Multipart) :
    List UploadedDocumentItem :=
  (pendingEntries service m).filterMap (persistedItem? calls)

def rejectedOf (service : Service) (calls : Nat → FileCalls) (m : Multipart) :
    List RejectedUploadItem :=
  m.fileParts.filterMap (unreadableItem? service) ++
    (pendingEntries service m).filterMap (unpersistedItem? calls)

theorem uploadResponse_of_read {ctx : UploadContext} {t : ReadState}
    (h : readMultipart service ⟨.workspaceDefault, [], []⟩ request.multipart = .ok t) :
    uploadResponse (persistPendingFiles ctx calls.file 0 t.pendingFiles ⟨s, [], t.rejected⟩) =
      if (documentsOf service calls.file request.multipart).isEmpty then
        .errorWithDetails noAcceptableFile (rejectedOf service calls.file request.multipart)
      else
        .accepted (documentsOf service calls.file request.multipart)
          (rejectedOf service calls.file request.multipart) := by
  obtain ⟨-, hpending, hrejected⟩ := readMultipart_ok h
  obtain ⟨hup, hre⟩ := persistPendingFiles_lists ctx calls.file 0 t.pendingFiles ⟨s, [], t.rejected⟩
  rw [uploadResponse, hup, hre, hpending, hrejected]
  rfl

/-- A request is accepted when it gets to its files and one of them becomes a document; the lists
are those of its two loops. -/
theorem uploadDocument_accepted {documents : List UploadedDocumentItem}
    {rejected : List RejectedUploadItem} :
    (uploadDocument service calls request s).2 = .accepted documents rejected ↔
      calls.admin = .allowed ∧ (∃ tenantId, calls.fetchTenantId = .ok (some tenantId)) ∧
        request.multipart.modesValid ∧ documents ≠ [] ∧
        documents = documentsOf service calls.file request.multipart ∧
        rejected = rejectedOf service calls.file request.multipart := by
  constructor
  · intro h
    unfold uploadDocument at h
    cases hadmin : calls.admin with
    | denied => simp [hadmin, requireAdmin] at h
    | failed => simp [hadmin, requireAdmin] at h
    | allowed =>
      rw [hadmin] at h
      dsimp only [requireAdmin] at h
      split at h
      next => cases h
      next => cases h
      next tenantId htenant =>
        split at h
        next => cases h
        next t hread =>
          dsimp only at h
          rw [uploadResponse_of_read hread] at h
          split at h
          next => cases h
          next hsome =>
            cases h
            exact ⟨rfl, ⟨tenantId, htenant⟩, (readMultipart_ok hread).1, by simpa using hsome,
              rfl, rfl⟩
  · rintro ⟨hadmin, ⟨tenantId, htenant⟩, hmodes, hsome, rfl, rfl⟩
    obtain ⟨t, hread⟩ := readMultipart_returns service ⟨.workspaceDefault, [], []⟩ hmodes
    unfold uploadDocument
    rw [hadmin]
    dsimp only [requireAdmin]
    rw [htenant]
    dsimp only
    rw [hread]
    dsimp only
    rw [uploadResponse_of_read hread, if_neg (by simpa using hsome)]

/-- Whatever happens to the files, the two lists name each file part once. -/
theorem lists_perm (service : Service) (calls : Nat → FileCalls) (m : Multipart) :
    ((documentsOf service calls m).map UploadedDocumentItem.filename ++
      (rejectedOf service calls m).map RejectedUploadItem.filename).Perm
        (m.fileParts.map Field.uploadName) := by
  have hread := filterMap_append_perm (readFile_partition service) m.fileParts
  have hpersist := filterMap_append_perm (persist_partition calls) (pendingEntries service m)
  have hnames : (pendingEntries service m).map (fun entry => entry.1.filename) =
      (m.fileParts.filterMap (readableFile? service)).map PendingUploadFile.filename := by
    rw [← Function.comp_def PendingUploadFile.filename Prod.fst, ← List.map_map, pendingEntries,
      List.zipIdx_map_fst]
  rw [hnames] at hpersist
  rw [documentsOf, rejectedOf, List.map_append]
  refine List.Perm.trans ?_ hread
  refine (List.perm_append_comm_assoc ..).trans ?_
  exact (List.perm_append_comm.trans (hpersist.append_right _))

theorem isOk_of_readableFile {f : Field} :
    unreadableItem? service f = none ↔ (readFile service f).isOk := by
  unfold unreadableItem?
  cases readFile service f with
  | ok file => exact ⟨fun _ => rfl, fun _ => rfl⟩
  | error reason => exact ⟨fun h => (by cases h), fun h => (by cases h)⟩

theorem isSome_of_readable {f : Field} (h : (readFile service f).isOk) :
    (readableFile? service f).isSome := by
  unfold readableFile?
  cases hread : readFile service f with
  | ok file => rfl
  | error reason =>
    rw [hread] at h
    cases h

theorem unpersisted_eq_nil {files : List PendingUploadFile} {calls : Nat → FileCalls} :
    files.zipIdx.filterMap (unpersistedItem? calls) = [] ↔
      ∀ i < files.length, (calls i).verdict = none := by
  rw [List.filterMap_eq_nil_iff]
  constructor
  · intro h i hi
    have hentry : (files[i], i) ∈ files.zipIdx :=
      List.mem_zipIdx_iff_getElem?.mpr (List.getElem?_eq_getElem hi)
    exact Option.map_eq_none_iff.mp (h _ hentry)
  · intro h entry hentry
    obtain ⟨hi, -⟩ := List.getElem?_eq_some_iff.mp (List.mem_zipIdx_iff_getElem?.mp hentry)
    exact Option.map_eq_none_iff.mpr (h _ hi)

/-- Nothing is rejected exactly if every part can be read and every call for it succeeds. -/
theorem rejectedOf_eq_nil {m : Multipart} {calls : Nat → FileCalls} :
    rejectedOf service calls m = [] ↔
      (∀ f ∈ m.fileParts, (readFile service f).isOk) ∧
        ∀ i < m.fileParts.length, (calls i).verdict = none := by
  rw [rejectedOf, List.append_eq_nil_iff, List.filterMap_eq_nil_iff]
  simp only [isOk_of_readableFile]
  refine and_congr_right fun hreadable => ?_
  have hlen : (m.fileParts.filterMap (readableFile? service)).length = m.fileParts.length :=
    List.filterMap_length_eq_length.mpr fun f hf => isSome_of_readable (hreadable f hf)
  rw [pendingEntries, unpersisted_eq_nil, hlen]

/-- A request is accepted without a rejected file exactly if it is fully acceptable. -/
theorem accepted_whole_iff :
    (∃ documents, (uploadDocument service calls request s).2 = .accepted documents []) ↔
      FullyAcceptable service calls request.multipart := by
  constructor
  · rintro ⟨documents, h⟩
    obtain ⟨hadmin, htenant, hmodes, hsome, hdocuments, hrejected⟩ := uploadDocument_accepted.mp h
    obtain ⟨hreadable, hpersists⟩ := rejectedOf_eq_nil.mp hrejected.symm
    refine ⟨hadmin, htenant, hmodes, fun hnone => hsome ?_, hreadable, hpersists⟩
    rw [hdocuments, documentsOf, pendingEntries, hnone]
    rfl
  · intro h
    have hrejected := rejectedOf_eq_nil.mpr ⟨h.readable, h.persists⟩
    refine ⟨_, uploadDocument_accepted.mpr ⟨h.admin, h.tenant, h.modes, ?_, rfl, hrejected.symm⟩⟩
    intro hnone
    have hperm := lists_perm service calls.file request.multipart
    rw [hnone, hrejected] at hperm
    exact h.some_file (List.map_eq_nil_iff.mp hperm.nil_eq.symm)

/-- The response to a request accounts for its file parts exactly if the body does not end in an
error after a request that could be accepted whole. -/
theorem upload_accounted_iff (service : Service) (calls : UploadCalls) (request : UploadRequest)
    (s : Stores) :
    Accounted request.multipart (uploadDocument service calls request s).2 ↔
      ¬ (request.multipart.endsInError = true ∧
        FullyAcceptable service calls request.multipart) := by
  constructor
  · rintro h ⟨hend, hfull⟩
    obtain ⟨documents, haccepted⟩ := accepted_whole_iff.mpr hfull
    exact h.honest hend documents haccepted
  · intro h
    refine ⟨fun documents rejected haccepted => ?_, fun hend documents haccepted => ?_⟩
    · obtain ⟨-, -, -, -, rfl, rfl⟩ := uploadDocument_accepted.mp haccepted
      exact lists_perm service calls.file request.multipart
    · exact h ⟨hend, accepted_whole_iff.mp ⟨documents, haccepted⟩⟩

end Accounting

section Broken

/-- A service whose libraries know neither PDF nor DOCX; a plain text asks neither. -/
def plainService : Service where
  documentMaxUploadBytes := 100
  bucket := ['b']
  maxAttempts := 5
  loadsPdf := fun _ => false
  holdsDocx := fun _ => false
  checksumSha256Hex := fun _ => []

def steadyFile (i : Nat) : FileCalls where
  documentId := .ofNat (i + 3)
  putObject := .ok none
  beginTransaction := true
  insertDocument := true
  enqueueJob := true
  commit := .ok ()
  writeTuple := .ok ()
  deleteDocument := .ok ()
  deleteObject := .ok ()
  auditEvent := .ok ()

def steadyUpload : UploadCalls := ⟨.allowed, .ok (some (.ofNat 1)), steadyFile⟩

/-- The text file `a.txt` with the content `hello`. -/
def helloField : Field :=
  ⟨some "file".toList, some "a.txt".toList, none, some [104, 101, 108, 108, 111]⟩

/-- One file, and then the body breaks off. -/
def brokenRequest : UploadRequest where
  workspaceId := .ofNat 2
  userId := ['u']
  multipart := .field helloField .framingError

def emptyStores : Stores := ⟨[], [], [], ∅, []⟩

theorem brokenRequest_unaccounted :
    brokenRequest.multipart.endsInError = true ∧
      (uploadDocument plainService steadyUpload brokenRequest emptyStores).2 =
        .accepted [⟨.ofNat 3, "a.txt".toList⟩] [] ∧
      ¬ Accounted brokenRequest.multipart
        (uploadDocument plainService steadyUpload brokenRequest emptyStores).2 := by
  have haccepted : (uploadDocument plainService steadyUpload brokenRequest emptyStores).2 =
      .accepted [⟨.ofNat 3, "a.txt".toList⟩] [] := by decide +kernel
  exact ⟨rfl, haccepted, fun h => h.honest rfl _ haccepted⟩

end Broken

end GmragApi.Upload

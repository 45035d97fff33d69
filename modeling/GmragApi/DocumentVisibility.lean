import GmragApi.DocumentAcl
import GmragApi.Uuid
import Mathlib.Data.Finset.Basic

/-! Which documents a user may see: the batch path over lists of objects, and the single path over
checks. -/

namespace GmragApi.DocumentAcl

def DocumentAccessMode.isRestricted : DocumentAccessMode → Bool
  | restricted => true
  | workspaceDefault => false

structure DocumentAclRow where
  documentId : Uuid
  accessMode : DocumentAccessMode
  deriving DecidableEq

inductive DocumentAclError
  | authz (error : AuthzError)
  | invalidObjectFormat (rawObject : List Char)
  | invalidObjectId (rawObject : List Char)
  deriving DecidableEq

/-- OpenFGA in one state: how it answers `check` and `list-objects`. -/
structure AuthzClient where
  checkFga : List Char → Relation → List Char → Except AuthzError Bool
  listObjects : List Char → Relation → List Char → Except AuthzError (List (List Char))

def formatUser (userId : List Char) : List Char := "user:".toList ++ userId

def documentType : List Char := "document".toList

def documentPrefix : List Char := "document:".toList

/-- `Object::Document(id).to_string()`. -/
def documentObject (text : UuidText) (id : Uuid) : List Char := documentPrefix ++ text.display id

def parseDocumentObject (text : UuidText) (rawObject : List Char) : Except DocumentAclError Uuid :=
  if documentPrefix.isPrefixOf rawObject then
    match text.parseStr (rawObject.drop documentPrefix.length) with
    | some id => .ok id
    | none => .error (.invalidObjectId rawObject)
  else .error (.invalidObjectFormat rawObject)

def parseDocumentObjects (text : UuidText) : List (List Char) →
    Except DocumentAclError (Finset Uuid)
  | [] => .ok ∅
  | rawObject :: rest =>
    match parseDocumentObject text rawObject with
    | .ok id => (parseDocumentObjects text rest).map (insert id)
    | .error e => .error e

def listDocumentRelationIds (text : UuidText) (client : AuthzClient) (userId : List Char)
    (relation : Relation) : Except DocumentAclError (Finset Uuid) :=
  match client.listObjects (formatUser userId) relation documentType with
  | .ok rawObjects => parseDocumentObjects text rawObjects
  | .error e => .error (.authz e)

def collectViewableRestrictedDocumentIds (text : UuidText) (client : AuthzClient)
    (userId : List Char) : Except DocumentAclError (Finset Uuid) := do
  let visible ← listDocumentRelationIds text client userId .explicitViewer
  let bypassed ← listDocumentRelationIds text client userId .bypassViewer
  return visible ∪ bypassed

def openIds (documents : List DocumentAclRow) : Finset Uuid :=
  ((documents.filter fun d => !d.accessMode.isRestricted).map (·.documentId)).toFinset

def restrictedIds (documents : List DocumentAclRow) : Finset Uuid :=
  ((documents.filter fun d => d.accessMode.isRestricted).map (·.documentId)).toFinset

def collectViewableDocumentIds (text : UuidText) (client : AuthzClient) (userId : List Char)
    (documents : List DocumentAclRow) : Except DocumentAclError (Finset Uuid) :=
  if restrictedIds documents = ∅ then .ok (openIds documents)
  else do
    let viewable ← collectViewableRestrictedDocumentIds text client userId
    return openIds documents ∪ viewable.filter (· ∈ restrictedIds documents)

def canUserViewDocument (text : UuidText) (client : AuthzClient) (userId : List Char)
    (documentId : Uuid) (accessMode : DocumentAccessMode) : Except DocumentAclError Bool :=
  if accessMode.isRestricted then
    match client.checkFga (formatUser userId) .explicitViewer (documentObject text documentId) with
    | .ok true => .ok true
    | .ok false =>
      match client.checkFga (formatUser userId) .bypassViewer (documentObject text documentId) with
      | .ok allowed => .ok allowed
      | .error e => .error (.authz e)
    | .error e => .error (.authz e)
  else .ok true

/-- `list-objects` answers for one relation: every id it lists is a document's, and it lists a
document exactly when `check` allows it. -/
structure ListingAgrees (text : UuidText) (client : AuthzClient) (userId : List Char)
    (relation : Relation) (rawObjects : List (List Char)) : Prop where
  listed : client.listObjects (formatUser userId) relation documentType = .ok rawObjects
  wellFormed : ∀ raw ∈ rawObjects, ∃ id, raw = documentObject text id
  agrees : ∀ id, client.checkFga (formatUser userId) relation (documentObject text id) =
    .ok (decide (documentObject text id ∈ rawObjects))

section Listing

variable {text : UuidText} {client : AuthzClient} {userId : List Char}

theorem parseDocumentObject_documentObject (id : Uuid) :
    parseDocumentObject text (documentObject text id) = .ok id := by
  have hpre : documentPrefix.isPrefixOf (documentObject text id) = true :=
    List.isPrefixOf_iff_prefix.mpr (List.prefix_append ..)
  rw [parseDocumentObject, if_pos hpre]
  simp [documentObject, text.parse_display]

theorem documentObject_inj {a b : Uuid} (h : documentObject text a = documentObject text b) :
    a = b := by
  have ha : parseDocumentObject text (documentObject text a) = .ok a :=
    parseDocumentObject_documentObject a
  rw [h, parseDocumentObject_documentObject] at ha
  exact (Except.ok.inj ha).symm

theorem parseDocumentObjects_wellFormed {rawObjects : List (List Char)}
    (h : ∀ raw ∈ rawObjects, ∃ id, raw = documentObject text id) :
    ∃ ids, parseDocumentObjects text rawObjects = .ok ids ∧
      ∀ id, id ∈ ids ↔ documentObject text id ∈ rawObjects := by
  induction rawObjects with
  | nil => exact ⟨∅, rfl, by simp⟩
  | cons raw rest ih =>
    obtain ⟨id, rfl⟩ := h raw (List.mem_cons_self ..)
    obtain ⟨ids, hids, hmem⟩ := ih fun r hr => h r (List.mem_cons_of_mem _ hr)
    refine ⟨insert id ids, ?_, ?_⟩
    · simp [parseDocumentObjects, parseDocumentObject_documentObject, hids, Except.map]
    · intro other
      rw [Finset.mem_insert, List.mem_cons, hmem]
      exact or_congr_left ⟨fun he => by rw [he], documentObject_inj⟩

theorem listDocumentRelationIds_agrees {relation : Relation} {rawObjects : List (List Char)}
    (h : ListingAgrees text client userId relation rawObjects) :
    ∃ ids, listDocumentRelationIds text client userId relation = .ok ids ∧
      ∀ id, client.checkFga (formatUser userId) relation (documentObject text id) =
        .ok (decide (id ∈ ids)) := by
  obtain ⟨ids, hids, hmem⟩ := parseDocumentObjects_wellFormed h.wellFormed
  refine ⟨ids, by simp [listDocumentRelationIds, h.listed, hids], ?_⟩
  intro id
  rw [h.agrees, decide_eq_decide.mpr (hmem id)]

theorem mem_openIds {documents : List DocumentAclRow} {id : Uuid} :
    id ∈ openIds documents ↔
      ∃ d ∈ documents, d.accessMode.isRestricted = false ∧ d.documentId = id := by
  simp [openIds, and_assoc]

theorem mem_restrictedIds {documents : List DocumentAclRow} {id : Uuid} :
    id ∈ restrictedIds documents ↔
      ∃ d ∈ documents, d.accessMode.isRestricted = true ∧ d.documentId = id := by
  simp [restrictedIds, and_assoc]

/-- Rows with distinct ids: the mode of a row decides which of the two sets its id is in. -/
theorem row_eq_of_id {documents : List DocumentAclRow}
    (distinct : (documents.map (·.documentId)).Nodup) {d e : DocumentAclRow} (hd : d ∈ documents)
    (he : e ∈ documents) (h : d.documentId = e.documentId) : d = e :=
  List.inj_on_of_nodup_map distinct hd he h

/-- Both listings of a user together are the documents that the two checks let through. -/
theorem collectViewableRestricted_iff {explicitObjects bypassObjects : List (List Char)}
    (explicit : ListingAgrees text client userId .explicitViewer explicitObjects)
    (bypass : ListingAgrees text client userId .bypassViewer bypassObjects) :
    ∃ ids, collectViewableRestrictedDocumentIds text client userId = .ok ids ∧
      ∀ id, canUserViewDocument text client userId id .restricted = .ok (decide (id ∈ ids)) := by
  obtain ⟨shared, hshared, hexplicit⟩ := listDocumentRelationIds_agrees explicit
  obtain ⟨bypassed, hbypassed, hbypass⟩ := listDocumentRelationIds_agrees bypass
  refine ⟨shared ∪ bypassed, ?_, ?_⟩
  · simp [collectViewableRestrictedDocumentIds, hshared, hbypassed, Bind.bind, Except.bind,
      Pure.pure, Except.pure]
  · intro id
    simp only [canUserViewDocument, DocumentAccessMode.isRestricted, if_true, hexplicit, hbypass]
    by_cases hs : id ∈ shared
    · simp [hs]
    · simp [hs]

theorem canUserViewDocument_open (id : Uuid) :
    canUserViewDocument text client userId id .workspaceDefault = .ok true := rfl

theorem collectViewableDocumentIds_eq {documents : List DocumentAclRow} {ids : Finset Uuid}
    (h : collectViewableRestrictedDocumentIds text client userId = .ok ids) :
    collectViewableDocumentIds text client userId documents =
      .ok (openIds documents ∪ ids.filter (· ∈ restrictedIds documents)) := by
  unfold collectViewableDocumentIds
  split
  next hnone => simp [hnone]
  next => simp [h, Bind.bind, Except.bind, Pure.pure, Except.pure]

/-- For every document of the list: it is among the collected ids exactly when the single decision
lets the user see it, and exactly when it is open or among the viewable restricted ids. -/
theorem visibility_decisions_agree {documents : List DocumentAclRow}
    (distinct : (documents.map (·.documentId)).Nodup)
    {explicitObjects bypassObjects : List (List Char)}
    (explicit : ListingAgrees text client userId .explicitViewer explicitObjects)
    (bypass : ListingAgrees text client userId .bypassViewer bypassObjects) :
    ∃ visible restricted,
      collectViewableDocumentIds text client userId documents = .ok visible ∧
      collectViewableRestrictedDocumentIds text client userId = .ok restricted ∧
      (∀ id ∈ visible, ∃ d ∈ documents, d.documentId = id) ∧
      ∀ d ∈ documents,
        canUserViewDocument text client userId d.documentId d.accessMode =
          .ok (decide (d.documentId ∈ visible)) ∧
        (d.documentId ∈ visible ↔
          d.accessMode = .workspaceDefault ∨ d.documentId ∈ restricted) := by
  obtain ⟨ids, hids, hview⟩ := collectViewableRestricted_iff explicit bypass
  refine ⟨_, ids, collectViewableDocumentIds_eq hids, hids, ?_, ?_⟩
  · intro id hid
    rcases Finset.mem_union.mp hid with hid | hid
    · obtain ⟨d, hd, -, he⟩ := mem_openIds.mp hid
      exact ⟨d, hd, he⟩
    · obtain ⟨d, hd, -, he⟩ := mem_restrictedIds.mp (Finset.mem_filter.mp hid).2
      exact ⟨d, hd, he⟩
  · intro d hd
    have hvisible : d.documentId ∈ openIds documents ∪ ids.filter (· ∈ restrictedIds documents) ↔
        d.accessMode = .workspaceDefault ∨ d.documentId ∈ ids := by
      rw [Finset.mem_union, Finset.mem_filter]
      cases hmode : d.accessMode with
      | workspaceDefault =>
        have hopen : d.documentId ∈ openIds documents :=
          mem_openIds.mpr ⟨d, hd, by rw [hmode]; rfl, rfl⟩
        simp [hopen]
      | restricted =>
        have hrestricted : d.documentId ∈ restrictedIds documents :=
          mem_restrictedIds.mpr ⟨d, hd, by rw [hmode]; rfl, rfl⟩
        have hopen : d.documentId ∉ openIds documents := by
          intro ho
          obtain ⟨e, he, hmode', heq⟩ := mem_openIds.mp ho
          rw [row_eq_of_id distinct he hd heq, hmode] at hmode'
          cases hmode'
        simp [hopen, hrestricted]
    refine ⟨?_, hvisible⟩
    cases hmode : d.accessMode with
    | workspaceDefault =>
      have hin := hvisible.mpr (.inl hmode)
      rw [canUserViewDocument_open, decide_eq_true hin]
    | restricted =>
      have hin : d.documentId ∈ openIds documents ∪ ids.filter (· ∈ restrictedIds documents) ↔
          d.documentId ∈ ids := by
        rw [hvisible, hmode]
        simp
      rw [hview, decide_eq_decide.mpr hin]

end Listing

/-- A client whose relations on documents are given as lists of a user and an id. -/
def listedClient (text : UuidText) (holders : Relation → List (List Char × Uuid)) : AuthzClient where
  checkFga := fun user relation object =>
    .ok (decide (object ∈ ((holders relation).filter fun h => h.1 == user).map
      (documentObject text ·.2)))
  listObjects := fun user relation type =>
    .ok (if type = documentType then
      ((holders relation).filter fun h => h.1 == user).map (documentObject text ·.2) else [])

theorem listedClient_agrees (text : UuidText) (holders : Relation → List (List Char × Uuid))
    (userId : List Char) (relation : Relation) :
    ListingAgrees text (listedClient text holders) userId relation
      (((holders relation).filter fun h => h.1 == formatUser userId).map
        (documentObject text ·.2)) := by
  refine ⟨rfl, ?_, fun id => rfl⟩
  intro raw hraw
  obtain ⟨h, -, rfl⟩ := List.mem_map.mp hraw
  exact ⟨h.2, rfl⟩

/-- Documents 1 and 2 are restricted and 3 is open; the user holds a grant on 1 and owns the
tenant of 2. -/
def sampleHolders : Relation → List (List Char × Uuid)
  | .explicitViewer => [("user:ann".toList, .ofNat 1), ("user:bob".toList, .ofNat 2)]
  | .bypassViewer => [("user:ann".toList, .ofNat 2)]
  | _ => []

def sampleRows : List DocumentAclRow :=
  [⟨.ofNat 1, .restricted⟩, ⟨.ofNat 2, .restricted⟩, ⟨.ofNat 3, .workspaceDefault⟩,
    ⟨.ofNat 4, .restricted⟩]

theorem visibility_decisions_agree_sample :
    ∃ visible restricted,
      collectViewableDocumentIds uuidText (listedClient uuidText sampleHolders) "ann".toList
        sampleRows = .ok visible ∧
      collectViewableRestrictedDocumentIds uuidText (listedClient uuidText sampleHolders)
        "ann".toList = .ok restricted ∧
      (∀ id ∈ visible, ∃ d ∈ sampleRows, d.documentId = id) ∧
      ∀ d ∈ sampleRows,
        canUserViewDocument uuidText (listedClient uuidText sampleHolders) "ann".toList
          d.documentId d.accessMode = .ok (decide (d.documentId ∈ visible)) ∧
        (d.documentId ∈ visible ↔
          d.accessMode = .workspaceDefault ∨ d.documentId ∈ restricted) :=
  visibility_decisions_agree (by decide) (listedClient_agrees uuidText sampleHolders _ _)
    (listedClient_agrees uuidText sampleHolders _ _)

end GmragApi.DocumentAcl

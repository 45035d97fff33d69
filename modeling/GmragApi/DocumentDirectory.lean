import GmragApi.DocumentSecrecy

/-! The directory of a workspace, page after page: every document that the user may see stands on
exactly one page, and the total that each page states is how many there are. -/

namespace GmragApi.DocumentReads

open DocumentAcl
open Ingestion (DocumentStatus)

section Directory

variable {s : Service} {db : Contents} {userId : List Char} {workspaceId : Uuid} {d : DocumentRow}
  {explicitObjects bypassObjects : List (List Char)}

/-- The query for one page of the directory. -/
def pageQuery (q status : Option (List Char)) (size number : Nat) : ListDocumentsQuery :=
  ⟨some size, some (number * size), q, status⟩

/-- What the user finds on a page. -/
def pageItems : Reply → List DocumentDirectoryItem
  | .json (.directory page _) => page.documents
  | _ => []

/-- The reply is a page of the directory that states the total. -/
def StatesTotal (total : Nat) : Reply → Prop
  | .json (.directory page _) => page.total = total
  | _ => False

/-- The name and the status of the document are what is asked for. -/
def Asked (s : Service) (q : Option (List Char)) (status : Option DocumentStatus)
    (d : DocumentRow) : Prop :=
  (∀ text, readQuery q = some text → s.ilike text d.filename = true) ∧
    ∀ asked, status = some asked → d.status = asked

/-- The read of the document's status shows it. -/
def ShowsStatus (s : Service) (db : Contents) (userId : List Char) (workspaceId : Uuid)
    (d : DocumentRow) : Prop :=
  ∃ response, respond s db userId (.status workspaceId d.id) = .json (.status response)

theorem selects_iff {visible : Finset Uuid} {q : Option (List Char)}
    {status : Option DocumentStatus} :
    (⟨workspaceId, visible, readQuery q, status, none⟩ : DirectoryFilter).selects s.ilike d = true ↔
      d.workspaceId = workspaceId ∧ (d.accessMode = .workspaceDefault ∨ d.id ∈ visible) ∧
        Asked s q status d := by
  have hopen : (!d.accessMode.isRestricted) = true ↔ d.accessMode = .workspaceDefault := by
    cases d.accessMode <;> simp [DocumentAccessMode.isRestricted]
  simp only [DirectoryFilter.selects, Bool.and_eq_true, Bool.or_eq_true, hopen,
    decide_eq_true_eq, beq_iff_eq, Option.all_eq_true, Option.all_none, and_true, Asked, and_assoc]

/-- The checks let the user see a document exactly when it is open or among the listed ones. -/
theorem canView_iff_listed
    (explicit : ListingAgrees uuidText s.client userId .explicitViewer explicitObjects)
    (bypass : ListingAgrees uuidText s.client userId .bypassViewer bypassObjects) :
    ∃ visible, collectViewableRestrictedDocumentIds uuidText s.client userId = .ok visible ∧
      ∀ d, canView s userId d =
        .ok (decide (d.accessMode = .workspaceDefault ∨ d.id ∈ visible)) := by
  obtain ⟨visible, hvisible, hview⟩ := collectViewableRestricted_iff explicit bypass
  refine ⟨visible, hvisible, fun d => ?_⟩
  cases hmode : d.accessMode with
  | workspaceDefault => simp only [canView, hmode, canUserViewDocument_open, true_or, decide_true]
  | restricted =>
    have hnot : (DocumentAccessMode.restricted = .workspaceDefault ∨ d.id ∈ visible) ↔
        d.id ∈ visible := or_iff_right (by decide)
    rw [canView, hmode, hview, decide_eq_decide.mpr hnot]

theorem showsStatus_iff (h : db.WellFormed) {visible : Finset Uuid}
    (hmember : requireRelation s userId .member (workspaceObject workspaceId) = .ok ())
    (hview : ∀ d, canView s userId d =
      .ok (decide (d.accessMode = .workspaceDefault ∨ d.id ∈ visible)))
    (hd : d ∈ db.documents) :
    ShowsStatus s db userId workspaceId d ↔
      d.workspaceId = workspaceId ∧ (d.accessMode = .workspaceDefault ∨ d.id ∈ visible) := by
  have hfetch : fetchDocument db workspaceId d.id =
      if d.workspaceId = workspaceId then some d else none := by
    have hone : ∀ a ∈ db.documents, ∀ b ∈ db.documents,
        (a.id == d.id && a.workspaceId == workspaceId) = true →
          (b.id == d.id && b.workspaceId == workspaceId) = true → a = b := by
      intro a ha b hb hpa hpb
      simp only [Bool.and_eq_true, beq_iff_eq] at hpa hpb
      exact h.document_eq ha hb (hpa.1.trans hpb.1.symm)
    split
    next hworkspace => exact Query.find?_of_mem hone hd (by simp [hworkspace])
    next hworkspace =>
      refine List.find?_eq_none.mpr fun a ha hpa => hworkspace ?_
      simp only [Bool.and_eq_true, beq_iff_eq] at hpa
      rw [← h.document_eq ha hd hpa.1]
      exact hpa.2
  unfold ShowsStatus respond
  simp only [getDocumentStatus_eq h hmember, hfetch]
  by_cases hworkspace : d.workspaceId = workspaceId
  · simp only [hworkspace, if_true, Option.elim_some, statusReply, hview, true_and]
    by_cases hshown : d.accessMode = .workspaceDefault ∨ d.id ∈ visible
    · simp only [hshown, decide_true, iff_true]
      exact ⟨_, rfl⟩
    · simp only [hshown, decide_false, iff_false]
      rintro ⟨response, hresponse⟩
      cases hresponse
  · simp only [hworkspace, if_false, Option.elim_none, false_and, iff_false]
    rintro ⟨response, hresponse⟩
    cases hresponse

theorem listDocuments_page {visible : Finset Uuid} {canManage : Bool}
    {q status : Option (List Char)} {asked : Option DocumentStatus} {size : Nat}
    (hmember : requireRelation s userId .member (workspaceObject workspaceId) = .ok ())
    (hadmin : s.client.checkFga (formatUser userId) .admin (workspaceObject workspaceId) =
      .ok canManage)
    (hvisible : collectViewableRestrictedDocumentIds uuidText s.client userId = .ok visible)
    (hstatus : readStatus status = .ok asked) (hsize : size ≤ 100) (number : Nat) :
    respond s db userId (.list workspaceId (pageQuery q status size number)) =
      .json (.directory (listDocumentDirectory db s.ilike
        ⟨workspaceId, visible, readQuery q, asked, none⟩ size (number * size)) canManage) := by
  have hwindow : ¬ (¬ ((0 : Int) ≤ size ∧ (size : Int) ≤ 100) ∨ (number * size : Int) < 0) := by
    have hpos : (0 : Int) ≤ number * size := by positivity
    omega
  simp only [respond, listDocuments, hmember, pageQuery, Option.getD_some, hstatus, hadmin,
    hvisible]
  rw [if_neg hwindow]
  rfl

/-- For every page size that the directory accepts and every filter: the pages, one after the other,
list every document of the workspace that the filter asks for and whose status the user is shown,
newest first and each once, and every page states how many they are. -/
theorem directory_pages_exact (h : db.WellFormed) {canManage : Bool}
    {q status : Option (List Char)} {asked : Option DocumentStatus} {size : Nat}
    (hmember : requireRelation s userId .member (workspaceObject workspaceId) = .ok ())
    (hadmin : s.client.checkFga (formatUser userId) .admin (workspaceObject workspaceId) =
      .ok canManage)
    (explicit : ListingAgrees uuidText s.client userId .explicitViewer explicitObjects)
    (bypass : ListingAgrees uuidText s.client userId .bypassViewer bypassObjects)
    (hstatus : readStatus status = .ok asked) (hsize : size ≤ 100) :
    ∃ rows : List DocumentRow,
      (∀ number, StatesTotal rows.length
        (respond s db userId (.list workspaceId (pageQuery q status size number)))) ∧
      (∀ count, rows.length ≤ count * size →
        (List.range count).flatMap (fun number => pageItems
          (respond s db userId (.list workspaceId (pageQuery q status size number)))) =
            rows.map (directoryItem db)) ∧
      rows.Nodup ∧ rows.Pairwise (fun a b => newestFirst a ≤ newestFirst b) ∧
      ∀ d, d ∈ rows ↔ d ∈ db.documents ∧ ShowsStatus s db userId workspaceId d ∧
        Asked s q asked d := by
  obtain ⟨visible, hvisible, hview⟩ := canView_iff_listed explicit bypass
  have hpage : ∀ number, respond s db userId (.list workspaceId (pageQuery q status size number)) =
      .json (.directory (listDocumentDirectory db s.ilike
        ⟨workspaceId, visible, readQuery q, asked, none⟩ size (number * size)) canManage) :=
    listDocuments_page hmember hadmin hvisible hstatus hsize
  refine ⟨directoryRows db s.ilike ⟨workspaceId, visible, readQuery q, asked, none⟩, ?_, ?_, ?_, ?_,
    ?_⟩
  · intro number
    rw [hpage number, directoryRows, (Query.orderBy_perm _ _).length_eq,
      ← List.countP_eq_length_filter]
    rfl
  · intro count hcount
    have hitems : ∀ number, pageItems
        (respond s db userId (.list workspaceId (pageQuery q status size number))) =
          (Query.page size (number * size) (directoryRows db s.ilike
            ⟨workspaceId, visible, readQuery q, asked, none⟩)).map (directoryItem db) := by
      intro number
      have hoffset : (number * size : Int).toNat = number * size := by
        rw [← Int.natCast_mul, Int.toNat_natCast]
      rw [hpage number, pageItems, listDocumentDirectory, fetchDocuments, hoffset,
        Int.toNat_natCast]
    simp only [hitems]
    rw [← List.map_flatMap, Query.flatMap_page_eq hcount]
  · exact (Query.orderBy_perm _ _).nodup_iff.mpr ((List.Nodup.of_map _ h.documentIds).filter _)
  · exact Query.orderBy_sorted _ _
  · intro d
    rw [directoryRows, Query.mem_orderBy, List.mem_filter, selects_iff]
    constructor
    · rintro ⟨hd, hworkspace, hshown, hasked⟩
      exact ⟨hd, (showsStatus_iff h hmember hview hd).mpr ⟨hworkspace, hshown⟩, hasked⟩
    · rintro ⟨hd, hshows, hasked⟩
      obtain ⟨hworkspace, hshown⟩ := (showsStatus_iff h hmember hview hd).mp hshows
      exact ⟨hd, hworkspace, hshown, hasked⟩

theorem memberService_agrees (userId : List Char) {relation : Relation}
    (h : relation ≠ .member) : ListingAgrees uuidText memberService.client userId relation [] := by
  refine ⟨rfl, fun _ hraw => absurd hraw List.not_mem_nil, fun id => ?_⟩
  have hdenied : (relation == .member) = false := beq_eq_false_iff_ne.mpr h
  simp only [memberService, hdenied, List.not_mem_nil, decide_false]

theorem directory_pages_exact_sample :
    ∃ rows : List DocumentRow,
      (∀ number, StatesTotal rows.length (respond memberService (contentsWith 3) ['v']
        (.list (.ofNat 1) (pageQuery none (some "COMPLETED".toList) 1 number)))) ∧
      (∀ count, rows.length ≤ count * 1 →
        (List.range count).flatMap (fun number => pageItems (respond memberService (contentsWith 3)
          ['v'] (.list (.ofNat 1) (pageQuery none (some "COMPLETED".toList) 1 number)))) =
            rows.map (directoryItem (contentsWith 3))) ∧
      rows.Nodup ∧ rows.Pairwise (fun a b => newestFirst a ≤ newestFirst b) ∧
      ∀ d, d ∈ rows ↔ d ∈ (contentsWith 3).documents ∧
        ShowsStatus memberService (contentsWith 3) ['v'] (.ofNat 1) d ∧
          Asked memberService none (some .completed) d :=
  directory_pages_exact (by constructor <;> decide) rfl rfl
    (memberService_agrees _ (by decide)) (memberService_agrees _ (by decide)) (by decide) (by decide)

end Directory

end GmragApi.DocumentReads

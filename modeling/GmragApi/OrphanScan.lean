import GmragApi.Json
import GmragApi.Paging
import Mathlib.Data.List.Nodup

/-! The full scan of the vector index for orphans: the points come in pages, and what their
payloads name is compared with the rows of the database. -/

namespace GmragApi.OrphanScan

open Paging

structure ScrolledPoint where
  workspaceId : Uuid
  documentId : Uuid
  deriving DecidableEq

inductive DeleteTarget
  | document (workspaceId documentId : Uuid)
  | workspace (workspaceId : Uuid)
  | workspaces (workspaceIds : List Uuid)
  deriving DecidableEq

/-- The rows of `workspaces` and of `documents`, whose workspace may be missing. -/
structure Database where
  workspaces : List Uuid
  documents : List (Option Uuid × Uuid)

def Database.liveDocuments (db : Database) : List (Uuid × Uuid) :=
  db.documents.filterMap fun row => row.1.map fun workspaceId => (workspaceId, row.2)

/-- What the service reads of a point; the other fields of the payload do not matter. -/
def parsePoint (text : UuidText) (payload : Option Json) : Option ScrolledPoint := do
  let payload ← payload
  let workspaceId ← (payload.get "workspace_id".toList).bind (Json.asUuid text)
  let documentId ← (payload.get "document_id".toList).bind (Json.asUuid text)
  some ⟨workspaceId, documentId⟩

def wellFormed (text : UuidText) (payloads : List (Option Json)) : List ScrolledPoint :=
  payloads.filterMap (parsePoint text)

variable {ε : Type}

/-- A page of the collection as the server shows it, for a limit and an offset. -/
abbrev Server (ε : Type) := Nat → Option Json → Except ε (Page Json (Option Json))

/-- The limit that `scroll_points_page` asks for. -/
def scrollLimit (pageSize : Nat) : Nat := max 1 (min pageSize 1000)

def scrollPointsPage (text : UuidText) (server : Server ε) (pageSize : Nat)
    (offset : Option Json) : Except ε (Page Json ScrolledPoint) :=
  (server (scrollLimit pageSize) offset).map (Page.map (wellFormed text))

structure Orphans where
  workspaces : List Uuid
  documents : List (Uuid × Uuid)

/-- A hash set: only its elements matter, their order stands for any. -/
def Orphans.visit (db : Database) (orphans : Orphans) (point : ScrolledPoint) : Orphans :=
  if point.workspaceId ∉ db.workspaces then
    { orphans with workspaces := orphans.workspaces.insert point.workspaceId }
  else if (point.workspaceId, point.documentId) ∉ db.liveDocuments then
    { orphans with documents := orphans.documents.insert (point.workspaceId, point.documentId) }
  else orphans

def Orphans.targets (orphans : Orphans) : List DeleteTarget :=
  orphans.workspaces.map .workspace ++ orphans.documents.map fun d => .document d.1 d.2

/-- `fuel` bounds the pages that are asked for. -/
def collectTargetsFromFullScan (text : UuidText) (server : Server ε) (db : Database)
    (pageSize fuel : Nat) : Option (Except ε (List DeleteTarget)) :=
  (scan (scrollPointsPage text server pageSize) (Orphans.visit db) fuel none ⟨[], []⟩).map
    fun outcome => outcome.map Orphans.targets

/-- The scan of the retention report has the same loop. -/
def scanVectors (text : UuidText) (server : Server ε) (pageSize fuel : Nat) :
    Option (Except ε (List ScrolledPoint)) :=
  scan (scrollPointsPage text server pageSize) (fun scanned point => scanned ++ [point]) fuel none []

/-- What has to be deleted for the points: all of a workspace that is gone, and in a workspace that
exists each document that is gone. -/
def Owed (db : Database) (points : List ScrolledPoint) : DeleteTarget → Prop
  | .workspace w => (∃ point ∈ points, point.workspaceId = w) ∧ w ∉ db.workspaces
  | .document w d => ⟨w, d⟩ ∈ points ∧ w ∈ db.workspaces ∧ (w, d) ∉ db.liveDocuments
  | .workspaces _ => False

/-- The well-formed points of the pages before the first page that has none. -/
def reached (text : UuidText) (pages : List (List (Option Json))) : List ScrolledPoint :=
  seen (pages.map (wellFormed text))

section Visit

variable {db : Database} {points : List ScrolledPoint} {orphans : Orphans}

theorem mem_visit_workspaces {point : ScrolledPoint} {w : Uuid} :
    w ∈ (orphans.visit db point).workspaces ↔
      (point.workspaceId = w ∧ w ∉ db.workspaces) ∨ w ∈ orphans.workspaces := by
  unfold Orphans.visit
  split
  next hgone =>
    simp only [List.mem_insert_iff]
    constructor
    · rintro (rfl | h)
      · exact .inl ⟨rfl, hgone⟩
      · exact .inr h
    · rintro (⟨rfl, -⟩ | h)
      · exact .inl rfl
      · exact .inr h
  next hlive =>
    have hno : ¬ (point.workspaceId = w ∧ w ∉ db.workspaces) := by
      rintro ⟨rfl, h⟩
      exact hlive h
    split <;> simp [hno]

theorem mem_visit_documents {point : ScrolledPoint} {w d : Uuid} :
    (w, d) ∈ (orphans.visit db point).documents ↔
      (point = ⟨w, d⟩ ∧ w ∈ db.workspaces ∧ (w, d) ∉ db.liveDocuments) ∨
        (w, d) ∈ orphans.documents := by
  obtain ⟨w', d'⟩ := point
  unfold Orphans.visit
  split
  next hgone =>
    have hno : ¬ ((⟨w', d'⟩ : ScrolledPoint) = ⟨w, d⟩ ∧ w ∈ db.workspaces ∧
        (w, d) ∉ db.liveDocuments) := by
      rintro ⟨h, hw, -⟩
      cases h
      exact hgone hw
    exact (or_iff_right hno).symm
  next hlive =>
    rw [not_not] at hlive
    split
    next hgone =>
      simp only [List.mem_insert_iff, Prod.mk.injEq, ScrolledPoint.mk.injEq]
      constructor
      · rintro (⟨rfl, rfl⟩ | h)
        · exact .inl ⟨⟨rfl, rfl⟩, hlive, hgone⟩
        · exact .inr h
      · rintro (⟨⟨rfl, rfl⟩, -⟩ | h)
        · exact .inl ⟨rfl, rfl⟩
        · exact .inr h
    next hfound =>
      have hno : ¬ ((⟨w', d'⟩ : ScrolledPoint) = ⟨w, d⟩ ∧ w ∈ db.workspaces ∧
          (w, d) ∉ db.liveDocuments) := by
        rintro ⟨h, -, hd⟩
        cases h
        exact hfound hd
      exact (or_iff_right hno).symm

theorem visit_nodup (db : Database) (point : ScrolledPoint) (hw : orphans.workspaces.Nodup)
    (hd : orphans.documents.Nodup) :
    (orphans.visit db point).workspaces.Nodup ∧ (orphans.visit db point).documents.Nodup := by
  unfold Orphans.visit
  split
  · exact ⟨hw.insert, hd⟩
  · split
    · exact ⟨hw, hd.insert⟩
    · exact ⟨hw, hd⟩

theorem foldl_visit_nodup (db : Database) (points : List ScrolledPoint)
    (hw : orphans.workspaces.Nodup) (hd : orphans.documents.Nodup) :
    (points.foldl (Orphans.visit db) orphans).workspaces.Nodup ∧
      (points.foldl (Orphans.visit db) orphans).documents.Nodup := by
  induction points generalizing orphans with
  | nil => exact ⟨hw, hd⟩
  | cons point points ih =>
    obtain ⟨hw', hd'⟩ := visit_nodup db point hw hd
    exact ih hw' hd'

theorem mem_foldl_visit_workspaces {w : Uuid} :
    w ∈ (points.foldl (Orphans.visit db) orphans).workspaces ↔
      ((∃ point ∈ points, point.workspaceId = w) ∧ w ∉ db.workspaces) ∨
        w ∈ orphans.workspaces := by
  induction points generalizing orphans with
  | nil => simp
  | cons point points ih =>
    simp only [List.foldl_cons, ih, mem_visit_workspaces, List.mem_cons, exists_eq_or_imp]
    rw [or_and_right, or_assoc, or_left_comm]

theorem mem_foldl_visit_documents {w d : Uuid} :
    (w, d) ∈ (points.foldl (Orphans.visit db) orphans).documents ↔
      (⟨w, d⟩ ∈ points ∧ w ∈ db.workspaces ∧ (w, d) ∉ db.liveDocuments) ∨
        (w, d) ∈ orphans.documents := by
  induction points generalizing orphans with
  | nil => simp
  | cons point points ih =>
    rw [List.foldl_cons, ih, mem_visit_documents, List.mem_cons, eq_comm (a := point)]
    tauto

theorem targets_nodup (hw : orphans.workspaces.Nodup) (hd : orphans.documents.Nodup) :
    orphans.targets.Nodup := by
  refine List.nodup_append.mpr ⟨hw.map fun _ _ h => by cases h; rfl, hd.map ?_, ?_⟩
  · rintro ⟨w, d⟩ ⟨w', d'⟩ h
    cases h
    rfl
  · intro t ht t' ht' h
    obtain ⟨w, -, rfl⟩ := List.mem_map.mp ht
    obtain ⟨d, -, rfl⟩ := List.mem_map.mp ht'
    cases h

/-- The targets for the points that the loop has visited are those that they are owed. -/
theorem mem_targets_foldl_visit (t : DeleteTarget) :
    t ∈ (points.foldl (Orphans.visit db) ⟨[], []⟩).targets ↔ Owed db points t := by
  unfold Orphans.targets
  cases t with
  | workspace w =>
    simp [Owed, mem_foldl_visit_workspaces]
  | document w d =>
    have h : (w, d) ∈ (points.foldl (Orphans.visit db) ⟨[], []⟩).documents ↔ _ :=
      mem_foldl_visit_documents
    simpa [Owed] using h
  | workspaces ws => simp [Owed]

theorem Owed.mono {points' : List ScrolledPoint} {t : DeleteTarget}
    (h : ∀ point ∈ points, point ∈ points') (ht : Owed db points t) : Owed db points' t := by
  cases t with
  | workspace w =>
    obtain ⟨⟨point, hp, hw⟩, hgone⟩ := ht
    exact ⟨⟨point, h point hp, hw⟩, hgone⟩
  | document w d => exact ⟨h _ ht.1, ht.2⟩
  | workspaces ws => exact ht

end Visit

section Scan

variable {text : UuidText} {server : Server ε} {db : Database} {pageSize fuel : Nat}
  {pages : List (List (Option Json))}

theorem reached_subset : ∀ point ∈ reached text pages, point ∈ wellFormed text pages.flatten := by
  intro point h
  have hmem := seen_subset _ _ h
  unfold wellFormed
  rw [List.filterMap_flatten]
  exact hmem

/-- Both loops fold over the points that they reach. -/
theorem scan_scrollPointsPage {σ : Type} (visit : σ → ScrolledPoint → σ) (acc : σ)
    (hpages : Follows (server (scrollLimit pageSize)) none pages) (hfuel : pages.length ≤ fuel) :
    scan (scrollPointsPage text server pageSize) visit fuel none acc =
      some (.ok ((reached text pages).foldl visit acc)) := by
  have hfollows : Follows (scrollPointsPage text server pageSize) none
      (pages.map (wellFormed text)) := hpages.map (wellFormed text)
  have hlength : (pages.map (wellFormed text)).length ≤ fuel := by
    rw [List.length_map]
    exact hfuel
  exact scan_eq visit acc hfollows hlength

/-- The outcome of the scan is what the points that it reaches are owed. -/
theorem collectTargetsFromFullScan_reached (text : UuidText) (db : Database)
    (hpages : Follows (server (scrollLimit pageSize)) none pages) (hfuel : pages.length ≤ fuel) :
    ∃ targets, collectTargetsFromFullScan text server db pageSize fuel = some (.ok targets) ∧
      targets.Nodup ∧ ∀ t, t ∈ targets ↔ Owed db (reached text pages) t := by
  refine ⟨((reached text pages).foldl (Orphans.visit db) ⟨[], []⟩).targets, ?_, ?_, ?_⟩
  · unfold collectTargetsFromFullScan
    rw [scan_scrollPointsPage _ _ hpages hfuel]
    rfl
  · obtain ⟨hw, hd⟩ := @foldl_visit_nodup ⟨[], []⟩ db (reached text pages) List.nodup_nil
      List.nodup_nil
    exact targets_nodup hw hd
  · exact mem_targets_foldl_visit

/-- The scan returns each target of the collection once and no other, exactly when each target of
the collection is one of the pages before the first page without a well-formed point. -/
theorem collectTargetsFromFullScan_exact_iff
    (hpages : Follows (server (scrollLimit pageSize)) none pages) (hfuel : pages.length ≤ fuel) :
    (∃ targets, collectTargetsFromFullScan text server db pageSize fuel = some (.ok targets) ∧
      targets.Nodup ∧ ∀ t, t ∈ targets ↔ Owed db (wellFormed text pages.flatten) t) ↔
    ∀ t, Owed db (wellFormed text pages.flatten) t → Owed db (reached text pages) t := by
  obtain ⟨found, hrun, hnodup, hfound⟩ :=
    collectTargetsFromFullScan_reached text db hpages hfuel
  constructor
  · rintro ⟨targets, hrun', -, htargets⟩ t ht
    have heq : found = targets := by
      rw [hrun] at hrun'
      exact Except.ok.inj (Option.some.inj hrun')
    subst heq
    exact (hfound t).mp ((htargets t).mpr ht)
  · intro h
    refine ⟨found, hrun, hnodup, fun t => (hfound t).trans ⟨?_, h t⟩⟩
    exact Owed.mono reached_subset

/-- The retention report gets all the points just when no well-formed point comes behind a page
without one. -/
theorem scanVectors_complete_iff (hpages : Follows (server (scrollLimit pageSize)) none pages)
    (hfuel : pages.length ≤ fuel) :
    scanVectors text server pageSize fuel = some (.ok (wellFormed text pages.flatten)) ↔
      ∀ before page after, pages = before ++ page :: after → wellFormed text page = [] →
        wellFormed text after.flatten = [] := by
  have hpoints (l : List (List (Option Json))) :
      wellFormed text l.flatten = (l.map (wellFormed text)).flatten := List.filterMap_flatten
  have hsnoc (points : List ScrolledPoint) :
      points.foldl (fun scanned point => scanned ++ [point]) [] = points := by
    rw [List.foldl_append_eq_append, List.nil_append]
    exact List.flatMap_singleton' points
  have hrun : scanVectors text server pageSize fuel = some (.ok (reached text pages)) := by
    unfold scanVectors
    rw [scan_scrollPointsPage _ _ hpages hfuel, hsnoc]
  rw [hrun, Option.some_inj, Except.ok.injEq, hpoints, reached, seen_eq_flatten_iff]
  constructor
  · intro h before page after hparts hpage
    rw [hpoints]
    refine h (before.map (wellFormed text)) (after.map (wellFormed text)) ?_
    rw [hparts, List.map_append, List.map_cons, hpage]
  · intro h before after hparts
    obtain ⟨front, rest, rfl, hfront, hrest⟩ := List.map_eq_append_iff.mp hparts
    obtain ⟨page, back, rfl, hpage, hback⟩ := List.map_eq_cons_iff.mp hrest
    rw [← hback, ← hpoints]
    exact h front page back rfl hpage

end Scan

/-- A collection of two pages. -/
def twoPages (first second : List (Option Json)) : Server Unit
  | _, none => .ok ⟨first, some (.number 1)⟩
  | _, some _ => .ok ⟨second, none⟩

def pointOf (workspaceId documentId : Uuid) : Option Json :=
  some (.object [("workspace_id".toList, .string workspaceId.display),
    ("document_id".toList, .string documentId.display)])

theorem twoPages_follows (limit : Nat) (first second : List (Option Json)) :
    Follows (twoPages first second limit) none [first, second] :=
  .more rfl (.last rfl)

theorem parsePoint_pointOf (w d : Uuid) : parsePoint uuidText (pointOf w d) = some ⟨w, d⟩ := by
  simp [parsePoint, pointOf, Json.get, List.lookup_cons, Json.asUuid, Json.asString, uuidText,
    parseStr_display]

/-- A page without a well-formed point does no harm at the end. -/
theorem collectTargetsFromFullScan_exact_iff_two_pages :
    ∃ targets, collectTargetsFromFullScan uuidText
        (twoPages [pointOf ⟨7⟩ ⟨8⟩, some .null] [some (.object []), none]) ⟨[], []⟩ 256 2 =
          some (.ok targets) ∧
      targets.Nodup ∧ ∀ t, t ∈ targets ↔ Owed ⟨[], []⟩ (wellFormed uuidText
        [pointOf ⟨7⟩ ⟨8⟩, some .null, some (.object []), none]) t := by
  refine (collectTargetsFromFullScan_exact_iff (twoPages_follows _ _ _) (by decide)).mpr ?_
  intro t ht
  have hpoint := parsePoint_pointOf ⟨7⟩ ⟨8⟩
  have hnone : wellFormed uuidText [some (.object []), none] = [] := rfl
  have hfirst : wellFormed uuidText [pointOf ⟨7⟩ ⟨8⟩, some .null] = [⟨⟨7⟩, ⟨8⟩⟩] := by
    unfold wellFormed
    rw [List.filterMap_cons_some hpoint]
    rfl
  have hall : wellFormed uuidText [pointOf ⟨7⟩ ⟨8⟩, some .null, some (.object []), none] =
      [⟨⟨7⟩, ⟨8⟩⟩] := by
    unfold wellFormed
    rw [List.filterMap_cons_some hpoint]
    rfl
  have hreached : reached uuidText [[pointOf ⟨7⟩ ⟨8⟩, some .null], [some (.object []), none]] =
      [⟨⟨7⟩, ⟨8⟩⟩] := by
    unfold reached
    rw [List.map_cons, hfirst, List.map_cons, hnone]
    rfl
  rw [hreached]
  exact hall ▸ ht

/-- The point of a workspace that is gone lies behind a page without a well-formed point. -/
theorem malformed_page_hides_the_rest :
    Follows (twoPages [some (.object [])] [pointOf ⟨7⟩ ⟨8⟩] (scrollLimit 256)) none
        [[some (.object [])], [pointOf ⟨7⟩ ⟨8⟩]] ∧
      collectTargetsFromFullScan uuidText (twoPages [some (.object [])] [pointOf ⟨7⟩ ⟨8⟩])
        ⟨[], []⟩ 256 2 = some (.ok []) ∧
      Owed ⟨[], []⟩ (wellFormed uuidText [some (.object []), pointOf ⟨7⟩ ⟨8⟩])
        (.workspace ⟨7⟩) := by
  refine ⟨twoPages_follows _ _ _, rfl, ?_, List.not_mem_nil⟩
  have hpoint := parsePoint_pointOf ⟨7⟩ ⟨8⟩
  refine ⟨⟨⟨7⟩, ⟨8⟩⟩, ?_, rfl⟩
  exact List.mem_filterMap.mpr ⟨_, List.mem_cons_of_mem _ List.mem_cons_self, hpoint⟩

end GmragApi.OrphanScan

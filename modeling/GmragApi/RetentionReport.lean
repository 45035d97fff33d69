import GmragApi.DeleteOutbox
import Mathlib.Data.List.Dedup
import Mathlib.Data.List.Perm.Subperm

/-! The report of what deletions have left behind, and the two outboxes it reads: a residue is owed
by the rows that a worker would delete it for. -/

namespace GmragApi.Retention

open DeleteOutbox (RowStatus)

structure ScannedVector where
  workspaceId : Uuid
  documentId : Uuid
  deriving DecidableEq

/-- A row of `qdrant_outbox` or `storage_outbox`. -/
structure OutboxRow where
  eventType : List Char
  payload : Json
  status : RowStatus

inductive OwedVectorTarget
  | document (workspaceId documentId : Uuid) (status : RowStatus)
  | workspace (workspaceId : Uuid) (status : RowStatus)
  | workspaces (workspaceIds : List Uuid) (status : RowStatus)

inductive OwedObjectTarget
  | object (objectKey : List Char) (status : RowStatus)
  | keysUnder (keyPrefix : List Char) (status : RowStatus)

structure DeleteEventRow where
  eventType : List Char
  createdAt : Int
  tenantId : Option Uuid
  workspaceId : Option Uuid
  documentId : Option Uuid

structure DeleteEventRef where
  eventType : List Char
  createdAt : Int
  deriving DecidableEq

inductive ResidueClass
  | recoveryPending
  | recoveryDead
  | unrecovered
  | unexplained
  deriving DecidableEq

structure VectorResidue where
  point : ScannedVector
  workspaceLive : Bool
  residueClass : ResidueClass
  owedOutboxStatus : Option RowStatus
  deleteEvent : Option DeleteEventRef

structure ObjectResidue where
  objectKey : List Char
  tenantId : Option Uuid
  workspaceId : Option Uuid
  documentId : Option Uuid
  residueClass : ResidueClass
  owedOutboxStatus : Option RowStatus
  deleteEvent : Option DeleteEventRef

structure RetentionCounts where
  vectorResidue : Nat
  objectResidue : Nat
  recoveryPending : Nat
  recoveryDead : Nat
  unrecovered : Nat
  unexplained : Nat

structure RetentionReport where
  vectorsProbed : Bool
  objectsProbed : Bool
  scannedVectorPoints : Nat
  scannedObjectKeys : Nat
  counts : RetentionCounts
  byClass : ResidueClass → Option Nat
  vectorResidue : List VectorResidue
  objectResidue : List ObjectResidue
  vectorResidueTruncated : Bool
  objectResidueTruncated : Bool
  limitations : List String

/-- The sets are lists of which only the elements matter; a scan that was not made is none. -/
structure RetentionInputs where
  liveWorkspaces : List Uuid
  liveDocuments : List (Uuid × Uuid)
  liveObjectKeys : List (List Char)
  scannedVectors : Option (List ScannedVector)
  scannedObjectKeys : Option (List (List Char))
  owedVectors : List OwedVectorTarget
  owedObjects : List OwedObjectTarget
  deleteEvents : List DeleteEventRow

def classify (owedOutboxStatus : Option RowStatus) (hasDeleteEvent : Bool) : ResidueClass :=
  match owedOutboxStatus, hasDeleteEvent with
  | some .dead, _ => .recoveryDead
  | some _, _ => .recoveryPending
  | none, true => .unrecovered
  | none, false => .unexplained

/-- Beyond the three there is only the status of processed rows, the least of which is any. -/
def pickOwedStatus (statuses : List RowStatus) : Option RowStatus :=
  if .pending ∈ statuses then some .pending
  else if .failed ∈ statuses then some .failed
  else if .dead ∈ statuses then some .dead
  else statuses.head?

def OwedVectorTarget.statusFor (point : ScannedVector) : OwedVectorTarget → Option RowStatus
  | document workspaceId documentId status =>
    if workspaceId = point.workspaceId ∧ documentId = point.documentId then some status else none
  | workspace workspaceId status => if workspaceId = point.workspaceId then some status else none
  | workspaces workspaceIds status => if point.workspaceId ∈ workspaceIds then some status else none

def OwedObjectTarget.statusFor (objectKey : List Char) : OwedObjectTarget → Option RowStatus
  | object owedKey status => if owedKey = objectKey then some status else none
  | keysUnder keyPrefix status => if keyPrefix <+: objectKey then some status else none

def owedStatusForVector (owed : List OwedVectorTarget) (point : ScannedVector) : Option RowStatus :=
  pickOwedStatus (owed.filterMap (OwedVectorTarget.statusFor point))

def owedStatusForObject (owed : List OwedObjectTarget) (objectKey : List Char) :
    Option RowStatus :=
  pickOwedStatus (owed.filterMap (OwedObjectTarget.statusFor objectKey))

def eventCovers (event : DeleteEventRow) (tenantId workspaceId documentId : Option Uuid) : Bool :=
  if event.eventType = "document_deleted".toList then
    documentId.isSome && event.documentId == documentId
  else if event.eventType = "workspace_deleted".toList then
    workspaceId.isSome && event.workspaceId == workspaceId
  else if event.eventType = "tenant_deleted".toList then
    tenantId.isSome && event.tenantId == tenantId
  else false

/-- Of the latest events the last. -/
def latestDeleteEvent (events : List DeleteEventRow)
    (tenantId workspaceId documentId : Option Uuid) : Option DeleteEventRef :=
  let covering := events.filter fun event => eventCovers event tenantId workspaceId documentId
  let latest := covering.foldl
    (fun best event => match best with
      | some b => if b.createdAt ≤ event.createdAt then some event else some b
      | none => some event) none
  latest.map fun event => ⟨event.eventType, event.createdAt⟩

/-- The ids in `tenants/{t}/workspaces/{w}/documents/{d}/...`: a later segment of the same name
replaces an earlier one, also with none. -/
def parseObjectKey (text : UuidText) (objectKey : List Char) :
    Option Uuid × Option Uuid × Option Uuid :=
  let segments := objectKey.splitOn '/'
  (segments.zip segments.tail).foldl
    (fun ids window =>
      let value := text.parseStr window.2
      if window.1 = "tenants".toList then (value, ids.2.1, ids.2.2)
      else if window.1 = "workspaces".toList then (ids.1, value, ids.2.2)
      else if window.1 = "documents".toList then (ids.1, ids.2.1, value)
      else ids)
    (none, none, none)

/-- A pass over keys that skips those it has seen before. -/
def visitDistinct {κ ρ : Type} [DecidableEq κ] (judge : κ → Option ρ) :
    List κ → List κ → List ρ
  | _, [] => []
  | seen, key :: keys =>
    if key ∈ seen then visitDistinct judge seen keys
    else (judge key).toList ++ visitDistinct judge (key :: seen) keys

def RetentionInputs.isLive (inputs : RetentionInputs) (point : ScannedVector) : Bool :=
  inputs.liveWorkspaces.contains point.workspaceId &&
    inputs.liveDocuments.contains (point.workspaceId, point.documentId)

def vectorResidueOf (inputs : RetentionInputs) (point : ScannedVector) : Option VectorResidue :=
  if inputs.isLive point then none
  else
    let owed := owedStatusForVector inputs.owedVectors point
    let event := latestDeleteEvent inputs.deleteEvents none (some point.workspaceId)
      (some point.documentId)
    some
      { point
        workspaceLive := inputs.liveWorkspaces.contains point.workspaceId
        residueClass := classify owed event.isSome
        owedOutboxStatus := owed
        deleteEvent := event }

def objectResidueOf (text : UuidText) (inputs : RetentionInputs) (objectKey : List Char) :
    Option ObjectResidue :=
  if inputs.liveObjectKeys.contains objectKey then none
  else
    let ids := parseObjectKey text objectKey
    let owed := owedStatusForObject inputs.owedObjects objectKey
    let event := latestDeleteEvent inputs.deleteEvents ids.1 ids.2.1 ids.2.2
    some
      { objectKey
        tenantId := ids.1
        workspaceId := ids.2.1
        documentId := ids.2.2
        residueClass := classify owed event.isSome
        owedOutboxStatus := owed
        deleteEvent := event }

def collectVectorResidue (inputs : RetentionInputs) : List VectorResidue :=
  visitDistinct (vectorResidueOf inputs) [] (inputs.scannedVectors.getD [])

def collectObjectResidue (text : UuidText) (inputs : RetentionInputs) : List ObjectResidue :=
  visitDistinct (objectResidueOf text inputs) [] (inputs.scannedObjectKeys.getD [])

def uuidLe (a b : Uuid) : Bool := decide (a.bits.toNat ≤ b.bits.toNat)

def pointLe (a b : VectorResidue) : Bool :=
  if a.point.workspaceId = b.point.workspaceId then uuidLe a.point.documentId b.point.documentId
  else uuidLe a.point.workspaceId b.point.workspaceId

/-- `str` compares bytes, which is to compare code points. -/
def textLe : List Char → List Char → Bool
  | [], _ => true
  | _ :: _, [] => false
  | a :: s, b :: t => if a = b then textLe s t else decide (a.toNat ≤ b.toNat)

def RetentionCounts.tally (counts : RetentionCounts) : ResidueClass → RetentionCounts
  | .recoveryPending => { counts with recoveryPending := counts.recoveryPending + 1 }
  | .recoveryDead => { counts with recoveryDead := counts.recoveryDead + 1 }
  | .unrecovered => { counts with unrecovered := counts.unrecovered + 1 }
  | .unexplained => { counts with unexplained := counts.unexplained + 1 }

def tallyByClass (byClass : ResidueClass → Option Nat) (residueClass : ResidueClass) :
    ResidueClass → Option Nat :=
  fun c => if c = residueClass then some ((byClass c).getD 0 + 1) else byClass c

def limitations (inputs : RetentionInputs) : List String :=
  ["Residue is judged against the SQL inventory read in this run. A delete committing " ++
      "mid-scan can appear as residue on this pass and be clear on the next.",
    "A matching delete event proves the resource ID appeared in an audited delete; it does " ++
      "not by itself prove that delete caused this residue.",
    "`unexplained` means no owing outbox row and no delete event was found — " ++
      "treat it as unknown provenance, not proof of an unaudited delete."] ++
  (if inputs.scannedVectors.isNone then
    ["Vectors were not probed: vector residue is unknown, not zero."] else []) ++
  (if inputs.scannedObjectKeys.isNone then
    ["Objects were not probed: object residue is unknown, not zero."] else [])

def buildRetentionReport (text : UuidText) (inputs : RetentionInputs) (sampleLimit : Nat) :
    RetentionReport :=
  let vectorResidue := (collectVectorResidue inputs).mergeSort pointLe
  let objectResidue := (collectObjectResidue text inputs).mergeSort fun a b =>
    textLe a.objectKey b.objectKey
  let classes := vectorResidue.map VectorResidue.residueClass ++
    objectResidue.map ObjectResidue.residueClass
  { vectorsProbed := inputs.scannedVectors.isSome
    objectsProbed := inputs.scannedObjectKeys.isSome
    scannedVectorPoints := (inputs.scannedVectors.map List.length).getD 0
    scannedObjectKeys := (inputs.scannedObjectKeys.map List.length).getD 0
    counts := classes.foldl RetentionCounts.tally
      ⟨vectorResidue.length, objectResidue.length, 0, 0, 0, 0⟩
    byClass := classes.foldl tallyByClass fun _ => none
    vectorResidue := vectorResidue.take sampleLimit
    objectResidue := objectResidue.take sampleLimit
    vectorResidueTruncated := decide (vectorResidue.length > sampleLimit)
    objectResidueTruncated := decide (objectResidue.length > sampleLimit)
    limitations := limitations inputs }

inductive RetentionExit
  | clear
  | actionRequired
  deriving DecidableEq

def retentionExitCode (report : RetentionReport) : RetentionExit :=
  if report.counts.recoveryDead + report.counts.unrecovered + report.counts.unexplained > 0 then
    .actionRequired
  else .clear

/-- A value that is no string is no id. -/
def parseUuidField (text : UuidText) (payload : Json) (key : List Char) : Option Uuid :=
  (payload.get key).bind (Json.asUuid text)

/-- What the report reads from a row of `qdrant_outbox`; ids that do not parse are left out of a
list. -/
def owedVector (text : UuidText) (row : OutboxRow) : Option OwedVectorTarget :=
  match QdrantOutboxEventType.parse row.eventType with
  | none => none
  | some .deleteByDocument =>
    (parseUuidField text row.payload workspaceIdKey).bind fun workspaceId =>
      (parseUuidField text row.payload documentIdKey).map fun documentId =>
        .document workspaceId documentId row.status
  | some .deleteByWorkspace =>
    (parseUuidField text row.payload workspaceIdKey).map fun workspaceId =>
      .workspace workspaceId row.status
  | some .deleteByWorkspaces =>
    let workspaceIds := match row.payload.get workspaceIdsKey with
      | some (.array values) => values.filterMap (Json.asUuid text)
      | _ => []
    some (.workspaces workspaceIds row.status)

def owedObject (row : OutboxRow) : Option OwedObjectTarget :=
  match StorageOutboxEventType.parse row.eventType with
  | none => none
  | some .deleteObject =>
    ((row.payload.get objectKeyKey).bind Json.asString).map fun objectKey =>
      .object objectKey row.status
  | some .deletePrefix =>
    ((row.payload.get prefixKey).bind Json.asString).map fun keyPrefix =>
      .keysUnder keyPrefix row.status

def OutboxRow.unprocessed (row : OutboxRow) : Bool := row.status != .processed

def loadOwedVectors (text : UuidText) (qdrantOutbox : List OutboxRow) : List OwedVectorTarget :=
  (qdrantOutbox.filter OutboxRow.unprocessed).filterMap (owedVector text)

def loadOwedObjects (storageOutbox : List OutboxRow) : List OwedObjectTarget :=
  (storageOutbox.filter OutboxRow.unprocessed).filterMap owedObject

def RetentionInputs.load (text : UuidText) (qdrantOutbox storageOutbox : List OutboxRow)
    (inputs : RetentionInputs) : RetentionInputs :=
  { inputs with
    owedVectors := loadOwedVectors text qdrantOutbox
    owedObjects := loadOwedObjects storageOutbox }

section Distinct

variable {κ ρ : Type} [DecidableEq κ] {judge : κ → Option ρ}

theorem visitDistinct_keys (judge : κ → Option ρ) (seen keys : List κ) :
    ∃ distinct : List κ, distinct.Nodup ∧
    (∀ key, key ∈ distinct ↔ key ∈ keys ∧ key ∉ seen) ∧
      visitDistinct judge seen keys = distinct.filterMap judge := by
  induction keys generalizing seen with
  | nil => exact ⟨[], List.nodup_nil, by simp, rfl⟩
  | cons key keys ih =>
    rw [visitDistinct]
    by_cases hseen : key ∈ seen
    · obtain ⟨distinct, hnodup, hmem, hvisit⟩ := ih seen
      refine ⟨distinct, hnodup, fun k => ?_, by rw [if_pos hseen, hvisit]⟩
      rw [hmem, List.mem_cons]
      constructor
      · exact fun h => ⟨.inr h.1, h.2⟩
      · rintro ⟨rfl | hk, hnew⟩
        · exact absurd hseen hnew
        · exact ⟨hk, hnew⟩
    · obtain ⟨distinct, hnodup, hmem, hvisit⟩ := ih (key :: seen)
      have hfirst : key ∉ distinct := by simp [hmem]
      refine ⟨key :: distinct, List.nodup_cons.mpr ⟨hfirst, hnodup⟩, fun k => ?_, ?_⟩
      · simp only [List.mem_cons, hmem, not_or]
        constructor
        · rintro (rfl | ⟨hk, hnew⟩)
          · exact ⟨.inl rfl, hseen⟩
          · exact ⟨.inr hk, hnew.2⟩
        · rintro ⟨rfl | hk, hnew⟩
          · exact .inl rfl
          · by_cases heq : k = key
            · exact .inl heq
            · exact .inr ⟨hk, heq, hnew⟩
      · rw [if_neg hseen, hvisit, List.filterMap_cons]
        cases judge key <;> rfl

/-- Every key is judged once. -/
theorem visitDistinct_perm (keys : List κ) :
    (visitDistinct judge [] keys).Perm (keys.dedup.filterMap judge) := by
  obtain ⟨distinct, hnodup, hmem, hvisit⟩ := visitDistinct_keys judge [] keys
  rw [hvisit]
  refine ((List.perm_ext_iff_of_nodup hnodup keys.nodup_dedup).mpr fun key => ?_).filterMap judge
  simp [hmem]

theorem mem_visitDistinct {keys : List κ} {r : ρ} :
    r ∈ visitDistinct judge [] keys ↔ ∃ key ∈ keys, judge key = some r := by
  rw [(visitDistinct_perm keys).mem_iff, List.mem_filterMap]
  simp

/-- The keys of what a pass gives, where a judgement names the key it is about. -/
theorem visitDistinct_names {name : ρ → κ} {dropped : κ → Bool}
    (hdropped : ∀ key, dropped key = true → judge key = none)
    (hkept : ∀ key, dropped key = false → (judge key).map name = some key) (keys : List κ) :
    ((visitDistinct judge [] keys).map name).Perm (keys.dedup.filter fun key => !dropped key) := by
  refine ((visitDistinct_perm keys).map name).trans ?_
  rw [List.map_filterMap]
  refine List.Perm.of_eq ?_
  rw [← List.filterMap_eq_filter]
  refine List.filterMap_congr fun key _ => ?_
  cases hkey : dropped key with
  | true => simp [hdropped key hkey, Option.guard, hkey]
  | false => simp [hkept key hkey, Option.guard, hkey]

end Distinct

section Counts

variable {text : UuidText} {inputs : RetentionInputs}

theorem tally_eq (classes : List ResidueClass) (counts : RetentionCounts) :
    classes.foldl RetentionCounts.tally counts =
      { counts with
        recoveryPending := counts.recoveryPending + classes.count .recoveryPending
        recoveryDead := counts.recoveryDead + classes.count .recoveryDead
        unrecovered := counts.unrecovered + classes.count .unrecovered
        unexplained := counts.unexplained + classes.count .unexplained } := by
  induction classes generalizing counts with
  | nil => rfl
  | cons c classes ih =>
    rw [List.foldl_cons, ih]
    cases c <;> simp [RetentionCounts.tally] <;> omega

/-- The classes of all residues, whatever the sample shows of them. -/
def residueClasses (text : UuidText) (inputs : RetentionInputs) : List ResidueClass :=
  (collectVectorResidue inputs).map VectorResidue.residueClass ++
    (collectObjectResidue text inputs).map ObjectResidue.residueClass

theorem report_counts (sampleLimit : Nat) :
    (buildRetentionReport text inputs sampleLimit).counts =
      { vectorResidue := (collectVectorResidue inputs).length
        objectResidue := (collectObjectResidue text inputs).length
        recoveryPending := (residueClasses text inputs).count .recoveryPending
        recoveryDead := (residueClasses text inputs).count .recoveryDead
        unrecovered := (residueClasses text inputs).count .unrecovered
        unexplained := (residueClasses text inputs).count .unexplained } := by
  have hperm : ((((collectVectorResidue inputs).mergeSort pointLe).map
      VectorResidue.residueClass) ++ (((collectObjectResidue text inputs).mergeSort fun a b =>
        textLe a.objectKey b.objectKey).map ObjectResidue.residueClass)).Perm
      (residueClasses text inputs) :=
    ((List.mergeSort_perm _ _).map _).append ((List.mergeSort_perm _ _).map _)
  simp only [buildRetentionReport, tally_eq, List.length_mergeSort, hperm.count_eq, Nat.zero_add]

theorem count_classes (classes : List ResidueClass) :
    classes.count .recoveryPending + classes.count .recoveryDead + classes.count .unrecovered +
      classes.count .unexplained = classes.length := by
  induction classes with
  | nil => rfl
  | cons c classes ih =>
    rw [List.length_cons, ← ih]
    cases c <;> simp <;> omega

/-- Each residue is in one of the four classes. -/
theorem report_counts_sum (sampleLimit : Nat) :
    let counts := (buildRetentionReport text inputs sampleLimit).counts
    counts.recoveryPending + counts.recoveryDead + counts.unrecovered + counts.unexplained =
      counts.vectorResidue + counts.objectResidue := by
  have hlength : (residueClasses text inputs).length =
      (collectVectorResidue inputs).length + (collectObjectResidue text inputs).length := by
    simp [residueClasses]
  simp only [report_counts, count_classes, hlength]

theorem report_clear_iff (sampleLimit : Nat) :
    retentionExitCode (buildRetentionReport text inputs sampleLimit) = .clear ↔
      (∀ r ∈ collectVectorResidue inputs, r.residueClass = .recoveryPending) ∧
        ∀ r ∈ collectObjectResidue text inputs, r.residueClass = .recoveryPending := by
  have hall : (∀ c ∈ residueClasses text inputs, c = .recoveryPending) ↔
      (∀ r ∈ collectVectorResidue inputs, r.residueClass = .recoveryPending) ∧
        ∀ r ∈ collectObjectResidue text inputs, r.residueClass = .recoveryPending := by
    simp [residueClasses, List.mem_append, or_imp, forall_and]
  have hcount : (residueClasses text inputs).count .recoveryPending =
      (residueClasses text inputs).length ↔ ∀ c ∈ residueClasses text inputs, c = .recoveryPending :=
    List.count_eq_length.trans (forall₂_congr fun _ _ => eq_comm)
  have hsum := count_classes (residueClasses text inputs)
  rw [← hall, ← hcount, retentionExitCode, report_counts]
  split
  next h => exact iff_of_false (by decide) (by simp only at h; omega)
  next h => exact iff_of_true rfl (by simp only at h; omega)

end Counts

section Collected

variable {text : UuidText} {inputs : RetentionInputs}

/-- Each scanned point that is not live, once. -/
theorem collectVectorResidue_points (inputs : RetentionInputs) :
    ((collectVectorResidue inputs).map VectorResidue.point).Perm
      ((inputs.scannedVectors.getD []).dedup.filter fun point => !inputs.isLive point) := by
  refine visitDistinct_names (fun point hlive => ?_) (fun point hgone => ?_) _
  · rw [vectorResidueOf, if_pos hlive]
  · rw [vectorResidueOf, if_neg (by simp [hgone])]
    rfl

theorem collectObjectResidue_keys (text : UuidText) (inputs : RetentionInputs) :
    ((collectObjectResidue text inputs).map ObjectResidue.objectKey).Perm
      ((inputs.scannedObjectKeys.getD []).dedup.filter fun key =>
        !inputs.liveObjectKeys.contains key) := by
  refine visitDistinct_names (fun key hlive => ?_) (fun key hgone => ?_) _
  · rw [objectResidueOf, if_pos hlive]
  · rw [objectResidueOf, if_neg (by simpa using hgone)]
    rfl

end Collected

end GmragApi.Retention

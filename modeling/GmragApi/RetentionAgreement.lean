import GmragApi.RetentionReport

/-! The workers of the two outboxes and the report read the rows that the enqueue functions write:
which residue a row is about, and which a worker deletes when it comes to the row. -/

namespace GmragApi.Retention

open DeleteOutbox (RowStatus)

/-- The delete that a row of `qdrant_outbox` asks for. -/
inductive PointDelete
  | byDocument (workspaceId documentId : Uuid)
  | byWorkspaces (workspaceIds : List Uuid)

def PointDelete.deletes (point : ScannedVector) : PointDelete → Bool
  | byDocument workspaceId documentId =>
    workspaceId == point.workspaceId && documentId == point.documentId
  | byWorkspaces workspaceIds => workspaceIds.contains point.workspaceId

inductive ObjectDelete
  | object (bucket objectKey : List Char)
  | keysUnder (bucket keyPrefix : List Char)

def ObjectDelete.deletes (bucket objectKey : List Char) : ObjectDelete → Bool
  | object b key => b == bucket && key == objectKey
  | keysUnder b keyPrefix => b == bucket && keyPrefix.isPrefixOf objectKey

/-- The call of `process_single_row` in the retrieval outbox; none where the row is marked as dead
without a call. -/
def processQdrantRow (text : UuidText) (row : OutboxRow) : Option PointDelete :=
  match QdrantOutboxEventType.parse row.eventType with
  | none => none
  | some .deleteByDocument =>
    (DeleteByDocumentPayload.fromValue text row.payload).map fun p =>
      .byDocument p.workspaceId p.documentId
  | some .deleteByWorkspace =>
    (DeleteByWorkspacePayload.fromValue text row.payload).map fun p => .byWorkspaces [p.workspaceId]
  | some .deleteByWorkspaces =>
    (DeleteByWorkspacesPayload.fromValue text row.payload).map fun p => .byWorkspaces p.workspaceIds

/-- The call of `process_single_row` in the storage outbox. -/
def processStorageRow (text : UuidText) (row : OutboxRow) : Option ObjectDelete :=
  match StorageOutboxEventType.parse row.eventType with
  | none => none
  | some .deleteObject =>
    (DeleteObjectPayload.fromValue text row.payload).bind fun p =>
      if (validateBucket p.bucket).toBool && (validateObjectKey p.objectKey).toBool then
        some (.object p.bucket p.objectKey)
      else none
  | some .deletePrefix =>
    (DeletePrefixPayload.fromValue text row.payload).bind fun p =>
      if (validateBucket p.bucket).toBool && (validatePrefix p.keyPrefix).toBool then
        some (.keysUnder p.bucket p.keyPrefix)
      else none

def enqueueDeleteByDocument (text : UuidText) (workspaceId documentId : Uuid) : OutboxRow :=
  ⟨QdrantOutboxEventType.deleteByDocument.asStr,
    DeleteByDocumentPayload.toJson text ⟨workspaceId, documentId⟩, .pending⟩

def enqueueDeleteByWorkspace (text : UuidText) (workspaceId : Uuid) : OutboxRow :=
  ⟨QdrantOutboxEventType.deleteByWorkspace.asStr,
    DeleteByWorkspacePayload.toJson text ⟨workspaceId⟩, .pending⟩

def enqueueDeleteByWorkspaces (text : UuidText) (workspaceIds : List Uuid) : OutboxRow :=
  ⟨QdrantOutboxEventType.deleteByWorkspaces.asStr,
    DeleteByWorkspacesPayload.toJson text ⟨workspaceIds⟩, .pending⟩

def enqueueDeleteObject (text : UuidText) (objectKey bucket : List Char)
    (workspaceId documentId : Uuid) : OutboxRow :=
  ⟨StorageOutboxEventType.deleteObject.asStr,
    DeleteObjectPayload.toJson text ⟨objectKey, bucket, workspaceId, documentId⟩, .pending⟩

def enqueueDeletePrefix (text : UuidText) (keyPrefix bucket : List Char)
    (tenantId workspaceId : Option Uuid) : OutboxRow :=
  ⟨StorageOutboxEventType.deletePrefix.asStr,
    DeletePrefixPayload.toJson text ⟨keyPrefix, bucket, tenantId, workspaceId⟩, .pending⟩

/-- Workers change the status of a row. -/
def OutboxRow.movedTo (row : OutboxRow) (status : RowStatus) : OutboxRow :=
  { row with status := status }

/-- The row was written by one of the enqueue functions. -/
inductive QdrantWritten (text : UuidText) : OutboxRow → Prop
  | document (workspaceId documentId : Uuid) (status : RowStatus) :
    QdrantWritten text ((enqueueDeleteByDocument text workspaceId documentId).movedTo status)
  | workspace (workspaceId : Uuid) (status : RowStatus) :
    QdrantWritten text ((enqueueDeleteByWorkspace text workspaceId).movedTo status)
  | workspaces (workspaceIds : List Uuid) (status : RowStatus) :
    QdrantWritten text ((enqueueDeleteByWorkspaces text workspaceIds).movedTo status)

/-- The same for storage rows, of one bucket. -/
inductive StorageWritten (text : UuidText) (bucket : List Char) : OutboxRow → Prop
  | object (objectKey : List Char) (workspaceId documentId : Uuid) (status : RowStatus) :
    StorageWritten text bucket
      ((enqueueDeleteObject text objectKey bucket workspaceId documentId).movedTo status)
  | keysUnder (keyPrefix : List Char) (tenantId workspaceId : Option Uuid) (status : RowStatus) :
    StorageWritten text bucket
      ((enqueueDeletePrefix text keyPrefix bucket tenantId workspaceId).movedTo status)

/-- The worker would delete the points when it comes to the row. -/
def OutboxRow.deletesPoint (text : UuidText) (row : OutboxRow) (point : ScannedVector) : Bool :=
  (processQdrantRow text row).any (PointDelete.deletes point)

def OutboxRow.deletesObject (text : UuidText) (bucket : List Char) (row : OutboxRow)
    (objectKey : List Char) : Bool :=
  (processStorageRow text row).any (ObjectDelete.deletes bucket objectKey)

/-- The payload is about the object, whether or not the worker takes it. -/
def OutboxRow.namesObject (row : OutboxRow) (objectKey : List Char) : Bool :=
  (owedObject row).any fun target => (target.statusFor objectKey).isSome

/-- A worker will still come to the row. -/
def OutboxRow.Retryable (row : OutboxRow) : Prop := row.status = .pending ∨ row.status = .failed

/-- Some row that a worker will come to fits. -/
def SomePending (rows : List OutboxRow) (fits : OutboxRow → Bool) : Prop :=
  ∃ row ∈ rows, row.Retryable ∧ fits row = true

/-- No such row fits, but one that was given up does. -/
def OnlyDead (rows : List OutboxRow) (fits : OutboxRow → Bool) : Prop :=
  ¬ SomePending rows fits ∧ ∃ row ∈ rows, row.status = .dead ∧ fits row = true

/-- The report counts each residue once, and its classes say what the outboxes will do. -/
structure Complete (text : UuidText) (bucket : List Char) (qdrantOutbox storageOutbox :
    List OutboxRow) (inputs : RetentionInputs) (sampleLimit : Nat) : Prop where
  points : ((collectVectorResidue inputs).map VectorResidue.point).Perm
    ((inputs.scannedVectors.getD []).dedup.filter fun point => !inputs.isLive point)
  objects : ((collectObjectResidue text inputs).map ObjectResidue.objectKey).Perm
    ((inputs.scannedObjectKeys.getD []).dedup.filter fun key => !inputs.liveObjectKeys.contains key)
  vectorCount : (buildRetentionReport text inputs sampleLimit).counts.vectorResidue =
    ((inputs.scannedVectors.getD []).dedup.filter fun point => !inputs.isLive point).length
  objectCount : (buildRetentionReport text inputs sampleLimit).counts.objectResidue =
    ((inputs.scannedObjectKeys.getD []).dedup.filter fun key =>
      !inputs.liveObjectKeys.contains key).length
  classCounts : (buildRetentionReport text inputs sampleLimit).counts.recoveryPending +
      (buildRetentionReport text inputs sampleLimit).counts.recoveryDead +
      (buildRetentionReport text inputs sampleLimit).counts.unrecovered +
      (buildRetentionReport text inputs sampleLimit).counts.unexplained =
    (buildRetentionReport text inputs sampleLimit).counts.vectorResidue +
      (buildRetentionReport text inputs sampleLimit).counts.objectResidue
  vectorSample : ∃ residue : List VectorResidue, residue.Perm (collectVectorResidue inputs) ∧
    (buildRetentionReport text inputs sampleLimit).vectorResidue = residue.take sampleLimit
  objectSample : ∃ residue : List ObjectResidue, residue.Perm (collectObjectResidue text inputs) ∧
    (buildRetentionReport text inputs sampleLimit).objectResidue = residue.take sampleLimit
  vectorPending : ∀ r ∈ collectVectorResidue inputs, r.residueClass = .recoveryPending ↔
    SomePending qdrantOutbox fun row => row.deletesPoint text r.point
  vectorDead : ∀ r ∈ collectVectorResidue inputs, r.residueClass = .recoveryDead ↔
    OnlyDead qdrantOutbox fun row => row.deletesPoint text r.point
  objectPending : ∀ r ∈ collectObjectResidue text inputs, r.residueClass = .recoveryPending ↔
    SomePending storageOutbox fun row => row.deletesObject text bucket r.objectKey
  objectDead : ∀ r ∈ collectObjectResidue text inputs, r.residueClass = .recoveryDead ↔
    OnlyDead storageOutbox fun row => row.deletesObject text bucket r.objectKey
  clear : retentionExitCode (buildRetentionReport text inputs sampleLimit) = .clear ↔
    (∀ r ∈ collectVectorResidue inputs, r.residueClass = .recoveryPending) ∧
      ∀ r ∈ collectObjectResidue text inputs, r.residueClass = .recoveryPending

/-- The checks that a storage row of the bucket has to pass before a worker calls the storage. -/
def OwedObjectTarget.passesChecks (bucket : List Char) : OwedObjectTarget → Bool
  | object objectKey _ => (validateBucket bucket).toBool && (validateObjectKey objectKey).toBool
  | keysUnder keyPrefix _ => (validateBucket bucket).toBool && (validatePrefix keyPrefix).toBool

def OutboxRow.passesChecks (bucket : List Char) (row : OutboxRow) : Bool :=
  (owedObject row).any (OwedObjectTarget.passesChecks bucket)

/-- Among the rows that the object is classed by is one that passes the checks of the worker. -/
def Taken (bucket : List Char) (storageOutbox : List OutboxRow) (objectKey : List Char) : Prop :=
  (SomePending storageOutbox (fun row => row.namesObject objectKey) →
    SomePending storageOutbox fun row => row.namesObject objectKey && row.passesChecks bucket) ∧
  (OnlyDead storageOutbox (fun row => row.namesObject objectKey) →
    ∃ row ∈ storageOutbox, row.status = .dead ∧
      (row.namesObject objectKey && row.passesChecks bucket) = true)

section Classes

variable {rows : List OutboxRow} {fits : OutboxRow → Bool}

/-- The statuses of the rows that fit, of those that are not processed. -/
def fittingStatuses (rows : List OutboxRow) (fits : OutboxRow → Bool) : List RowStatus :=
  ((rows.filter OutboxRow.unprocessed).filter fits).map OutboxRow.status

theorem mem_fittingStatuses {status : RowStatus} : status ∈ fittingStatuses rows fits ↔
    ∃ row ∈ rows, row.status = status ∧ fits row = true ∧ status ≠ .processed := by
  simp only [fittingStatuses, List.mem_map, List.mem_filter, OutboxRow.unprocessed, bne_iff_ne]
  constructor
  · rintro ⟨row, ⟨⟨hrow, hstatus⟩, hfits⟩, rfl⟩
    exact ⟨row, hrow, rfl, hfits, hstatus⟩
  · rintro ⟨row, hrow, rfl, hfits, hstatus⟩
    exact ⟨row, ⟨⟨hrow, hstatus⟩, hfits⟩, rfl⟩

theorem somePending_iff : SomePending rows fits ↔
    .pending ∈ fittingStatuses rows fits ∨ .failed ∈ fittingStatuses rows fits := by
  simp only [mem_fittingStatuses]
  constructor
  · rintro ⟨row, hrow, hpending | hfailed, hfits⟩
    · exact .inl ⟨row, hrow, hpending, hfits, by decide⟩
    · exact .inr ⟨row, hrow, hfailed, hfits, by decide⟩
  · rintro (⟨row, hrow, hstatus, hfits, -⟩ | ⟨row, hrow, hstatus, hfits, -⟩)
    · exact ⟨row, hrow, .inl hstatus, hfits⟩
    · exact ⟨row, hrow, .inr hstatus, hfits⟩

theorem onlyDead_iff : OnlyDead rows fits ↔
    .pending ∉ fittingStatuses rows fits ∧ .failed ∉ fittingStatuses rows fits ∧
      .dead ∈ fittingStatuses rows fits := by
  have hdead : (.dead ∈ fittingStatuses rows fits) ↔
      ∃ row ∈ rows, row.status = .dead ∧ fits row = true := by
    simp [mem_fittingStatuses]
  rw [OnlyDead, somePending_iff, ← hdead, not_or, and_assoc]

/-- A status is picked, and the class read off it, as the rows that fit stand. -/
theorem classify_fitting (rows : List OutboxRow) (fits : OutboxRow → Bool)
    (hasDeleteEvent : Bool) :
    (classify (pickOwedStatus (fittingStatuses rows fits)) hasDeleteEvent = .recoveryPending ↔
      SomePending rows fits) ∧
    (classify (pickOwedStatus (fittingStatuses rows fits)) hasDeleteEvent = .recoveryDead ↔
      OnlyDead rows fits) := by
  have hprocessed : .processed ∉ fittingStatuses rows fits := by simp [mem_fittingStatuses]
  rw [somePending_iff, onlyDead_iff, pickOwedStatus]
  generalize fittingStatuses rows fits = statuses at *
  by_cases hpending : .pending ∈ statuses
  · simp [hpending, classify]
  by_cases hfailed : .failed ∈ statuses
  · simp [hpending, hfailed, classify]
  by_cases hdead : .dead ∈ statuses
  · simp [hpending, hfailed, hdead, classify]
  have hnil : statuses = [] := by
    refine List.eq_nil_iff_forall_not_mem.mpr fun status hstatus => ?_
    cases status <;> contradiction
  subst hnil
  cases hasDeleteEvent <;> simp [classify]

end Classes

section Readers

variable {text : UuidText} {bucket : List Char} {rows : List OutboxRow} {row : OutboxRow}

/-- The statuses that the report finds for a residue are those of the rows that fit it. -/
theorem statuses_of_reader {τ : Type} {read : OutboxRow → Option τ}
    {statusFor : τ → Option RowStatus} {fits : OutboxRow → Bool} (rows : List OutboxRow)
    (h : ∀ row ∈ rows, (read row).bind statusFor = if fits row then some row.status else none) :
    ((rows.filter OutboxRow.unprocessed).filterMap read).filterMap statusFor =
      fittingStatuses rows fits := by
  rw [List.filterMap_filterMap, fittingStatuses, ← List.filterMap_eq_map,
    List.filterMap_filter (p := fits)]
  refine List.filterMap_congr fun row hrow => ?_
  exact h row (List.mem_filter.mp hrow).1

theorem parseUuidField_display {payload : Json} {key : List Char} {id : Uuid}
    (h : payload.get key = some (.string (text.display id))) :
    parseUuidField text payload key = some id := by
  rw [parseUuidField, h]
  exact text.parse_display id

theorem filterMap_asUuid (ids : List Uuid) :
    (ids.map fun id => Json.string (text.display id)).filterMap (Json.asUuid text) = ids := by
  rw [List.filterMap_map]
  refine (List.filterMap_congr fun id _ => ?_).trans List.filterMap_some
  exact text.parse_display id

/-- What the report reads from a row and the call of its worker are about the same points. -/
theorem read_written (h : QdrantWritten text row) :
    (∃ w d, owedVector text row = some (.document w d row.status) ∧
      processQdrantRow text row = some (.byDocument w d)) ∨
    (∃ w, owedVector text row = some (.workspace w row.status) ∧
      processQdrantRow text row = some (.byWorkspaces [w])) ∨
    ∃ ids, owedVector text row = some (.workspaces ids row.status) ∧
      processQdrantRow text row = some (.byWorkspaces ids) := by
  cases h with
  | document workspaceId documentId status =>
    have hworkspace : parseUuidField text (DeleteByDocumentPayload.toJson text
        ⟨workspaceId, documentId⟩) workspaceIdKey = some workspaceId :=
      parseUuidField_display (by simp [DeleteByDocumentPayload.toJson, Json.get])
    have hdocument : parseUuidField text (DeleteByDocumentPayload.toJson text
        ⟨workspaceId, documentId⟩) documentIdKey = some documentId := by
      have hother : (documentIdKey == workspaceIdKey) = false := by decide
      exact parseUuidField_display
        (by simp [DeleteByDocumentPayload.toJson, Json.get, List.lookup_cons, hother])
    refine .inl ⟨workspaceId, documentId, ?_, ?_⟩
    · simp only [owedVector, OutboxRow.movedTo, enqueueDeleteByDocument,
        QdrantOutboxEventType.parse_asStr, hworkspace, hdocument, Option.bind_some, Option.map_some]
    · simp only [processQdrantRow, OutboxRow.movedTo, enqueueDeleteByDocument,
        QdrantOutboxEventType.parse_asStr, DeleteByDocumentPayload.fromValue_toJson,
        Option.map_some]
  | workspace workspaceId status =>
    have hworkspace : parseUuidField text (DeleteByWorkspacePayload.toJson text ⟨workspaceId⟩)
        workspaceIdKey = some workspaceId :=
      parseUuidField_display (by simp [DeleteByWorkspacePayload.toJson, Json.get])
    refine .inr (.inl ⟨workspaceId, ?_, ?_⟩)
    · simp only [owedVector, OutboxRow.movedTo, enqueueDeleteByWorkspace,
        QdrantOutboxEventType.parse_asStr, hworkspace, Option.map_some]
    · simp only [processQdrantRow, OutboxRow.movedTo, enqueueDeleteByWorkspace,
        QdrantOutboxEventType.parse_asStr, DeleteByWorkspacePayload.fromValue_toJson,
        Option.map_some]
  | workspaces workspaceIds status =>
    have hget : (DeleteByWorkspacesPayload.toJson text ⟨workspaceIds⟩).get workspaceIdsKey =
        some (.array (workspaceIds.map fun id => .string (text.display id))) := by
      simp [DeleteByWorkspacesPayload.toJson, Json.get]
    refine .inr (.inr ⟨workspaceIds, ?_, ?_⟩)
    · simp only [owedVector, OutboxRow.movedTo, enqueueDeleteByWorkspaces,
        QdrantOutboxEventType.parse_asStr, hget, filterMap_asUuid]
    · simp only [processQdrantRow, OutboxRow.movedTo, enqueueDeleteByWorkspaces,
        QdrantOutboxEventType.parse_asStr, DeleteByWorkspacesPayload.fromValue_toJson,
        Option.map_some]

/-- The report takes a row for exactly the points that its worker deletes. -/
theorem owedVector_statusFor (h : QdrantWritten text row) (point : ScannedVector) :
    (owedVector text row).bind (OwedVectorTarget.statusFor point) =
      if row.deletesPoint text point then some row.status else none := by
  unfold OutboxRow.deletesPoint
  rcases read_written h with ⟨w, d, hread, hcall⟩ | ⟨w, hread, hcall⟩ | ⟨ids, hread, hcall⟩
  · simp [hread, hcall, OwedVectorTarget.statusFor, PointDelete.deletes]
  · simp [hread, hcall, OwedVectorTarget.statusFor, PointDelete.deletes, eq_comm]
  · simp [hread, hcall, OwedVectorTarget.statusFor, PointDelete.deletes]

theorem owedObject_statusFor (row : OutboxRow) (objectKey : List Char) :
    (owedObject row).bind (OwedObjectTarget.statusFor objectKey) =
      if row.namesObject objectKey then some row.status else none := by
  have hstatus : ∀ target ∈ owedObject row, ∀ status ∈ target.statusFor objectKey,
      status = row.status := by
    intro target htarget status hstatus
    unfold owedObject at htarget
    split at htarget
    · cases htarget
    · obtain ⟨key, -, rfl⟩ := Option.map_eq_some_iff.mp htarget
      rw [OwedObjectTarget.statusFor, Option.mem_ite_none_right] at hstatus
      exact (Option.some.inj hstatus.2).symm
    · obtain ⟨key, -, rfl⟩ := Option.map_eq_some_iff.mp htarget
      rw [OwedObjectTarget.statusFor, Option.mem_ite_none_right] at hstatus
      exact (Option.some.inj hstatus.2).symm
  unfold OutboxRow.namesObject
  cases htarget : owedObject row with
  | none => rfl
  | some target =>
    cases hfound : target.statusFor objectKey with
    | none => simp [hfound]
    | some status => simp [hfound, hstatus target htarget status hfound]

/-- A worker deletes what a row is about, if the row passes its checks. -/
theorem deletesObject_eq (h : StorageWritten text bucket row) (objectKey : List Char) :
    row.deletesObject text bucket objectKey =
      (row.namesObject objectKey && row.passesChecks bucket) := by
  unfold OutboxRow.deletesObject OutboxRow.namesObject OutboxRow.passesChecks
  cases h with
  | object key workspaceId documentId status =>
    have hread : owedObject ((enqueueDeleteObject text key bucket workspaceId documentId).movedTo
        status) = some (.object key status) := by
      simp [owedObject, OutboxRow.movedTo, enqueueDeleteObject, StorageOutboxEventType.parse_asStr,
        DeleteObjectPayload.toJson, Json.get, Json.asString]
    have hcall : processStorageRow text ((enqueueDeleteObject text key bucket workspaceId
        documentId).movedTo status) =
        if (validateBucket bucket).toBool && (validateObjectKey key).toBool then
          some (.object bucket key) else none := by
      simp only [processStorageRow, OutboxRow.movedTo, enqueueDeleteObject,
        StorageOutboxEventType.parse_asStr, DeleteObjectPayload.fromValue_toJson, Option.bind_some]
    rw [hread, hcall, Option.any_some, Option.any_some, OwedObjectTarget.passesChecks]
    cases (validateBucket bucket).toBool && (validateObjectKey key).toBool with
    | false => simp
    | true =>
      by_cases hkey : key = objectKey
      · simp [ObjectDelete.deletes, OwedObjectTarget.statusFor, hkey]
      · simp [ObjectDelete.deletes, OwedObjectTarget.statusFor, hkey]
  | keysUnder keyPrefix tenantId workspaceId status =>
    have hread : owedObject ((enqueueDeletePrefix text keyPrefix bucket tenantId
        workspaceId).movedTo status) = some (.keysUnder keyPrefix status) := by
      simp [owedObject, OutboxRow.movedTo, enqueueDeletePrefix, StorageOutboxEventType.parse_asStr,
        DeletePrefixPayload.toJson, Json.get, Json.asString]
    have hcall : processStorageRow text ((enqueueDeletePrefix text keyPrefix bucket tenantId
        workspaceId).movedTo status) =
        if (validateBucket bucket).toBool && (validatePrefix keyPrefix).toBool then
          some (.keysUnder bucket keyPrefix) else none := by
      simp only [processStorageRow, OutboxRow.movedTo, enqueueDeletePrefix,
        StorageOutboxEventType.parse_asStr, DeletePrefixPayload.fromValue_toJson, Option.bind_some]
    rw [hread, hcall, Option.any_some, Option.any_some, OwedObjectTarget.passesChecks]
    cases (validateBucket bucket).toBool && (validatePrefix keyPrefix).toBool with
    | false => simp
    | true =>
      have hkey : keyPrefix.isPrefixOf objectKey = decide (keyPrefix <+: objectKey) := by
        rw [Bool.eq_iff_iff, List.isPrefixOf_iff_prefix, decide_eq_true_iff]
      by_cases hunder : keyPrefix <+: objectKey
      · simp [ObjectDelete.deletes, OwedObjectTarget.statusFor, hunder]
      · simp [ObjectDelete.deletes, OwedObjectTarget.statusFor, hkey, hunder]

/-- A call is made for the rows that an attempt can succeed at. -/
theorem processQdrantRow_isSome (text : UuidText) (row : OutboxRow) :
    (processQdrantRow text row).isSome = true ↔
      qdrantAttempt text row.eventType row.payload (.ok ()) = .succeeded := by
  unfold processQdrantRow qdrantAttempt
  cases QdrantOutboxEventType.parse row.eventType with
  | none => simp [unsupportedEventType]
  | some eventType =>
    cases eventType with
    | deleteByDocument =>
      cases DeleteByDocumentPayload.fromValue text row.payload <;> simp [invalidPayload]
    | deleteByWorkspace =>
      cases DeleteByWorkspacePayload.fromValue text row.payload <;> simp [invalidPayload]
    | deleteByWorkspaces =>
      cases DeleteByWorkspacesPayload.fromValue text row.payload <;> simp [invalidPayload]

theorem processStorageRow_isSome (text : UuidText) (row : OutboxRow) :
    (processStorageRow text row).isSome = true ↔
      storageAttempt text row.eventType row.payload (.ok ()) = .succeeded := by
  unfold processStorageRow storageAttempt
  cases StorageOutboxEventType.parse row.eventType with
  | none => simp [unsupportedEventType]
  | some eventType =>
    cases eventType with
    | deleteObject =>
      cases DeleteObjectPayload.fromValue text row.payload with
      | none => simp [invalidPayload]
      | some p =>
        cases hbucket : validateBucket p.bucket <;> cases hkey : validateObjectKey p.objectKey <;>
          simp [hbucket, hkey, Except.toBool]
    | deletePrefix =>
      cases DeletePrefixPayload.fromValue text row.payload with
      | none => simp [invalidPayload]
      | some p =>
        cases hbucket : validateBucket p.bucket <;> cases hkey : validatePrefix p.keyPrefix <;>
          simp [hbucket, hkey, Except.toBool]

end Readers

section Report

variable {text : UuidText} {bucket : List Char} {qdrantOutbox storageOutbox : List OutboxRow}
  {inputs : RetentionInputs}

theorem SomePending.mono {rows : List OutboxRow} {fits fits' : OutboxRow → Bool}
    (h : SomePending rows fits) (hmono : ∀ row ∈ rows, fits row = true → fits' row = true) :
    SomePending rows fits' := by
  obtain ⟨row, hrow, hstatus, hfits⟩ := h
  exact ⟨row, hrow, hstatus, hmono row hrow hfits⟩

/-- A vector residue is classed as the rows stand that would delete it. -/
theorem vectorResidue_class (hwritten : ∀ row ∈ qdrantOutbox, QdrantWritten text row)
    {r : VectorResidue}
    (hr : r ∈ collectVectorResidue (inputs.load text qdrantOutbox storageOutbox)) :
    (r.residueClass = .recoveryPending ↔
      SomePending qdrantOutbox fun row => row.deletesPoint text r.point) ∧
    (r.residueClass = .recoveryDead ↔
      OnlyDead qdrantOutbox fun row => row.deletesPoint text r.point) := by
  obtain ⟨point, -, hjudge⟩ := mem_visitDistinct.mp hr
  obtain ⟨-, hr⟩ := Option.ite_none_left_eq_some.mp hjudge
  cases hr
  have hstatuses := statuses_of_reader qdrantOutbox fun row hrow =>
    owedVector_statusFor (hwritten row hrow) point
  have hclass := classify_fitting qdrantOutbox (fun row => row.deletesPoint text point)
    (latestDeleteEvent inputs.deleteEvents none (some point.workspaceId)
      (some point.documentId)).isSome
  rw [← hstatuses] at hclass
  exact hclass

/-- An object residue is classed as the rows stand that are about it. -/
theorem objectResidue_class {r : ObjectResidue}
    (hr : r ∈ collectObjectResidue text (inputs.load text qdrantOutbox storageOutbox)) :
    (r.residueClass = .recoveryPending ↔
      SomePending storageOutbox fun row => row.namesObject r.objectKey) ∧
    (r.residueClass = .recoveryDead ↔
      OnlyDead storageOutbox fun row => row.namesObject r.objectKey) := by
  obtain ⟨objectKey, -, hjudge⟩ := mem_visitDistinct.mp hr
  obtain ⟨-, hr⟩ := Option.ite_none_left_eq_some.mp hjudge
  cases hr
  have hstatuses := statuses_of_reader storageOutbox fun row _ =>
    owedObject_statusFor row objectKey
  have hclass := classify_fitting storageOutbox (fun row => row.namesObject objectKey)
    (latestDeleteEvent inputs.deleteEvents (parseObjectKey text objectKey).1
      (parseObjectKey text objectKey).2.1 (parseObjectKey text objectKey).2.2).isSome
  rw [← hstatuses] at hclass
  exact hclass

theorem taken_iff (hwritten : ∀ row ∈ storageOutbox, StorageWritten text bucket row)
    (objectKey : List Char) :
    Taken bucket storageOutbox objectKey ↔
      (SomePending storageOutbox (fun row => row.namesObject objectKey) ↔
        SomePending storageOutbox fun row => row.deletesObject text bucket objectKey) ∧
      (OnlyDead storageOutbox (fun row => row.namesObject objectKey) ↔
        OnlyDead storageOutbox fun row => row.deletesObject text bucket objectKey) := by
  have hdeletes : ∀ row ∈ storageOutbox, row.deletesObject text bucket objectKey =
      (row.namesObject objectKey && row.passesChecks bucket) := fun row hrow =>
    deletesObject_eq (hwritten row hrow) objectKey
  have hnames : ∀ row ∈ storageOutbox, row.deletesObject text bucket objectKey = true →
      row.namesObject objectKey = true := by
    intro row hrow h
    rw [hdeletes row hrow, Bool.and_eq_true] at h
    exact h.1
  constructor
  · rintro ⟨hpending, hdead⟩
    have hsame : SomePending storageOutbox (fun row => row.namesObject objectKey) ↔
        SomePending storageOutbox fun row => row.deletesObject text bucket objectKey :=
      ⟨fun h => (hpending h).mono fun row hrow h => (hdeletes row hrow).trans h,
        fun h => h.mono hnames⟩
    refine ⟨hsame, fun h => ⟨fun hsome => h.1 (hsame.mpr hsome), ?_⟩, ?_⟩
    · obtain ⟨row, hrow, hstatus, hfits⟩ := hdead h
      exact ⟨row, hrow, hstatus, (hdeletes row hrow).trans hfits⟩
    · rintro ⟨hnone, row, hrow, hstatus, hfits⟩
      exact ⟨fun h => hnone (hsame.mp h), row, hrow, hstatus, hnames row hrow hfits⟩
  · rintro ⟨hpending, hdead⟩
    refine ⟨fun h => (hpending.mp h).mono fun row hrow h => (hdeletes row hrow).symm.trans h, ?_⟩
    intro h
    obtain ⟨-, row, hrow, hstatus, hfits⟩ := hdead.mp h
    exact ⟨row, hrow, hstatus, (hdeletes row hrow).symm.trans hfits⟩

/-- The report agrees with the outboxes when, for each object residue, one of the rows that it is
classed by passes the checks of the worker. -/
theorem buildRetentionReport_complete_iff (hqdrant : ∀ row ∈ qdrantOutbox, QdrantWritten text row)
    (hstorage : ∀ row ∈ storageOutbox, StorageWritten text bucket row) (sampleLimit : Nat) :
    Complete text bucket qdrantOutbox storageOutbox
        (inputs.load text qdrantOutbox storageOutbox) sampleLimit ↔
      ∀ objectKey ∈ inputs.scannedObjectKeys.getD [], objectKey ∉ inputs.liveObjectKeys →
        Taken bucket storageOutbox objectKey := by
  have hpoints := collectVectorResidue_points (inputs.load text qdrantOutbox storageOutbox)
  have hobjects := collectObjectResidue_keys text (inputs.load text qdrantOutbox storageOutbox)
  constructor
  · intro hcomplete objectKey hscanned hgone
    have hmem : objectKey ∈ (collectObjectResidue text
        (inputs.load text qdrantOutbox storageOutbox)).map ObjectResidue.objectKey := by
      refine hobjects.mem_iff.mpr (List.mem_filter.mpr ⟨List.mem_dedup.mpr hscanned, ?_⟩)
      simpa [RetentionInputs.load] using hgone
    obtain ⟨r, hr, rfl⟩ := List.mem_map.mp hmem
    have hclass := objectResidue_class hr
    exact (taken_iff hstorage r.objectKey).mpr
      ⟨hclass.1.symm.trans (hcomplete.objectPending r hr),
        hclass.2.symm.trans (hcomplete.objectDead r hr)⟩
  · intro htaken
    have hagree : ∀ r ∈ collectObjectResidue text (inputs.load text qdrantOutbox storageOutbox),
        Taken bucket storageOutbox r.objectKey := by
      intro r hr
      have hmem := hobjects.mem_iff.mp (List.mem_map_of_mem hr)
      obtain ⟨hscanned, hgone⟩ := List.mem_filter.mp hmem
      exact htaken _ (List.mem_dedup.mp hscanned) (by simpa [RetentionInputs.load] using hgone)
    exact
      { points := hpoints
        objects := hobjects
        vectorCount := by
          rw [report_counts, ← hpoints.length_eq, List.length_map]
        objectCount := by
          rw [report_counts, ← hobjects.length_eq, List.length_map]
        classCounts := report_counts_sum sampleLimit
        vectorSample := ⟨_, List.mergeSort_perm _ _, rfl⟩
        objectSample := ⟨_, List.mergeSort_perm _ _, rfl⟩
        vectorPending := fun r hr => (vectorResidue_class hqdrant hr).1
        vectorDead := fun r hr => (vectorResidue_class hqdrant hr).2
        objectPending := fun r hr =>
          (objectResidue_class hr).1.trans ((taken_iff hstorage _).mp (hagree r hr)).1
        objectDead := fun r hr =>
          (objectResidue_class hr).2.trans ((taken_iff hstorage _).mp (hagree r hr)).2
        clear := report_clear_iff sampleLimit }

/-- Document 2 of workspace 1 and the object of tenant 3 are gone, and both have their rows. -/
def leftBehind : RetentionInputs where
  liveWorkspaces := [Uuid.ofNat 1]
  liveDocuments := []
  liveObjectKeys := []
  scannedVectors := some [⟨Uuid.ofNat 1, Uuid.ofNat 2⟩, ⟨Uuid.ofNat 1, Uuid.ofNat 2⟩]
  scannedObjectKeys := some ["tenants/3/a".toList]
  owedVectors := []
  owedObjects := []
  deleteEvents := []

def tenantPrefixRow : OutboxRow :=
  enqueueDeletePrefix uuidText "tenants/3/".toList ['b'] none none

theorem buildRetentionReport_complete_leftBehind :
    Complete uuidText ['b'] [enqueueDeleteByDocument uuidText (Uuid.ofNat 1) (Uuid.ofNat 2)]
      [tenantPrefixRow]
      (leftBehind.load uuidText [enqueueDeleteByDocument uuidText (Uuid.ofNat 1) (Uuid.ofNat 2)]
        [tenantPrefixRow]) 50 := by
  refine (buildRetentionReport_complete_iff (fun row hrow => ?_) (fun row hrow => ?_) 50).mpr ?_
  · rw [List.mem_singleton.mp hrow]
    exact .document _ _ .pending
  · rw [List.mem_singleton.mp hrow]
    exact .keysUnder _ _ _ .pending
  · intro objectKey hscanned _
    rw [List.mem_singleton.mp hscanned]
    have hfits : (tenantPrefixRow.namesObject "tenants/3/a".toList &&
        tenantPrefixRow.passesChecks ['b']) = true := by
      decide +kernel
    have hpending : SomePending [tenantPrefixRow] fun row =>
        row.namesObject "tenants/3/a".toList && row.passesChecks ['b'] :=
      ⟨tenantPrefixRow, List.mem_singleton_self _, .inl rfl, hfits⟩
    refine ⟨fun _ => hpending, fun hdead => absurd (hpending.mono fun row _ h => ?_) hdead.1⟩
    exact ((Bool.and_eq_true ..).mp h).1

/-- An object whose key the worker takes for a way out of its directory. -/
def dottedKey : List Char := ['a', '.', '.', 'b']

def dottedRow : OutboxRow :=
  enqueueDeleteObject uuidText dottedKey ['b'] (Uuid.ofNat 1) (Uuid.ofNat 2)

/-- The row is pending, and so is the residue for the report, but the worker will not delete it. -/
theorem refused_row_is_pending :
    StorageWritten uuidText ['b'] dottedRow ∧
    ¬ Complete uuidText ['b'] [] [dottedRow]
      (({ leftBehind with scannedVectors := none, scannedObjectKeys := some [dottedKey] } :
        RetentionInputs).load uuidText [] [dottedRow]) 50 := by
  refine ⟨.object _ _ _ .pending, fun hcomplete => ?_⟩
  have hmem := hcomplete.objects.mem_iff.mpr (List.mem_filter.mpr
    ⟨List.mem_dedup.mpr (List.mem_singleton_self dottedKey), rfl⟩)
  obtain ⟨r, hr, hkey⟩ := List.mem_map.mp hmem
  have hnamed : SomePending [dottedRow] fun row => row.namesObject r.objectKey := by
    rw [hkey]
    exact ⟨dottedRow, List.mem_singleton_self _, .inl rfl, by decide +kernel⟩
  have hpending := (objectResidue_class hr).1.mpr hnamed
  obtain ⟨row, hrow, -, hdeletes⟩ := (hcomplete.objectPending r hr).mp hpending
  rw [List.mem_singleton.mp hrow, hkey] at hdeletes
  exact absurd hdeletes (by decide +kernel)

end Report

end GmragApi.Retention

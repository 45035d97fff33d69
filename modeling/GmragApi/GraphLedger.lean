import GmragApi.GraphStore

/-! What the graph tables stand for: what each document says of each entity and relationship now,
and the spelling under which each entity is kept. -/

namespace GmragApi.Graph

structure EntityFact (ν : Type) where
  entityType : Option (List Char)
  description : Option (List Char)
  embedding : Option ν
  deriving DecidableEq

structure RelationFact where
  relationship : List Char
  description : Option (List Char)
  deriving DecidableEq

variable {ν : Type}

def NodeInput.fact (n : NodeInput ν) : EntityFact ν := ⟨n.entityType, n.description, n.embedding⟩

def NodeSource.fact (s : NodeSource ν) : EntityFact ν := ⟨s.entityType, s.description, s.embedding⟩

def EdgeInput.fact (e : EdgeInput) : RelationFact := ⟨e.relationship, e.description⟩

def EdgeSource.fact (s : EdgeSource) : RelationFact := ⟨s.relationship, s.description⟩

section Batch

variable {rules : TextRules}

/-- The upsert of the batch gives back the row of the key. -/
def GraphWriteBatch.Returns (batch : GraphWriteBatch rules ν) (key : List Char) : Prop :=
  ∃ m ∈ batch.nodes, rules.lower m.name = key

def GraphWriteBatch.Tells (batch : GraphWriteBatch rules ν) (key : List Char)
    (f : EntityFact ν) : Prop :=
  batch.Returns key ∧ ∃ n ∈ batch.nodes, normalizeKey rules n.name = key ∧ n.fact = f

def GraphWriteBatch.Relates (batch : GraphWriteBatch rules ν)
    (source target relationship : List Char) (f : RelationFact) : Prop :=
  batch.Returns source ∧ batch.Returns target ∧
    ∃ e ∈ batch.edges, normalizeKey rules e.source = source ∧
      normalizeKey rules e.target = target ∧ rules.lower e.relationship = relationship ∧
      e.fact = f

/-- An entity that has no row yet is kept as the batch spells it. -/
def GraphWriteBatch.spelling (batch : GraphWriteBatch rules ν) (key : List Char) :
    Option (List Char) :=
  (batch.nodes.find? fun n => rules.lower n.name = key).map NodeInput.name

variable {batch : GraphWriteBatch rules ν} {source target relationship : List Char}
  {f : RelationFact}

/-- A document that relates two entities says something of both. -/
theorem GraphWriteBatch.Relates.ends (h : batch.Relates source target relationship f) :
    (∃ g, batch.Tells source g) ∧ ∃ g, batch.Tells target g := by
  obtain ⟨hsource, htarget, e, he, rfl, rfl, -, -⟩ := h
  obtain ⟨⟨n, hn, hnkey⟩, m, hm, hmkey⟩ := batch.linked e he
  exact ⟨⟨n.fact, hsource, n, hn, hnkey, rfl⟩, m.fact, htarget, m, hm, hmkey, rfl⟩

end Batch

/-- By workspace and document, and by workspace and key. -/
structure Ledger (rules : TextRules) (ν : Type) where
  extracted : Nat → Nat → Option (GraphWriteBatch rules ν)
  spelling : Nat → List Char → Option (List Char)

namespace Ledger

variable {rules : TextRules}

def empty : Ledger rules ν := ⟨fun _ _ => none, fun _ _ => none⟩

def Tells (ledger : Ledger rules ν) (workspaceId documentId : Nat) (key : List Char)
    (f : EntityFact ν) : Prop :=
  ∃ batch, ledger.extracted workspaceId documentId = some batch ∧ batch.Tells key f

def Relates (ledger : Ledger rules ν) (workspaceId documentId : Nat)
    (source target relationship : List Char) (f : RelationFact) : Prop :=
  ∃ batch, ledger.extracted workspaceId documentId = some batch ∧
    batch.Relates source target relationship f

/-- Some document of the workspace names the entity. -/
def Named (ledger : Ledger rules ν) (workspaceId : Nat) (key : List Char) : Prop :=
  ∃ documentId f, ledger.Tells workspaceId documentId key f

def setExtracted (ledger : Ledger rules ν) (workspaceId documentId : Nat)
    (batch : Option (GraphWriteBatch rules ν)) : Ledger rules ν :=
  { ledger with
    extracted := fun w d =>
      if w = workspaceId ∧ d = documentId then batch else ledger.extracted w d }

open Classical in
/-- Entities that no document names are dropped with their spelling. -/
noncomputable def sweep (ledger : Ledger rules ν) (workspaceId : Nat) : Ledger rules ν :=
  { ledger with
    spelling := fun w key =>
      if w = workspaceId ∧ ¬ ledger.Named w key then none else ledger.spelling w key }

def spell (ledger : Ledger rules ν) (workspaceId : Nat) (batch : GraphWriteBatch rules ν) :
    Ledger rules ν :=
  { ledger with
    spelling := fun w key =>
      if w = workspaceId then (ledger.spelling w key).or (batch.spelling key)
      else ledger.spelling w key }

noncomputable def write (ledger : Ledger rules ν) : Write rules ν → Ledger rules ν
  | .ingest workspaceId documentId batch =>
    (((ledger.setExtracted workspaceId documentId none).sweep workspaceId).spell workspaceId
      batch).setExtracted workspaceId documentId (some batch)
  | .delete workspaceId documentId =>
    (ledger.setExtracted workspaceId documentId none).sweep workspaceId

noncomputable def ofWrites (writes : List (Write rules ν)) : Ledger rules ν :=
  writes.foldl write empty

section SetExtracted

variable {ledger : Ledger rules ν} {workspaceId documentId w d : Nat}

theorem tells_setExtracted_none (key : List Char) (f : EntityFact ν) :
    (ledger.setExtracted workspaceId documentId none).Tells w d key f ↔
      ledger.Tells w d key f ∧ ¬ (w = workspaceId ∧ d = documentId) := by
  by_cases hdoc : w = workspaceId ∧ d = documentId
  · simp [Tells, setExtracted, hdoc]
  · simp [Tells, setExtracted, hdoc]

theorem relates_setExtracted_none (source target relationship : List Char) (f : RelationFact) :
    (ledger.setExtracted workspaceId documentId none).Relates w d source target relationship f ↔
      ledger.Relates w d source target relationship f ∧
        ¬ (w = workspaceId ∧ d = documentId) := by
  by_cases hdoc : w = workspaceId ∧ d = documentId
  · simp [Relates, setExtracted, hdoc]
  · simp [Relates, setExtracted, hdoc]

theorem tells_setExtracted_some (hnone : ledger.extracted workspaceId documentId = none)
    {batch : GraphWriteBatch rules ν} (key : List Char) (f : EntityFact ν) :
    (ledger.setExtracted workspaceId documentId (some batch)).Tells w d key f ↔
      ledger.Tells w d key f ∨ ((w = workspaceId ∧ d = documentId) ∧ batch.Tells key f) := by
  by_cases hdoc : w = workspaceId ∧ d = documentId
  · simp [Tells, setExtracted, hdoc, hnone]
  · simp [Tells, setExtracted, hdoc]

theorem relates_setExtracted_some (hnone : ledger.extracted workspaceId documentId = none)
    {batch : GraphWriteBatch rules ν} (source target relationship : List Char)
    (f : RelationFact) :
    (ledger.setExtracted workspaceId documentId (some batch)).Relates w d source target
        relationship f ↔
      ledger.Relates w d source target relationship f ∨
        ((w = workspaceId ∧ d = documentId) ∧ batch.Relates source target relationship f) := by
  by_cases hdoc : w = workspaceId ∧ d = documentId
  · simp [Relates, setExtracted, hdoc, hnone]
  · simp [Relates, setExtracted, hdoc]

end SetExtracted

section Sweep

variable {ledger : Ledger rules ν} {workspaceId : Nat}

theorem sweep_spelling_eq_some {w : Nat} {key name : List Char} :
    (ledger.sweep workspaceId).spelling w key = some name ↔
      (w = workspaceId → ledger.Named w key) ∧ ledger.spelling w key = some name := by
  simp only [sweep, Option.ite_none_left_eq_some, not_and, not_not]

/-- Nothing is left to drop. -/
theorem sweep_sweep : (ledger.sweep workspaceId).sweep workspaceId = ledger.sweep workspaceId := by
  refine congrArg (Ledger.mk ledger.extracted) (funext fun w => funext fun key => ?_)
  refine Option.ext fun name => ?_
  change ((ledger.sweep workspaceId).sweep workspaceId).spelling w key = some name ↔
    (ledger.sweep workspaceId).spelling w key = some name
  rw [sweep_spelling_eq_some, sweep_spelling_eq_some]
  exact ⟨fun h => h.2, fun h => ⟨h.1, h⟩⟩

end Sweep

theorem spell_spelling_eq_some {ledger : Ledger rules ν} {workspaceId : Nat}
    {batch : GraphWriteBatch rules ν} {w : Nat} {key name : List Char} :
    (ledger.spell workspaceId batch).spelling w key = some name ↔
      ledger.spelling w key = some name ∨
        (ledger.spelling w key = none ∧ w = workspaceId ∧ batch.spelling key = some name) := by
  by_cases hw : w = workspaceId
  · simp [spell, hw, Option.or_eq_some_iff]
  · simp [spell, hw]

section Writes

variable {ledger other : Ledger rules ν} {workspaceId documentId : Nat} {write : Write rules ν}

/-- A write replaces what its own document says, and nothing of the others. -/
theorem write_extracted_other (h : write.documentId ≠ documentId) :
    (ledger.write write).extracted workspaceId documentId =
      ledger.extracted workspaceId documentId := by
  cases write with
  | ingest w d batch =>
    have hd : ¬ (workspaceId = w ∧ documentId = d) := fun heq => h heq.2.symm
    simp [Ledger.write, setExtracted, spell, sweep, hd]
  | delete w d =>
    have hd : ¬ (workspaceId = w ∧ documentId = d) := fun heq => h heq.2.symm
    simp [Ledger.write, setExtracted, sweep, hd]

theorem write_extracted_congr
    (h : ledger.extracted workspaceId documentId = other.extracted workspaceId documentId) :
    (ledger.write write).extracted workspaceId documentId =
      (other.write write).extracted workspaceId documentId := by
  cases write with
  | ingest w d batch => simp [Ledger.write, setExtracted, spell, sweep, h]
  | delete w d => simp [Ledger.write, setExtracted, sweep, h]

theorem foldl_extracted_filter (writes : List (Write rules ν))
    (h : ledger.extracted workspaceId documentId = other.extracted workspaceId documentId) :
    (writes.foldl Ledger.write ledger).extracted workspaceId documentId =
      ((writes.filter fun w => w.documentId = documentId).foldl Ledger.write other).extracted
        workspaceId documentId := by
  induction writes generalizing ledger other with
  | nil => exact h
  | cons write writes ih =>
    by_cases hown : write.documentId = documentId
    · rw [List.filter_cons, if_pos (by simpa using hown), List.foldl_cons, List.foldl_cons]
      exact ih (write_extracted_congr h)
    · rw [List.filter_cons, if_neg (by simpa using hown), List.foldl_cons]
      exact ih ((write_extracted_other hown).trans h)

/-- What a document says after a run rests on its own writes alone. -/
theorem extracted_ofWrites_congr {writes writes' : List (Write rules ν)}
    (h : (writes.filter fun w => w.documentId = documentId) =
      writes'.filter fun w => w.documentId = documentId) :
    (ofWrites writes).extracted workspaceId documentId =
      (ofWrites writes').extracted workspaceId documentId := by
  unfold ofWrites
  rw [foldl_extracted_filter writes rfl, h, ← foldl_extracted_filter writes' rfl]

end Writes

end Ledger

end GmragApi.Graph

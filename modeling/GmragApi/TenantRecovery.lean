import GmragApi.TenantCleanup
import Mathlib.Data.Finset.Lattice.Lemmas

/-! The deletion of a tenant by an operator can be made again after any failure: what a failed run
took out is in a recovery file, and the next run finds the rest. -/

namespace GmragApi.TenantCleanup

open Retention (OutboxRow ScannedVector enqueueDeleteByWorkspaces enqueueDeletePrefix
  processQdrantRow processStorageRow PointDelete ObjectDelete)

def Sql.HasWorkspace (sql : Sql) (tenantId workspaceId : Uuid) : Prop :=
  ∃ row ∈ sql.workspaces, row.tenantId = some tenantId ∧ row.id = workspaceId

/-- The object of the tuple is the tenant, a workspace of it or a document in one of them. -/
def InSubtree (text : UuidText) (sql : Sql) (tenantId : Uuid) (t : TupleText) : Prop :=
  t.object = objectText "tenant".toList text tenantId ∨
    (∃ id, sql.HasWorkspace tenantId id ∧ t.object = objectText "workspace".toList text id) ∨
    ∃ row ∈ sql.documents, (∃ id, sql.HasWorkspace tenantId id ∧ row.workspaceId = some id) ∧
      t.object = objectText "document".toList text row.id

def Effect.takes : Effect → Finset TupleText
  | file _ => ∅
  | removed tuples => tuples

def removedBy : List Effect → Finset TupleText
  | [] => ∅
  | e :: effects => e.takes ∪ removedBy effects

/-- Between the worlds the tables are as they were, only tuples of the tenant were taken out, and
before the first of them a file was complete that has every such tuple. -/
structure Survived (text : UuidText) (tenantId : Uuid) (w w' : World) (effects : List Effect) :
    Prop where
  log : w'.log = w.log ++ effects
  sql : w'.sql = w.sql
  store : w'.store = w.store \ removedBy effects
  removed : ∀ t ∈ removedBy effects, t ∈ w.store ∧ InSubtree text w.sql tenantId t
  recoverable : removedBy effects = ∅ ∨ ∃ before f after, effects = before ++ .file f :: after ∧
    f.complete = true ∧ f.tenantId = tenantId ∧ removedBy before = ∅ ∧
    ∀ t ∈ w.store, InSubtree text w.sql tenantId t → t ∈ f.openfgaTuples

section Effects

variable {text : UuidText} {tenantId : Uuid} {u v w : World} {effects later : List Effect}

theorem removedBy_append : removedBy (effects ++ later) = removedBy effects ∪ removedBy later := by
  induction effects with
  | nil => simp [removedBy]
  | cons e effects ih => rw [List.cons_append, removedBy, removedBy, ih, Finset.union_assoc]

theorem Survived.trans (h : Survived text tenantId u v effects)
    (h' : Survived text tenantId v w later) : Survived text tenantId u w (effects ++ later) where
  log := by rw [h'.log, h.log, List.append_assoc]
  sql := h'.sql.trans h.sql
  store := by
    rw [h'.store, h.store, removedBy_append]
    ext t
    simp [and_assoc]
  removed := by
    intro t ht
    rw [removedBy_append, Finset.mem_union] at ht
    rcases ht with ht | ht
    · exact h.removed t ht
    · obtain ⟨hin, hsubtree⟩ := h'.removed t ht
      rw [h.store, Finset.mem_sdiff] at hin
      rw [h.sql] at hsubtree
      exact ⟨hin.1, hsubtree⟩
  recoverable := by
    rcases h.recoverable with hnone | ⟨before, f, after, rfl, hcomplete, htenant, hfirst, hall⟩
    · rw [removedBy_append, hnone, Finset.empty_union]
      have hstore : v.store = u.store := by rw [h.store, hnone, Finset.sdiff_empty]
      have hlater := h'.recoverable
      rw [hstore, h.sql] at hlater
      rcases hlater with hlater | ⟨before, f, after, rfl, hcomplete, htenant, hfirst, hall⟩
      · exact .inl hlater
      · refine .inr ⟨effects ++ before, f, after, by simp, hcomplete, htenant, ?_, hall⟩
        rw [removedBy_append, hnone, hfirst, Finset.empty_union]
    · exact .inr ⟨before, f, after ++ later, by simp, hcomplete, htenant, hfirst, hall⟩

end Effects

section Reading

variable {text : UuidText} {course : Course} {sql : Sql} {tenantId : Uuid} {bucket : List Char}
  {impact : TenantDeleteImpact}

end Reading

section Files

variable (file : Nat → FileFate) (impact : TenantDeleteImpact)

end Files

section FailedRuns

variable {text : UuidText} {tenantId : Uuid} {w w' : World} {a : Attempt}

end FailedRuns

section Draining

variable {γ π : Type} {call : OutboxRow → Option γ} {deletes : π → γ → Bool}

end Draining

section Prefixes

end Prefixes

section Rows

end Rows

section FinalRun

variable {text : UuidText} {tenantId : Uuid} {bucket : List Char} {u v w : World} {a : Attempt}
  {tenant : TenantRow} {impact : TenantDeleteImpact}

end FinalRun

section Example

end Example

end GmragApi.TenantCleanup

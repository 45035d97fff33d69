import GmragApi.Text
import Mathlib.Data.Finset.Basic

/-! The OpenFGA store as the service sees it: tuples, the checks of the authorization model, and
writes that either take effect or fail without effect. -/

namespace GmragApi

inductive Relation
  | admin
  | owner
  | platform
  | member
  | canAssignRole
  | canManageMember
  | workspace
  | explicitViewer
  | bypassViewer
  | tenant
  deriving DecidableEq

inductive FgaObject
  | platform
  | tenant (id : Nat)
  | workspace (id : Nat)
  | document (id : Nat)
  deriving DecidableEq

/-- The `user` of a tuple: `user:{id}`, or an object where the model links objects. -/
inductive Subject
  | user (id : Nat)
  | object (o : FgaObject)
  deriving DecidableEq

structure TupleKey where
  user : Subject
  relation : Relation
  object : FgaObject
  deriving DecidableEq

inductive AuthzError
  | http
  | openFga (status : Nat) (body : List Char)
  deriving DecidableEq

/-- The revokes read this body as "there was nothing to delete". -/
def isMissingTupleDeleteError : AuthzError → Bool
  | .http => false
  | .openFga _ body =>
    let bodyLower := toAsciiLowercase body
    containsText bodyLower "does not exist".toList || containsText bodyLower "not found".toList

namespace Fga

abbrev Store := Finset TupleKey

def isTenantOwner (store : Store) (user tenant : Nat) : Bool :=
  decide (⟨.user user, .owner, .tenant tenant⟩ ∈ store)

/-- Whether the subject is a tenant that the user owns. -/
def ownsSubject (store : Store) (user : Nat) : Subject → Bool
  | .object (.tenant tenant) => isTenantOwner store user tenant
  | _ => false

/-- `tenant_owner: owner from tenant`. -/
def isWorkspaceTenantOwner (store : Store) (user workspace : Nat) : Bool :=
  decide (∃ k ∈ store, k.relation = .tenant ∧ k.object = .workspace workspace ∧
    ownsSubject store user k.user = true)

/-- `admin: [user] or tenant_owner`. -/
def checkWorkspaceAdmin (store : Store) (user workspace : Nat) : Bool :=
  decide (⟨.user user, .admin, .workspace workspace⟩ ∈ store) ||
    isWorkspaceTenantOwner store user workspace

/-- The check survives a change that keeps the user's own tuple and the links to tenants. -/
theorem checkWorkspaceAdmin_of_kept {store store' : Store} {user workspace : Nat}
    (direct : ⟨.user user, .admin, .workspace workspace⟩ ∈ store →
      ⟨.user user, .admin, .workspace workspace⟩ ∈ store')
    (links : ∀ k ∈ store, k.relation = .tenant ∨ k.relation = .owner → k ∈ store')
    (h : checkWorkspaceAdmin store user workspace = true) :
    checkWorkspaceAdmin store' user workspace = true := by
  simp only [checkWorkspaceAdmin, Bool.or_eq_true, isWorkspaceTenantOwner, decide_eq_true_eq] at h ⊢
  rcases h with h | ⟨k, hk, hrel, hobj, howns⟩
  · exact .inl (direct h)
  · refine .inr ⟨k, links k hk (.inl hrel), hrel, hobj, ?_⟩
    unfold ownsSubject isTenantOwner at howns ⊢
    split at howns
    · simp only [decide_eq_true_eq] at howns ⊢
      exact links _ howns (.inr rfl)
    · cases howns

def checkCanAssignRole (store : Store) (user workspace : Nat) : Bool :=
  isWorkspaceTenantOwner store user workspace

/-- `can_manage_member: [user] or admin`. -/
def checkCanManageMember (store : Store) (user workspace : Nat) : Bool :=
  decide (⟨.user user, .canManageMember, .workspace workspace⟩ ∈ store) ||
    checkWorkspaceAdmin store user workspace

inductive WriteReply
  | done
  | failed (e : AuthzError)
  deriving DecidableEq

def WriteReply.error : WriteReply → Option AuthzError
  | done => none
  | failed e => some e

/-- Writing a tuple that is there fails. -/
def write (store : Store) (t : TupleKey) : WriteReply → Option Store
  | .done => if t ∈ store then none else some (insert t store)
  | .failed _ => some store

/-- Deleting a tuple that is not there fails. -/
def delete (store : Store) (t : TupleKey) : WriteReply → Option Store
  | .done => if t ∈ store then some (store.erase t) else none
  | .failed _ => some store

theorem write_cases {store store' : Store} {t : TupleKey} {r : WriteReply}
    (h : write store t r = some store') :
    (r = .done ∧ store' = insert t store) ∨ (∃ e, r = .failed e ∧ store' = store) := by
  cases r with
  | done =>
    obtain ⟨-, h⟩ := Option.ite_none_left_eq_some.mp h
    exact .inl ⟨rfl, (Option.some.inj h).symm⟩
  | failed e => exact .inr ⟨e, rfl, (Option.some.inj h).symm⟩

theorem delete_cases {store store' : Store} {t : TupleKey} {r : WriteReply}
    (h : delete store t r = some store') :
    (r = .done ∧ store' = store.erase t) ∨ (∃ e, r = .failed e ∧ store' = store) := by
  cases r with
  | done =>
    obtain ⟨-, h⟩ := Option.ite_none_right_eq_some.mp h
    exact .inl ⟨rfl, (Option.some.inj h).symm⟩
  | failed e => exact .inr ⟨e, rfl, (Option.some.inj h).symm⟩

/-- One write request: it is refused as a whole when it writes a tuple that is there or deletes one
that is not. -/
def writeTuples (store : Store) (writes deletes : List TupleKey) : Option Store :=
  if (∀ t ∈ writes, t ∉ store) ∧ ∀ t ∈ deletes, t ∈ store then
    some ((store \ deletes.toFinset) ∪ writes.toFinset)
  else none

/-- `read_tuples` with a filter that names one tuple. -/
def readTuples (store : Store) (filter : TupleKey) : List TupleKey :=
  if filter ∈ store then [filter] else []

theorem readTuples_any (store : Store) (t : TupleKey) :
    ((readTuples store t).any fun found => found == t) = decide (t ∈ store) := by
  by_cases h : t ∈ store
  · simp [readTuples, h]
  · simp [readTuples, h]

/-- A reply to a check agrees with the store, or reports a failure. -/
def checkReply (actual : Bool) : Except AuthzError Bool → Bool
  | .ok allowed => allowed == actual
  | .error _ => true

end Fga

end GmragApi

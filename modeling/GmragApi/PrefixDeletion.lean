import GmragApi.ObjectLifetimes

/-! Which objects the worker at a `delete_prefix` row deletes, whatever the buckets hold and
whatever runs beside it. -/

namespace GmragApi.StoredObjects

open Transition
open DeleteOutbox (RowStatus)

def buildTenantPrefix (tenantId : Uuid) : List Char :=
  "tenants/".toList ++ tenantId.display ++ "/".toList

/-- The key belongs to the tenant that the payload names, and to the workspace if it names one. -/
def InScope (p : DeletePrefixPayload) (key : List Char) : Prop :=
  ∃ t, p.tenantId = some t ∧ buildTenantPrefix t <+: key ∧
    ∀ w, p.workspaceId = some w → buildWorkspacePrefix t w <+: key

/-- The worker that takes the row for `p` deletes nothing out of its scope, in no run. -/
def StaysInTenant (p : DeletePrefixPayload) : Prop :=
  ∀ (s : State) (row : Nat) (status : RowStatus), s.outbox[row]? = some ⟨.deletePrefix p, status⟩ →
    ∀ as t reply u, run step s (.work row :: as) = some t →
      step t (.advance s.procs.length reply) = some u →
      ∀ o ∈ t.objects, o ∉ u.objects →
        InScope p o.key ∧ ∀ t', buildTenantPrefix t' <+: o.key → p.tenantId = some t'

section Scope

variable {p : DeletePrefixPayload} {t t' : Uuid} {key : List Char}

theorem display_between_inj {a b xs ys : List Char}
    (h : a ++ t.display ++ b ++ xs = a ++ t'.display ++ b ++ ys) : t = t' := by
  simp only [List.append_assoc] at h
  exact (display_append_inj (List.append_cancel_left h)).1

theorem tenantPrefix_inj (h : buildTenantPrefix t <+: key) (h' : buildTenantPrefix t' <+: key) :
    t = t' := by
  obtain ⟨rest, rfl⟩ := h
  obtain ⟨rest', h'⟩ := h'
  unfold buildTenantPrefix at h'
  exact (display_between_inj h').symm

theorem InScope.extend (h : InScope p p.keyPrefix) (hkey : p.keyPrefix <+: key) : InScope p key := by
  obtain ⟨t, ht, htenant, hworkspace⟩ := h
  exact ⟨t, ht, htenant.trans hkey, fun w hw => (hworkspace w hw).trans hkey⟩

/-- No key in scope belongs to another tenant. -/
theorem InScope.own_tenant (h : InScope p key) (h' : buildTenantPrefix t' <+: key) :
    p.tenantId = some t' := by
  obtain ⟨t, ht, htenant, -⟩ := h
  rw [ht, tenantPrefix_inj htenant h']

end Scope

/-- Where the worker at the row for `p` can stand: every key it has listed starts with the prefix
as the row spells it. -/
def Within (p : DeletePrefixPayload) : Proc → Prop
  | .attempting _ e => e = .deletePrefix p
  | .listing l (.prefixEvent _) =>
    l.bucket = p.bucket ∧ l.keyPrefix = p.keyPrefix ∧ ∀ key ∈ l.seen, p.keyPrefix <+: key
  | .deletingObjects bucket keys (.prefixEvent _) =>
    bucket = p.bucket ∧ ∀ key ∈ keys, p.keyPrefix <+: key
  | .settling _ | .failing _ | .done => True
  | _ => False

/-- Only objects under the prefix go, and the worker stays where it may stand. -/
structure Deletes (p : DeletePrefixPayload) (s t : State) (i : Nat) : Prop where
  within : ∃ q, t.procs[i]? = some q ∧ Within p q
  objects : ∀ o ∈ s.objects, o ∉ t.objects → o.bucket = p.bucket ∧ p.keyPrefix <+: o.key

section Worker

variable {p : DeletePrefixPayload} {s t u : State} {i j row : Nat} {q q' : Proc} {reply : Reply}

theorem goto_self (hq : s.procs[i]? = some q) (hprocs : u.procs = s.procs) :
    (u.goto i q').procs[i]? = some q' := by
  have hlt := (List.getElem?_eq_some_iff.mp hq).1
  rw [State.goto, hprocs]
  exact List.getElem?_set_self hlt

theorem Deletes.of_kept (hq : s.procs[i]? = some q) (hprocs : u.procs = s.procs)
    (hobjects : u.objects = s.objects) (hq' : Within p q') : Deletes p s (u.goto i q') i := by
  refine ⟨⟨q', goto_self hq hprocs, hq'⟩, ?_⟩
  intro o ho hgone
  have hkept : o ∈ (u.goto i q').objects := by
    rw [State.goto, hobjects]
    exact ho
  exact absurd hkept hgone

theorem Deletes.of_batch {keys gone : List (List Char)} (hq : s.procs[i]? = some q)
    (hkeys : ∀ key ∈ keys, p.keyPrefix <+: key) (hgone : gone ⊆ keys) (hq' : Within p q') :
    Deletes p s ((deleteBatch s p.bucket gone (.prefixEvent row)).goto i q') i := by
  refine ⟨⟨q', goto_self hq rfl, hq'⟩, ?_⟩
  intro o ho hdeleted
  have ho' : ¬ o ∈ s.objects.filter fun o => ¬ (o.bucket = p.bucket ∧ o.key ∈ gone) := hdeleted
  rw [Finset.mem_filter, not_and, not_not] at ho'
  obtain ⟨hbucket, hkey⟩ := ho' ho
  exact ⟨hbucket, hkeys _ (hgone hkey)⟩

/-- The next call of the worker itself. -/
theorem advance_deletes (hq : s.procs[i]? = some q) (hwithin : Within p q)
    (h : advance s i q reply = some t) : Deletes p s t i := by
  cases q with
  | attempting row e =>
    obtain rfl : e = .deletePrefix p := hwithin
    cases reply <;> cases h
    · exact .of_kept hq rfl rfl ⟨rfl, rfl, by simp⟩
    · exact .of_kept hq rfl rfl trivial
  | listing l purpose =>
    cases purpose with
    | orphanScan knownKeys deleteOrphans => exact hwithin.elim
    | prefixEvent row =>
      obtain ⟨hbucket, hprefix, hseen⟩ := hwithin
      cases reply with
      | page keys last =>
        obtain ⟨hpage, h⟩ := Option.ite_none_right_eq_some.mp h
        cases Option.some.inj h
        simp only [pageOk, decide_eq_true_eq] at hpage
        have hall : ∀ key ∈ l.seen ++ keys, p.keyPrefix <+: key := by
          intro key hkey
          rcases List.mem_append.mp hkey with hkey | hkey
          · exact hseen key hkey
          · exact hprefix ▸ (hpage.1 key hkey).2
        refine .of_kept hq rfl rfl ?_
        split
        · exact ⟨hbucket, hall⟩
        · exact ⟨hbucket, hprefix, hall⟩
      | failed =>
        cases h
        exact .of_kept hq rfl rfl trivial
      | _ => cases h
  | deletingObjects bucket keys purpose =>
    cases purpose with
    | orphanScan knownKeys deleteOrphans => exact hwithin.elim
    | prefixEvent row =>
      obtain ⟨rfl, hkeys⟩ := hwithin
      cases reply with
      | ok =>
        cases keys with
        | nil =>
          cases h
          exact .of_kept hq rfl rfl trivial
        | cons key keys =>
          cases h
          refine .of_batch hq hkeys (List.take_subset ..) ⟨rfl, ?_⟩
          exact fun k hk => hkeys k (List.drop_subset _ _ hk)
      | partly gone =>
        have h : (if gone ⊆ keys.take deleteBatchSize then
            some ((deleteBatch s p.bucket gone (.prefixEvent row)).goto i (.failing row))
            else none) = some t := by cases keys <;> exact h
        obtain ⟨hgone, h⟩ := Option.ite_none_right_eq_some.mp h
        cases Option.some.inj h
        exact .of_batch hq hkeys (List.Subset.trans hgone (List.take_subset ..)) trivial
      | failed =>
        have h : some (s.goto i (.failing row)) = some t := by cases keys <;> exact h
        cases Option.some.inj h
        exact .of_kept hq rfl rfl trivial
      | _ => cases keys <;> cases h
  | settling row => cases reply <;> cases h <;> exact .of_kept hq rfl rfl trivial
  | failing row => cases reply <;> cases h <;> exact .of_kept hq rfl rfl trivial
  | done => cases reply <;> cases h
  | _ => exact hwithin.elim

theorem deleteDocument_procs (bucket : List Char) (workspaceId documentId : Uuid) (b : Bool) :
    ∃ q', (deleteDocument s i bucket workspaceId documentId b).procs = s.procs.set i q' := by
  unfold deleteDocument
  split
  · exact ⟨_, rfl⟩
  · exact ⟨_, rfl⟩

theorem deleteWorkspace_procs (bucket : List Char) (workspaceId : Uuid) :
    ∃ q', (deleteWorkspace s i bucket workspaceId).procs = s.procs.set i q' := by
  unfold deleteWorkspace
  split
  · exact ⟨_, rfl⟩
  · exact ⟨_, rfl⟩

theorem deleteBatch_goto_procs (bucket : List Char) (keys : List (List Char)) (purpose : Purpose) :
    ((deleteBatch s bucket keys purpose).goto i q').procs = s.procs.set i q' := by
  cases purpose <;> rfl

/-- A statement moves the process that makes it and no other one. -/
theorem advance_procs (h : advance s i q reply = some t) : ∃ q', t.procs = s.procs.set i q' := by
  unfold advance at h
  split at h
  all_goals first
    | cases h; done
    | (obtain rfl := Option.some.inj h; exact ⟨_, rfl⟩)
    | (obtain rfl := Option.some.inj h; exact deleteDocument_procs ..)
    | (obtain rfl := Option.some.inj h; exact deleteWorkspace_procs ..)
    | (obtain rfl := Option.some.inj h; exact ⟨_, deleteBatch_goto_procs ..⟩)
    | (obtain ⟨-, h⟩ := Option.ite_none_right_eq_some.mp h
       obtain rfl := Option.some.inj h
       first | exact ⟨_, rfl⟩ | exact ⟨_, deleteBatch_goto_procs ..⟩)

/-- A new request or worker comes after the processes that are there. -/
theorem step_starts {a : Act} (ha : ∀ i reply, a ≠ .advance i reply) (h : step s a = some t)
    (hq : s.procs[i]? = some q) : t.procs[i]? = some q := by
  have started : ∀ (v : State) (r : Proc), v.procs = s.procs →
      (v.start r).procs[i]? = some q := by
    intro v r hv
    rw [State.start, hv]
    exact ProcessPool.getElem?_push_iff.mpr (.inl hq)
  cases a with
  | upload bucket workspaceId documentId =>
    simp only [step, uploadDocument] at h
    split at h
    next => cases h
    next =>
      split at h <;> cases h <;> exact started _ _ rfl
  | deleteDocument bucket workspaceId documentId => cases h; exact started _ _ rfl
  | deleteWorkspace bucket workspaceId => cases h; exact started _ _ rfl
  | work row =>
    simp only [step, workOn] at h
    split at h
    next =>
      split at h <;> cases h
      exact started _ _ rfl
    next => cases h
  | scan bucket allowDelete deleteOrphans => cases h; exact started _ _ rfl
  | advance j reply => exact absurd rfl (ha j reply)

/-- The worker keeps its place whatever the others do. -/
theorem step_within {a : Act} (hq : s.procs[i]? = some q) (hwithin : Within p q)
    (h : step s a = some t) : ∃ q', t.procs[i]? = some q' ∧ Within p q' := by
  by_cases ha : ∃ j reply, a = .advance j reply
  · obtain ⟨j, reply, rfl⟩ := ha
    obtain ⟨r, hr, hadv⟩ := Option.bind_eq_some_iff.mp h
    by_cases hji : j = i
    · subst hji
      obtain rfl := Option.some.inj (hr.symm.trans hq)
      exact (advance_deletes hq hwithin hadv).within
    · obtain ⟨r', hset⟩ := advance_procs hadv
      refine ⟨q, ?_, hwithin⟩
      rw [hset, List.getElem?_set_ne hji]
      exact hq
  · exact ⟨q, step_starts (fun j reply hj => ha ⟨j, reply, hj⟩) h hq, hwithin⟩

theorem run_within {as : List Act} (hq : s.procs[i]? = some q) (hwithin : Within p q)
    (h : run step s as = some t) : ∃ q', t.procs[i]? = some q' ∧ Within p q' := by
  induction as generalizing s q with
  | nil =>
    cases Option.some.inj h
    exact ⟨q, hq, hwithin⟩
  | cons a as ih =>
    obtain ⟨v, hv, h⟩ := Option.bind_eq_some_iff.mp h
    obtain ⟨q', hq', hwithin'⟩ := step_within hq hwithin hv
    exact ih hq' hwithin' h

/-- The worker starts at the row, or at its failure when the row is poison. -/
theorem workOn_within {status : RowStatus} (hrow : s.outbox[row]? = some ⟨.deletePrefix p, status⟩)
    (h : workOn s row = some t) :
    ∃ q, t.procs[s.procs.length]? = some q ∧ Within p q ∧
      ((Event.deletePrefix p).valid = false → q = .failing row) := by
  simp only [workOn, hrow] at h
  split at h
  next => cases h
  next =>
    cases Option.some.inj h
    refine ⟨_, ProcessPool.getElem?_push_iff.mpr (.inr ⟨rfl, rfl⟩), ?_, ?_⟩
    · split
      · rfl
      · trivial
    · intro hinvalid
      simp [hinvalid]

end Worker

section Verdict

variable {p : DeletePrefixPayload}

/-- In every run the worker deletes keys under the prefix of its row only; a row that fails a check
deletes nothing. -/
theorem worker_deletes {s t u : State} {row : Nat} {status : RowStatus} {as : List Act}
    {reply : Reply} {o : ObjectRef} (hrow : s.outbox[row]? = some ⟨.deletePrefix p, status⟩)
    (hrun : run step s (.work row :: as) = some t)
    (hstep : step t (.advance s.procs.length reply) = some u) (ho : o ∈ t.objects)
    (hgone : o ∉ u.objects) :
    (Event.deletePrefix p).valid = true ∧ o.bucket = p.bucket ∧ p.keyPrefix <+: o.key := by
  obtain ⟨v, hv, hrun⟩ := Option.bind_eq_some_iff.mp hrun
  obtain ⟨q, hq, hwithin, hpoison⟩ := workOn_within hrow hv
  obtain ⟨r, hr, hadv⟩ := Option.bind_eq_some_iff.mp hstep
  have deletes : ∀ p', Within p' q → o.bucket = p'.bucket ∧ p'.keyPrefix <+: o.key := by
    intro p' hq'
    obtain ⟨r', hr', hwithin'⟩ := run_within hq hq' hrun
    obtain rfl := Option.some.inj (hr.symm.trans hr')
    exact (advance_deletes hr hwithin' hadv).objects o ho hgone
  refine ⟨?_, deletes p hwithin⟩
  cases hvalid : (Event.deletePrefix p).valid with
  | true => rfl
  | false =>
    -- at the failure of a row the worker would stay within any bucket
    have hfail := hpoison hvalid
    have hother := (deletes ⟨[], '/' :: o.bucket, none, none⟩ (by rw [hfail]; trivial)).1
    simp at hother

def lonePrefixRow (p : DeletePrefixPayload) (key : List Char) : State where
  workspaces := fun _ => none
  documents := []
  objects := {⟨p.bucket, key⟩}
  outbox := [⟨.deletePrefix p, .pending⟩]
  procs := []
  usedIds := []
  removed := []
  rejected := []
  swept := []

/-- A row that passes the checks deletes every key that starts with its prefix. -/
theorem StaysInTenant.scope_of_key (h : StaysInTenant p) (hvalid : (Event.deletePrefix p).valid = true)
    {key : List Char} (hkey : p.keyPrefix <+: key) :
    InScope p key ∧ ∀ t', buildTenantPrefix t' <+: key → p.tenantId = some t' := by
  let listing : Proc := .listing ⟨p.bucket, p.keyPrefix, keysIn {⟨p.bucket, key⟩} p.bucket p.keyPrefix,
    []⟩ (.prefixEvent 0)
  let deleting : Proc := .deletingObjects p.bucket [key] (.prefixEvent 0)
  let listed : State := { lonePrefixRow p key with procs := [listing] }
  let t : State := { lonePrefixRow p key with procs := [deleting] }
  have hpage : pageOk listed ⟨p.bucket, p.keyPrefix, keysIn {⟨p.bucket, key⟩} p.bucket p.keyPrefix, []⟩
      [key] true = true := by
    simp [pageOk, listed, lonePrefixRow, hkey]
  have hlist : step listed (.advance 0 (.page [key] true)) = some t := by
    change (if pageOk listed _ [key] true = true then _ else none) = _
    rw [if_pos hpage]
    rfl
  have hstart : run step (lonePrefixRow p key) [.work 0, .advance 0 .ok] = some listed := by
    simp only [run, step, workOn, lonePrefixRow, List.getElem?_cons_zero, RowStatus.terminal, hvalid,
      State.start, List.nil_append, Option.bind_some, if_true, Bool.false_eq_true, if_false]
    rfl
  have hrun : run step (lonePrefixRow p key) [.work 0, .advance 0 .ok, .advance 0 (.page [key] true)] =
      some t := by
    obtain ⟨v, hv, hw⟩ := Option.bind_eq_some_iff.mp hstart
    obtain ⟨w, hw, hlast⟩ := Option.bind_eq_some_iff.mp hw
    obtain rfl := Option.some.inj hlast
    simp only [run] at *
    rw [hv, Option.bind_some, hw, Option.bind_some, hlist]
    rfl
  refine h (lonePrefixRow p key) 0 .pending rfl _ t .ok _ hrun rfl ⟨p.bucket, key⟩ ?_ ?_
  · exact Finset.mem_singleton_self _
  · simp [t, deleteBatch, State.goto, lonePrefixRow, deleteBatchSize]

theorem staysInTenant_iff (p : DeletePrefixPayload)
    (h : validatePrefix p.keyPrefix = .ok ()) :
    StaysInTenant p ↔ trim p.bucket = [] ∨ InScope p p.keyPrefix := by
  have hvalid : (Event.deletePrefix p).valid = true ↔ trim p.bucket ≠ [] := by
    simp only [Event.valid, h, validateBucket]
    split <;> simp_all [Except.toBool]
  constructor
  · intro hstays
    by_cases hb : trim p.bucket = []
    · exact .inl hb
    · exact .inr (hstays.scope_of_key (hvalid.mpr hb) (List.prefix_refl _)).1
  · intro hcond s row status hrow as t reply u hrun hstep o ho hgone
    obtain ⟨hv, -, hkey⟩ := worker_deletes hrow hrun hstep ho hgone
    have hscope : InScope p o.key := (hcond.resolve_left (hvalid.mp hv)).extend hkey
    exact ⟨hscope, fun t' ht' => hscope.own_tenant ht'⟩

/-- What the deletion of a workspace leaves. -/
theorem staysInTenant_iff_canonical :
    StaysInTenant ⟨buildWorkspacePrefix sampleTenant sampleWorkspace, oldBucket, some sampleTenant,
        some sampleWorkspace⟩ ↔
      trim oldBucket = [] ∨ InScope ⟨buildWorkspacePrefix sampleTenant sampleWorkspace, oldBucket,
        some sampleTenant, some sampleWorkspace⟩ (buildWorkspacePrefix sampleTenant sampleWorkspace) :=
  staysInTenant_iff _ (by decide +kernel)

/-- A prefix that stops short of the tenant. -/
def shortPrefix : DeletePrefixPayload :=
  ⟨"tenants/".toList, oldBucket, some sampleTenant, some sampleWorkspace⟩

theorem short_prefix_deletes_other_tenant :
    validatePrefix shortPrefix.keyPrefix = .ok () ∧ ¬ StaysInTenant shortPrefix := by
  refine ⟨by decide, fun h => ?_⟩
  have hvalid : (Event.deletePrefix shortPrefix).valid = true := by decide
  have hkey : shortPrefix.keyPrefix <+:
      buildOriginalDocumentObjectKey (.ofNat 9) (.ofNat 2) (.ofNat 3) := by decide +kernel
  have hforeign : buildTenantPrefix (.ofNat 9) <+:
      buildOriginalDocumentObjectKey (.ofNat 9) (.ofNat 2) (.ofNat 3) := by decide +kernel
  have hown := (h.scope_of_key hvalid hkey).2 _ hforeign
  exact absurd hown (by decide)

end Verdict

end GmragApi.StoredObjects

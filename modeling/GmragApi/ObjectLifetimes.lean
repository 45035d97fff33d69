import GmragApi.ProcessPool
import GmragApi.StoredObjects
import GmragApi.Transition

/-! No object outlives its document: what a removed or rejected document leaves in a bucket is
covered by an event that is not processed yet, or by the upload that still compensates. -/

namespace GmragApi.StoredObjects

open Transition
open DeleteOutbox (RowStatus)

section Keys

variable {t t' w w' d d' : Uuid}

theorem display_inj {u v : Uuid} (h : u.display = v.display) : u = v := by
  have hp := congrArg Uuid.parseStr h
  rw [parseStr_display, parseStr_display] at hp
  exact Option.some.inj hp

theorem display_append_inj {u v : Uuid} {xs ys : List Char}
    (h : u.display ++ xs = v.display ++ ys) : u = v ∧ xs = ys := by
  have hlen : u.display.length = v.display.length := by rw [display_length, display_length]
  obtain ⟨hd, hrest⟩ := List.append_inj h hlen
  exact ⟨display_inj hd, hrest⟩

theorem displays_append_inj {a b c xs ys : List Char}
    (h : a ++ t.display ++ b ++ w.display ++ c ++ xs =
      a ++ t'.display ++ b ++ w'.display ++ c ++ ys) : t = t' ∧ w = w' ∧ xs = ys := by
  simp only [List.append_assoc] at h
  obtain ⟨ht, h⟩ := display_append_inj (List.append_cancel_left h)
  obtain ⟨hw, h⟩ := display_append_inj (List.append_cancel_left h)
  exact ⟨ht, hw, List.append_cancel_left h⟩

theorem workspacePrefix_append_inj {xs ys : List Char}
    (h : buildWorkspacePrefix t w ++ xs = buildWorkspacePrefix t' w' ++ ys) :
    t = t' ∧ w = w' ∧ xs = ys := by
  unfold buildWorkspacePrefix at h
  exact displays_append_inj h

theorem objectKey_append (t w d : Uuid) : buildOriginalDocumentObjectKey t w d =
    buildWorkspacePrefix t w ++ ("documents/".toList ++ (d.display ++ "/original.pdf".toList)) := by
  simp only [buildOriginalDocumentObjectKey, List.append_assoc]

theorem objectKey_inj
    (h : buildOriginalDocumentObjectKey t w d = buildOriginalDocumentObjectKey t' w' d') :
    t = t' ∧ w = w' ∧ d = d' := by
  rw [objectKey_append, objectKey_append] at h
  obtain ⟨ht, hw, h⟩ := workspacePrefix_append_inj h
  rw [List.append_right_inj] at h
  exact ⟨ht, hw, (display_append_inj h).1⟩

theorem workspacePrefix_prefix (t w d : Uuid) :
    buildWorkspacePrefix t w <+: buildOriginalDocumentObjectKey t w d :=
  ⟨_, (objectKey_append t w d).symm⟩

/-- The prefix of a workspace leads to no other workspace's documents. -/
theorem workspacePrefix_names
    (h : buildWorkspacePrefix t w <+: buildOriginalDocumentObjectKey t' w' d) : t = t' ∧ w = w' := by
  obtain ⟨rest, h⟩ := h
  rw [objectKey_append] at h
  obtain ⟨ht, hw, -⟩ := workspacePrefix_append_inj h
  exact ⟨ht, hw⟩

end Keys

/-- What a worker deletes for an event. -/
def covers : Event → Document → Prop
  | .deleteObject p, d => p.bucket = d.bucket ∧ p.objectKey = d.objectKey
  | .deletePrefix p, d => p.bucket = d.bucket ∧ p.keyPrefix <+: d.objectKey

/-- Documents whose rows are gone, and uploads that were turned away. -/
def Gone (s : State) (d : Document) : Prop := d ∈ s.removed ∨ d ∈ s.rejected

def Known (s : State) (d : Document) : Prop := d ∈ s.documents ∨ Gone s d

/-- The key of a document names its workspace and the tenant that this workspace has. -/
def Keyed (s : State) (d : Document) : Prop :=
  ∃ t, d.objectKey = buildOriginalDocumentObjectKey t d.workspaceId d.id ∧
    ∀ t', s.workspaces d.workspaceId = some t' → t' = t

def Carried (s : State) (d : Document) : Prop := Keyed s d ∧ d.id ∈ s.usedIds

/-- Events are left for rows that are gone. -/
def EventOk (s : State) (e : Event) : Prop :=
  (∃ d ∈ s.removed, e = enqueueDeleteObject d) ∨
    ∃ bucket t w, e = enqueueDeletePrefix bucket t w ∧ s.workspaces w = none

structure Registered (s : State) : Prop where
  carried : ∀ d, Known s d → Carried s d
  stored : ∀ o ∈ s.objects, ∀ t w id, o.key = buildOriginalDocumentObjectKey t w id → id ∈ s.usedIds
  unique : ∀ d ∈ s.documents, ∀ d' ∈ s.documents, d.id = d'.id → d = d'
  removed : ∀ d ∈ s.documents, ∀ d' ∈ s.removed, d.id ≠ d'.id
  housed : ∀ d ∈ s.documents, (s.workspaces d.workspaceId).isSome
  events : ∀ r ∈ s.outbox, EventOk s r.event

/-- The document of an upload. -/
def Proc.document? : Proc → Option Document
  | putting d | persisting d | syncing d | removingRow d | compensating d => some d
  | _ => none

/-- What is left of the objects that the event of a row covers. -/
def Left (s : State) (row : Nat) (P : Document → Prop) : Prop :=
  ∃ r, s.outbox[row]? = some r ∧ ∀ d, Gone s d → covers r.event d → d.ref ∈ s.objects → P d

def ProcOk (s : State) : Proc → Prop
  | .putting d => Carried s d ∧ (∀ e, Known s e → e.id ≠ d.id) ∧ d.ref ∉ s.objects
  | .persisting d => Carried s d ∧ ∀ e, Known s e → e.id ≠ d.id
  | .syncing d | .removingRow d => Carried s d ∧ (d ∈ s.documents ∨ d ∈ s.removed)
  | .compensating d => Carried s d
  | .attempting row e => Left s row (covers e)
  | .listing l (.prefixEvent row) => Left s row fun d =>
    d.bucket = l.bucket ∧ l.keyPrefix <+: d.objectKey ∧ d.objectKey ∈ l.before
  | .deletingObjects bucket keys (.prefixEvent row) => Left s row fun d =>
    d.bucket = bucket ∧ d.objectKey ∈ keys
  | .settling row => Left s row fun _ => False
  | _ => True

/-- Who is going to delete the object of a document that is gone. -/
def Pending (s : State) (d : Document) : Prop :=
  (∃ e, .compensating e ∈ s.procs ∧ e.ref = d.ref) ∨
    ∃ r ∈ s.outbox, covers r.event d ∧ r.status ≠ .processed

structure Sound (s : State) : Prop where
  registered : Registered s
  procs : ∀ (i : Nat) (p : Proc), s.procs[i]? = some p → ProcOk s p
  apart : ∀ (i j : Nat) (p q : Proc) (d e : Document), s.procs[i]? = some p → s.procs[j]? = some q →
    p.document? = some d → q.document? = some e → i ≠ j → d.id ≠ e.id
  pending : ∀ d, Gone s d → d.ref ∈ s.objects → Pending s d

/-- What the next statement of an upload of `own`, or of any other process, does to the tables and
the buckets. -/
structure Follows (s t : State) (own : Option Document) : Prop where
  used : ∀ id ∈ s.usedIds, id ∈ t.usedIds
  workspaces : ∀ w t', t.workspaces w = some t' → s.workspaces w = some t'
  known : ∀ d, Known t d → Known s d ∨ own = some d
  placed : ∀ d, d ∈ s.documents ∨ d ∈ s.removed → d ∈ t.documents ∨ d ∈ t.removed
  objects : ∀ o ∈ t.objects, o ∈ s.objects ∨ ∃ d, own = some d ∧ d.ref = o
  outbox : ∀ (row : Nat) (r : Row), s.outbox[row]? = some r →
    ∃ r', t.outbox[row]? = some r' ∧ r'.event = r.event
  gone : ∀ d, Gone t d → d.ref ∈ t.objects → (Gone s d ∧ d.ref ∈ s.objects) ∨ d ∈ s.documents

section Carry

variable {s t : State} {own : Option Document} {d e : Document} {p : Proc}

theorem Keyed.ref_inj (hd : Keyed s d) (he : Keyed s e) (h : d.ref = e.ref) : d.id = e.id := by
  obtain ⟨td, hd, -⟩ := hd
  obtain ⟨te, he, -⟩ := he
  have hkey : d.objectKey = e.objectKey := congrArg ObjectRef.key h
  rw [hd, he] at hkey
  exact (objectKey_inj hkey).2.2

/-- No event covers the object of a document whose row is there. -/
theorem Registered.spares (hr : Registered s) (hd : d ∈ s.documents) {r : Row} (h : r ∈ s.outbox) :
    ¬ covers r.event d := by
  intro hc
  obtain ⟨⟨td, hkey, -⟩, -⟩ := hr.carried d (.inl hd)
  rcases hr.events r h with ⟨e, he, hev⟩ | ⟨bucket, t, w, hev, hw⟩
  · obtain ⟨⟨te, hkey', -⟩, -⟩ := hr.carried e (.inr (.inl he))
    rw [hev] at hc
    have hk : e.objectKey = d.objectKey := hc.2
    rw [hkey, hkey'] at hk
    exact hr.removed d hd e he (objectKey_inj hk).2.2.symm
  · rw [hev] at hc
    have hpre : buildWorkspacePrefix t w <+: d.objectKey := hc.2
    rw [hkey] at hpre
    have hhoused := hr.housed d hd
    rw [← (workspacePrefix_names hpre).2, hw] at hhoused
    cases hhoused

theorem Follows.carried (hf : Follows s t own) (h : Carried s d) : Carried t d := by
  obtain ⟨⟨tenant, hkey, htenant⟩, hused⟩ := h
  exact ⟨⟨tenant, hkey, fun t' ht' => htenant t' (hf.workspaces _ _ ht')⟩, hf.used _ hused⟩

theorem Follows.left (hf : Follows s t own) (hr : Registered s) {row : Nat} {P : Document → Prop}
    (h : Left s row P) : Left t row P := by
  obtain ⟨r, hrow, hleft⟩ := h
  obtain ⟨r', hrow', hevent⟩ := hf.outbox row r hrow
  refine ⟨r', hrow', fun d hgone hcov hobj => ?_⟩
  rw [hevent] at hcov
  rcases hf.gone d hgone hobj with ⟨hgone, hobj⟩ | hdoc
  · exact hleft d hgone hcov hobj
  · exact absurd hcov (hr.spares hdoc (List.mem_of_getElem? hrow))

/-- A process is not disturbed by the statements of the others. -/
theorem Follows.procOk (hf : Follows s t own) (hr : Registered s)
    (hown : ∀ d, own = some d → Carried s d)
    (apart : ∀ d e, own = some d → p.document? = some e → d.id ≠ e.id) (h : ProcOk s p) :
    ProcOk t p := by
  have fresh : ∀ d, p.document? = some d → (∀ e, Known s e → e.id ≠ d.id) →
      ∀ e, Known t e → e.id ≠ d.id := by
    intro d hp hfresh e he
    rcases hf.known e he with he | he
    · exact hfresh e he
    · exact apart e d he hp
  cases p with
  | putting d =>
    obtain ⟨hc, hfresh, hobj⟩ := h
    refine ⟨hf.carried hc, fresh d rfl hfresh, fun hin => ?_⟩
    rcases hf.objects _ hin with hin | ⟨e, he, href⟩
    · exact hobj hin
    · exact apart e d he rfl ((hown e he).1.ref_inj hc.1 href)
  | persisting d => exact ⟨hf.carried h.1, fresh d rfl h.2⟩
  | syncing d => exact ⟨hf.carried h.1, hf.placed d h.2⟩
  | removingRow d => exact ⟨hf.carried h.1, hf.placed d h.2⟩
  | compensating d => exact hf.carried h
  | attempting row e => exact hf.left hr h
  | listing l purpose =>
    cases purpose with
    | prefixEvent row => exact hf.left hr h
    | orphanScan knownKeys deleteOrphans => trivial
  | deletingObjects bucket keys purpose =>
    cases purpose with
    | prefixEvent row => exact hf.left hr h
    | orphanScan knownKeys deleteOrphans => trivial
  | settling row => exact hf.left hr h
  | _ => trivial

end Carry

section Goto

variable {s u : State} {i : Nat} {p p' : Proc}

theorem Sound.own_carried (hs : Sound s) (hp : s.procs[i]? = some p) {d : Document}
    (hd : p.document? = some d) : Carried s d := by
  have h := hs.procs i p hp
  cases p with
  | putting e => exact Option.some.inj hd ▸ h.1
  | persisting e => exact Option.some.inj hd ▸ h.1
  | syncing e => exact Option.some.inj hd ▸ h.1
  | removingRow e => exact Option.some.inj hd ▸ h.1
  | compensating e => exact Option.some.inj hd ▸ h
  | _ => cases hd

theorem Sound.goto (hs : Sound s) (hp : s.procs[i]? = some p) (hprocs : u.procs = s.procs)
    (hr : Registered u) (hf : Follows s u p.document?) (hp' : ProcOk u p')
    (hown : ∀ d, p'.document? = some d → p.document? = some d)
    (hpend : ∀ d, Gone u d → d.ref ∈ u.objects → Pending (u.goto i p') d) :
    Sound (u.goto i p') := by
  have hset : (u.goto i p').procs = s.procs.set i p' := by rw [State.goto, hprocs]
  have others : ∀ (j : Nat) (q : Proc), j ≠ i → s.procs[j]? = some q → ProcOk u q := by
    intro j q hj hq
    refine hf.procOk hs.registered (fun d hd => hs.own_carried hp hd) ?_ (hs.procs j q hq)
    exact fun d e hd he => hs.apart i j p q d e hp hq hd he (Ne.symm hj)
  -- what a process carries after the step, it carried before
  have before : ∀ (j : Nat) (q : Proc) (d : Document), (s.procs.set i p')[j]? = some q →
      q.document? = some d → ∃ q', s.procs[j]? = some q' ∧ q'.document? = some d := by
    intro j q d hq hd
    rcases (ProcessPool.getElem?_set_iff hp).mp hq with ⟨rfl, rfl⟩ | ⟨-, hq⟩
    · exact ⟨p, hp, hown d hd⟩
    · exact ⟨q, hq, hd⟩
  refine ⟨?_, ?_, ?_, hpend⟩
  · exact ⟨hr.carried, hr.stored, hr.unique, hr.removed, hr.housed, hr.events⟩
  · rw [hset]
    exact ProcessPool.forall_set (P := fun _ q => ProcOk u q) hp hp' others
  · rw [hset]
    intro j k q q' d e hq hq' hd he hjk
    obtain ⟨q₁, hq₁, hd⟩ := before j q d hq hd
    obtain ⟨q₂, hq₂, he⟩ := before k q' e hq' he
    exact hs.apart j k q₁ q₂ d e hq₁ hq₂ hd he hjk

theorem Pending.goto {d : Document} (h : Pending s d) (hp : s.procs[i]? = some p)
    (hprocs : u.procs = s.procs) (hcomp : ∀ e, p = .compensating e → e.ref ≠ d.ref)
    (hrows : ∀ r ∈ s.outbox, covers r.event d → r.status ≠ .processed →
      ∃ r' ∈ u.outbox, r'.event = r.event ∧ r'.status ≠ .processed) :
    Pending (u.goto i p') d := by
  rcases h with ⟨e, he, href⟩ | ⟨r, hr, hcov, hstatus⟩
  · obtain ⟨j, hj⟩ := List.mem_iff_getElem?.mp he
    have hji : j ≠ i := by
      rintro rfl
      exact hcomp e (Option.some.inj (hp.symm.trans hj)) href
    refine .inl ⟨e, List.mem_iff_getElem?.mpr ⟨j, ?_⟩, href⟩
    rw [State.goto, hprocs]
    exact (ProcessPool.getElem?_set_iff hp).mpr (.inr ⟨hji, hj⟩)
  · obtain ⟨r', hr', hevent, hstatus'⟩ := hrows r hr hcov hstatus
    exact .inr ⟨r', hr', hevent ▸ hcov, hstatus'⟩

theorem pending_compensating {e d : Document} (hi : i < u.procs.length) (h : e.ref = d.ref) :
    Pending (u.goto i (.compensating e)) d :=
  .inl ⟨e, List.mem_set hi _, h⟩

/-- A statement that removes no row and settles no event. -/
theorem Sound.goto_quiet (hs : Sound s) (hp : s.procs[i]? = some p) (hprocs : u.procs = s.procs)
    (hr : Registered u) (hf : Follows s u p.document?) (hp' : ProcOk u p')
    (hown : ∀ d, p'.document? = some d → p.document? = some d)
    (houtbox : u.outbox = s.outbox)
    (hgone : ∀ d, Gone u d → d.ref ∈ u.objects →
      Gone s d ∧ d.ref ∈ s.objects ∧ ∀ e, p = .compensating e → e.ref ≠ d.ref) :
    Sound (u.goto i p') := by
  refine hs.goto hp hprocs hr hf hp' hown fun d hd hobj => ?_
  obtain ⟨hd, hobj, hcomp⟩ := hgone d hd hobj
  exact (hs.pending d hd hobj).goto hp hprocs hcomp fun r hr _ hst => ⟨r, houtbox ▸ hr, rfl, hst⟩

/-- Calls to the storage that only delete, and calls that change nothing here. -/
structure Shrinks (s u : State) : Prop where
  workspaces : u.workspaces = s.workspaces
  documents : u.documents = s.documents
  removed : u.removed = s.removed
  outbox : u.outbox = s.outbox
  procs : u.procs = s.procs
  usedIds : u.usedIds = s.usedIds
  objects : u.objects ⊆ s.objects

theorem Shrinks.follows (h : Shrinks s u) {own : Option Document}
    (hgone : ∀ d, Gone u d → Gone s d ∨ own = some d ∧ d.ref ∉ u.objects) : Follows s u own where
  used := fun id hid => h.usedIds ▸ hid
  workspaces := fun w t' ht => h.workspaces ▸ ht
  known := by
    rintro d (hd | hd)
    · exact .inl (.inl (h.documents ▸ hd))
    · exact (hgone d hd).imp .inr And.left
  placed := fun d hd => by rwa [h.documents, h.removed]
  objects := fun o ho => .inl (h.objects ho)
  outbox := fun row r hr => ⟨r, h.outbox ▸ hr, rfl⟩
  gone := by
    intro d hd hobj
    rcases hgone d hd with hd | ⟨-, hn⟩
    · exact .inl ⟨hd, h.objects hobj⟩
    · exact absurd hobj hn

theorem EventOk.keep {e : Event} (h : EventOk s e) (hremoved : ∀ d ∈ s.removed, d ∈ u.removed)
    (hworkspaces : ∀ w, s.workspaces w = none → u.workspaces w = none) : EventOk u e := by
  rcases h with ⟨d, hd, he⟩ | ⟨bucket, t, w, he, hw⟩
  · exact .inl ⟨d, hremoved d hd, he⟩
  · exact .inr ⟨bucket, t, w, he, hworkspaces w hw⟩

theorem Follows.registered {own : Option Document} (hf : Follows s u own) (hr : Registered s)
    (hown : ∀ d, own = some d → Carried s d) (documents : ∀ d ∈ u.documents, d ∈ s.documents)
    (removed : ∀ d ∈ u.documents, ∀ d' ∈ u.removed, d.id ≠ d'.id)
    (housed : ∀ d ∈ u.documents, (u.workspaces d.workspaceId).isSome)
    (events : ∀ r ∈ u.outbox, EventOk u r.event) : Registered u where
  carried := by
    intro d hd
    rcases hf.known d hd with hd | hd
    · exact hf.carried (hr.carried d hd)
    · exact hf.carried (hown d hd)
  stored := by
    intro o ho t w id hkey
    rcases hf.objects o ho with ho | ⟨d, hd, rfl⟩
    · exact hf.used id (hr.stored o ho t w id hkey)
    · obtain ⟨⟨t', hkey', -⟩, hused⟩ := hown d hd
      have hk : d.objectKey = buildOriginalDocumentObjectKey t w id := hkey
      rw [hkey'] at hk
      exact (objectKey_inj hk).2.2 ▸ hf.used d.id hused
  unique := fun d hd d' hd' => hr.unique d (documents d hd) d' (documents d' hd')
  removed := removed
  housed := housed
  events := events

theorem Follows.registered_same {own : Option Document} (hf : Follows s u own) (hr : Registered s)
    (hown : ∀ d, own = some d → Carried s d) (hworkspaces : u.workspaces = s.workspaces)
    (hdocuments : u.documents = s.documents) (hremoved : u.removed = s.removed)
    (hevents : ∀ r ∈ u.outbox, ∃ r' ∈ s.outbox, r'.event = r.event) : Registered u := by
  refine hf.registered hr hown ?_ ?_ ?_ ?_
  · exact fun d hd => hdocuments ▸ hd
  · rw [hdocuments, hremoved]
    exact hr.removed
  · rw [hdocuments, hworkspaces]
    exact hr.housed
  · intro r hr'
    obtain ⟨r', hmem, he⟩ := hevents r hr'
    rw [← he]
    exact (hr.events r' hmem).keep (fun d hd => hremoved ▸ hd) fun w hw => hworkspaces ▸ hw

/-- Only an upload that compensates has to see to it that its own object goes. -/
theorem Sound.shrink (hs : Sound s) (hp : s.procs[i]? = some p) (hu : Shrinks s u)
    (hp' : ProcOk u p') (hown : ∀ d, p'.document? = some d → p.document? = some d)
    (hgone : ∀ d, Gone u d → Gone s d ∨ p.document? = some d ∧ d.ref ∉ u.objects)
    (hcomp : ∀ e, p = .compensating e → e.ref ∉ u.objects) : Sound (u.goto i p') := by
  have hf := hu.follows hgone
  refine hs.goto_quiet hp hu.procs ?_ hf hp' hown hu.outbox ?_
  · refine hf.registered_same hs.registered (fun d hd => hs.own_carried hp hd) hu.workspaces
      hu.documents hu.removed ?_
    exact fun r hr => ⟨r, hu.outbox ▸ hr, rfl⟩
  · intro d hd hobj
    refine ⟨?_, hu.objects hobj, fun e he href => hcomp e he (href ▸ hobj)⟩
    rcases hgone d hd with hd | ⟨-, hn⟩
    · exact hd
    · exact absurd hobj hn

theorem Shrinks.refl (s : State) : Shrinks s s :=
  ⟨rfl, rfl, rfl, rfl, rfl, rfl, Finset.Subset.refl _⟩

/-- Nothing happens but that the process moves on. -/
theorem Sound.move (hs : Sound s) (hp : s.procs[i]? = some p) (hp' : ProcOk s p')
    (hown : ∀ d, p'.document? = some d → p.document? = some d)
    (hcomp : ∀ e, p ≠ .compensating e) : Sound (s.goto i p') :=
  hs.shrink hp (.refl s) hp' hown (fun _ hd => .inl hd) fun e he => absurd he (hcomp e)

theorem Shrinks.deleteObject (s : State) (ref : ObjectRef) : Shrinks s (s.deleteObject ref) :=
  ⟨rfl, rfl, rfl, rfl, rfl, rfl, Finset.erase_subset _ _⟩

theorem Shrinks.deleteBatch (s : State) (bucket : List Char) (keys : List (List Char))
    (purpose : Purpose) : Shrinks s (deleteBatch s bucket keys purpose) := by
  cases purpose with
  | prefixEvent row => exact ⟨rfl, rfl, rfl, rfl, rfl, rfl, Finset.filter_subset _ _⟩
  | orphanScan knownKeys deleteOrphans =>
    exact ⟨rfl, rfl, rfl, rfl, rfl, rfl, Finset.filter_subset _ _⟩

theorem deleteBatch_rejected (s : State) (bucket : List Char) (keys : List (List Char))
    (purpose : Purpose) : (deleteBatch s bucket keys purpose).rejected = s.rejected := by
  cases purpose <;> rfl

theorem mem_deleteBatch {bucket : List Char} {keys : List (List Char)} {purpose : Purpose}
    {o : ObjectRef} : o ∈ (deleteBatch s bucket keys purpose).objects ↔
      o ∈ s.objects ∧ ¬ (o.bucket = bucket ∧ o.key ∈ keys) := by
  cases purpose <;> simp [deleteBatch]

theorem Left.mono {row : Nat} {P Q : Document → Prop} (h : Left s row P)
    (hgone : ∀ d, Gone u d → d.ref ∈ u.objects → Gone s d ∧ d.ref ∈ s.objects)
    (houtbox : u.outbox = s.outbox) (hPQ : ∀ d, P d → d.ref ∈ u.objects → Q d) : Left u row Q := by
  obtain ⟨r, hrow, hleft⟩ := h
  refine ⟨r, houtbox ▸ hrow, fun d hd hcov hobj => ?_⟩
  obtain ⟨hd, hobj'⟩ := hgone d hd hobj
  exact hPQ d (hleft d hd hcov hobj') hobj

end Goto

section Upload

variable {s t : State} {i : Nat} {d : Document}

theorem gone_reject {e : Document} (h : Gone (s.reject d) e) : Gone s e ∨ some d = some e := by
  rcases h with h | h
  · exact .inl (.inl h)
  · rcases List.mem_cons.mp h with rfl | h
    · exact .inr rfl
    · exact .inl (.inr h)

theorem Sound.put (hs : Sound s) (hp : s.procs[i]? = some (.putting d)) :
    Sound ((s.put d.ref).goto i (.persisting d)) := by
  obtain ⟨hc, hfresh, -⟩ := hs.procs i _ hp
  -- a fresh id has left nothing behind
  have hgone : ∀ e, Gone s e → e.ref ∈ (s.put d.ref).objects → e.ref ∈ s.objects := by
    intro e he hobj
    rcases Finset.mem_insert.mp hobj with href | hobj
    · have hce := (hs.registered.carried e (.inr he)).1
      exact absurd (hce.ref_inj hc.1 href) (hfresh e (.inr he))
    · exact hobj
  have hf : Follows s (s.put d.ref) (some d) := by
    refine ⟨fun _ h => h, fun _ _ h => h, fun _ h => .inl h, fun _ h => h, ?_, ?_, ?_⟩
    · intro o ho
      rcases Finset.mem_insert.mp ho with rfl | ho
      · exact .inr ⟨d, rfl, rfl⟩
      · exact .inl ho
    · exact fun row r hr => ⟨r, hr, rfl⟩
    · exact fun e he hobj => .inl ⟨he, hgone e he hobj⟩
  have hr := hf.registered_same hs.registered (fun e he => hs.own_carried hp he) rfl rfl rfl
    fun r hr => ⟨r, hr, rfl⟩
  refine hs.goto_quiet hp rfl hr hf ⟨hc, hfresh⟩ (fun _ h => h) rfl ?_
  exact fun e he hobj => ⟨he, hgone e he hobj, fun _ hn => by cases hn⟩

theorem Sound.reject_unput (hs : Sound s) (hp : s.procs[i]? = some (.putting d)) :
    Sound ((s.reject d).goto i .done) := by
  obtain ⟨-, -, hobj⟩ := hs.procs i _ hp
  refine hs.shrink hp ⟨rfl, rfl, rfl, rfl, rfl, rfl, Finset.Subset.refl _⟩ trivial ?_ ?_ ?_
  · exact fun _ h => by cases h
  · intro e he
    rcases gone_reject he with he | he
    · exact .inl he
    · cases he
      exact .inr ⟨rfl, hobj⟩
  · exact fun _ h => by cases h

theorem Sound.compensate (hs : Sound s) (hp : s.procs[i]? = some (.compensating d)) :
    Sound (((s.deleteObject d.ref).reject d).goto i .done) := by
  have hout : d.ref ∉ (s.deleteObject d.ref).objects := Finset.notMem_erase _ _
  refine hs.shrink hp ⟨rfl, rfl, rfl, rfl, rfl, rfl, Finset.erase_subset _ _⟩ trivial ?_ ?_ ?_
  · exact fun _ h => by cases h
  · intro e he
    rcases gone_reject he with he | he
    · exact .inl he
    · cases he
      exact .inr ⟨rfl, hout⟩
  · intro e he
    cases he
    exact hout

theorem Sound.persist {p' : Proc} (hs : Sound s) (hp : s.procs[i]? = some (.persisting d))
    (h : persistUpload s i d p' = some t) (hp' : p' = .syncing d ∨ p' = .compensating d) :
    Sound t := by
  obtain ⟨hc, hfresh⟩ := hs.procs i _ hp
  obtain ⟨hhoused, h⟩ := Option.ite_none_right_eq_some.mp h
  cases Option.some.inj h
  have hdocs : ∀ e, e ∈ s.documents ++ [d] ↔ e ∈ s.documents ∨ e = d := by simp
  have hf : Follows s { s with documents := s.documents ++ [d] } (some d) := by
    refine ⟨fun _ h => h, fun _ _ h => h, ?_, ?_, fun _ h => .inl h, ?_, ?_⟩
    · rintro e (he | he)
      · rcases (hdocs e).mp he with he | rfl
        · exact .inl (.inl he)
        · exact .inr rfl
      · exact .inl (.inr he)
    · exact fun e he => he.imp_left fun he => (hdocs e).mpr (.inl he)
    · exact fun row r hr => ⟨r, hr, rfl⟩
    · exact fun e he hobj => .inl ⟨he, hobj⟩
  have hr : Registered { s with documents := s.documents ++ [d] } := by
    refine ⟨?_, hs.registered.stored, ?_, ?_, ?_, hs.registered.events⟩
    · intro e he
      rcases hf.known e he with he | he
      · exact hs.registered.carried e he
      · exact Option.some.inj he ▸ hc
    · intro e he e' he' hid
      rcases (hdocs e).mp he with hold | rfl <;> rcases (hdocs e').mp he' with hold' | rfl
      · exact hs.registered.unique e hold e' hold' hid
      · exact absurd hid (hfresh e (.inl hold))
      · exact absurd hid.symm (hfresh e' (.inl hold'))
      · rfl
    · intro e he e' he'
      rcases (hdocs e).mp he with he | rfl
      · exact hs.registered.removed e he e' he'
      · exact (hfresh e' (.inr (.inl he'))).symm
    · intro e he
      rcases (hdocs e).mp he with he | rfl
      · exact hs.registered.housed e he
      · exact hhoused
  refine hs.goto_quiet hp rfl hr hf ?_ ?_ rfl ?_
  · rcases hp' with rfl | rfl
    · exact ⟨hc, .inl ((hdocs d).mpr (.inr rfl))⟩
    · exact hc
  · rcases hp' with rfl | rfl <;> exact fun _ h => h
  · exact fun e he hobj => ⟨he, hobj, fun _ hn => by cases hn⟩

end Upload

section Removal

variable {s u : State} {i : Nat} {p : Proc} {q : Document → Bool}

theorem gone_removeRows {d : Document} (h : Gone (s.removeRows q) d) :
    Gone s d ∨ (d ∈ s.documents ∧ q d = true) := by
  rcases h with h | h
  · rcases List.mem_append.mp h with h | h
    · exact .inr (List.mem_filter.mp h)
    · exact .inl (.inl h)
  · exact .inl (.inr h)

/-- `u` is `s` without some rows, and with the events that were left for them. -/
structure Removes (s u : State) (q : Document → Bool) (events : List Row) : Prop where
  documents : u.documents = s.documents.filter fun d => !q d
  removed : u.removed = s.documents.filter q ++ s.removed
  rejected : u.rejected = s.rejected
  objects : u.objects = s.objects
  outbox : u.outbox = s.outbox ++ events
  procs : u.procs = s.procs
  usedIds : u.usedIds = s.usedIds
  workspaces : ∀ w t, u.workspaces w = some t → s.workspaces w = some t
  housed : ∀ d ∈ u.documents, u.workspaces d.workspaceId = s.workspaces d.workspaceId
  events : ∀ r ∈ events, EventOk u r.event

theorem Removes.gone {events : List Row} (h : Removes s u q events) {d : Document}
    (hd : Gone u d) : Gone s d ∨ (d ∈ s.documents ∧ q d = true) := by
  rw [Gone, h.removed, h.rejected] at hd
  exact gone_removeRows hd

theorem Removes.follows {events : List Row} (h : Removes s u q events)
    (own : Option Document) : Follows s u own where
  used := fun id hid => h.usedIds ▸ hid
  workspaces := h.workspaces
  known := by
    rintro d (hd | hd)
    · rw [h.documents] at hd
      exact .inl (.inl (List.mem_filter.mp hd).1)
    · rcases h.gone hd with hd | hd
      · exact .inl (.inr hd)
      · exact .inl (.inl hd.1)
  placed := by
    rintro d (hd | hd)
    · rw [h.documents, h.removed]
      by_cases hq : q d = true
      · exact .inr (List.mem_append.mpr (.inl (List.mem_filter.mpr ⟨hd, hq⟩)))
      · exact .inl (List.mem_filter.mpr ⟨hd, by simp [hq]⟩)
    · rw [h.removed]
      exact .inr (List.mem_append.mpr (.inr hd))
  objects := fun o ho => .inl (h.objects ▸ ho)
  outbox := by
    intro row r hr
    refine ⟨r, ?_, rfl⟩
    rw [h.outbox, List.getElem?_append_left (List.getElem?_eq_some_iff.mp hr).1]
    exact hr
  gone := by
    intro d hd hobj
    rcases h.gone hd with hd | hd
    · exact .inl ⟨hd, h.objects ▸ hobj⟩
    · exact .inr hd.1

theorem Removes.registered {events : List Row} (h : Removes s u q events) (hr : Registered s)
    {own : Option Document} (hown : ∀ d, own = some d → Carried s d) : Registered u := by
  have mem : ∀ d, d ∈ u.documents ↔ d ∈ s.documents ∧ q d = false := by simp [h.documents]
  refine (h.follows own).registered hr hown (fun d hd => ((mem d).mp hd).1) ?_ ?_ ?_
  · intro d hd d' hd' hid
    obtain ⟨hd, hq⟩ := (mem d).mp hd
    rw [h.removed] at hd'
    rcases List.mem_append.mp hd' with hd' | hd'
    · obtain ⟨hd', hq'⟩ := List.mem_filter.mp hd'
      rw [hr.unique d hd d' hd' hid, hq'] at hq
      cases hq
    · exact hr.removed d hd d' hd' hid
  · intro d hd
    rw [h.housed d hd]
    exact hr.housed d ((mem d).mp hd).1
  · intro r hr'
    rw [h.outbox] at hr'
    rcases List.mem_append.mp hr' with hr' | hr'
    · refine (hr.events r hr').keep ?_ ?_
      · intro d hd
        rw [h.removed]
        exact List.mem_append.mpr (.inr hd)
      · intro w hw
        cases hu : u.workspaces w with
        | none => rfl
        | some t => rw [h.workspaces w t hu] at hw; cases hw
    · exact h.events r hr'

/-- Rows may be removed by whoever sees to it that their objects go. -/
theorem Sound.remove {p' : Proc} {events : List Row} (hs : Sound s) (hp : s.procs[i]? = some p)
    (h : Removes s u q events) (hcomp : ∀ e, p ≠ .compensating e) (hp' : ProcOk u p')
    (hown : ∀ d, p'.document? = some d → p.document? = some d)
    (hpend : ∀ d ∈ s.documents, q d = true → Pending (u.goto i p') d) : Sound (u.goto i p') := by
  refine hs.goto hp h.procs (h.registered hs.registered fun d hd => hs.own_carried hp hd)
    (h.follows _) hp' hown fun d hd hobj => ?_
  rcases h.gone hd with hd | ⟨hd, hq⟩
  · refine (hs.pending d hd (h.objects ▸ hobj)).goto hp h.procs
      (fun e he => absurd he (hcomp e)) ?_
    exact fun r hr _ hst => ⟨r, by rw [h.outbox]; exact List.mem_append.mpr (.inl hr), rfl, hst⟩
  · exact hpend d hd hq

theorem Sound.removeRow {d : Document} (hs : Sound s) (hp : s.procs[i]? = some (.removingRow d)) :
    Sound ((s.removeRows (isDocument d.workspaceId d.id)).goto i (.compensating d)) := by
  obtain ⟨hc, hplace⟩ := hs.procs i _ hp
  have hrem : Removes s (s.removeRows (isDocument d.workspaceId d.id))
      (isDocument d.workspaceId d.id) [] := by
    refine ⟨rfl, rfl, rfl, rfl, ?_, rfl, rfl, fun _ _ h => h, fun _ _ => rfl, ?_⟩
    · exact (List.append_nil _).symm
    · simp
  refine hs.remove hp hrem (fun _ h => by cases h) ?_ (fun _ h => h) ?_
  · exact (hrem.follows none).carried hc
  · intro e he hq
    have hid : e.id = d.id := by
      simp only [isDocument, Bool.and_eq_true, beq_iff_eq] at hq
      exact hq.1
    have hed : e = d := by
      rcases hplace with hd | hd
      · exact hs.registered.unique e he d hd hid
      · exact absurd hid (hs.registered.removed e he d hd)
    exact pending_compensating (List.getElem?_eq_some_iff.mp hp).1 (hed ▸ rfl)

theorem Sound.deleteDocument {bucket : List Char} {workspaceId documentId : Uuid}
    {acknowledged : Bool} (hs : Sound s)
    (hp : s.procs[i]? = some (.deletingDocument bucket workspaceId documentId)) :
    Sound (deleteDocument s i bucket workspaceId documentId acknowledged) := by
  unfold StoredObjects.deleteDocument
  split
  · rename_i d hd
    have hin := List.mem_of_find?_eq_some hd
    have hq : isDocument workspaceId documentId d = true := List.find?_some hd
    have hsame : ∀ e ∈ s.documents, isDocument workspaceId documentId e = true → e = d := by
      intro e he hqe
      simp only [isDocument, Bool.and_eq_true, beq_iff_eq] at hq hqe
      exact hs.registered.unique e he d hin (hqe.1.trans hq.1.symm)
    refine hs.remove hp ⟨rfl, rfl, rfl, rfl, rfl, rfl, rfl, fun _ _ h => h, fun _ _ => rfl, ?_⟩
      (fun _ h => by cases h) ?_ ?_ ?_
    · intro r hr
      rw [List.mem_singleton.mp hr]
      exact .inl ⟨d, List.mem_append.mpr (.inl (List.mem_filter.mpr ⟨hin, hq⟩)), rfl⟩
    · split <;> trivial
    · split <;> exact fun _ h => by cases h
    · intro e he hqe
      rw [hsame e he hqe]
      refine .inr ⟨⟨enqueueDeleteObject d, .pending⟩, ?_, ⟨rfl, rfl⟩, fun h => by cases h⟩
      exact List.mem_append.mpr (.inr (List.mem_singleton.mpr rfl))
  · exact hs.move hp trivial (fun _ h => by cases h) fun _ h => by cases h

theorem Sound.deleteWorkspace {bucket : List Char} {workspaceId : Uuid} (hs : Sound s)
    (hp : s.procs[i]? = some (.deletingWorkspace bucket workspaceId))
    (hbuckets : ∀ d ∈ s.documents, d.workspaceId = workspaceId → d.bucket = bucket) :
    Sound (deleteWorkspace s i bucket workspaceId) := by
  unfold StoredObjects.deleteWorkspace
  split
  · rename_i tenantId htenant
    have hhoused : ∀ w t, Function.update s.workspaces workspaceId none w = some t →
        s.workspaces w = some t := by
      intro w t hw
      by_cases hww : w = workspaceId
      · rw [hww, Function.update_self] at hw
        cases hw
      · rwa [Function.update_of_ne hww] at hw
    refine hs.remove hp ⟨rfl, rfl, rfl, rfl, rfl, rfl, rfl, hhoused, ?_, ?_⟩
      (fun _ h => by cases h) trivial (fun _ h => by cases h) ?_
    · intro d hd
      have hne : d.workspaceId ≠ workspaceId := by simpa using (List.mem_filter.mp hd).2
      exact Function.update_of_ne hne _ _
    · intro r hr
      rw [List.mem_singleton.mp hr]
      exact .inr ⟨bucket, tenantId, workspaceId, rfl, Function.update_self ..⟩
    · intro d hd hq
      have hw : d.workspaceId = workspaceId := by simpa using hq
      obtain ⟨⟨t, hkey, ht⟩, -⟩ := hs.registered.carried d (.inl hd)
      obtain rfl : tenantId = t := ht tenantId (hw ▸ htenant)
      refine .inr ⟨⟨enqueueDeletePrefix bucket tenantId workspaceId, .pending⟩, ?_,
        ⟨(hbuckets d hd hw).symm, ?_⟩, fun h => by cases h⟩
      · exact List.mem_append.mpr (.inr (List.mem_singleton.mpr rfl))
      · rw [hkey, ← hw]
        exact workspacePrefix_prefix _ _ _
  · exact hs.move hp trivial (fun _ h => by cases h) fun _ h => by cases h

end Removal

section Worker

variable {s t : State} {i row : Nat} {p : Proc} {status : RowStatus}

theorem mark_getElem? {j : Nat} {r : Row} (h : s.outbox[j]? = some r) :
    (s.mark row status).outbox[j]? =
      some (if row = j then { r with status := status } else r) := by
  simp only [State.mark, List.getElem?_modify, h]
  split <;> rfl

theorem Follows.mark (s : State) (row : Nat) (status : RowStatus) (own : Option Document) :
    Follows s (s.mark row status) own := by
  refine ⟨fun _ h => h, fun _ _ h => h, fun _ h => .inl h, fun _ h => h, fun _ h => .inl h, ?_, ?_⟩
  · intro j r hr
    refine ⟨_, mark_getElem? hr, ?_⟩
    split <;> rfl
  · exact fun d hd hobj => .inl ⟨hd, hobj⟩

theorem mark_events {r : Row} (h : r ∈ (s.mark row status).outbox) :
    ∃ r' ∈ s.outbox, r'.event = r.event := by
  obtain ⟨j, hj⟩ := List.mem_iff_getElem?.mp h
  rw [State.mark, List.getElem?_modify] at hj
  obtain ⟨r', hr', hr⟩ := Option.map_eq_some_iff.mp hj
  refine ⟨r', List.mem_of_getElem? hr', ?_⟩
  split at hr <;> rw [← hr]

/-- A row is settled only once nothing is left of what it covers. -/
theorem Sound.mark (hs : Sound s) (hp : s.procs[i]? = some p)
    (hcomp : ∀ e, p ≠ .compensating e)
    (hleft : status = .processed → Left s row fun _ => False) :
    Sound ((s.mark row status).goto i .done) := by
  have hf := Follows.mark s row status p.document?
  have hr := hf.registered_same hs.registered (fun d hd => hs.own_carried hp hd) rfl rfl rfl
    fun r hr => mark_events hr
  refine hs.goto hp rfl hr hf trivial (fun _ h => by cases h) fun d hd hobj => ?_
  refine (hs.pending d hd hobj).goto hp rfl (fun e he => absurd he (hcomp e)) ?_
  intro r hr hcov hst
  obtain ⟨j, hj⟩ := List.mem_iff_getElem?.mp hr
  refine ⟨_, List.mem_of_getElem? (mark_getElem? hj), ?_, ?_⟩
  · split <;> rfl
  · split
    · rename_i hrow
      intro hproc
      obtain ⟨r', hr', hleft⟩ := hleft hproc
      rw [hrow, hj] at hr'
      cases Option.some.inj hr'
      exact hleft d hd hcov hobj
    · exact hst

theorem mem_keysIn {bucket keyPrefix key : List Char} (h : ⟨bucket, key⟩ ∈ s.objects)
    (hpre : keyPrefix <+: key) : key ∈ keysIn s.objects bucket keyPrefix :=
  Finset.mem_image.mpr ⟨⟨bucket, key⟩, Finset.mem_filter.mpr ⟨h, rfl, hpre⟩, rfl⟩

theorem Sound.attempt {e : Event} {reply : Reply} (hs : Sound s)
    (hp : s.procs[i]? = some (.attempting row e)) (h : advance s i (.attempting row e) reply = some t) :
    Sound t := by
  have hleft : Left s row (covers e) := hs.procs i _ hp
  have quiet : ∀ d, Proc.attempting row e ≠ .compensating d := fun _ hn => by cases hn
  cases e with
  | deleteObject payload =>
    -- whatever the reply, only the object that the event names can go
    have deleted : ∀ p', (p' = .settling row ∨ p' = .failing row) →
        Sound ((s.deleteObject ⟨payload.bucket, payload.objectKey⟩).goto i p') := by
      intro p' hp'
      refine hs.shrink hp (.deleteObject s _) ?_ ?_ (fun _ hd => .inl hd)
        fun d hd => absurd hd (quiet d)
      · rcases hp' with rfl | rfl
        · refine hleft.mono (fun d hd hobj => ⟨hd, Finset.mem_of_mem_erase hobj⟩) rfl ?_
          intro d hcov hobj
          have href : d.ref = ⟨payload.bucket, payload.objectKey⟩ := by
            rw [Document.ref, ← hcov.1, ← hcov.2]
          exact Finset.ne_of_mem_erase hobj href
        · trivial
      · rcases hp' with rfl | rfl <;> exact fun _ h => by cases h
    cases reply <;> cases h
    · exact deleted _ (.inl rfl)
    · exact hs.move hp trivial (fun _ h => by cases h) quiet
    · exact deleted _ (.inr rfl)
  | deletePrefix payload =>
    cases reply <;> cases h
    · refine hs.move hp ?_ (fun _ h => by cases h) quiet
      refine hleft.mono (fun d hd hobj => ⟨hd, hobj⟩) rfl fun d hcov hobj => ?_
      have hin : ⟨payload.bucket, d.objectKey⟩ ∈ s.objects := by
        rw [hcov.1]
        exact hobj
      exact ⟨hcov.1.symm, hcov.2, mem_keysIn hin hcov.2⟩
    · exact hs.move hp trivial (fun _ h => by cases h) quiet

theorem Purpose.failed_document? (purpose : Purpose) : purpose.failed.document? = none := by
  cases purpose <;> rfl

theorem Purpose.succeeded_document? (purpose : Purpose) : purpose.succeeded.document? = none := by
  cases purpose <;> rfl

theorem procOk_failed (purpose : Purpose) : ProcOk s purpose.failed := by
  cases purpose <;> trivial

theorem Sound.list {l : Listing} {purpose : Purpose} {reply : Reply} (hs : Sound s)
    (hp : s.procs[i]? = some (.listing l purpose))
    (h : advance s i (.listing l purpose) reply = some t) : Sound t := by
  have quiet : ∀ d, Proc.listing l purpose ≠ .compensating d := fun _ hn => by cases hn
  cases reply with
  | page keys last =>
    obtain ⟨hpage, h⟩ := Option.ite_none_right_eq_some.mp h
    cases Option.some.inj h
    have hlast := (of_decide_eq_true hpage).2
    refine hs.move hp ?_ ?_ quiet
    · cases purpose with
      | orphanScan knownKeys deleteOrphans => split <;> trivial
      | prefixEvent row =>
        have hleft : Left s row _ := hs.procs i _ hp
        split
        · rename_i hl
          refine hleft.mono (fun d hd hobj => ⟨hd, hobj⟩) rfl fun d hd hobj => ⟨hd.1, ?_⟩
          have hin : ⟨l.bucket, d.objectKey⟩ ∈ s.objects := hd.1 ▸ hobj
          exact hlast hl d.objectKey hd.2.2 hin
        · exact hleft
    · split <;> exact fun _ h => by cases h
  | failed =>
    cases h
    refine hs.move hp (procOk_failed purpose) ?_ quiet
    rw [purpose.failed_document?]
    exact fun _ h => by cases h
  | _ => cases h

theorem Sound.deleteObjects {bucket : List Char} {keys : List (List Char)} {purpose : Purpose}
    {reply : Reply} (hs : Sound s) (hp : s.procs[i]? = some (.deletingObjects bucket keys purpose))
    (h : advance s i (.deletingObjects bucket keys purpose) reply = some t) : Sound t := by
  have quiet : ∀ d, Proc.deletingObjects bucket keys purpose ≠ .compensating d :=
    fun _ hn => by cases hn
  have shrink : ∀ gone p', ProcOk (deleteBatch s bucket gone purpose) p' → p'.document? = none →
      Sound ((deleteBatch s bucket gone purpose).goto i p') := by
    intro gone p' hp' hown
    refine hs.shrink hp (.deleteBatch ..) hp' (fun d hd => ?_) (fun d hd => .inl ?_)
      fun d hd => absurd hd (quiet d)
    · rw [hown] at hd
      cases hd
    · rw [Gone, (Shrinks.deleteBatch ..).removed, deleteBatch_rejected] at hd
      exact hd
  cases reply with
  | ok =>
    cases keys with
    | nil =>
      cases h
      refine hs.move hp ?_ ?_ quiet
      · cases purpose with
        | orphanScan knownKeys deleteOrphans => trivial
        | prefixEvent row =>
          have hleft : Left s row _ := hs.procs i _ hp
          exact hleft.mono (fun d hd hobj => ⟨hd, hobj⟩) rfl fun d hd _ => by cases hd.2
      · rw [purpose.succeeded_document?]
        exact fun _ h => by cases h
    | cons key keys =>
      cases h
      refine shrink _ _ ?_ rfl
      cases purpose with
      | orphanScan knownKeys deleteOrphans => trivial
      | prefixEvent row =>
        have hleft : Left s row _ := hs.procs i _ hp
        refine hleft.mono (fun d hd hobj => ⟨hd, (mem_deleteBatch.mp hobj).1⟩) rfl ?_
        intro d hd hobj
        refine ⟨hd.1, ?_⟩
        -- a key is in the request or among those that come later
        have hsplit : d.objectKey ∈ (key :: keys).take deleteBatchSize ++
            (key :: keys).drop deleteBatchSize := by
          rw [List.take_append_drop]
          exact hd.2
        rcases List.mem_append.mp hsplit with hkey | hkey
        · exact absurd ⟨hd.1, hkey⟩ (mem_deleteBatch.mp hobj).2
        · exact hkey
  | partly gone =>
    have h : (if gone ⊆ keys.take deleteBatchSize then
        some ((deleteBatch s bucket gone purpose).goto i purpose.failed) else none) = some t := by
      cases keys <;> exact h
    obtain ⟨-, h⟩ := Option.ite_none_right_eq_some.mp h
    cases Option.some.inj h
    exact shrink _ _ (procOk_failed purpose) purpose.failed_document?
  | failed =>
    have h : some (s.goto i purpose.failed) = some t := by cases keys <;> exact h
    cases h
    refine hs.move hp (procOk_failed purpose) ?_ quiet
    rw [purpose.failed_document?]
    exact fun _ h => by cases h
  | _ => cases keys <;> cases h

end Worker

section Lifetimes

variable {s t : State}

/-- Every row of the workspace that goes names the bucket that the server deletes from, and a put
that is reported as failed has stored nothing. -/
def findsEveryObject (s : State) : Act → Bool
  | .advance i reply =>
    match s.procs[i]? with
    | some (.deletingWorkspace bucket workspaceId) => reply = .failed ||
      s.documents.all fun d => d.workspaceId = workspaceId → d.bucket = bucket
    | some (.putting _) => reply ≠ .lost
    | _ => true
  | _ => true

theorem advance_sound {i : Nat} {reply : Reply} (hs : Sound s)
    (hok : findsEveryObject s (.advance i reply)) (h : step s (.advance i reply) = some t) :
    Sound t := by
  obtain ⟨p, hp, h⟩ := Option.bind_eq_some_iff.mp h
  simp only [findsEveryObject, hp] at hok
  cases p with
  | putting d =>
    cases reply with
    | ok => cases h; exact hs.put hp
    | failed => cases h; exact hs.reject_unput hp
    | lost => cases hok
    | _ => cases h
  | persisting d =>
    cases reply with
    | ok => exact hs.persist hp h (.inl rfl)
    | failed =>
      cases h
      exact hs.move hp (hs.procs i _ hp).1 (fun _ h => h) fun _ hn => by cases hn
    | lost => exact hs.persist hp h (.inr rfl)
    | _ => cases h
  | syncing d =>
    have hd : ProcOk s (.syncing d) := hs.procs i _ hp
    have quiet : ∀ e, Proc.syncing d ≠ .compensating e := fun _ hn => by cases hn
    cases reply <;> cases h
    · exact hs.move hp trivial (fun _ h => by cases h) quiet
    · exact hs.move hp hd (fun _ h => h) quiet
    · exact hs.move hp hd (fun _ h => h) quiet
  | removingRow d =>
    cases reply <;> cases h
    · exact hs.removeRow hp
    · exact hs.move hp (hs.procs i _ hp).1 (fun _ h => h) fun _ hn => by cases hn
    · exact hs.removeRow hp
  | compensating d =>
    cases reply <;> cases h
    exact hs.compensate hp
  | deletingDocument bucket workspaceId documentId =>
    cases reply <;> cases h
    · exact hs.deleteDocument hp
    · exact hs.move hp trivial (fun _ h => by cases h) fun _ hn => by cases hn
    · exact hs.deleteDocument hp
  | cleaningObject ref =>
    have cleaned : Sound ((s.deleteObject ref).goto i .done) :=
      hs.shrink hp (.deleteObject s ref) trivial (fun _ h => by cases h) (fun _ h => .inl h)
        fun _ hn => by cases hn
    cases reply <;> cases h
    · exact cleaned
    · exact hs.move hp trivial (fun _ h => by cases h) fun _ hn => by cases hn
    · exact cleaned
  | deletingWorkspace bucket workspaceId =>
    have hbuckets : reply ≠ .failed →
        ∀ d ∈ s.documents, d.workspaceId = workspaceId → d.bucket = bucket := by
      simpa [or_iff_not_imp_left] using hok
    cases reply <;> cases h
    · exact hs.deleteWorkspace hp (hbuckets fun hn => by cases hn)
    · exact hs.move hp trivial (fun _ h => by cases h) fun _ hn => by cases hn
    · exact hs.deleteWorkspace hp (hbuckets fun hn => by cases hn)
  | attempting row e => exact hs.attempt hp h
  | scanning bucket knownKeys deleteOrphans =>
    cases reply <;> cases h
    · exact hs.move hp trivial (fun _ h => by cases h) fun _ hn => by cases hn
    · exact hs.move hp trivial (fun _ h => by cases h) fun _ hn => by cases hn
  | listing l purpose => exact hs.list hp h
  | deletingObjects bucket keys purpose => exact hs.deleteObjects hp h
  | settling row =>
    have hleft : Left s row fun _ => False := hs.procs i _ hp
    cases reply <;> cases h
    · exact hs.mark hp (fun _ hn => by cases hn) fun _ => hleft
    · exact hs.move hp trivial (fun _ h => by cases h) fun _ hn => by cases hn
    · exact hs.mark hp (fun _ hn => by cases hn) fun _ => hleft
  | failing row =>
    cases reply <;> cases h
    · exact hs.mark hp (fun _ hn => by cases hn) fun hn => by cases hn
    · exact hs.move hp trivial (fun _ h => by cases h) fun _ hn => by cases hn
    · exact hs.mark hp (fun _ hn => by cases hn) fun hn => by cases hn
  | done => cases reply <;> cases h

theorem Sound.start {p : Proc} (hs : Sound s) (hp : ProcOk s p) (hown : p.document? = none) :
    Sound (s.start p) := by
  refine ⟨⟨hs.registered.carried, hs.registered.stored, hs.registered.unique,
    hs.registered.removed, hs.registered.housed, hs.registered.events⟩, ?_, ?_, ?_⟩
  · exact ProcessPool.forall_push (P := fun _ q => ProcOk s q) hp hs.procs
  · intro j k q q' d e hq hq' hd he hjk
    rcases ProcessPool.getElem?_push_iff.mp hq with hq | ⟨-, rfl⟩
    · rcases ProcessPool.getElem?_push_iff.mp hq' with hq' | ⟨-, rfl⟩
      · exact hs.apart j k q q' d e hq hq' hd he hjk
      · rw [hown] at he
        cases he
    · rw [hown] at hd
      cases hd
  · intro d hd hobj
    exact (hs.pending d hd hobj).imp_left fun ⟨e, he, href⟩ =>
      ⟨e, List.mem_append.mpr (.inl he), href⟩

theorem Sound.upload {bucket : List Char} {workspaceId documentId : Uuid} (hs : Sound s)
    (h : uploadDocument s bucket workspaceId documentId = some t) : Sound t := by
  obtain ⟨hfresh, h⟩ := Option.ite_none_left_eq_some.mp h
  split at h
  · rename_i tenantId htenant
    cases Option.some.inj h
    have hf : Follows s { s with usedIds := documentId :: s.usedIds } none := by
      refine ⟨fun _ h => List.mem_cons_of_mem _ h, fun _ _ h => h, fun _ h => .inl h, fun _ h => h,
        fun _ h => .inl h, fun row r hr => ⟨r, hr, rfl⟩, fun _ hd hobj => .inl ⟨hd, hobj⟩⟩
    have hr := hf.registered_same hs.registered (fun _ h => by cases h) rfl rfl rfl
      fun r hr => ⟨r, hr, rfl⟩
    have known : ∀ d, Known s d → d.id ≠ documentId :=
      fun d hd hid => hfresh (hid ▸ (hs.registered.carried d hd).2)
    have carried : ∀ (j : Nat) (q : Proc) (d : Document), s.procs[j]? = some q →
        q.document? = some d → d.id ≠ documentId :=
      fun j q d hq hd hid => hfresh (hid ▸ (hs.own_carried hq hd).2)
    refine ⟨⟨hr.carried, hr.stored, hr.unique, hr.removed, hr.housed, hr.events⟩, ?_, ?_, ?_⟩
    · refine ProcessPool.forall_push (P := fun _ q => ProcOk _ q) ⟨⟨?_, ?_⟩, known, ?_⟩ ?_
      · exact ⟨tenantId, rfl, fun t' ht' => Option.some.inj (ht'.symm.trans htenant)⟩
      · exact List.mem_cons_self
      · exact fun hin => hfresh (hs.registered.stored _ hin _ _ _ rfl)
      · intro j q hq
        exact hf.procOk hs.registered (fun _ h => by cases h) (fun _ _ h => by cases h)
          (hs.procs j q hq)
    · intro j k q q' d e hq hq' hd he hjk
      rcases ProcessPool.getElem?_push_iff.mp hq with hq | ⟨hj, rfl⟩ <;>
        rcases ProcessPool.getElem?_push_iff.mp hq' with hq' | ⟨hk, rfl⟩
      · exact hs.apart j k q q' d e hq hq' hd he hjk
      · cases Option.some.inj he
        exact carried j q d hq hd
      · cases Option.some.inj hd
        exact (carried k q' e hq' he).symm
      · exact absurd (hj.trans hk.symm) hjk
    · intro d hd hobj
      exact (hs.pending d hd hobj).imp_left fun ⟨e, he, href⟩ =>
        ⟨e, List.mem_append.mpr (.inl he), href⟩
  · cases Option.some.inj h
    exact hs.start trivial rfl

theorem Sound.workOn {row : Nat} (hs : Sound s) (h : workOn s row = some t) : Sound t := by
  unfold StoredObjects.workOn at h
  split at h
  · rename_i r hr
    obtain ⟨-, h⟩ := Option.ite_none_left_eq_some.mp h
    cases Option.some.inj h
    refine hs.start ?_ ?_
    · split
      · exact ⟨r, hr, fun _ _ hcov _ => hcov⟩
      · trivial
    · split <;> rfl
  · cases h

theorem step_sound {a : Act} (hs : Sound s) (hok : findsEveryObject s a)
    (h : step s a = some t) : Sound t := by
  cases a with
  | upload bucket workspaceId documentId => exact hs.upload h
  | deleteDocument bucket workspaceId documentId =>
    cases h
    exact hs.start trivial rfl
  | deleteWorkspace bucket workspaceId =>
    cases h
    exact hs.start trivial rfl
  | work row => exact hs.workOn h
  | scan bucket allowDelete deleteOrphans =>
    cases h
    exact hs.start trivial rfl
  | advance i reply => exact advance_sound hs hok h

/-- Documents in any buckets, before any request. -/
structure Initial (s : State) : Prop where
  procs : s.procs = []
  outbox : s.outbox = []
  removed : s.removed = []
  rejected : s.rejected = []
  keyed : ∀ d ∈ s.documents, ∃ t, s.workspaces d.workspaceId = some t ∧
    d.objectKey = buildOriginalDocumentObjectKey t d.workspaceId d.id
  used : ∀ d ∈ s.documents, d.id ∈ s.usedIds
  unique : ∀ d ∈ s.documents, ∀ d' ∈ s.documents, d.id = d'.id → d = d'
  stored : ∀ o ∈ s.objects, ∀ t w id, o.key = buildOriginalDocumentObjectKey t w id → id ∈ s.usedIds

theorem initial_sound (h : Initial s) : Sound s := by
  have hgone : ∀ d, ¬ Gone s d := by simp [Gone, h.removed, h.rejected]
  refine ⟨⟨?_, h.stored, h.unique, ?_, ?_, ?_⟩, ?_, ?_, fun d hd => absurd hd (hgone d)⟩
  · rintro d (hd | hd)
    · obtain ⟨t, ht, hkey⟩ := h.keyed d hd
      exact ⟨⟨t, hkey, fun t' ht' => Option.some.inj (ht'.symm.trans ht)⟩, h.used d hd⟩
    · exact absurd hd (hgone d)
  · simp [h.removed]
  · intro d hd
    obtain ⟨t, ht, -⟩ := h.keyed d hd
    exact Option.isSome_of_eq_some ht
  · simp [h.outbox]
  · simp [h.procs]
  · simp [h.procs]

/-- All requests have finished and every event has been processed. -/
def Drained (s : State) : Prop :=
  (∀ p ∈ s.procs, p = .done) ∧ ∀ r ∈ s.outbox, r.status = .processed

theorem Sound.drained (hs : Sound s) (hd : Drained s) {d : Document} (h : Gone s d) :
    d.ref ∉ s.objects := by
  intro hobj
  rcases hs.pending d h hobj with ⟨e, he, -⟩ | ⟨r, hr, -, hst⟩
  · cases hd.1 _ he
  · exact hst (hd.2 r hr)

end Lifetimes

def NothingOutlives (s : State) : Prop := Drained s → ∀ d, Gone s d → d.ref ∉ s.objects

theorem gone_objects_deleted {s : State} (h : Reach Initial step (fun s a => findsEveryObject s a) s) :
    NothingOutlives s := by
  have hs : Sound s := h.invariant (fun _ hi => initial_sound hi) fun _ _ _ hs hok hst =>
    step_sound hs hok hst
  exact fun hd _ hgone => hs.drained hd hgone

def sampleTenant : Uuid := .ofNat 1
def sampleWorkspace : Uuid := .ofNat 2
def oldBucket : List Char := "old-bucket".toList
def newBucket : List Char := "new-bucket".toList

/-- Uploaded when the server was configured with `oldBucket`. -/
def sampleDocument : Document := ⟨.ofNat 3, sampleWorkspace, oldBucket,
  buildOriginalDocumentObjectKey sampleTenant sampleWorkspace (.ofNat 3)⟩

def oneDocument : State where
  workspaces := fun w => if w = sampleWorkspace then some sampleTenant else none
  documents := [sampleDocument]
  objects := {sampleDocument.ref}
  outbox := []
  procs := []
  usedIds := [sampleDocument.id]
  removed := []
  rejected := []
  swept := []

theorem oneDocument_initial : Initial oneDocument := by
  have only : ∀ d ∈ oneDocument.documents, d = sampleDocument := fun d hd => List.mem_singleton.mp hd
  refine ⟨rfl, rfl, rfl, rfl, ?_, ?_, ?_, ?_⟩
  · intro d hd
    rw [only d hd]
    exact ⟨sampleTenant, by simp [oneDocument, sampleDocument], rfl⟩
  · intro d hd
    rw [only d hd]
    exact List.mem_singleton.mpr rfl
  · intro d hd d' hd' _
    rw [only d hd, only d' hd']
  · intro o ho t w id hkey
    rw [Finset.mem_singleton.mp ho] at hkey
    have hk : buildOriginalDocumentObjectKey sampleTenant sampleWorkspace (.ofNat 3) =
      buildOriginalDocumentObjectKey t w id := hkey
    exact List.mem_singleton.mpr (objectKey_inj hk).2.2.symm

def drainWorkspace (bucket : List Char) (pages : List Reply) : List Act :=
  [.deleteWorkspace bucket sampleWorkspace, .advance 0 .ok, .work 0, .advance 1 .ok] ++
    pages.map (.advance 1)

/-- The workspace is deleted by a server that is configured with `newBucket`. -/
theorem prefix_event_misses_bucket :
    ∃ t, run step oneDocument (drainWorkspace newBucket [.page [] true, .ok, .ok]) = some t ∧
      Reach Initial step anyStep t ∧ ¬ NothingOutlives t := by
  have hrun : (run step oneDocument (drainWorkspace newBucket [.page [] true, .ok, .ok])).any
      (fun t => t.procs.all (· = .done) && t.outbox.all (·.status = .processed) &&
        sampleDocument ∈ t.removed && sampleDocument.ref ∈ t.objects) = true := by decide +kernel
  obtain ⟨t, ht, h⟩ := (Option.any_eq_true _ _).mp hrun
  simp only [Bool.and_eq_true, List.all_eq_true, decide_eq_true_eq] at h
  obtain ⟨⟨hdrained, hgone⟩, hobj⟩ := h
  exact ⟨t, ht, .of_free_run oneDocument_initial ht, fun hn => hn hdrained _ (.inl hgone) hobj⟩

theorem gone_objects_deleted_sample :
    ∃ t, run step oneDocument (drainWorkspace oldBucket
        [.page [sampleDocument.objectKey] true, .ok, .ok, .ok]) = some t ∧
      Drained t ∧ Gone t sampleDocument ∧ NothingOutlives t := by
  have hrun : (run step oneDocument (drainWorkspace oldBucket
      [.page [sampleDocument.objectKey] true, .ok, .ok, .ok])).any
      (fun t => t.procs.all (· = .done) && t.outbox.all (·.status = .processed) &&
        sampleDocument ∈ t.removed) = true := by decide +kernel
  obtain ⟨t, ht, h⟩ := (Option.any_eq_true _ _).mp hrun
  simp only [Bool.and_eq_true, List.all_eq_true, decide_eq_true_eq] at h
  have hm : Meets step (fun s a => findsEveryObject s a) oneDocument (drainWorkspace oldBucket
      [.page [sampleDocument.objectKey] true, .ok, .ok, .ok]) := by decide +kernel
  exact ⟨t, ht, h.1, .inl h.2, gone_objects_deleted (.of_run (.start oneDocument_initial) hm ht)⟩

end GmragApi.StoredObjects

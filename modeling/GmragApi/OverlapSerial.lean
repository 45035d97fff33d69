import GmragApi.OverlapBatch
import Mathlib.Data.List.Permutation

/-! Overlapping graph transactions against the same transactions one after another. -/

namespace GmragApi.Graph

variable {ν : Type} {rules : TextRules}

namespace Database

/-- An edge of the relationship between the rows of the two keys. -/
def HasEdge (rules : TextRules) (db : Database ν) (workspaceId : Nat)
    (source target relationship : List Char) : Prop :=
  ∃ e ∈ db.edges, e.workspaceId = workspaceId ∧ rules.lower e.relationship = relationship ∧
    db.HasKey rules e.sourceNodeId (workspaceId, source) ∧
    db.HasKey rules e.targetNodeId (workspaceId, target)

/-- The same nodes and edges by their keys, and all the same sources. -/
structure SameGraph (rules : TextRules) (db db' : Database ν) : Prop where
  nodes : (db.nodes.map (GraphNode.key rules)).Perm (db'.nodes.map (GraphNode.key rules))
  edges : ∀ workspaceId source target relationship,
    db.HasEdge rules workspaceId source target relationship ↔
      db'.HasEdge rules workspaceId source target relationship
  nodeSources : ∀ workspaceId documentId, (db.nodeSourcesOf rules workspaceId documentId).Perm
    (db'.nodeSourcesOf rules workspaceId documentId)
  edgeSources : ∀ workspaceId documentId, (db.edgeSourcesOf rules workspaceId documentId).Perm
    (db'.edgeSourcesOf rules workspaceId documentId)

variable {db db' : Database ν} {ledger : Ledger rules ν}

/-- An edge is there when some document relates its ends. -/
theorem Reflects.hasEdge_iff (h : db.Reflects ledger) {w : Nat}
    {source target relationship : List Char} :
    db.HasEdge rules w source target relationship ↔
      ∃ d f, ledger.Relates w d source target relationship f := by
  simp only [← h.relates]
  constructor
  · rintro ⟨e, he, hws, hrel, hsource, htarget⟩
    obtain ⟨s, hs, hid⟩ := h.backed e.label (List.mem_map_of_mem he)
    exact ⟨s.documentId, s.fact, s, hs, rfl,
      ⟨e.label, List.mem_map_of_mem he, hid.symm, hrel, hsource, htarget⟩, rfl⟩
  · rintro ⟨d, f, s, hs, -, ⟨e, he, hid, hrel, hsource, htarget⟩, -⟩
    have hws := h.wellFormed.edge_workspace he hsource
    obtain ⟨row, hrow, rfl⟩ := List.mem_map.mp he
    exact ⟨row, hrow, hws, hrel, hsource, htarget⟩

/-- Tables that stand for one ledger hold the same graph. -/
theorem Reflects.sameGraph (h : db.Reflects ledger) (h' : db'.Reflects ledger) :
    db.SameGraph rules db' where
  nodes := by
    refine (List.perm_ext_iff_of_nodup h.wellFormed.nodeRowKeys h'.wellFormed.nodeRowKeys).mpr ?_
    have hmem : ∀ {db : Database ν}, db.Reflects ledger → ∀ w key,
        (w, key) ∈ db.nodes.map (GraphNode.key rules) ↔
          ∃ name, ledger.spelling w key = some name := by
      intro db hdb w key
      rw [hdb.nodes, List.mem_map]
      constructor
      · rintro ⟨n, hn, hkey⟩
        exact ⟨n.label, List.mem_map_of_mem hn, hkey⟩
      · rintro ⟨l, hl, hkey⟩
        obtain ⟨n, hn, rfl⟩ := List.mem_map.mp hl
        exact ⟨n, hn, hkey⟩
    rintro ⟨w, key⟩
    rw [hmem h, hmem h']
  edges w source target relationship := by rw [h.hasEdge_iff, h'.hasEdge_iff]
  nodeSources w d := by
    refine (List.perm_ext_iff_of_nodup h.wellFormed.nodeSourcesOf_nodup
      h'.wellFormed.nodeSourcesOf_nodup).mpr ?_
    rintro ⟨key, f⟩
    rw [h.wellFormed.mem_nodeSourcesOf, h'.wellFormed.mem_nodeSourcesOf, h.tells, h'.tells]
  edgeSources w d := by
    refine (List.perm_ext_iff_of_nodup h.wellFormed.edgeSourcesOf_nodup
      h'.wellFormed.edgeSourcesOf_nodup).mpr ?_
    rintro ⟨source, target, relationship, f⟩
    rw [h.wellFormed.mem_edgeSourcesOf, h'.wellFormed.mem_edgeSourcesOf, h.relates, h'.relates]

theorem Reflects.next (h : db.Reflects ledger) :
    ({ db with nextId := db.nextId + 1 } : Database ν).Reflects ledger where
  wellFormed :=
    { h.wellFormed with
      nodeBound := fun l hl => Nat.lt_succ_of_lt (h.wellFormed.nodeBound l hl)
      edgeBound := fun e he => Nat.lt_succ_of_lt (h.wellFormed.edgeBound e he) }
  backed := h.backed
  nodes := h.nodes
  tells := h.tells
  relates := h.relates

end Database

/-- In a run over different documents each ingested document keeps its batch. -/
theorem Ledger.extracted_of_mem {ledger : Ledger rules ν} {writes : List (Write rules ν)}
    (hdocuments : (writes.map Write.documentId).Nodup) {w d : Nat}
    {batch : GraphWriteBatch rules ν} (hmem : .ingest w d batch ∈ writes) :
    (writes.foldl Ledger.write ledger).extracted w d = some batch := by
  obtain ⟨front, back, rfl⟩ := List.append_of_mem hmem
  rw [List.map_append, List.map_cons, List.nodup_append] at hdocuments
  have hback : back.filter (fun write => write.documentId = d) = [] := by
    refine List.filter_eq_nil_iff.mpr fun write hwrite heq => ?_
    have hfirst := (List.nodup_cons.mp hdocuments.2.1).1
    exact hfirst (List.mem_map.mpr ⟨write, hwrite, of_decide_eq_true heq⟩)
  rw [List.foldl_append, List.foldl_cons, foldl_extracted_filter back rfl, hback]
  exact if_pos ⟨rfl, rfl⟩

namespace Overlap

open Transition ProcessPool

variable {s s' : State rules ν} {i : Nat} {t t' : Transaction rules ν} {ledger : Ledger rules ν}
  {writes : List (Write rules ν)}

section Done

theorem done_set_perm {α : Type} {p : α → Bool} {rows : List α} {old new : α}
    (h : rows[i]? = some old) (hold : p old = false) (hnew : p new = true) :
    ((rows.set i new).filter p).Perm (new :: rows.filter p) := by
  induction rows generalizing i with
  | nil => cases h
  | cons row rows ih =>
    cases i with
    | zero =>
      cases Option.some.inj h
      rw [List.set_cons_zero, List.filter_cons_of_pos hnew,
        List.filter_cons_of_neg (Bool.not_eq_true _ ▸ hold)]
    | succ i =>
      rw [List.set_cons_succ]
      by_cases hrow : p row = true
      · rw [List.filter_cons_of_pos hrow, List.filter_cons_of_pos hrow]
        exact ((ih h).cons row).trans (List.Perm.swap new row _)
      · rw [List.filter_cons_of_neg hrow, List.filter_cons_of_neg hrow]
        exact ih h

theorem map_filter_set {α β : Type} {p : α → Bool} {f : α → β} {rows : List α} {old new : α}
    (h : rows[i]? = some old) (hp : p new = p old) (hf : f new = f old) :
    ((rows.set i new).filter p).map f = (rows.filter p).map f := by
  induction rows generalizing i with
  | nil => cases h
  | cons row rows ih =>
    cases i with
    | zero =>
      cases Option.some.inj h
      rw [List.set_cons_zero, List.filter_cons, List.filter_cons, hp]
      split
      · rw [List.map_cons, List.map_cons, hf]
      · rfl
    | succ i =>
      rw [List.set_cons_succ, List.filter_cons, List.filter_cons]
      split
      · rw [List.map_cons, List.map_cons, ih h]
      · exact ih h

end Done

/-- What holds in a run of the writes that collects in time: what has committed is what the ledger
has of it in some order. -/
structure Serial (ledger : Ledger rules ν) (writes : List (Write rules ν)) (s : State rules ν) :
    Prop where
  order : ∃ order : List (Write rules ν), order.Perm s.done ∧ (∀ write ∈ order, write.Writable) ∧
    s.db.Reflects (order.foldl Ledger.write ledger)
  sound : ∀ (i : Nat) (t : Transaction rules ν), s.transactions[i]? = some t →
    t.committed = false → t.Sound s.db
  apart : ∀ (i j : Nat) (t u : Transaction rules ν), i ≠ j → s.transactions[i]? = some t →
    s.transactions[j]? = some u → t.committed = false → u.committed = false → t.Apart u
  writes : s.transactions.map Transaction.write = writes

section Serial

theorem serial_start {db : Database ν} (hdb : db.Reflects ledger) (writes : List (Write rules ν)) :
    Serial ledger writes (start db writes) where
  order := by
    refine ⟨[], ?_, fun _ h => absurd h List.not_mem_nil, hdb⟩
    have hnone : (writes.map Transaction.begin).filter (·.committed) = [] := by
      refine List.filter_eq_nil_iff.mpr fun t ht => ?_
      obtain ⟨write, -, rfl⟩ := List.mem_map.mp ht
      exact Bool.false_ne_true
    rw [State.done, start, hnone]
    exact List.Perm.refl _
  sound i t ht _ := by
    obtain ⟨write, -, rfl⟩ := List.mem_map.mp (List.mem_of_getElem? ht)
    exact Transaction.sound_begin write db
  apart i j t u _ ht hu _ _ := by
    obtain ⟨write, -, rfl⟩ := List.mem_map.mp (List.mem_of_getElem? ht)
    exact ⟨fun r hr => absurd hr List.not_mem_nil, fun r hr => absurd hr List.not_mem_nil⟩
  writes := by
    rw [start, List.map_map]
    exact List.map_id writes

theorem Advance.same (h : Advance s i t t') : t'.write = t.write ∧ t'.committed = t.committed := by
  cases h <;> exact ⟨rfl, rfl⟩

theorem Upserts.same (h : Upserts s i t t') : t'.write = t.write ∧ t'.committed = t.committed := by
  cases h <;> exact ⟨rfl, rfl⟩

theorem Serial.document_ne (h : Serial ledger writes s)
    (hdocuments : (writes.map Write.documentId).Nodup) {i j : Nat} {t u : Transaction rules ν}
    (hij : i ≠ j) (ht : s.transactions[i]? = some t) (hu : s.transactions[j]? = some u) :
    t.write.documentId ≠ u.write.documentId := by
  intro heq
  rw [← h.writes, List.map_map] at hdocuments
  have hi : ((s.transactions.map (Write.documentId ∘ Transaction.write))[i]?) =
      some t.write.documentId := by rw [List.getElem?_map, ht]; rfl
  have hj : ((s.transactions.map (Write.documentId ∘ Transaction.write))[j]?) =
      some u.write.documentId := by rw [List.getElem?_map, hu]; rfl
  obtain ⟨hlt, -⟩ := List.getElem?_eq_some_iff.mp hi
  exact hij ((List.getElem?_inj hlt hdocuments).mp (hi.trans (heq ▸ hj.symm)))

theorem Serial.write_mem (h : Serial ledger writes s) (ht : s.transactions[i]? = some t) :
    t.write ∈ writes := h.writes ▸ List.mem_map_of_mem (List.mem_of_getElem? ht)

theorem map_write_set (ht : s.transactions[i]? = some t) (hwrite : t'.write = t.write) :
    (s.transactions.set i t').map Transaction.write = s.transactions.map Transaction.write := by
  obtain ⟨hi, rfl⟩ := List.getElem?_eq_some_iff.mp ht
  rw [List.map_set, hwrite, ← List.getElem_map Transaction.write (h := by rwa [List.length_map]),
    List.set_getElem_self]

/-- A step that is no commit, of a transaction that the others stay apart from. -/
theorem Serial.keep {db : Database ν} (h : Serial ledger writes s)
    (ht : s.transactions[i]? = some t) (hwrite : t'.write = t.write)
    (hcommitted : t'.committed = t.committed)
    (hdb : ∀ {ledger : Ledger rules ν}, s.db.Reflects ledger → db.Reflects ledger)
    (hothers : ∀ u : Transaction rules ν, u.Sound s.db → u.Sound db)
    (hown : t.committed = false → t'.Sound db)
    (hapart : ∀ j u, j ≠ i → s.transactions[j]? = some u → t.committed = false →
      u.committed = false → t'.Apart u ∧ u.Apart t') :
    Serial ledger writes { s.put i t' with db } where
  order := by
    obtain ⟨order, hperm, hwritable, hreflects⟩ := h.order
    refine ⟨order, ?_, hwritable, hdb hreflects⟩
    rw [State.done, State.put, map_filter_set ht hcommitted hwrite]
    exact hperm
  sound := forall_set ht (fun hopen => hown (hcommitted ▸ hopen))
    fun j u _ hu hopen => hothers u (h.sound j u hu hopen)
  apart j k u v hjk hu hv huopen hvopen := by
    rcases (getElem?_set_iff ht).mp hu with ⟨rfl, rfl⟩ | ⟨hj, hu'⟩
    · rcases (getElem?_set_iff ht).mp hv with ⟨hk, -⟩ | ⟨hk, hv'⟩
      · exact absurd hk.symm hjk
      · exact (hapart k v hk hv' (hcommitted ▸ huopen) hvopen).1
    · rcases (getElem?_set_iff ht).mp hv with ⟨rfl, rfl⟩ | ⟨hk, hv'⟩
      · exact (hapart j u hj hu' (hcommitted ▸ hvopen) huopen).2
      · exact h.apart j k u v hjk hu' hv' huopen hvopen
  writes := (map_write_set ht hwrite).trans h.writes

theorem Serial.advance (h : Serial ledger writes s) (ht : s.transactions[i]? = some t)
    (hadvance : Advance s i t t') : Serial ledger writes (s.put i t') := by
  obtain ⟨hwrite, hcommitted⟩ := hadvance.same
  obtain ⟨order, -, -, hreflects⟩ := h.order
  refine h.keep ht hwrite hcommitted id (fun _ hu => hu) (fun hopen => ?_)
    fun j u hj hu htopen huopen => ⟨?_, ?_⟩
  · exact (h.sound i t ht hopen).advance hreflects hadvance
  · have hsound := h.sound j u hu huopen
    exact (h.apart i j t u hj.symm ht hu htopen huopen).advance hj hu huopen hsound.rows hsound.fit
      hadvance
  · exact (h.apart j i u t hj hu ht huopen htopen).advance_right hadvance

theorem Serial.upsert (h : Serial ledger writes s) (ht : s.transactions[i]? = some t)
    (hupsert : Upserts s i t t') :
    Serial ledger writes { s.put i t' with db.nextId := s.db.nextId + 1 } := by
  obtain ⟨hwrite, hcommitted⟩ := hupsert.same
  obtain ⟨order, -, -, hreflects⟩ := h.order
  refine h.keep ht hwrite hcommitted Database.Reflects.next (fun _ hu => hu.next)
    (fun hopen => ?_) fun j u hj hu htopen huopen => ⟨?_, ?_⟩
  · exact (h.sound i t ht hopen).upsert hreflects hupsert
  · exact (h.apart i j t u hj.symm ht hu htopen huopen).upsert hj hu huopen hupsert
  · exact (h.apart j i u t hj hu ht huopen htopen).upsert_right hj hu huopen hupsert

/-- The transaction that commits is the last one of the order. -/
theorem Serial.commit (h : Serial ledger writes s) {w : Nat}
    (hworkspace : ∀ write ∈ writes, write.workspaceId = w)
    (hdocuments : (writes.map Write.documentId).Nodup) (ht : s.transactions[i]? = some t)
    (hcomplete : t.complete = true) (hopen : t.committed = false) (hsweeps : t.Sweeps s.db) :
    Serial ledger writes
      { s.put i { t with committed := true } with db := t.changes.apply s.db } := by
  have hsound := h.sound i t ht hopen
  have hmap : (s.transactions.set i { t with committed := true }).map Transaction.write =
      s.transactions.map Transaction.write := map_write_set ht rfl
  refine
    { order := ?_
      sound := forall_set ht (fun hfalse => nomatch hfalse) fun j u hj hu huopen => ?_
      apart := fun j k u v hjk hu hv huopen hvopen => ?_
      writes := hmap.trans h.writes }
  · obtain ⟨order, hperm, hwritable, hreflects⟩ := h.order
    refine ⟨order ++ [t.write], ?_, fun write hwrite => ?_, ?_⟩
    · have hcommitted : ((s.transactions.set i { t with committed := true }).filter
          (·.committed)).Perm
            ({ t with committed := true } :: s.transactions.filter (·.committed)) :=
        done_set_perm ht hopen rfl
      have hdone := hcommitted.map Transaction.write
      exact ((List.perm_append_singleton t.write order).trans (hperm.cons t.write)).trans hdone.symm
    · rcases List.mem_append.mp hwrite with hwrite | hwrite
      · exact hwritable write hwrite
      · rw [List.mem_singleton.mp hwrite]
        exact hsound.writable hcomplete
    · have hcommits : t.Commits s.db (order.foldl Ledger.write ledger) :=
        ⟨hsound, hreflects, hcomplete, hsweeps⟩
      rw [List.foldl_append]
      exact hcommits.reflects_write
  · refine (h.sound j u hu huopen).other hsound (h.apart j i u t hj hu ht huopen hopen) ?_
      (h.document_ne hdocuments hj.symm ht hu)
    rw [hworkspace _ (h.write_mem ht), hworkspace _ (h.write_mem hu)]
  · rcases (getElem?_set_iff ht).mp hu with ⟨-, rfl⟩ | ⟨hj, hu⟩
    · cases huopen
    · rcases (getElem?_set_iff ht).mp hv with ⟨-, rfl⟩ | ⟨hk, hv⟩
      · cases hvopen
      · exact h.apart j k u v hjk hu hv huopen hvopen

theorem Serial.step (h : Serial ledger writes s) {w : Nat}
    (hworkspace : ∀ write ∈ writes, write.workspaceId = w)
    (hdocuments : (writes.map Write.documentId).Nodup) {m : Move} (hok : CollectsInTime s m)
    (hstep : Overlap.step s m = some s') : Serial ledger writes s' := by
  obtain ⟨i, t, ht, hsteps⟩ := step_cases hok hstep
  cases hsteps with
  | advance hadvance => exact h.advance ht hadvance
  | upsert hupsert => exact h.upsert ht hupsert
  | commit hcomplete hopen hsweeps =>
    exact h.commit hworkspace hdocuments ht hcomplete hopen hsweeps

end Serial

/-- Every transaction has committed. -/
def State.Finished (s : State rules ν) : Prop := ∀ t ∈ s.transactions, t.committed = true

theorem Serial.done_of_finished (h : Serial ledger writes s) (hfinished : s.Finished) :
    s.done = writes := by
  rw [State.done, List.filter_eq_self.mpr hfinished]
  exact h.writes

/-- Transactions that collect unused rows in time leave what they leave one after another, in the
order of their commits. -/
theorem overlapping_serial {before writes : List (Write rules ν)} {db : Database ν} {w : Nat}
    (hbefore : Transition.run Graph.step Database.empty before = some db)
    (hworkspace : ∀ write ∈ writes, write.workspaceId = w)
    (hdocuments : (writes.map Write.documentId).Nodup) {moves : List Move} {s : State rules ν}
    (hrun : Transition.run step (start db writes) moves = some s)
    (hmeets : Meets step CollectsInTime (start db writes) moves) :
    ∃ order : List (Write rules ν), order.Perm s.done ∧ (s.Finished → order.Perm writes) ∧
      (∃ db', Transition.run Graph.step db order = some db' ∧ s.db.SameGraph rules db') ∧
      ∀ w d batch, .ingest w d batch ∈ order →
        (∀ key f, batch.Tells key f → s.db.Tells rules w d key f) ∧
          ∀ source target relationship f, batch.Relates source target relationship f →
            s.db.Relates rules w d source target relationship f := by
  have hr : db.Refines (Ledger.ofWrites before) := Database.refines_ofWrites hbefore
  have hbacked : db.EdgesBacked := Database.EdgesBacked.run
    (fun _ he => absurd he List.not_mem_nil) Database.refines_empty hbefore
  have hreach : Reach (· = start db writes) step CollectsInTime s :=
    Reach.of_run (.start rfl) hmeets hrun
  have hserial : Serial (Ledger.ofWrites before) writes s :=
    hreach.invariant (fun _ hs => hs ▸ serial_start (hr.reflects hbacked) writes)
      fun _ _ _ hs hok hstep => hs.step hworkspace hdocuments hok hstep
  obtain ⟨order, hperm, hwritable, hreflects⟩ := hserial.order
  obtain ⟨db', hdb'⟩ := hr.run_isSome hwritable
  have hreflects' := (hr.run hdb').reflects (hbacked.run hr hdb')
  refine ⟨order, hperm, fun hfinished => hserial.done_of_finished hfinished ▸ hperm,
    ⟨db', hdb', hreflects.sameGraph hreflects'⟩, fun w d batch hmem => ?_⟩
  have hsub : (s.done.map Write.documentId).Sublist (writes.map Write.documentId) := by
    rw [← hserial.writes]
    exact (List.filter_sublist.map _).map _
  have hnodup := (hperm.map Write.documentId).nodup_iff.mpr (hdocuments.sublist hsub)
  have hextracted :
      (order.foldl Ledger.write (Ledger.ofWrites before)).extracted w d = some batch :=
    Ledger.extracted_of_mem hnodup hmem
  exact ⟨fun key f hf => (hreflects.tells _ _ _ _).mpr ⟨batch, hextracted, hf⟩,
    fun source target relationship f hf =>
      (hreflects.relates _ _ _ _ _ _).mpr ⟨batch, hextracted, hf⟩⟩

section Company

/-- The first document is deleted while the second is saved: its sources go before the batch is
written, and the unused rows after it is committed. -/
def deleteAndSave : List (Write asciiRules Nat) := [.delete 0 1, .ingest 0 2 ownedCompany]

def savedBetween : List Move :=
  List.replicate 7 (.execute 1) ++ List.replicate 2 (.execute 0) ++
    [.upsertRow 1, .upsertRow 1, .execute 1, .execute 1, .upsertRow 1, .execute 1, .commit 1] ++
    [.execute 0, .execute 0, .commit 0]

theorem overlapping_serial_deleteAndSave :
    ∃ db s, Transition.run Graph.step Database.empty [.ingest 0 1 ownedCompany] = some db ∧
      Transition.run step (start db deleteAndSave) savedBetween = some s ∧ s.Finished ∧
      ∃ order : List (Write asciiRules Nat), order.Perm deleteAndSave ∧
        ∃ db', Transition.run Graph.step db order = some db' ∧ s.db.SameGraph asciiRules db' := by
  have hruns : (Transition.run Graph.step Database.empty
      [Write.ingest 0 1 ownedCompany]).any (fun db =>
        decide (Meets step CollectsInTime (start db deleteAndSave) savedBetween) &&
          (Transition.run step (start db deleteAndSave) savedBetween).any
            fun s => s.transactions.all (·.committed)) = true := by decide +kernel
  obtain ⟨db, hdb, hruns⟩ := (Option.any_eq_true _ _).mp hruns
  obtain ⟨hmeets, hruns⟩ := Bool.and_eq_true_iff.mp hruns
  obtain ⟨s, hs, hfinished⟩ := (Option.any_eq_true _ _).mp hruns
  have hfinished : s.Finished := List.all_eq_true.mp hfinished
  obtain ⟨order, -, hperm, hserial, -⟩ := overlapping_serial hdb (w := 0)
    (by simp [deleteAndSave, Write.workspaceId]) (by decide) hs (of_decide_eq_true hmeets)
  exact ⟨db, s, hdb, hs, hfinished, order, hperm hfinished, hserial⟩

end Company

section Late

/-- A batch of one entity. -/
def namedOnce : GraphWriteBatch asciiRules Nat :=
  fromExtractions asciiRules Nat [(0, [.node ['A'] none none])]

def deleteAndName : List (Write asciiRules Nat) := [.delete 0 1, .ingest 0 2 namedOnce]

/-- The deletion looks for unused nodes while the other transaction holds the node, and comes to it
when that one has committed. -/
def lateSweep : List Move :=
  List.replicate 7 (.execute 1) ++ [.upsertRow 1] ++ List.replicate 4 (.execute 0) ++
    List.replicate 3 (.execute 1) ++ [.commit 1, .deleteRow 0 0, .commit 0]

/-- The node goes with the source of the document that was saved; in either order it stays. -/
theorem source_lost_to_late_sweep :
    ∃ db s, Transition.run Graph.step Database.empty [.ingest 0 1 namedOnce] = some db ∧
      Transition.run step (start db deleteAndName) lateSweep = some s ∧ s.Finished ∧
      ∀ order : List (Write asciiRules Nat), order.Perm deleteAndName →
        ∀ db', Transition.run Graph.step db order = some db' → ¬ s.db.SameGraph asciiRules db' := by
  have hruns : (Transition.run Graph.step Database.empty [Write.ingest 0 1 namedOnce]).any
      (fun db =>
        (Transition.run step (start db deleteAndName) lateSweep).any
          (fun s => s.transactions.all (·.committed) && s.db.nodes.isEmpty) &&
        ((Transition.run Graph.step db deleteAndName).all fun db' => !db'.nodes.isEmpty) &&
        (Transition.run Graph.step db [.ingest 0 2 namedOnce, .delete 0 1]).all
          fun db' => !db'.nodes.isEmpty) = true := by decide +kernel
  obtain ⟨db, hdb, hruns⟩ := (Option.any_eq_true _ _).mp hruns
  simp only [Bool.and_eq_true, Option.any_eq_true, Option.all_eq_true, List.isEmpty_iff,
    Bool.not_eq_true', List.isEmpty_eq_false_iff] at hruns
  obtain ⟨⟨⟨s, hs, hfinished, hnone⟩, hfirst⟩, hsecond⟩ := hruns
  refine ⟨db, s, hdb, hs, List.all_eq_true.mp hfinished, fun order horder db' hdb' hsame => ?_⟩
  have hempty : db'.nodes = [] := by
    have hnodes := hsame.nodes
    rw [hnone, List.map_nil] at hnodes
    exact List.map_eq_nil_iff.mp hnodes.nil_eq.symm
  rcases List.perm_pair.mp horder with rfl | rfl
  · exact hfirst db' hdb' hempty
  · exact hsecond db' hdb' hempty

/-- Two deletions each leave the node to the other's source. -/
example :
    ((Transition.run Graph.step Database.empty
      [Write.ingest 0 1 namedOnce, .ingest 0 2 namedOnce]).bind fun db =>
        (Transition.run step (start db [(.delete 0 1 : Write asciiRules Nat), .delete 0 2])
          (List.replicate 4 (.execute 0) ++ List.replicate 4 (.execute 1) ++
            [.commit 0, .commit 1])).map fun s =>
              (s.db.nodes.length, s.db.nodeSources.length)) = some (1, 0) := by
  decide +kernel

end Late

end Overlap

end GmragApi.Graph

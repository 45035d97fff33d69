import GmragApi.DeleteOutbox
import Mathlib.Data.List.Nodup
import Mathlib.Data.List.Perm.Subperm

/-! One run of the qdrant or the storage outbox that works alone: it claims full batches until
none is left and reports what became of the rows. -/

namespace GmragApi.OutboxRun

open DeleteOutbox

structure RunResult where
  batches : Nat
  fetchedRows : Nat
  processedRows : Nat
  failedRows : Nat
  deadRows : Nat
  skippedMaxRetryRows : Nat
  deriving DecidableEq

def RunResult.zero : RunResult := ⟨0, 0, 0, 0, 0, 0⟩

def RunResult.fetched (r : RunResult) (n : Nat) : RunResult :=
  { r with batches := r.batches + 1, fetchedRows := r.fetchedRows + n }

def RunResult.record (r : RunResult) : RowOutcome → RunResult
  | .processed => { r with processedRows := r.processedRows + 1 }
  | .failed => { r with failedRows := r.failedRows + 1 }
  | .dead => { r with deadRows := r.deadRows + 1 }

/-- A row enters `seenIds` right before its attempt. -/
structure RunState where
  rows : List Row
  seenIds : List Nat
  result : RunResult

/-- What the run meets: the clock of the database, which rows a page takes when more of them are
claimable, and the replies of the called service, by batch and by row. -/
structure Surroundings (E : Type) (batchSize : Int) where
  claimStamp : Nat → Int
  page : Nat → List Nat → List Nat
  reply : Nat → Nat → Except E Unit
  markStamp : Nat → Nat → Int
  page_nodup : ∀ k ids, ids.Nodup → (page k ids).Nodup
  page_subset : ∀ k ids, page k ids ⊆ ids
  page_length : ∀ k ids, ((page k ids).length : Int) = min (max batchSize 0) ids.length

def claimableIds (config : ProcessorConfig) (exclude : List Nat) (stamp : Int) (rows : List Row) :
    List Nat :=
  (List.range rows.length).filter fun id => (rows[id]?).any (claimable config exclude stamp id)

section Loop

variable {E : Type} (attempt : List Char → Json → Except E Unit → AttemptResult)
  (config : ProcessorConfig) (env : Surroundings E config.batchSize)

def processRow (batch : Nat) (s : RunState) (row : ClaimedRow) : RunState :=
  let (update, outcome) := processSingleRow config (env.markStamp batch row.id) row
    (attempt row.eventType row.payload (env.reply batch row.id))
  ⟨s.rows.modify row.id update, row.id :: s.seenIds, s.result.record outcome⟩

/-- The loop of the processor; `none` when the fuel is used up. -/
def processBatches : Nat → RunState → Option RunState
  | 0, _ => none
  | fuel + 1, s =>
    let k := s.result.batches
    let stamp := env.claimStamp k
    let ids := env.page k (claimableIds config s.seenIds stamp s.rows)
    (claimBatch config s.seenIds stamp s.rows ids).bind fun (rows, batch) =>
      if batch.isEmpty then some s
      else processBatches fuel (batch.foldl (processRow attempt config env k)
        ⟨rows, s.seenIds, s.result.fetched batch.length⟩)

def countDeadRows (rows : List Row) : Nat := rows.countP (·.status = .dead)

def processOutbox (fuel : Nat) (rows : List Row) : Option RunState :=
  (processBatches attempt config env fuel ⟨rows, [], .zero⟩).map fun s =>
    { s with result := { s.result with skippedMaxRetryRows := countDeadRows s.rows } }

end Loop

/-- Between two rows of a batch, `rest` being what is left of it: each row is attempted once, the
others are as they were, and the counters add up. -/
structure Working (rows : List Row) (s : RunState) (rest : List ClaimedRow) : Prop where
  nodup : (rest.map ClaimedRow.id ++ s.seenIds).Nodup
  known : ∀ id ∈ rest.map ClaimedRow.id ++ s.seenIds, id < rows.length
  length : s.rows.length = rows.length
  untouched : ∀ id, id ∉ rest.map ClaimedRow.id ++ s.seenIds → s.rows[id]? = rows[id]?
  counted : s.result.fetchedRows =
    s.result.processedRows + s.result.failedRows + s.result.deadRows + rest.length

section Steps

variable {E : Type} {attempt : List Char → Json → Except E Unit → AttemptResult}
  {config : ProcessorConfig} {env : Surroundings E config.batchSize} {rows : List Row}
  {s : RunState} {row : ClaimedRow} {rest : List ClaimedRow}

theorem record_fetchedRows (r : RunResult) (outcome : RowOutcome) :
    (r.record outcome).fetchedRows = r.fetchedRows ∧
      (r.record outcome).processedRows + (r.record outcome).failedRows +
        (r.record outcome).deadRows = r.processedRows + r.failedRows + r.deadRows + 1 := by
  cases outcome <;> simp only [RunResult.record, true_and] <;> omega

theorem Working.processRow (k : Nat) (h : Working rows s (row :: rest)) :
    Working rows (processRow attempt config env k s row) rest := by
  have hrecord := record_fetchedRows s.result (processSingleRow config (env.markStamp k row.id) row
    (attempt row.eventType row.payload (env.reply k row.id))).2
  have hperm : (rest.map ClaimedRow.id ++ row.id :: s.seenIds).Perm
      ((row :: rest).map ClaimedRow.id ++ s.seenIds) := List.perm_middle
  refine ⟨hperm.nodup_iff.mpr h.nodup, fun id hid => h.known id (hperm.mem_iff.mp hid), ?_, ?_, ?_⟩
  · exact (List.length_modify ..).trans h.length
  · intro id hid
    have hne : row.id ≠ id := by
      rintro rfl
      simp [OutboxRun.processRow] at hid
    have hold : id ∉ (row :: rest).map ClaimedRow.id ++ s.seenIds := fun hin =>
      hid (hperm.mem_iff.mpr hin)
    have hmodify : (OutboxRun.processRow attempt config env k s row).rows[id]? = s.rows[id]? := by
      simp [OutboxRun.processRow, hne]
    exact hmodify.trans (h.untouched id hold)
  · have hcounted := h.counted
    simp only [OutboxRun.processRow, List.length_cons] at hcounted hrecord ⊢
    omega

theorem Working.processBatch (k : Nat) (h : Working rows s rest) :
    Working rows (rest.foldl (OutboxRun.processRow attempt config env k) s) [] := by
  induction rest generalizing s with
  | nil => exact h
  | cons row rest ih => exact ih (h.processRow k)

theorem processBatch_seenIds (k : Nat) (batch : List ClaimedRow) :
    (batch.foldl (OutboxRun.processRow attempt config env k) s).seenIds =
      (batch.map ClaimedRow.id).reverse ++ s.seenIds := by
  induction batch generalizing s with
  | nil => rfl
  | cons row batch ih =>
    rw [List.foldl_cons, ih]
    simp [OutboxRun.processRow]

theorem mem_claimableIds {exclude : List Nat} {stamp : Int} {id : Nat} :
    id ∈ claimableIds config exclude stamp rows ↔
      ∃ r, rows[id]? = some r ∧ claimable config exclude stamp id r = true := by
  simp only [claimableIds, List.mem_filter, List.mem_range, Option.any_eq_true]
  constructor
  · rintro ⟨-, r, hr, hc⟩
    exact ⟨r, hr, hc⟩
  · rintro ⟨r, hr, hc⟩
    exact ⟨(List.getElem?_eq_some_iff.mp hr).1, r, hr, hc⟩

theorem claimableIds_nodup {exclude : List Nat} {stamp : Int} :
    (claimableIds config exclude stamp rows).Nodup :=
  List.Nodup.filter _ List.nodup_range

/-- The claim of a full page succeeds, and returns its rows. -/
theorem claimBatch_page (env : Surroundings E config.batchSize) (rows : List Row)
    (hbatch : 1 ≤ config.batchSize) (k : Nat) (exclude : List Nat) (stamp : Int) :
    ∃ rows' batch, claimBatch config exclude stamp rows
        (env.page k (claimableIds config exclude stamp rows)) = some (rows', batch) ∧
      batch.map ClaimedRow.id = env.page k (claimableIds config exclude stamp rows) ∧
      rows'.length = rows.length ∧
      ∀ id, id ∉ batch.map ClaimedRow.id → rows'[id]? = rows[id]? := by
  have hlength := env.page_length k (claimableIds config exclude stamp rows)
  have hclaimable : ∀ id ∈ env.page k (claimableIds config exclude stamp rows),
      (rows[id]?).any (claimable config exclude stamp id) = true := by
    intro id hid
    exact (Option.any_eq_true _ _).mpr (mem_claimableIds.mp (env.page_subset k _ hid))
  have hsome : ∀ id ∈ env.page k (claimableIds config exclude stamp rows), (rows[id]?).isSome := by
    intro id hid
    obtain ⟨r, hr, -⟩ := mem_claimableIds.mp (env.page_subset k _ hid)
    exact Option.isSome_of_eq_some hr
  have hids := claimed_ids hsome
  refine ⟨_, _, if_pos ⟨env.page_nodup k _ claimableIds_nodup, by omega, hclaimable⟩, hids,
    by simp, ?_⟩
  intro id hid
  rw [hids] at hid
  simp [hid]

/-- A claim takes rows that have had no attempt. -/
theorem Working.claim (env : Surroundings E config.batchSize) (hbatch : 1 ≤ config.batchSize)
    (k : Nat) (stamp : Int) (h : Working rows s []) :
    ∃ rows' batch, claimBatch config s.seenIds stamp s.rows
        (env.page k (claimableIds config s.seenIds stamp s.rows)) = some (rows', batch) ∧
      batch.map ClaimedRow.id = env.page k (claimableIds config s.seenIds stamp s.rows) ∧
      Working rows ⟨rows', s.seenIds, s.result.fetched batch.length⟩ batch := by
  obtain ⟨rows', batch, hclaim, hids, hlength, hother⟩ :=
    claimBatch_page env s.rows hbatch k s.seenIds stamp
  have hfound : ∀ id ∈ batch.map ClaimedRow.id, id < rows.length ∧ id ∉ s.seenIds := by
    intro id hid
    rw [hids] at hid
    obtain ⟨r, hr, hc⟩ := mem_claimableIds.mp (env.page_subset k _ hid)
    have hlt := (List.getElem?_eq_some_iff.mp hr).1
    simp only [claimable, decide_eq_true_eq] at hc
    exact ⟨h.length ▸ hlt, hc.2.2.2⟩
  refine ⟨rows', batch, hclaim, hids, ?_, ?_, hlength.trans h.length, ?_, ?_⟩
  · refine List.Nodup.append (hids ▸ env.page_nodup k _ claimableIds_nodup) h.nodup ?_
    exact fun id hid hseen => (hfound id hid).2 hseen
  · intro id hid
    rcases List.mem_append.mp hid with hid | hid
    · exact (hfound id hid).1
    · exact h.known id hid
  · intro id hid
    rw [List.mem_append, not_or] at hid
    exact (hother id hid.1).trans (h.untouched id hid.2)
  · have hcounted := h.counted
    simp only [RunResult.fetched, List.length_nil] at hcounted ⊢
    omega

/-- Every batch adds rows to `seenIds`, which holds no more rows than there are. -/
theorem Working.finishes (attempt : List Char → Json → Except E Unit → AttemptResult)
    (env : Surroundings E config.batchSize) (hbatch : 1 ≤ config.batchSize) (fuel : Nat)
    (h : Working rows s []) (hfuel : rows.length < fuel + s.seenIds.length) :
    ∃ t k, processBatches attempt config env fuel s = some t ∧ Working rows t [] ∧
      claimableIds config t.seenIds (env.claimStamp k) t.rows = [] := by
  induction fuel generalizing s with
  | zero =>
    have hroom : s.seenIds.length ≤ (List.range rows.length).length := by
      refine List.Subperm.length_le (List.subperm_of_subset h.nodup fun id hid => ?_)
      exact List.mem_range.mpr (h.known id hid)
    rw [List.length_range] at hroom
    omega
  | succ fuel ih =>
    obtain ⟨rows', batch, hclaim, hids, hwork⟩ :=
      h.claim env hbatch s.result.batches (env.claimStamp s.result.batches)
    have hstep : processBatches attempt config env (fuel + 1) s =
        if batch.isEmpty then some s
        else processBatches attempt config env fuel
          (batch.foldl (OutboxRun.processRow attempt config env s.result.batches)
            ⟨rows', s.seenIds, s.result.fetched batch.length⟩) := by
      rw [processBatches, hclaim]
      rfl
    rw [hstep]
    by_cases hempty : batch = []
    · subst hempty
      refine ⟨s, s.result.batches, rfl, h, ?_⟩
      have hlength := env.page_length s.result.batches
        (claimableIds config s.seenIds (env.claimStamp s.result.batches) s.rows)
      rw [← hids] at hlength
      rw [← List.length_eq_zero_iff]
      simp only [List.map_nil, List.length_nil] at hlength
      omega
    · have hpos := List.length_pos_iff.mpr hempty
      rw [if_neg (by simpa using hempty)]
      refine ih (hwork.processBatch _) ?_
      rw [processBatch_seenIds]
      simp only [List.length_append, List.length_reverse, List.length_map]
      omega

/-- More fuel changes nothing once the run has ended. -/
theorem processBatches_succ (fuel : Nat) {t : RunState}
    (h : processBatches attempt config env fuel s = some t) :
    processBatches attempt config env (fuel + 1) s = some t := by
  induction fuel generalizing s with
  | zero => cases h
  | succ fuel ih =>
    rw [processBatches] at h ⊢
    obtain ⟨⟨rows', batch⟩, hclaim, h⟩ := Option.bind_eq_some_iff.mp h
    rw [hclaim, Option.bind_some]
    dsimp only at h ⊢
    split at h
    next hempty => rwa [if_pos hempty]
    next hempty =>
      rw [if_neg hempty]
      exact ih h

theorem processBatches_of_le {fuel fuel' : Nat} {t : RunState} (hle : fuel ≤ fuel')
    (h : processBatches attempt config env fuel s = some t) :
    processBatches attempt config env fuel' s = some t := by
  induction hle with
  | refl => exact h
  | step _ ih => exact processBatches_succ _ ih

/-- A row that was claimable when the run began has been attempted when nothing is claimable. -/
theorem Working.attempted {start stamp : Int} {id : Nat} {r : Row} (h : Working rows s [])
    (hend : claimableIds config s.seenIds stamp s.rows = []) (hstart : start ≤ stamp)
    (hr : rows[id]? = some r) (hc : claimable config [] start id r = true) : id ∈ s.seenIds := by
  by_contra hunseen
  have hrow : s.rows[id]? = some r := (h.untouched id hunseen).trans hr
  simp only [claimable, decide_eq_true_eq] at hc
  have hstill : claimable config s.seenIds stamp id r = true := by
    simp only [claimable, decide_eq_true_eq]
    exact ⟨hc.1, hc.2.1, by omega, hunseen⟩
  have hin := mem_claimableIds.mpr ⟨r, hrow, hstill⟩
  rw [hend] at hin
  cases hin

end Steps

section Concurrent

open Transition

variable {E : Type} {attempt : List Char → Json → Except E Unit → AttemptResult}
  {config : ProcessorConfig} {env : Surroundings E config.batchSize} {S : State} {w : Nat}
  {s : RunState} {row : ClaimedRow} {rest : List ClaimedRow}

/-- Run `w` of the concurrent model is where the loop is. -/
def At (S : State) (w : Nat) (s : RunState) (rest : List ClaimedRow) : Prop :=
  S.rows = s.rows ∧ S.runs[w]? = some (some ⟨s.seenIds, rest⟩)

/-- Time passes until the stamp of the next statement. -/
theorem tick_reaches (attempt : List Char → Json → Except E Unit → AttemptResult)
    (config : ProcessorConfig) (h : At S w s rest) (stamp : Int) :
    ∃ T, step attempt config S (.tick (stamp - S.now).toNat) = some T ∧ stamp ≤ T.now ∧
      At T w s rest := by
  refine ⟨_, rfl, ?_, h⟩
  have hself := Int.self_le_toNat (stamp - S.now)
  dsimp only
  omega

theorem At.processRow (attempt : List Char → Json → Except E Unit → AttemptResult)
    (env : Surroundings E config.batchSize) (k : Nat) (h : At S w s (row :: rest)) :
    ∃ as T, run (step attempt config) S as = some T ∧
      At T w (OutboxRun.processRow attempt config env k s row) rest := by
  obtain ⟨T, htick, hstamp, hrows, hrun⟩ :=
    tick_reaches attempt config h (env.markStamp k row.id)
  have hlt := (List.getElem?_eq_some_iff.mp hrun).1
  have hprocess : ∃ U, step attempt config T
      (.process w (env.reply k row.id) (env.markStamp k row.id)) = some U ∧
      At U w (OutboxRun.processRow attempt config env k s row) rest := by
    simp only [step, hrun, if_pos hstamp, hrows]
    exact ⟨_, rfl, rfl, List.getElem?_set_self hlt⟩
  obtain ⟨U, hU, hat⟩ := hprocess
  exact ⟨_, U, run_pair htick hU, hat⟩

theorem At.processBatch (attempt : List Char → Json → Except E Unit → AttemptResult)
    (env : Surroundings E config.batchSize) (k : Nat) (h : At S w s rest) :
    ∃ as T, run (step attempt config) S as = some T ∧
      At T w (rest.foldl (OutboxRun.processRow attempt config env k) s) [] := by
  induction rest generalizing S s with
  | nil => exact ⟨[], S, rfl, h⟩
  | cons row rest ih =>
    obtain ⟨as, T, hT, hat⟩ := h.processRow attempt env k
    obtain ⟨bs, U, hU, hat'⟩ := ih hat
    exact ⟨as ++ bs, U, (run_append hT).trans hU, hat'⟩

/-- A claim that finds nothing leaves the rows alone. -/
theorem claimBatch_empty {exclude ids : List Nat} {stamp : Int} {rows rows' : List Row}
    {batch : List ClaimedRow} (h : claimBatch config exclude stamp rows ids = some (rows', batch))
    (hempty : batch = []) : rows' = rows := by
  obtain ⟨hids, h⟩ := Option.ite_none_right_eq_some.mp h
  obtain ⟨rfl, rfl⟩ := Prod.mk.inj (Option.some.inj h)
  have hsome : ∀ id ∈ ids, (rows[id]?).isSome := by
    intro id hid
    obtain ⟨r, hr, -⟩ := (Option.any_eq_true _ _).mp (hids.2.2 id hid)
    exact Option.isSome_of_eq_some hr
  have hclaimed := claimed_ids hsome
  rw [hempty] at hclaimed
  obtain rfl : [] = ids := hclaimed
  apply List.ext_getElem?
  simp

/-- What the loop does, run `w` of the concurrent model can do when no other one moves: it ends
with the rows that the loop leaves. -/
theorem At.processBatches {fuel : Nat} {t : RunState} (h : At S w s [])
    (hrun : processBatches attempt config env fuel s = some t) :
    ∃ as T, run (step attempt config) S as = some T ∧ T.rows = t.rows ∧ T.runs[w]? = some none := by
  induction fuel generalizing S s with
  | zero => cases hrun
  | succ fuel ih =>
    obtain ⟨⟨rows', batch⟩, hclaim, hrun⟩ := Option.bind_eq_some_iff.mp hrun
    obtain ⟨T, htick, hstamp, hat⟩ :=
      tick_reaches attempt config h (env.claimStamp s.result.batches)
    have hlt := (List.getElem?_eq_some_iff.mp hat.2).1
    let U : State := { T with
      rows := rows'
      runs := T.runs.set w (if batch.isEmpty then none else some ⟨s.seenIds, batch⟩) }
    have hstep : step attempt config T (.claim w (env.page s.result.batches
        (claimableIds config s.seenIds (env.claimStamp s.result.batches) s.rows))
        (env.claimStamp s.result.batches)) = some U := by
      simp only [step, hat.2, if_pos hstamp, hat.1, hclaim, Option.map_some]
      rfl
    have hself : U.runs[w]? = some (if batch.isEmpty then none else some ⟨s.seenIds, batch⟩) :=
      List.getElem?_set_self hlt
    have hpair := run_pair htick hstep
    dsimp only at hrun
    split at hrun
    next hempty =>
      obtain rfl := Option.some.inj hrun
      rw [if_pos hempty] at hself
      exact ⟨_, U, hpair, claimBatch_empty hclaim (List.isEmpty_iff.mp hempty), hself⟩
    next hempty =>
      rw [if_neg hempty] at hself
      have hat' : At U w ⟨rows', s.seenIds, s.result.fetched batch.length⟩ batch := ⟨rfl, hself⟩
      obtain ⟨as, V, hV, hatV⟩ := hat'.processBatch attempt env s.result.batches
      obtain ⟨bs, W, hW, hend⟩ := ih hatV hrun
      exact ⟨_, W, (run_append hpair).trans ((run_append hV).trans hW), hend⟩

end Concurrent

/-- The run ends, attempts no row twice and each one that was claimable at `start`, and accounts for
every row that it fetched. -/
def Complete {E : Type} (attempt : List Char → Json → Except E Unit → AttemptResult)
    (config : ProcessorConfig) (env : Surroundings E config.batchSize) (start : Int)
    (rows : List Row) : Prop :=
  ∃ t, (∀ fuel, rows.length < fuel → processOutbox attempt config env fuel rows = some t) ∧
    t.seenIds.Nodup ∧
    (∀ (id : Nat) (r : Row), rows[id]? = some r → claimable config [] start id r = true →
      id ∈ t.seenIds) ∧
    t.result.fetchedRows = t.result.processedRows + t.result.failedRows + t.result.deadRows

theorem complete_of_clock {E : Type} (attempt : List Char → Json → Except E Unit → AttemptResult)
    {config : ProcessorConfig} (env : Surroundings E config.batchSize) {start : Int}
    (rows : List Row) (hbatch : 1 ≤ config.batchSize) (hclock : ∀ k, start ≤ env.claimStamp k) :
    Complete attempt config env start rows := by
  have hwork : Working rows ⟨rows, [], .zero⟩ [] := by
    constructor <;> simp [RunResult.zero]
  obtain ⟨t, k, hrun, ht, hend⟩ := hwork.finishes attempt env hbatch (rows.length + 1) (by simp)
  refine ⟨{ t with result := { t.result with skippedMaxRetryRows := countDeadRows t.rows } }, ?_, ?_,
    ?_, ?_⟩
  · intro fuel hfuel
    rw [processOutbox, processBatches_of_le hfuel hrun]
    rfl
  · simpa using ht.nodup
  · intro id r hr hc
    exact ht.attempted hend (hclock k) hr hc
  · exact ht.counted

/-- One run of either outbox is complete, whatever its pages hold and its deletes come back with. -/
theorem outbox_run_complete (text : UuidText) (config : ProcessorConfig) (start : Int)
    (rows : List Row) (hbatch : 1 ≤ config.batchSize) :
    (∀ env : Surroundings RetrievalError config.batchSize, (∀ k, start ≤ env.claimStamp k) →
      Complete (qdrantAttempt text) config env start rows) ∧
    ∀ env : Surroundings StorageError config.batchSize, (∀ k, start ≤ env.claimStamp k) →
      Complete (storageAttempt text) config env start rows :=
  ⟨fun env => complete_of_clock _ env rows hbatch, fun env => complete_of_clock _ env rows hbatch⟩

/-- Pages in the order of the table, a clock that moves and a service that never replies. -/
def timeouts (batchSize : Int) : Surroundings RetrievalError batchSize where
  claimStamp := fun k => k
  page := fun _ ids => ids.take batchSize.toNat
  reply := fun _ _ => .error (.timeout 10)
  markStamp := fun k _ => k
  page_nodup := fun _ _ h => h.sublist (List.take_sublist ..)
  page_subset := fun _ _ => List.take_subset ..
  page_length := fun _ ids => by simp [List.length_take]

def storageTimeouts (batchSize : Int) : Surroundings StorageError batchSize :=
  { timeouts batchSize with reply := fun _ _ => .error (.operationFailed "timeout".toList) }

theorem outbox_run_complete_timeouts :
    Complete (qdrantAttempt uuidText) defaultConfig (timeouts 50) 0
        [enqueueEvent QdrantOutboxEventType.deleteByWorkspace.asStr oneWorkspace 0] ∧
      Complete (storageAttempt uuidText) defaultConfig (storageTimeouts 50) 0
        [enqueueEvent QdrantOutboxEventType.deleteByWorkspace.asStr oneWorkspace 0] := by
  have h := outbox_run_complete uuidText defaultConfig 0
    [enqueueEvent QdrantOutboxEventType.deleteByWorkspace.asStr oneWorkspace 0] (by decide)
  exact ⟨h.1 (timeouts 50) fun k => Int.natCast_nonneg k,
    h.2 (storageTimeouts 50) fun k => Int.natCast_nonneg k⟩

end GmragApi.OutboxRun

import GmragApi.Members
import GmragApi.OutboxLeases
import GmragApi.Ranking
import Mathlib.Data.List.Perm.Subperm
import Mathlib.Data.Prod.Lex
import Mathlib.Order.WithBot

/-! One run of the authz outbox that works alone: it reads the oldest eligible rows again and again
and leaves out those that it has attempted. -/

namespace GmragApi.AuthzRun

open Members

structure AuthzOutboxProcessorConfig where
  batchSize : Int
  maxRetries : Int
  batchSize_pos : 1 ≤ batchSize
  maxRetries_pos : 1 ≤ maxRetries

def AuthzOutboxProcessorConfig.fromEnv (batchSize maxRetries : Option Int) :
    AuthzOutboxProcessorConfig where
  batchSize := DeleteOutbox.parseEnv batchSize 50 1 500
  maxRetries := DeleteOutbox.parseEnv maxRetries 5 1 100
  batchSize_pos := le_max_left ..
  maxRetries_pos := le_max_left ..

structure AuthzOutboxRunResult where
  batches : Nat
  fetchedRows : Nat
  processedRows : Nat
  failedRows : Nat
  skippedMaxRetryRows : Nat

def AuthzOutboxRunResult.zero : AuthzOutboxRunResult := ⟨0, 0, 0, 0, 0⟩

def AuthzOutboxRunResult.fetched (r : AuthzOutboxRunResult) (n : Nat) : AuthzOutboxRunResult :=
  { r with batches := r.batches + 1, fetchedRows := r.fetchedRows + n }

def AuthzOutboxRunResult.record (r : AuthzOutboxRunResult) (processed : Bool) :
    AuthzOutboxRunResult :=
  if processed then { r with processedRows := r.processedRows + 1 }
  else { r with failedRows := r.failedRows + 1 }

/-- A call of `write_tuples` with one tuple. -/
inductive TupleCall
  | write (t : TupleKey)
  | delete (t : TupleKey)

/-- What the attempt of a row meets, by the row: the role in `workspace_members` of the user it is
about, and the replies of OpenFGA. -/
structure Surroundings where
  currentRole : Nat → Option (List Char)
  reply : Nat → TupleCall → Except AuthzError Unit

def fromSql (role : List Char) : Option Role :=
  let name := (trim role).map Char.toUpper
  if name = "MEMBER".toList then some .member
  else if name = "ADMIN".toList then some .admin
  else none

def idempotently (e : AuthzOutboxEventType) : Except AuthzError Unit → Except AuthzError Unit
  | .ok () => .ok ()
  | .error err => if isIdempotentOutcome e err then .ok () else .error err

def writeTupleIdempotently (reply : TupleCall → Except AuthzError Unit) (t : TupleKey) :
    Except AuthzError Unit :=
  idempotently .tupleWrite (reply (.write t))

def deleteTupleIdempotently (reply : TupleCall → Except AuthzError Unit) (t : TupleKey) :
    Except AuthzError Unit :=
  idempotently .tupleDelete (reply (.delete t))

def syncExistingWorkspaceRole (reply : TupleCall → Except AuthzError Unit) (workspace user : Nat)
    (currentRole : Role) : Except AuthzError Unit := do
  deleteTupleIdempotently reply (memberTuple workspace user currentRole.opposite)
  writeTupleIdempotently reply (memberTuple workspace user currentRole)

def deleteWorkspaceRoleTuples (reply : TupleCall → Except AuthzError Unit) (workspace user : Nat) :
    Except AuthzError Unit := do
  deleteTupleIdempotently reply (memberTuple workspace user .admin)
  deleteTupleIdempotently reply (memberTuple workspace user .member)

def processWorkspaceRoleSyncRow (currentRole : Option (List Char))
    (reply : TupleCall → Except AuthzError Unit) (workspace user : Nat) :
    Except (List Char) Unit :=
  match currentRole with
  | none => (deleteWorkspaceRoleTuples reply workspace user).mapError AuthzError.sanitizeErrorMessage
  | some text =>
    match fromSql text with
    | none => .error "invalid_workspace_member_role".toList
    | some role =>
      (syncExistingWorkspaceRole reply workspace user role).mapError AuthzError.sanitizeErrorMessage

/-- How the attempt of a row ends; an error is what the row is marked with. -/
def attempt (env : Surroundings) (id : Nat) (r : AuthzRow) : Except (List Char) Unit :=
  match r.task with
  | .invalid message => .error message
  | .write t =>
    (writeTupleIdempotently (env.reply id) t).mapError AuthzError.sanitizeErrorMessage
  | .delete t =>
    (deleteTupleIdempotently (env.reply id) t).mapError AuthzError.sanitizeErrorMessage
  | .roleSync workspace user =>
    processWorkspaceRoleSyncRow (env.currentRole id) (env.reply id) workspace user

/-- The update of a row that was read as `r`, and whether it is marked as processed. -/
def processSingleRow (env : Surroundings) (id : Nat) (r : AuthzRow) : (AuthzRow → AuthzRow) × Bool :=
  match attempt env id r with
  | .ok () => (markAuthzOutboxProcessed, true)
  | .error message => (markAuthzOutboxFailed r.retryCount message, false)

/-- A `TIMESTAMP` that may be `NULL`; what has no stamp stands behind the others. -/
def Stamp : Type := WithTop Int

instance : LinearOrder Stamp := @WithTop.linearOrder Int Int.instLinearOrder

def Stamp.at (instant : Int) : Stamp := WithTop.some instant

/-- The column `created_at`. -/
abbrev CreatedAt := Nat → Stamp

/-- How the queries of a run order the rows that they find: by age, and rows of one age in any
way. -/
structure PageOrder (createdAt : CreatedAt) where
  order : Nat → List Nat → List Nat
  order_perm : ∀ k ids, (order k ids).Perm ids
  order_sorted : ∀ k ids, Ranking.Sorted createdAt (order k ids)

structure RunState where
  rows : List AuthzRow
  processedIds : List Nat
  result : AuthzOutboxRunResult

def eligibleIds (maxRetries : Int) (rows : List AuthzRow) : List Nat :=
  (List.range rows.length).filter fun id => (rows[id]?).any (AuthzRow.retryable maxRetries)

section Loop

variable {createdAt : CreatedAt} (config : AuthzOutboxProcessorConfig)
  (paging : PageOrder createdAt) (env : Surroundings)

/-- The ids of the `k`-th page. -/
def page (k : Nat) (rows : List AuthzRow) : List Nat :=
  (paging.order k (eligibleIds config.maxRetries rows)).take config.batchSize.toNat

/-- The rows of the page that the run has not attempted. -/
def fetch (s : RunState) : List (Nat × AuthzRow) :=
  ((page config paging s.result.batches s.rows).filter (· ∉ s.processedIds)).filterMap fun id =>
    (s.rows[id]?).map (id, ·)

def processRow (s : RunState) (row : Nat × AuthzRow) : RunState :=
  let (update, processed) := processSingleRow env row.1 row.2
  ⟨s.rows.modify row.1 update, row.1 :: s.processedIds, s.result.record processed⟩

/-- The loop; `none` when the fuel is used up. -/
def processBatches : Nat → RunState → Option RunState
  | 0, _ => none
  | fuel + 1, s =>
    let batch := fetch config paging s
    if batch.isEmpty then some s
    else processBatches fuel (batch.foldl (processRow env)
      { s with result := s.result.fetched batch.length })

def countExhaustedFailures (maxRetries : Int) (rows : List AuthzRow) : Nat :=
  rows.countP fun r => r.status = .failed ∧ maxRetries ≤ r.retryCount

def processAuthzOutbox (fuel : Nat) (rows : List AuthzRow) : Option RunState :=
  (processBatches config paging env fuel ⟨rows, [], .zero⟩).map fun s =>
    { s with result :=
      { s.result with skippedMaxRetryRows := countExhaustedFailures config.maxRetries s.rows } }

end Loop

/-- The row after its attempt. -/
def settled (env : Surroundings) (id : Nat) (r : AuthzRow) : AuthzRow :=
  (processSingleRow env id r).1 r

/-- The attempt fails and leaves the row a retry. -/
def keepsSlot (maxRetries : Int) (env : Surroundings) (id : Nat) (r : AuthzRow) : Bool :=
  !(attempt env id r).toBool && decide (saturateI32 (r.retryCount + 1) < maxRetries)

/-- The eligible rows that may stand before row `u` on every page. -/
def blockers (config : AuthzOutboxProcessorConfig) (createdAt : CreatedAt) (env : Surroundings)
    (rows : List AuthzRow) (u : Nat) : List Nat :=
  (eligibleIds config.maxRetries rows).filter fun v =>
    v ≠ u ∧ createdAt v ≤ createdAt u ∧ (rows[v]?).any (keepsSlot config.maxRetries env v)

theorem mem_eligibleIds {maxRetries : Int} {rows : List AuthzRow} {id : Nat} :
    id ∈ eligibleIds maxRetries rows ↔ ∃ r, rows[id]? = some r ∧ r.retryable maxRetries = true := by
  simp only [eligibleIds, List.mem_filter, List.mem_range, Option.any_eq_true]
  constructor
  · rintro ⟨-, h⟩
    exact h
  · rintro ⟨r, hr, h⟩
    exact ⟨(List.getElem?_eq_some_iff.mp hr).1, r, hr, h⟩

theorem eligibleIds_nodup (maxRetries : Int) (rows : List AuthzRow) :
    (eligibleIds maxRetries rows).Nodup :=
  List.Nodup.filter _ List.nodup_range

theorem mem_blockers {config : AuthzOutboxProcessorConfig} {createdAt : CreatedAt}
    {env : Surroundings} {rows : List AuthzRow} {u v : Nat} :
    v ∈ blockers config createdAt env rows u ↔ v ≠ u ∧ createdAt v ≤ createdAt u ∧
      ∃ r, rows[v]? = some r ∧ r.retryable config.maxRetries = true ∧
        keepsSlot config.maxRetries env v r = true := by
  simp only [blockers, List.mem_filter, mem_eligibleIds, decide_eq_true_eq, Option.any_eq_true]
  constructor
  · rintro ⟨⟨r, hr, helig⟩, hne, hle, r', hr', hkeeps⟩
    obtain rfl := Option.some.inj (hr.symm.trans hr')
    exact ⟨hne, hle, r, hr, helig, hkeeps⟩
  · rintro ⟨hne, hle, r, hr, helig, hkeeps⟩
    exact ⟨⟨r, hr, helig⟩, hne, hle, r, hr, hkeeps⟩

/-- After its attempt a row is eligible when the attempt failed and left a retry. -/
theorem settled_retryable (maxRetries : Int) (env : Surroundings) (id : Nat) (r : AuthzRow) :
    (settled env id r).retryable maxRetries = keepsSlot maxRetries env id r := by
  unfold settled processSingleRow keepsSlot
  cases attempt env id r with
  | ok u => simp [markAuthzOutboxProcessed, AuthzRow.retryable, Except.toBool]
  | error message => simp [markAuthzOutboxFailed, AuthzRow.retryable, Except.toBool]

/-- Between two rows of a batch, `rest` being what is left of it: each row is attempted once, and
the others are as they were. -/
structure Working (config : AuthzOutboxProcessorConfig) (env : Surroundings) (rows : List AuthzRow)
    (s : RunState) (rest : List (Nat × AuthzRow)) : Prop where
  nodup : (rest.map Prod.fst ++ s.processedIds).Nodup
  waiting : ∀ row ∈ rest, rows[row.1]? = some row.2 ∧ row.2.retryable config.maxRetries = true
  attempted : ∀ id ∈ s.processedIds, ∃ r, rows[id]? = some r ∧
    r.retryable config.maxRetries = true ∧ s.rows[id]? = some (settled env id r)
  untouched : ∀ id, id ∉ s.processedIds → s.rows[id]? = rows[id]?

section Steps

variable {createdAt : CreatedAt} {config : AuthzOutboxProcessorConfig}
  {paging : PageOrder createdAt} {env : Surroundings} {rows : List AuthzRow} {s : RunState}
  {row : Nat × AuthzRow} {rest : List (Nat × AuthzRow)}

theorem Working.start (config : AuthzOutboxProcessorConfig) (env : Surroundings)
    (rows : List AuthzRow) : Working config env rows ⟨rows, [], .zero⟩ [] := by
  constructor <;> simp

theorem Working.processRow (h : Working config env rows s (row :: rest)) :
    Working config env rows (AuthzRun.processRow env s row) rest := by
  obtain ⟨id, r⟩ := row
  have hperm : (rest.map Prod.fst ++ id :: s.processedIds).Perm
      (((id, r) :: rest).map Prod.fst ++ s.processedIds) := List.perm_middle
  have hfresh : id ∉ s.processedIds := fun hin =>
    List.disjoint_of_nodup_append h.nodup (List.mem_cons_self ..) hin
  obtain ⟨hr, helig⟩ := h.waiting (id, r) (List.mem_cons_self ..)
  have hself : (AuthzRun.processRow env s (id, r)).rows[id]? = some (settled env id r) := by
    have hread : s.rows[id]? = some r := (h.untouched id hfresh).trans hr
    simp [AuthzRun.processRow, hread, settled]
  have hother : ∀ other, id ≠ other →
      (AuthzRun.processRow env s (id, r)).rows[other]? = s.rows[other]? := by
    intro other hne
    simp [AuthzRun.processRow, hne]
  refine ⟨hperm.nodup_iff.mpr h.nodup, fun row hrow => h.waiting row (List.mem_cons_of_mem _ hrow),
    ?_, ?_⟩
  · intro other hin
    rcases List.mem_cons.mp hin with rfl | hin
    · exact ⟨r, hr, helig, hself⟩
    · obtain ⟨r', hr', helig', hrow⟩ := h.attempted other hin
      have hne : id ≠ other := fun heq => hfresh (heq ▸ hin)
      exact ⟨r', hr', helig', (hother other hne).trans hrow⟩
  · intro other hout
    have hout' : other ∉ id :: s.processedIds := hout
    rw [List.mem_cons, not_or] at hout'
    exact (hother other (Ne.symm hout'.1)).trans (h.untouched other hout'.2)

theorem Working.processBatch (h : Working config env rows s rest) :
    Working config env rows (rest.foldl (AuthzRun.processRow env) s) [] := by
  induction rest generalizing s with
  | nil => exact h
  | cons row rest ih => exact ih h.processRow

theorem processBatch_processedIds (batch : List (Nat × AuthzRow)) :
    (batch.foldl (AuthzRun.processRow env) s).processedIds =
      (batch.map Prod.fst).reverse ++ s.processedIds := by
  induction batch generalizing s with
  | nil => rfl
  | cons row batch ih =>
    rw [List.foldl_cons, ih]
    simp [AuthzRun.processRow]

theorem page_nodup (config : AuthzOutboxProcessorConfig) (paging : PageOrder createdAt) (k : Nat)
    (rows : List AuthzRow) : (page config paging k rows).Nodup :=
  ((paging.order_perm k _).nodup_iff.mpr (eligibleIds_nodup ..)).sublist (List.take_sublist ..)

theorem mem_page {k id : Nat} (h : id ∈ page config paging k rows) :
    ∃ r, rows[id]? = some r ∧ r.retryable config.maxRetries = true :=
  mem_eligibleIds.mp ((paging.order_perm k _).mem_iff.mp (List.mem_of_mem_take h))

/-- Every row of a page is fetched that has not been attempted. -/
theorem fetch_ids (config : AuthzOutboxProcessorConfig) (paging : PageOrder createdAt)
    (s : RunState) : (fetch config paging s).map Prod.fst =
      (page config paging s.result.batches s.rows).filter (· ∉ s.processedIds) := by
  have hread : ∀ ids : List Nat, (∀ id ∈ ids, (s.rows[id]?).isSome) →
      (ids.filterMap fun id => (s.rows[id]?).map (id, ·)).map Prod.fst = ids := by
    intro ids hids
    induction ids with
    | nil => rfl
    | cons id ids ih =>
      obtain ⟨r, hr⟩ := Option.isSome_iff_exists.mp (hids id (List.mem_cons_self ..))
      have hrest := ih fun id hid => hids id (List.mem_cons_of_mem _ hid)
      rw [List.filterMap_cons_some (by rw [hr]; rfl), List.map_cons, hrest]
  refine hread _ fun id hid => ?_
  obtain ⟨r, hr, -⟩ := mem_page (List.mem_filter.mp hid).1
  exact Option.isSome_of_eq_some hr

theorem mem_fetch (h : row ∈ fetch config paging s) :
    s.rows[row.1]? = some row.2 ∧ row.2.retryable config.maxRetries = true ∧
      row.1 ∉ s.processedIds := by
  obtain ⟨id, hid, hrow⟩ := List.mem_filterMap.mp h
  obtain ⟨r, hr, rfl⟩ := Option.map_eq_some_iff.mp hrow
  obtain ⟨hpage, hfresh⟩ := List.mem_filter.mp hid
  obtain ⟨r', hr', helig⟩ := mem_page hpage
  obtain rfl := Option.some.inj (hr.symm.trans hr')
  exact ⟨hr, helig, of_decide_eq_true hfresh⟩

theorem Working.fetch (config : AuthzOutboxProcessorConfig) (paging : PageOrder createdAt)
    (h : Working config env rows s []) (result : AuthzOutboxRunResult) :
    Working config env rows { s with result := result } (AuthzRun.fetch config paging s) := by
  refine ⟨?_, ?_, h.attempted, h.untouched⟩
  · refine List.Nodup.append ?_ h.nodup ?_
    · rw [fetch_ids]
      exact (page_nodup ..).filter _
    · intro id hid hin
      obtain ⟨row, hrow, rfl⟩ := List.mem_map.mp hid
      exact (mem_fetch hrow).2.2 hin
  · intro row hrow
    obtain ⟨hread, helig, hfresh⟩ := mem_fetch hrow
    exact ⟨(h.untouched row.1 hfresh).symm.trans hread, helig⟩

/-- Every batch adds rows to `processedIds`, which holds no more rows than there are. -/
theorem Working.finishes (config : AuthzOutboxProcessorConfig) (paging : PageOrder createdAt)
    (fuel : Nat) (h : Working config env rows s [])
    (hfuel : rows.length < fuel + s.processedIds.length) :
    ∃ t, processBatches config paging env fuel s = some t ∧ Working config env rows t [] ∧
      page config paging t.result.batches t.rows ⊆ t.processedIds := by
  induction fuel generalizing s with
  | zero =>
    have hroom : s.processedIds.length ≤ (List.range rows.length).length := by
      refine List.Subperm.length_le (List.subperm_of_subset h.nodup fun id hid => ?_)
      obtain ⟨r, hr, -⟩ := h.attempted id hid
      exact List.mem_range.mpr (List.getElem?_eq_some_iff.mp hr).1
    rw [List.length_range] at hroom
    omega
  | succ fuel ih =>
    rw [processBatches]
    have hids := fetch_ids config paging s
    by_cases hempty : AuthzRun.fetch config paging s = []
    · refine ⟨s, by rw [hempty]; rfl, h, ?_⟩
      rw [hempty, List.map_nil] at hids
      intro id hid
      by_contra hout
      have hin : id ∈ (page config paging s.result.batches s.rows).filter (· ∉ s.processedIds) :=
        List.mem_filter.mpr ⟨hid, decide_eq_true hout⟩
      rw [← hids] at hin
      cases hin
    · have hpos := List.length_pos_iff.mpr hempty
      rw [if_neg (by simpa using hempty)]
      refine ih (h.fetch config paging _).processBatch ?_
      rw [processBatch_processedIds]
      simp only [List.length_append, List.length_reverse, List.length_map]
      omega

/-- More fuel changes nothing once the run has ended. -/
theorem processBatches_succ (fuel : Nat) {t : RunState}
    (h : processBatches config paging env fuel s = some t) :
    processBatches config paging env (fuel + 1) s = some t := by
  induction fuel generalizing s with
  | zero => cases h
  | succ fuel ih =>
    rw [processBatches] at h ⊢
    split at h
    next hempty => rwa [if_pos hempty]
    next hempty =>
      rw [if_neg hempty]
      exact ih h

theorem processBatches_of_le {fuel fuel' : Nat} {t : RunState} (hle : fuel ≤ fuel')
    (h : processBatches config paging env fuel s = some t) :
    processBatches config paging env fuel' s = some t := by
  induction hle with
  | refl => exact h
  | step _ ih => exact processBatches_succ _ ih

/-- When an eligible row has no attempt, the last page held only blockers of it. -/
theorem Working.page_blocks {k u : Nat} (h : Working config env rows s [])
    (hend : page config paging k s.rows ⊆ s.processedIds)
    (hu : u ∈ eligibleIds config.maxRetries rows) (hout : u ∉ s.processedIds) :
    page config paging k s.rows ⊆ blockers config createdAt env rows u ∧
      (page config paging k s.rows).length = config.batchSize.toNat := by
  obtain ⟨r, hr, helig⟩ := mem_eligibleIds.mp hu
  have hstill : u ∈ paging.order k (eligibleIds config.maxRetries s.rows) :=
    (paging.order_perm k _).mem_iff.mpr
      (mem_eligibleIds.mpr ⟨r, (h.untouched u hout).trans hr, helig⟩)
  have habsent : u ∉ page config paging k s.rows := fun hin => hout (hend hin)
  constructor
  · intro v hv
    obtain ⟨rv, hrv, heligv, hsettled⟩ := h.attempted v (hend hv)
    obtain ⟨r', hr', helig'⟩ := mem_page hv
    obtain rfl := Option.some.inj (hsettled.symm.trans hr')
    rw [settled_retryable] at helig'
    refine mem_blockers.mpr ⟨fun heq => hout (heq ▸ hend hv), ?_, rv, hrv, heligv, helig'⟩
    exact (paging.order_sorted k _).le_of_notMem_take hstill habsent hv
  · rw [page, List.length_take]
    by_contra hshort
    refine habsent ?_
    rw [page, List.take_of_length_le (by omega)]
    exact hstill

/-- While nothing has attempted row `u`, its blockers stay eligible. -/
theorem Working.blockers_eligible {u : Nat} (h : Working config env rows s []) :
    blockers config createdAt env rows u ⊆ eligibleIds config.maxRetries s.rows := by
  intro v hv
  obtain ⟨-, -, r, hr, helig, hkeeps⟩ := mem_blockers.mp hv
  rw [mem_eligibleIds]
  by_cases hin : v ∈ s.processedIds
  · obtain ⟨r', hr', -, hsettled⟩ := h.attempted v hin
    obtain rfl := Option.some.inj (hr.symm.trans hr')
    exact ⟨_, hsettled, (settled_retryable ..).trans hkeeps⟩
  · exact ⟨r, (h.untouched v hin).trans hr, helig⟩

end Steps

/-- Rows of one age stand in the order of the table, but row `last` behind the others. -/
def ageRank (createdAt : CreatedAt) (last id : Nat) : Lex (Stamp × Nat) :=
  toLex (createdAt id, if id = last then 1 else 0)

theorem ageRank_lt {createdAt : CreatedAt} {last id : Nat} (hne : id ≠ last)
    (hle : createdAt id ≤ createdAt last) : ageRank createdAt last id < ageRank createdAt last last := by
  rw [ageRank, ageRank, Prod.Lex.toLex_lt_toLex, if_neg hne, if_pos rfl]
  rcases hle.lt_or_eq with hlt | heq
  · exact .inl hlt
  · exact .inr ⟨heq, Nat.zero_lt_one⟩

theorem sorted_ageRank {createdAt : CreatedAt} {last : Nat} {ids : List Nat}
    (h : Ranking.Sorted (ageRank createdAt last) ids) : Ranking.Sorted createdAt ids :=
  h.imp fun hle => (Prod.Lex.toLex_le_toLex.mp hle).elim le_of_lt fun heq => heq.1.le

/-- The database that lets row `last` wait behind every row that is as old. -/
def lateOrder (createdAt : CreatedAt) (last : Nat) : PageOrder createdAt where
  order := fun _ ids => ids.insertionSort fun a b => ageRank createdAt last a ≤ ageRank createdAt last b
  order_perm := fun _ ids => List.perm_insertionSort _ ids
  order_sorted := fun _ ids => sorted_ageRank (Ranking.sorted_insertionSort _ ids)

section Starvation

variable {createdAt : CreatedAt} {config : AuthzOutboxProcessorConfig} {env : Surroundings}
  {rows : List AuthzRow} {s : RunState} {u : Nat}

theorem blockers_nodup : (blockers config createdAt env rows u).Nodup :=
  (eligibleIds_nodup ..).filter _

/-- A row with a batch of blockers is on no page of the database that lets it wait. -/
theorem Working.late_notMem_page (h : Working config env rows s [])
    (hmany : config.batchSize ≤ (blockers config createdAt env rows u).length) (k : Nat) :
    u ∉ page config (lateOrder createdAt u) k s.rows := by
  intro hin
  let ordered := (lateOrder createdAt u).order k (eligibleIds config.maxRetries s.rows)
  have hsorted : Ranking.Sorted (ageRank createdAt u) ordered := Ranking.sorted_insertionSort _ _
  have hbefore := hsorted.before_lt_of_mem_take hin
  have hsub : blockers config createdAt env rows u ⊆
      ordered.filter fun v => ageRank createdAt u v < ageRank createdAt u u := by
    intro v hv
    obtain ⟨hne, hle, -⟩ := mem_blockers.mp hv
    refine List.mem_filter.mpr ⟨?_, decide_eq_true (ageRank_lt hne hle)⟩
    exact ((lateOrder createdAt u).order_perm k _).mem_iff.mpr (h.blockers_eligible hv)
  have hcount := (List.subperm_of_subset blockers_nodup hsub).length_le
  rw [← List.countP_eq_length_filter] at hcount
  rw [Ranking.before] at hbefore
  omega

theorem Working.late_never_attempted {t : RunState} (fuel : Nat) (h : Working config env rows s [])
    (hmany : config.batchSize ≤ (blockers config createdAt env rows u).length)
    (hout : u ∉ s.processedIds)
    (hrun : processBatches config (lateOrder createdAt u) env fuel s = some t) :
    u ∉ t.processedIds := by
  induction fuel generalizing s with
  | zero => cases hrun
  | succ fuel ih =>
    rw [processBatches] at hrun
    split at hrun
    next =>
      obtain rfl := Option.some.inj hrun
      exact hout
    next =>
      refine ih (h.fetch config _ _).processBatch ?_ hrun
      rw [processBatch_processedIds, List.mem_append, List.mem_reverse, fetch_ids, not_or]
      refine ⟨fun hin => ?_, hout⟩
      exact h.late_notMem_page hmany _ (List.mem_filter.mp hin).1

end Starvation

/-- The run ends, and attempts the rows that are eligible at its start, each of them once. -/
def Complete {createdAt : CreatedAt} (config : AuthzOutboxProcessorConfig)
    (paging : PageOrder createdAt) (env : Surroundings) (rows : List AuthzRow) : Prop :=
  ∃ t, (∀ fuel, rows.length < fuel → processAuthzOutbox config paging env fuel rows = some t) ∧
    t.processedIds.Nodup ∧
    ∀ id, id ∈ t.processedIds ↔ id ∈ eligibleIds config.maxRetries rows

theorem complete_of_few_blockers {createdAt : CreatedAt} {config : AuthzOutboxProcessorConfig}
    {env : Surroundings} {rows : List AuthzRow} (paging : PageOrder createdAt)
    (hfew : ∀ u ∈ eligibleIds config.maxRetries rows,
      (blockers config createdAt env rows u).length < config.batchSize) :
    Complete config paging env rows := by
  obtain ⟨t, hrun, ht, hend⟩ :=
    (Working.start config env rows).finishes config paging (rows.length + 1) (by simp)
  refine ⟨{ t with result :=
    { t.result with skippedMaxRetryRows := countExhaustedFailures config.maxRetries t.rows } },
    fun fuel hfuel => ?_, ht.nodup, fun id => ⟨fun hin => ?_, fun hin => ?_⟩⟩
  · rw [processAuthzOutbox, processBatches_of_le hfuel hrun]
    rfl
  · obtain ⟨r, hr, helig, -⟩ := ht.attempted id hin
    exact mem_eligibleIds.mpr ⟨r, hr, helig⟩
  · by_contra hout
    obtain ⟨hsub, hlength⟩ := ht.page_blocks hend hin hout
    have hcount := (List.subperm_of_subset (page_nodup ..) hsub).length_le
    have hlimit := hfew id hin
    omega

theorem starves {createdAt : CreatedAt} {config : AuthzOutboxProcessorConfig} {env : Surroundings}
    {rows : List AuthzRow} {u : Nat} (hu : u ∈ eligibleIds config.maxRetries rows)
    (hmany : config.batchSize ≤ (blockers config createdAt env rows u).length) :
    ¬ Complete config (lateOrder createdAt u) env rows := by
  rintro ⟨t, hrun, -, hattempted⟩
  obtain ⟨t', hloop, rfl⟩ := Option.map_eq_some_iff.mp (hrun (rows.length + 1) (by omega))
  refine (Working.start config env rows).late_never_attempted _ hmany ?_ hloop ((hattempted u).mpr hu)
  exact List.not_mem_nil

/-- A run is complete, however the database orders rows of one age, when no eligible row has a
batch of others at or before its age whose attempts fail and leave a retry. -/
theorem authz_run_complete_iff (config : AuthzOutboxProcessorConfig) (createdAt : CreatedAt)
    (env : Surroundings) (rows : List AuthzRow) :
    (∀ paging : PageOrder createdAt, Complete config paging env rows) ↔
      ∀ u ∈ eligibleIds config.maxRetries rows,
        (blockers config createdAt env rows u).length < config.batchSize := by
  constructor
  · intro hcomplete u hu
    by_contra hmany
    exact starves hu (Int.not_lt.mp hmany) (hcomplete (lateOrder createdAt u))
  · exact fun hfew paging => complete_of_few_blockers paging hfew

def oneAtATime : AuthzOutboxProcessorConfig := ⟨1, 5, by decide, by decide⟩

/-- OpenFGA cannot be reached during the attempt of the first row. -/
def firstRowFails : Surroundings where
  currentRole := fun _ => none
  reply := fun id _ => if id = 0 then .error .http else .ok ()

/-- Two rows wait in the order of their ages; the run ends after the older one. -/
theorem younger_row_starves :
    ¬ Complete oneAtATime (lateOrder (fun id => Stamp.at id) 1) firstRowFails
      [enqueueTupleWrite (memberTuple 1 1 .member), enqueueTupleWrite (memberTuple 1 2 .member)] :=
  starves (by decide +kernel) (by decide +kernel)

end GmragApi.AuthzRun

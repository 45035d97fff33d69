import GmragApi.IndexingOutput
import GmragApi.ProcessPool
import GmragApi.QueueFrames

/-! A completed document against its points, under every interleaving of workers whose writes
are fenced. -/

namespace GmragApi.Indexing

open Transition
open Ingestion (Owns Settled WorkerConfig ClaimedJob sampleConfig firstClaim)

/-- The transaction that a task keeps open. -/
def Task.Opens (t : Task) : Ingestion.Tx → Prop
  | .complete job worker _ => job = t.job ∧ worker = t.worker ∧ t.phase = .committing
  | .failure job worker _ _ _ _ => job = t.job ∧ worker = t.worker ∧ t.phase = .failing

structure Inv (s : State) : Prop where
  queue : Ingestion.Inv s.queue
  output : s.output.WellFormed
  claimed : ∀ (i : Nat) (t : Task), s.tasks[i]? = some t → (t.job, t.worker) ∈ s.queue.claims
  one : ∀ (i k : Nat) (t u : Task), s.tasks[i]? = some t → s.tasks[k]? = some u →
    t.job.claimToken = u.job.claimToken → i = k
  transaction : ∀ (i : Nat) (t : Task), s.tasks[i]? = some t → t.phase.inTransaction = true →
    ∃ tx, s.queue.locks t.job.id = some tx ∧ t.Opens tx
  phase : ∀ (i : Nat) (t : Task), s.tasks[i]? = some t → Owns s.queue t.job t.worker →
    PhaseOk s.output t.job.documentId t.phase
  settled : ∀ d, Settled s.queue d → Indexed s.output d

/-- The next write of a task that reaches chunk rows or points is made for the claim that holds
the job, and a run without chunks meets no chunk rows. -/
def Task.Fenced (s : State) (t : Task) : Prop :=
  match t.phase with
  | .persisting _ => s.owns t = true
  | .deleting points => s.owns t = true ∧
      (points = [] → ∀ index, s.output.chunks t.job.documentId index = none)
  | .upserting (_ :: _) => s.owns t = true
  | _ => True

def Fenced (s : State) : Act → Prop
  | .advance i _ => ∀ t : Task, s.tasks[i]? = some t → t.Fenced s
  | _ => True

section Run

variable {config : WorkerConfig} {s u : State} {i : Nat} {t : Task}

theorem owns_iff : s.owns t = true ↔ Owns s.queue t.job t.worker := by
  simp [State.owns, Owns, Option.any_eq_true]

theorem Task.Opens.job {tx : Ingestion.Tx} (h : t.Opens tx) : tx.job = t.job := by
  cases tx <;> exact h.1

/-- Two tasks keep their transactions open on different jobs. -/
theorem Inv.other_job (hi : Inv s) {k : Nat} {v : Task} (hk : k ≠ i) (ht : s.tasks[i]? = some t)
    (hv : s.tasks[k]? = some v) (htx : t.phase.inTransaction = true)
    (hvx : v.phase.inTransaction = true) : v.job.id ≠ t.job.id := by
  intro hid
  obtain ⟨tx, hl, ho⟩ := hi.transaction i t ht htx
  obtain ⟨tx', hl', ho'⟩ := hi.transaction k v hv hvx
  rw [hid] at hl'
  cases Option.some.inj (hl.symm.trans hl')
  have hsame : v.job = t.job := ho'.job.symm.trans ho.job
  exact hk (hi.one k i v t hv ht (by rw [hsame]))

/-- Two tasks whose claims hold their jobs work on different documents. -/
theorem Inv.other_document (hi : Inv s) {k : Nat} {v : Task} (hk : k ≠ i)
    (ht : s.tasks[i]? = some t) (hv : s.tasks[k]? = some v) (hto : Owns s.queue t.job t.worker)
    (hvo : Owns s.queue v.job v.worker) : v.job.documentId ≠ t.job.documentId := by
  intro hd
  have htok := hvo.same hi.queue (hi.claimed k v hv) (hi.claimed i t ht) hto hd
  exact hk (hi.one k i v t hv ht htok)

theorem Inv.not_settled (hi : Inv s) (ht : s.tasks[i]? = some t)
    (ho : Owns s.queue t.job t.worker) {d : Nat} (hd : Settled s.queue d) :
    d ≠ t.job.documentId := by
  rintro rfl
  exact hd.2 (ho.activeOn hi.queue (hi.claimed i t ht))

theorem set_job (ht : s.tasks[i]? = some t) (phase : Phase) {k : Nat} {v : Task}
    (hv : (s.tasks.set i { t with phase := phase })[k]? = some v) :
    ∃ w : Task, s.tasks[k]? = some w ∧ w.job = v.job := by
  rcases (ProcessPool.getElem?_set_iff ht).mp hv with ⟨rfl, rfl⟩ | ⟨-, hv⟩
  · exact ⟨t, ht, rfl⟩
  · exact ⟨v, hv, rfl⟩

theorem Inv.one_set (hi : Inv s) (ht : s.tasks[i]? = some t) (phase : Phase) (a b : Nat)
    (v w : Task) (hv : (s.tasks.set i { t with phase := phase })[a]? = some v)
    (hw : (s.tasks.set i { t with phase := phase })[b]? = some w)
    (hsame : v.job.claimToken = w.job.claimToken) : a = b := by
  obtain ⟨v', hv', hvj⟩ := set_job ht phase hv
  obtain ⟨w', hw', hwj⟩ := set_job ht phase hw
  exact hi.one a b v' w' hv' hw' (by rw [hvj, hwj, hsame])

/-- A task makes a statement on the queue and goes on to its next call. -/
theorem Inv.statement (hi : Inv s) (ht : s.tasks[i]? = some t) {a : Ingestion.Act}
    {q : Ingestion.State} (hq : Ingestion.step config s.queue a = some q) {phase : Phase}
    (locks : ∀ (k : Nat) (v : Task) tx, k ≠ i → s.tasks[k]? = some v → v.phase.inTransaction = true →
      s.queue.locks v.job.id = some tx → q.locks v.job.id = some tx)
    (opened : phase.inTransaction = true →
      ∃ tx, q.locks t.job.id = some tx ∧ ({ t with phase := phase } : Task).Opens tx)
    (own : PhaseOk s.output t.job.documentId t.phase → PhaseOk s.output t.job.documentId phase)
    (settled : ∀ d, Settled q d → Indexed s.output d) :
    Inv ({ s with queue := q }.goto i t phase) := by
  have hframe := Ingestion.step_frame hi.queue hq
  have owns : ∀ (k : Nat) (v : Task), s.tasks[k]? = some v → Owns q v.job v.worker → Owns s.queue v.job v.worker :=
    fun k v hv ho => Ingestion.step_owns hi.queue hq (hi.claimed k v hv) ho
  refine ⟨Ingestion.step_inv hi.queue hq, hi.output, ?_, ?_, ?_, ?_, settled⟩
  · refine ProcessPool.forall_set ht (hframe.claims _ (hi.claimed i t ht)) ?_
    exact fun k v _ hv => hframe.claims _ (hi.claimed k v hv)
  · exact hi.one_set ht phase
  · refine ProcessPool.forall_set ht opened ?_
    intro k v hk hv hvx
    obtain ⟨tx, hl, ho⟩ := hi.transaction k v hv hvx
    exact ⟨tx, locks k v tx hk hv hvx hl, ho⟩
  · refine ProcessPool.forall_set ht (fun ho => own (hi.phase i t ht (owns i t ht ho))) ?_
    exact fun k v _ hv ho => hi.phase k v hv (owns k v hv ho)

/-- Any statement but a commit or a rollback leaves the other transactions open and settles no
document. -/
theorem Inv.call (hi : Inv s) (ht : s.tasks[i]? = some t) {a : Ingestion.Act} {q : Ingestion.State}
    (hq : Ingestion.step config s.queue a = some q) (notCommit : ∀ id, a ≠ .commit id)
    (notRollback : ∀ id, a ≠ .rollback id) {phase : Phase}
    (opened : phase.inTransaction = true →
      ∃ tx, q.locks t.job.id = some tx ∧ ({ t with phase := phase } : Task).Opens tx)
    (own : PhaseOk s.output t.job.documentId t.phase → PhaseOk s.output t.job.documentId phase) :
    Inv ({ s with queue := q }.goto i t phase) := by
  refine hi.statement ht hq ?_ opened own ?_
  · intro k v tx _ _ _ hl
    exact (Ingestion.step_frame hi.queue hq).locks (notCommit _) (notRollback _) hl
  · intro d hd
    exact hi.settled d (Ingestion.step_keepsSettled hi.queue hq notCommit d hd)

/-- What a task keeps when it goes on to a call outside of a transaction. -/
theorem Inv.goto_transaction (hi : Inv s) (ht : s.tasks[i]? = some t) {phase : Phase}
    (hx : phase.inTransaction = false) (k : Nat) (v : Task)
    (hv : (s.tasks.set i { t with phase := phase })[k]? = some v)
    (hvx : v.phase.inTransaction = true) :
    ∃ tx, s.queue.locks v.job.id = some tx ∧ v.Opens tx := by
  rcases (ProcessPool.getElem?_set_iff ht).mp hv with ⟨-, rfl⟩ | ⟨-, hv⟩
  · rw [hx] at hvx
    cases hvx
  · exact hi.transaction k v hv hvx

theorem Inv.goto_claimed (hi : Inv s) (ht : s.tasks[i]? = some t) (phase : Phase) (k : Nat)
    (v : Task) (hv : (s.tasks.set i { t with phase := phase })[k]? = some v) :
    (v.job, v.worker) ∈ s.queue.claims := by
  rcases (ProcessPool.getElem?_set_iff ht).mp hv with ⟨-, rfl⟩ | ⟨-, hv⟩
  · exact hi.claimed i t ht
  · exact hi.claimed k v hv

theorem Inv.goto (hi : Inv s) (ht : s.tasks[i]? = some t) {phase : Phase}
    (hx : phase.inTransaction = false)
    (own : PhaseOk s.output t.job.documentId t.phase → PhaseOk s.output t.job.documentId phase) :
    Inv (s.goto i t phase) := by
  refine ⟨hi.queue, hi.output, hi.goto_claimed ht phase, hi.one_set ht phase,
    hi.goto_transaction ht hx, ?_, hi.settled⟩
  refine ProcessPool.forall_set ht (fun ho => own (hi.phase i t ht ho)) ?_
  exact fun k v _ hv => hi.phase k v hv

/-- A task whose claim holds the job writes rows or points of its document. -/
theorem Inv.write (hi : Inv s) (ht : s.tasks[i]? = some t) (ho : Owns s.queue t.job t.worker)
    {o : Output} (hw : o.WellFormed) (same : ∀ d, d ≠ t.job.documentId → SameOutput s.output o d)
    {phase : Phase} (hx : phase.inTransaction = false)
    (own : PhaseOk s.output t.job.documentId t.phase → PhaseOk o t.job.documentId phase) :
    Inv ((s.write o).goto i t phase) := by
  refine ⟨hi.queue, hw, hi.goto_claimed ht phase, hi.one_set ht phase,
    hi.goto_transaction ht hx, ?_, ?_⟩
  · refine ProcessPool.forall_set ht (fun _ => own (hi.phase i t ht ho)) ?_
    intro k v hk hv hvo
    have hd := hi.other_document hk ht hv ho hvo
    exact (same _ hd).phaseOk (hi.phase k v hv hvo)
  · intro d hd
    exact (same d (hi.not_settled ht ho hd)).indexed.mpr (hi.settled d hd)

theorem Inv.commit (hi : Inv s) (ht : s.tasks[i]? = some t) (htx : t.phase.inTransaction = true)
    {q : Ingestion.State} (hq : Ingestion.step config s.queue (.commit t.job.id) = some q) :
    Inv ({ s with queue := q }.goto i t .ended) := by
  refine hi.statement ht hq ?_ (fun h => by cases h) (fun _ => trivial) ?_
  · intro k v tx hk hv hvx hl
    have hne := hi.other_job hk ht hv htx hvx
    refine (Ingestion.step_frame hi.queue hq).locks ?_ (fun h => by cases h) hl
    intro h
    exact hne (Ingestion.Act.commit.inj h).symm
  · intro d hd
    rcases Ingestion.commit_settled hi.queue hq hd with hd | ⟨job, worker, stamp, hl, rfl⟩
    · exact hi.settled d hd
    · -- the document that the commit completes was indexed by this task
      obtain ⟨tx, hl', hopen⟩ := hi.transaction i t ht htx
      cases Option.some.inj (hl.symm.trans hl')
      obtain ⟨rfl, rfl, hphase⟩ := hopen
      obtain ⟨-, -, j, hj, ho, -⟩ := hi.queue.locked _ _ hl
      have hok := hi.phase i t ht ⟨j, hj, ho⟩
      rw [hphase] at hok
      exact hok

theorem Inv.leave (hi : Inv s) (ht : s.tasks[i]? = some t) {next : Phase}
    (h : s.leave config i t next = some u) (hx : next.inTransaction = false)
    (hn : ∀ o d, PhaseOk o d next) : Inv u := by
  unfold State.leave at h
  split at h
  next htx =>
    obtain ⟨v, hv, rfl⟩ := Option.map_eq_some_iff.mp h
    obtain ⟨q, hq, rfl⟩ := Option.map_eq_some_iff.mp hv
    refine hi.statement ht hq ?_ (fun hnx => by rw [hx] at hnx; cases hnx) (fun _ => hn _ _) ?_
    · intro k v tx hk hv hvx hl
      have hne := hi.other_job hk ht hv htx hvx
      refine (Ingestion.step_frame hi.queue hq).locks (fun h => by cases h) ?_ hl
      intro h
      exact hne (Ingestion.Act.rollback.inj h).symm
    · intro d hd
      exact hi.settled d (Ingestion.step_keepsSettled hi.queue hq (fun _ h => by cases h) d hd)
  next =>
    cases Option.some.inj h
    exact hi.goto ht hx fun _ => hn _ _

theorem setProcessingStage_inv (hi : Inv s) (ht : s.tasks[i]? = some t) {stage : Ingestion.Stage}
    {stamp : Int} {next : Phase} (h : setProcessingStage config s i t stage stamp next = some u)
    (hx : next.inTransaction = false)
    (own : PhaseOk s.output t.job.documentId t.phase → PhaseOk s.output t.job.documentId next) :
    Inv u := by
  obtain ⟨v, hv, rfl⟩ := Option.map_eq_some_iff.mp h
  obtain ⟨q, hq, rfl⟩ := Option.map_eq_some_iff.mp hv
  refine hi.call ht hq (fun _ h => by cases h) (fun _ h => by cases h) ?_ ?_
  · split
    · intro hnx
      rw [hx] at hnx
      cases hnx
    · exact fun hnx => by cases hnx
  · split
    · exact own
    · exact fun _ => trivial

/-- A check that the document still exists ends the task or leads it on. -/
theorem exists_inv (hi : Inv s) (ht : s.tasks[i]? = some t) {next : Phase}
    (hx : next.inTransaction = false)
    (own : PhaseOk s.output t.job.documentId t.phase → PhaseOk s.output t.job.documentId next) :
    Inv (s.goto i t (if documentStillExists s t.job then next else .ended)) := by
  split
  · exact hi.goto ht hx own
  · exact hi.goto ht rfl fun _ => trivial

theorem save_inv (hi : Inv s) (ht : s.tasks[i]? = some t) {count : Nat}
    (ho : s.owns t = true) : Inv ((s.write (saveDocumentChunks s.output t.job.documentId count)).goto
      i t (.building count)) := by
  have hw := save_wellFormed hi.output t.job.documentId count
  have same : ∀ d, d ≠ t.job.documentId →
      SameOutput s.output (saveDocumentChunks s.output t.job.documentId count) d :=
    fun d hd => save_same hd count
  exact hi.write ht (owns_iff.mp ho) hw same rfl fun _ => save_phaseOk _ _ count

theorem deletePoints_inv (hi : Inv s) (ht : s.tasks[i]? = some t) {points : List Nat}
    (hp : t.phase = .deleting points) (ho : s.owns t = true)
    (hnone : points = [] → ∀ index, s.output.chunks t.job.documentId index = none) :
    Inv ((s.write (deletePointsByDocument s.output t.job.documentId)).goto i t
      (.upserting points)) := by
  have hw := deletePoints_wellFormed hi.output t.job.documentId
  refine hi.write ht (owns_iff.mp ho) hw (fun d hd => deletePoints_same hd) rfl fun hok => ?_
  rw [hp] at hok
  refine deletePoints_phaseOk ?_
  by_cases hempty : points = []
  · intro chunk
    have hrow : ¬ HasRow s.output t.job.documentId chunk := by
      rintro ⟨index, hrow⟩
      rw [hnone hempty index] at hrow
      cases hrow
    exact iff_of_false (by simp [hempty]) hrow
  · exact hok hempty

theorem upsert_inv (hi : Inv s) (ht : s.tasks[i]? = some t) {points : List Nat}
    (hp : t.phase = .upserting points) (ho : s.owns t = true) :
    Inv ((s.write (upsertChunkPointBatch s.output t.job.documentId
      (points.take upsertBatchSize))).goto i t (.upserting (points.drop upsertBatchSize))) := by
  have hok := hi.phase i t ht (owns_iff.mp ho)
  rw [hp] at hok
  have hrows : ∀ c ∈ points.take upsertBatchSize, HasRow s.output t.job.documentId c :=
    fun c hc => (hok c).mp (.inl (List.mem_of_mem_take hc))
  have hw := upsert_wellFormed hi.output hrows
  exact hi.write ht (owns_iff.mp ho) hw (fun d hd => upsert_same hi.output hrows hd) rfl
    fun _ => upsert_phaseOk hok

/-- The update of the job row, which locks it if the claim still holds the job. -/
theorem beginComplete_inv (hi : Inv s) (ht : s.tasks[i]? = some t) (hp : t.phase = .completing)
    {stamp : Int} {q : Ingestion.State}
    (hq : Ingestion.step config s.queue (.beginComplete t.job t.worker stamp) = some q) :
    Inv ({ s with queue := q }.goto i t
      (if s.queue.ownedLive t.job t.worker stamp then .committing else .ended)) := by
  refine hi.call ht hq (fun _ h => by cases h) (fun _ h => by cases h) ?_ ?_
  · rcases Ingestion.beginComplete_cases (Option.ite_none_right_eq_some.mp hq).2 with
      ⟨ho, -⟩ | ⟨ho, hl⟩
    · rw [ho]
      exact fun h => by cases h
    · obtain ⟨-, -, he⟩ := Ingestion.lockFor_cases hl
      rw [ho, he]
      exact fun _ => ⟨_, Function.update_self .., rfl, rfl, rfl⟩
  · rw [hp]
    split
    · exact id
    · exact fun _ => trivial

theorem beginFailure_inv (hi : Inv s) (ht : s.tasks[i]? = some t) {failure : Ingestion.JobFailure}
    {stamp : Int} {q : Ingestion.State}
    (hq : Ingestion.step config s.queue (.beginFailure t.job t.worker failure stamp) = some q) :
    Inv ({ s with queue := q }.goto i t
      (if s.queue.ownedLive t.job t.worker stamp then .failing else .ended)) := by
  refine hi.call ht hq (fun _ h => by cases h) (fun _ h => by cases h) ?_ ?_
  · rcases Ingestion.beginFailure_cases (Option.ite_none_right_eq_some.mp hq).2 with
      ⟨ho, -⟩ | ⟨ho, attempts, limit, hl⟩
    · rw [ho]
      exact fun h => by cases h
    · obtain ⟨-, -, he⟩ := Ingestion.lockFor_cases hl
      rw [ho, he]
      exact fun _ => ⟨_, Function.update_self .., rfl, rfl, rfl⟩
  · split <;> exact fun _ => trivial

/-- One call of a task whose writes are fenced. -/
theorem processDocument_inv (hi : Inv s) (ht : s.tasks[i]? = some t) (hf : t.Fenced s)
    {reply : Reply} (h : processDocument config s i t reply = some u) : Inv u := by
  unfold Task.Fenced at hf
  unfold processDocument at h
  split at h
  next stamp hp => exact setProcessingStage_inv hi ht h rfl fun _ => trivial
  next hp =>
    cases Option.some.inj h
    exact hi.goto ht rfl fun _ => trivial
  next count hp =>
    cases Option.some.inj h
    exact hi.goto ht rfl fun _ => trivial
  next hp =>
    cases Option.some.inj h
    exact hi.goto ht rfl fun _ hne => absurd rfl hne
  next count stamp hp => exact setProcessingStage_inv hi ht h rfl fun _ => trivial
  next count stamp hp => exact setProcessingStage_inv hi ht h rfl fun _ => trivial
  next count stamp hp => exact setProcessingStage_inv hi ht h rfl fun _ => trivial
  next count hp =>
    cases Option.some.inj (Option.ite_none_right_eq_some.mp h).2
    rw [hp] at hf
    exact save_inv hi ht hf
  next count points hp =>
    obtain ⟨hperm, h⟩ := Option.ite_none_right_eq_some.mp h
    cases Option.some.inj h
    refine hi.goto ht rfl fun hok _ => ?_
    rw [hp] at hok
    exact built_rows hok hperm
  next points hp =>
    cases Option.some.inj h
    exact exists_inv hi ht rfl fun hok => by rwa [hp] at hok
  next points stamp hp =>
    exact setProcessingStage_inv hi ht h rfl fun hok => by rwa [hp] at hok
  next points hp =>
    cases Option.some.inj h
    exact exists_inv hi ht rfl fun hok => by rwa [hp] at hok
  next points stamp hp =>
    exact setProcessingStage_inv hi ht h rfl fun hok => by rwa [hp] at hok
  next points hp =>
    cases Option.some.inj h
    rw [hp] at hf
    exact deletePoints_inv hi ht hp hf.1 hf.2
  next hp =>
    cases Option.some.inj h
    refine hi.goto ht rfl fun hok => ?_
    rw [hp] at hok
    intro chunk
    exact (or_iff_right List.not_mem_nil).symm.trans (hok chunk)
  next points hne hp =>
    cases Option.some.inj h
    obtain ⟨point, rest, rfl⟩ := List.exists_cons_of_ne_nil hne
    rw [hp] at hf
    exact upsert_inv hi ht hp hf
  next stamp hp =>
    obtain ⟨v, hv, rfl⟩ := Option.map_eq_some_iff.mp h
    obtain ⟨q, hq, rfl⟩ := Option.map_eq_some_iff.mp hv
    exact beginComplete_inv hi ht hp hq
  next hp =>
    obtain ⟨v, hv, rfl⟩ := Option.map_eq_some_iff.mp h
    obtain ⟨q, hq, rfl⟩ := Option.map_eq_some_iff.mp hv
    exact hi.commit ht (by rw [hp]; rfl) hq
  next failure stamp hp =>
    obtain ⟨v, hv, rfl⟩ := Option.map_eq_some_iff.mp h
    obtain ⟨q, hq, rfl⟩ := Option.map_eq_some_iff.mp hv
    exact beginFailure_inv hi ht hq
  next hp =>
    obtain ⟨v, hv, rfl⟩ := Option.map_eq_some_iff.mp h
    obtain ⟨q, hq, rfl⟩ := Option.map_eq_some_iff.mp hv
    exact hi.commit ht (by rw [hp]; rfl) hq
  next => cases h

theorem cascade_same {a : Ingestion.Act} {d : Nat}
    (hd : ∀ document, a = .deleteDocument document → d ≠ document) :
    SameOutput s.output (s.cascade a).output d := by
  unfold State.cascade
  split
  · exact deleteChunks_same (hd _ rfl)
  · exact ⟨rfl, fun _ => Iff.rfl⟩

theorem cascade_wellFormed (hw : s.output.WellFormed) (a : Ingestion.Act) :
    (s.cascade a).output.WellFormed := by
  unfold State.cascade
  split
  · exact deleteChunks_wellFormed hw _
  · exact hw

theorem cascade_frame (a : Ingestion.Act) :
    (s.cascade a).queue = s.queue ∧ (s.cascade a).tasks = s.tasks := by
  unfold State.cascade
  split <;> exact ⟨rfl, rfl⟩

/-- A deleted document has neither a row nor a job left. -/
theorem deleteDocument_gone {q q' : Ingestion.State} {document : Nat}
    (h : Ingestion.deleteDocument q document = some q') :
    q'.documents document = none ∧ ∀ id j, q'.jobs id = some j → j.documentId ≠ document := by
  obtain ⟨-, h⟩ := Option.ite_none_right_eq_some.mp h
  cases Option.some.inj h
  refine ⟨Function.update_self .., ?_⟩
  intro id j hj
  simpa using (Option.filter_eq_some_iff.mp hj).2

theorem Inv.external (hi : Inv s) {a : Ingestion.Act} (hx : external a = true)
    {q : Ingestion.State} (hq : Ingestion.step config s.queue a = some q) :
    Inv (State.cascade { s with queue := q } a) := by
  obtain ⟨hqueue, htasks⟩ := cascade_frame (s := { s with queue := q }) a
  have hframe := Ingestion.step_frame hi.queue hq
  have hqi := Ingestion.step_inv hi.queue hq
  have notCommit : ∀ id, a ≠ .commit id := by
    rintro id rfl
    cases hx
  have notRollback : ∀ id, a ≠ .rollback id := by
    rintro id rfl
    cases hx
  have alive : ∀ job worker, (job, worker) ∈ q.claims → Owns q job worker →
      ∀ document, a = .deleteDocument document → job.documentId ≠ document := by
    rintro job worker hc ⟨j, hj, -⟩ document rfl
    have hdoc : job.documentId = j.documentId := (hqi.claim_job _ hc j hj).1
    exact hdoc ▸ (deleteDocument_gone hq).2 _ j hj
  have present : ∀ d, Settled q d → ∀ document, a = .deleteDocument document → d ≠ document := by
    rintro d ⟨⟨doc, hdoc, -⟩, -⟩ document rfl rfl
    rw [(deleteDocument_gone hq).1] at hdoc
    cases hdoc
  have hw : (State.cascade { s with queue := q } a).output.WellFormed :=
    cascade_wellFormed (s := { s with queue := q }) hi.output a
  refine ⟨hqueue ▸ hqi, hw, ?_, ?_, ?_, ?_, ?_⟩
  · intro i t ht
    rw [htasks] at ht
    rw [hqueue]
    exact hframe.claims _ (hi.claimed i t ht)
  · intro i k t v ht hv
    rw [htasks] at ht hv
    exact hi.one i k t v ht hv
  · intro i t ht htx
    rw [htasks] at ht
    rw [hqueue]
    obtain ⟨tx, hl, ho⟩ := hi.transaction i t ht htx
    exact ⟨tx, hframe.locks (notCommit _) (notRollback _) hl, ho⟩
  · intro i t ht ho
    rw [htasks] at ht
    rw [hqueue] at ho
    have hc := hi.claimed i t ht
    have hd := alive _ _ (hframe.claims _ hc) ho
    exact (cascade_same hd).phaseOk (hi.phase i t ht (Ingestion.step_owns hi.queue hq hc ho))
  · intro d hd
    rw [hqueue] at hd
    have hs := Ingestion.step_keepsSettled hi.queue hq notCommit d hd
    exact (cascade_same (present d hd)).indexed.mpr (hi.settled d hs)

theorem Inv.spawn (hi : Inv s) {job : ClaimedJob} {worker : Nat}
    (hc : (job, worker) ∈ s.queue.claims)
    (hnew : ∀ t ∈ s.tasks, t.job.claimToken ≠ job.claimToken) :
    Inv { s with tasks := s.tasks ++ [⟨job, worker, .parsing⟩] } := by
  have other : ∀ (k : Nat) (v : Task), s.tasks[k]? = some v →
      v.job.claimToken ≠ job.claimToken :=
    fun k v hv => hnew v (List.mem_of_getElem? hv)
  refine ⟨hi.queue, hi.output, ?_, ?_, ?_, ?_, hi.settled⟩
  · exact ProcessPool.forall_push hc hi.claimed
  · intro i k t v ht hv hsame
    rcases ProcessPool.getElem?_push_iff.mp ht with ht | ⟨rfl, rfl⟩ <;>
      rcases ProcessPool.getElem?_push_iff.mp hv with hv | ⟨rfl, rfl⟩
    · exact hi.one i k t v ht hv hsame
    · exact absurd hsame (other i t ht)
    · exact absurd hsame.symm (other k v hv)
    · rfl
  · exact ProcessPool.forall_push (fun h => by cases h) hi.transaction
  · exact ProcessPool.forall_push (fun _ => trivial) hi.phase

/-- A heartbeat extends the lease of the task, or ends the task. -/
theorem heartbeat_inv (hi : Inv s) (ht : s.tasks[i]? = some t) {stamp : Int}
    (h : heartbeat config s i t stamp = some u) : Inv u := by
  obtain ⟨-, h⟩ := Option.ite_none_right_eq_some.mp h
  obtain ⟨v, hv, h⟩ := Option.bind_eq_some_iff.mp h
  split at h
  next =>
    obtain ⟨q, hq, rfl⟩ := Option.map_eq_some_iff.mp hv
    cases Option.some.inj h
    have hkeep : s.tasks.set i t = s.tasks := by
      obtain ⟨hlt, heq⟩ := List.getElem?_eq_some_iff.mp ht
      rw [← heq, List.set_getElem_self]
    have hcall : Inv ({ s with queue := q }.goto i t t.phase) := by
      refine hi.call ht hq (fun _ h => by cases h) (fun _ h => by cases h) ?_ id
      intro htx
      obtain ⟨tx, hl, ho⟩ := hi.transaction i t ht htx
      have hframe := Ingestion.step_frame hi.queue hq
      exact ⟨tx, hframe.locks (fun h => by cases h) (fun h => by cases h) hl, ho⟩
    simpa only [State.goto, hkeep] using hcall
  next => exact hi.leave ht h rfl fun _ _ => trivial

theorem fail_inv (hi : Inv s) (ht : s.tasks[i]? = some t) {failure : Ingestion.JobFailure}
    (h : fail config s i t failure = some u) : Inv u := by
  unfold fail at h
  split at h
  · exact hi.leave ht h rfl fun _ _ => trivial
  · exact hi.leave ht h rfl fun _ _ => trivial

theorem step_inv {a : Act} (hi : Inv s) (hf : Fenced s a) (h : step config s a = some u) :
    Inv u := by
  cases a with
  | queue a =>
    obtain ⟨hx, h⟩ := Option.ite_none_right_eq_some.mp h
    obtain ⟨v, hv, rfl⟩ := Option.map_eq_some_iff.mp h
    obtain ⟨q, hq, rfl⟩ := Option.map_eq_some_iff.mp hv
    exact hi.external hx hq
  | spawn job worker =>
    obtain ⟨hg, h⟩ := Option.ite_none_right_eq_some.mp h
    cases Option.some.inj h
    obtain ⟨hc, hnew⟩ := Bool.and_eq_true_iff.mp hg
    exact hi.spawn (List.contains_iff_mem.mp hc) (by simpa using hnew)
  | advance i reply =>
    obtain ⟨t, ht, h⟩ := Option.bind_eq_some_iff.mp h
    exact processDocument_inv hi ht (hf t ht) h
  | heartbeat i stamp =>
    obtain ⟨t, ht, h⟩ := Option.bind_eq_some_iff.mp h
    exact heartbeat_inv hi ht h
  | fail i failure =>
    obtain ⟨t, ht, h⟩ := Option.bind_eq_some_iff.mp h
    exact fail_inv hi ht h
  | crash i =>
    obtain ⟨t, ht, h⟩ := Option.bind_eq_some_iff.mp h
    exact hi.leave ht h rfl fun _ _ => trivial

end Run

theorem initial_inv (now : Int) : Inv (initial now) := by
  refine ⟨Ingestion.initial_inv now, ⟨?_, ?_, ?_, ?_⟩, ?_, ?_, ?_, ?_, ?_⟩
  · rintro d chunk ⟨index, h⟩
    cases h
  · rintro d d' chunk ⟨index, h⟩
    cases h
  · intro d chunk h
    cases h
  · intro d d' chunk h
    cases h
  · intro i t h
    cases h
  · intro i k t u h
    cases h
  · intro i t h
    cases h
  · intro i t h
    cases h
  · rintro d ⟨⟨doc, h, -⟩, -⟩
    cases h

/-- In every run whose writes to chunk rows and points are made only for the claim that holds the
job, and whose runs without chunks meet no chunk rows, each document that is `COMPLETED` without an
active job is indexed. -/
theorem completed_document_indexed (config : WorkerConfig) (now : Int) {s : State}
    (h : Reach (· = initial now) (step config) Fenced s) :
    ∀ document d, s.queue.documents document = some d → d.status = .completed →
      s.queue.hasActiveJob document = false → Indexed s.output document := by
  have hi : Inv s := by
    refine h.invariant ?_ fun s t a hs hf hstep => step_inv hs hf hstep
    rintro s rfl
    exact initial_inv now
  intro document d hd hs hidle
  refine hi.settled document ⟨⟨d, hd, hs⟩, fun hactive => ?_⟩
  rw [(Ingestion.hasActiveJob_iff hi.queue.jobs_fresh).mpr hactive] at hidle
  cases hidle

/-- The calls of a task for a document of one chunk, up to its last check of the lease. -/
def callsBeforeWrite (i : Nat) (stamp : Int) : List Act :=
  [.advance i (.stamped stamp), .advance i (.chunks 1), .advance i (.stamped stamp),
    .advance i (.stamped stamp), .advance i (.stamped stamp), .advance i .done,
    .advance i (.rows [0]), .advance i .done, .advance i (.stamped stamp), .advance i .done,
    .advance i (.stamped stamp)]

/-- The two calls of Qdrant and the transaction that completes the document. -/
def callsFromWrite (i : Nat) (stamp : Int) : List Act :=
  [.advance i .done, .advance i .done, .advance i .done, .advance i (.stamped stamp),
    .advance i .done]

def startTask : List Act := [.queue (.upload 7 0), .queue (.claim 0 [0] 0), .spawn firstClaim 0]

def indexedRun : List Act := startTask ++ callsBeforeWrite 0 0 ++ callsFromWrite 0 0

def indexedState : State := (run (step sampleConfig) (initial 0) indexedRun).getD (initial 0)

theorem fenced_of_task {s : State} {i : Nat} {t : Task} {reply : Reply} (ht : s.tasks[i]? = some t)
    (hf : t.Fenced s) : Fenced s (.advance i reply) := by
  intro u hu
  cases Option.some.inj (ht.symm.trans hu)
  exact hf

theorem indexedRun_fenced : Meets (step sampleConfig) Fenced (initial 0) indexedRun := by
  refine .cons trivial rfl (.cons trivial rfl (.cons trivial rfl ?_))
  refine .cons (fenced_of_task rfl trivial) rfl (.cons (fenced_of_task rfl trivial) rfl ?_)
  refine .cons (fenced_of_task rfl trivial) rfl (.cons (fenced_of_task rfl trivial) rfl ?_)
  refine .cons (fenced_of_task rfl trivial) rfl (.cons (fenced_of_task rfl rfl) rfl ?_)
  refine .cons (fenced_of_task rfl trivial) rfl (.cons (fenced_of_task rfl trivial) rfl ?_)
  refine .cons (fenced_of_task rfl trivial) rfl (.cons (fenced_of_task rfl trivial) rfl ?_)
  refine .cons (fenced_of_task rfl trivial) rfl ?_
  refine .cons (fenced_of_task rfl ⟨rfl, nofun⟩) rfl (.cons (fenced_of_task rfl rfl) rfl ?_)
  refine .cons (fenced_of_task rfl trivial) rfl (.cons (fenced_of_task rfl trivial) rfl ?_)
  exact .cons (fenced_of_task rfl trivial) rfl trivial

theorem completed_document_indexed_run :
    indexedState.output.chunks 0 0 = some 0 ∧ Indexed indexedState.output 0 := by
  have hr : run (step sampleConfig) (initial 0) indexedRun = some indexedState := rfl
  have hreach : Reach (· = initial 0) (step sampleConfig) Fenced indexedState :=
    Reach.of_run (.start rfl) indexedRun_fenced hr
  exact ⟨rfl, completed_document_indexed sampleConfig 0 hreach 0 _ rfl rfl (by decide)⟩

def secondClaim : ClaimedJob := ⟨0, 0, 7, 2, 5, 1⟩

/-- Worker 0 has passed its last check of the lease when worker 1 takes the job over and completes
it; then its delete arrives, and it is aborted. -/
def staleDeleteRun : List Act :=
  startTask ++ callsBeforeWrite 0 0 ++
    [.queue (.tick 301), .queue (.claim 1 [0] 301), .spawn secondClaim 1] ++
    callsBeforeWrite 1 301 ++ callsFromWrite 1 301 ++ [.advance 0 .done, .heartbeat 0 301]

/-- The document is `COMPLETED` and `DONE` without an active job, its chunk row has no point. -/
theorem stale_delete_empties_index :
    ∃ s, Reach (· = initial 0) (step sampleConfig) anyStep s ∧
      (s.queue.documents 0).map Ingestion.Document.status = some .completed ∧
      (s.queue.documents 0).map Ingestion.Document.processingStage = some .done ∧
      s.queue.hasActiveJob 0 = false ∧ ¬ Indexed s.output 0 := by
  have hr : run (step sampleConfig) (initial 0) staleDeleteRun = some
      ((run (step sampleConfig) (initial 0) staleDeleteRun).getD (initial 0)) := rfl
  refine ⟨_, Reach.of_free_run rfl hr, rfl, rfl, rfl, fun h => ?_⟩
  have hpoint := (h 0).mpr ⟨0, rfl⟩
  cases hpoint

end GmragApi.Indexing

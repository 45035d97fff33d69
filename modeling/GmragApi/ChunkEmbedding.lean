import GmragApi.Batching
import GmragApi.Reingestion

/-! The embedding of all chunks of a document: batches that end in any order, each with its
retries, and the vectors put back to the chunks they belong to. -/

namespace GmragApi.Embedding

open Batching Reingestion

variable {F : Type}

/-- The limits that the environment sets, none of the first two below one. -/
structure EmbeddingConfig where
  batchSize : Nat
  concurrency : Nat
  timeoutSecs : Nat
  retries : Nat
  dimension : Nat
  model : List Char

inductive EmbedError
  | http (message : List Char)
  | empty
  | countMismatch (expected actual : Nat)
  | dimensionMismatch (expected actual : Nat) (model : List Char)
  deriving DecidableEq

inductive ProcessError
  | embed (err : EmbedError)
  | embedTimeout (timeoutSecs : Nat)
  | missingEmbedding (chunkIndex : Nat)
  deriving DecidableEq

/-- What the embedding server answers to one request. -/
inductive Answer (F : Type)
  | failed (message : List Char)
  | payload (embeddings : List (List F))
  deriving DecidableEq

section Requests

variable (config : EmbeddingConfig)

def validateEmbeddingDimensions (embeddings : List (List F)) : Except EmbedError Unit :=
  match embeddings.find? fun embedding => embedding.length ≠ config.dimension with
  | some embedding =>
    .error (.dimensionMismatch config.dimension embedding.length config.model)
  | none => .ok ()

def embedTexts (answer : Answer F) (texts : List (List Char)) :
    Except EmbedError (List (List F)) :=
  if texts.isEmpty then .ok []
  else
    match answer with
    | .failed message => .error (.http message)
    | .payload embeddings =>
      if embeddings.length ≠ texts.length then
        .error (.countMismatch texts.length embeddings.length)
      else if embeddings.any List.isEmpty then .error .empty
      else
        match validateEmbeddingDimensions config embeddings with
        | .error err => .error err
        | .ok () => .ok embeddings

/-- One attempt; the timeout leaves no answer. -/
def attempt (answer : Option (Answer F)) (texts : List (List Char)) :
    Except ProcessError (List (List F)) :=
  match answer with
  | none => .error (.embedTimeout config.timeoutSecs)
  | some answer =>
    match embedTexts config answer texts with
    | .ok embeddings => .ok embeddings
    | .error err => .error (.embed err)

/-- The attempts from the `k`-th on, as many as are left. -/
def attemptsFrom (answers : Nat → Option (Answer F)) (texts : List (List Char)) :
    Nat → Nat → Option ProcessError → Except ProcessError (List (List F))
  | 0, _, lastError => .error (lastError.getD (.embedTimeout config.timeoutSecs))
  | left + 1, k, _ =>
    match attempt config (answers k) texts with
    | .ok embeddings => .ok embeddings
    | .error err => attemptsFrom answers texts left (k + 1) (some err)

def embedBatchWithRetry (answers : Nat → Option (Answer F)) (texts : List (List Char)) :
    Except ProcessError (List (List F)) :=
  attemptsFrom config answers texts (config.retries + 1) 0 none

/-- A batch with its start; `answers` has a row for each start. -/
def embedBatch (answers : Nat → Nat → Option (Answer F)) (batch : Nat × List (List Char)) :
    Except ProcessError (Nat × List (List F)) :=
  match embedBatchWithRetry config (answers batch.1) batch.2 with
  | .ok embeddings => .ok (batch.1, embeddings)
  | .error err => .error err

/-- The results up to the first error. -/
def takeResults {α : Type} : List (Except ProcessError α) → Except ProcessError (List α)
  | [] => .ok []
  | .error err :: _ => .error err
  | .ok a :: rest =>
    match takeResults rest with
    | .ok as => .ok (a :: as)
    | .error err => .error err

/-- The vectors from the slot `index` on; an empty slot is an error. -/
def takeVectors (index : Nat) : List (Option (List F)) → Except ProcessError (List (List F))
  | [] => .ok []
  | none :: _ => .error (.missingEmbedding index)
  | some embedding :: rest =>
    match takeVectors (index + 1) rest with
    | .ok embeddings => .ok (embedding :: embeddings)
    | .error err => .error err

/-- `schedule` tells which of the running batches ends next; it has no result before all have. -/
def embedChunksBatched (answers : Nat → Nat → Option (Answer F)) (schedule : List Nat)
    (chunks : List (List Char)) : Option (Except ProcessError (List (List F))) :=
  (Transition.run (Buffer.complete config.concurrency (embedBatch config answers))
    (Buffer.ofList (batches config.batchSize chunks)) schedule).bind fun buffer =>
      if buffer.finished then
        some <|
          match takeResults buffer.done with
          | .error err => .error err
          | .ok results => takeVectors 0 (placeEmbeddings chunks.length results)
      else none

end Requests

section Batch

variable {config : EmbeddingConfig} {answers : Nat → Option (Answer F)}
  {texts : List (List Char)} {embeddings : List (List F)}

/-- An answer that is taken has a vector of the right dimension for each text. -/
theorem embedTexts_ok {answer : Answer F} (htexts : texts ≠ [])
    (h : embedTexts config answer texts = .ok embeddings) :
    answer = .payload embeddings ∧ embeddings.length = texts.length ∧
      ∀ embedding ∈ embeddings, embedding.length = config.dimension := by
  unfold embedTexts at h
  rw [if_neg (by simpa using htexts)] at h
  split at h
  next => cases h
  next payload =>
    split at h
    next => cases h
    next hlen =>
      split at h
      next => cases h
      next =>
        split at h
        next => cases h
        next hvalid =>
          cases h
          refine ⟨rfl, not_not.mp hlen, fun embedding hmem => ?_⟩
          unfold validateEmbeddingDimensions at hvalid
          split at hvalid
          next => cases hvalid
          next hnone =>
            have hdim := List.find?_eq_none.mp hnone embedding hmem
            simpa using hdim

theorem attempt_ok {answer : Option (Answer F)} (htexts : texts ≠ [])
    (h : attempt config answer texts = .ok embeddings) :
    answer = some (.payload embeddings) ∧ embeddings.length = texts.length := by
  unfold attempt at h
  split at h
  next => cases h
  next answer =>
    split at h
    next embeddings' hembed =>
      cases h
      obtain ⟨rfl, hlen, -⟩ := embedTexts_ok htexts hembed
      exact ⟨rfl, hlen⟩
    next => cases h

/-- The attempts fail together or give what one of them gives. -/
theorem attemptsFrom_cases (config : EmbeddingConfig) (answers : Nat → Option (Answer F))
    (texts : List (List Char)) (left k : Nat) (lastError : Option ProcessError) :
    (∃ j, k ≤ j ∧ j < k + left ∧ ∃ embeddings,
        attempt config (answers j) texts = .ok embeddings ∧
          attemptsFrom config answers texts left k lastError = .ok embeddings) ∨
      ((∀ j, k ≤ j → j < k + left → ∃ err, attempt config (answers j) texts = .error err) ∧
        ∃ err, attemptsFrom config answers texts left k lastError = .error err) := by
  induction left generalizing k lastError with
  | zero => exact .inr ⟨fun j hkj hj => by omega, _, rfl⟩
  | succ left ih =>
    rw [attemptsFrom]
    cases hattempt : attempt config (answers k) texts with
    | ok embeddings => exact .inl ⟨k, le_rfl, by omega, embeddings, hattempt, rfl⟩
    | error err =>
      rcases ih (k + 1) (some err) with ⟨j, hkj, hj, hok⟩ | ⟨hall, herr⟩
      · exact .inl ⟨j, by omega, by omega, hok⟩
      · refine .inr ⟨fun j hkj hj => ?_, herr⟩
        rcases Nat.eq_or_lt_of_le hkj with rfl | hlt
        · exact ⟨err, hattempt⟩
        · exact hall j (by omega) (by omega)

/-- Every attempt at the batch fails. -/
def Exhausts (config : EmbeddingConfig) (answers : Nat → Option (Answer F))
    (texts : List (List Char)) : Prop :=
  ∀ k ≤ config.retries, ∃ err, attempt config (answers k) texts = .error err

theorem embedBatchWithRetry_error :
    (∃ err, embedBatchWithRetry config answers texts = .error err) ↔
      Exhausts config answers texts := by
  unfold embedBatchWithRetry
  rcases attemptsFrom_cases config answers texts (config.retries + 1) 0 none with
    ⟨j, -, hj, embeddings, hattempt, hok⟩ | ⟨hall, herr⟩
  · constructor
    · rintro ⟨err, herr⟩
      rw [hok] at herr
      cases herr
    · intro h
      obtain ⟨err, herr⟩ := h j (by omega)
      rw [hattempt] at herr
      cases herr
  · exact ⟨fun _ k hk => hall k (Nat.zero_le _) (by omega), fun _ => herr⟩

theorem embedBatchWithRetry_ok (h : embedBatchWithRetry config answers texts = .ok embeddings) :
    ∃ k ≤ config.retries, attempt config (answers k) texts = .ok embeddings := by
  unfold embedBatchWithRetry at h
  rcases attemptsFrom_cases config answers texts (config.retries + 1) 0 none with
    ⟨j, -, hj, embeddings', hattempt, hok⟩ | ⟨-, err, herr⟩
  · rw [hok] at h
    cases h
    exact ⟨j, by omega, hattempt⟩
  · rw [herr] at h
    cases h

end Batch

section Results

variable {α : Type}

theorem takeResults_map_ok (as : List α) : takeResults (as.map .ok) = .ok as := by
  induction as with
  | nil => rfl
  | cons a as ih => rw [List.map_cons, takeResults, ih]

theorem takeResults_error {results : List (Except ProcessError α)} :
    (∃ err, takeResults results = .error err) ↔ ∃ err, .error err ∈ results := by
  induction results with
  | nil =>
    constructor
    · rintro ⟨err, h⟩
      cases h
    · rintro ⟨err, h⟩
      cases h
  | cons result rest ih =>
    cases result with
    | error err => exact ⟨fun _ => ⟨err, List.mem_cons_self⟩, fun _ => ⟨err, rfl⟩⟩
    | ok a =>
      have hrest : (∃ err, takeResults (.ok a :: rest) = .error err) ↔
          ∃ err, takeResults rest = .error err := by
        rw [takeResults]
        cases takeResults rest with
        | ok as => simp
        | error err => simp
      rw [hrest, ih]
      simp

theorem eq_map_ok_of_forall {results : List (Except ProcessError α)}
    (h : ∀ result ∈ results, ∃ a, result = .ok a) : ∃ as : List α, results = as.map .ok := by
  induction results with
  | nil => exact ⟨[], rfl⟩
  | cons result rest ih =>
    obtain ⟨a, rfl⟩ := h result List.mem_cons_self
    obtain ⟨as, rfl⟩ := ih fun result hresult => h result (List.mem_cons_of_mem _ hresult)
    exact ⟨a :: as, rfl⟩

theorem takeVectors_map_some (index : Nat) (embeddings : List (List F)) :
    takeVectors index (embeddings.map some) = .ok embeddings := by
  induction embeddings generalizing index with
  | nil => rfl
  | cons embedding rest ih => rw [List.map_cons, takeVectors, ih]

/-- The loop over the results writes every vector to its start plus its offset. -/
theorem placeEmbeddings_eq_place (count : Nat) (results : List (Nat × List α)) :
    placeEmbeddings count results =
      place (List.replicate count none) (results.flatMap fun result => result.2.zipIdx result.1) := by
  unfold placeEmbeddings place
  rw [List.foldl_flatMap]
  congr 1
  funext ordered result
  rw [List.zipIdx_eq_map_add (i := result.1), List.foldl_map]

end Results

section Chunks

variable {config : EmbeddingConfig} {answers : Nat → Nat → Option (Answer F)}
  {chunks : List (List Char)}

/-- The texts of the `k`-th batch. -/
def batchTexts (config : EmbeddingConfig) (chunks : List (List Char)) (k : Nat) :
    List (List Char) :=
  (chunks.drop (k * config.batchSize)).take config.batchSize

/-- Every attempt at the `k`-th batch fails. -/
def BatchFails (config : EmbeddingConfig) (answers : Nat → Nat → Option (Answer F))
    (chunks : List (List Char)) (k : Nat) : Prop :=
  Exhausts config (answers (k * config.batchSize)) (batchTexts config chunks k)

/-- The vector stands, in an answer of the server to a request, where the chunk stands in the
request. -/
def EmbeddingOf (config : EmbeddingConfig) (answers : Nat → Nat → Option (Answer F))
    (chunks : List (List Char)) (i : Nat) (embedding : List F) : Prop :=
  let k := i / config.batchSize
  ∃ attempt ≤ config.retries, ∃ payload,
    answers (k * config.batchSize) attempt = some (.payload payload) ∧
      payload.length = (batchTexts config chunks k).length ∧
      (batchTexts config chunks k)[i % config.batchSize]? = chunks[i]? ∧
      payload[i % config.batchSize]? = some embedding

/-- What the embedding of a list of chunks is to come to. -/
structure Embedded (config : EmbeddingConfig) (answers : Nat → Nat → Option (Answer F))
    (chunks : List (List Char)) (result : Except ProcessError (List (List F))) : Prop where
  failed : (∃ err, result = .error err) ↔
    ∃ k < batchCount config.batchSize chunks, BatchFails config answers chunks k
  count : ∀ embeddings, result = .ok embeddings → embeddings.length = chunks.length
  inOrder : ∀ embeddings, result = .ok embeddings → ∀ i embedding,
    embeddings[i]? = some embedding → EmbeddingOf config answers chunks i embedding

/-- The vectors that a batch without an error gives. -/
def vectorsOf (config : EmbeddingConfig) (answers : Nat → Nat → Option (Answer F))
    (chunks : List (List Char)) (k : Nat) : List (List F) :=
  match embedBatchWithRetry config (answers (k * config.batchSize)) (batchTexts config chunks k) with
  | .ok embeddings => embeddings
  | .error _ => []

theorem mem_embedded_batches {result : Except ProcessError (Nat × List (List F))} :
    result ∈ (batches config.batchSize chunks).map (embedBatch config answers) ↔
      ∃ k < batchCount config.batchSize chunks,
        embedBatch config answers (k * config.batchSize, batchTexts config chunks k) = result := by
  simp only [batches, List.map_map, List.mem_map, List.mem_range]
  rfl

theorem embedBatch_error {k : Nat} :
    (∃ err, embedBatch config answers (k * config.batchSize, batchTexts config chunks k) =
      .error err) ↔ BatchFails config answers chunks k := by
  rw [BatchFails, ← embedBatchWithRetry_error]
  unfold embedBatch
  dsimp only
  cases embedBatchWithRetry config (answers (k * config.batchSize))
    (batchTexts config chunks k) with
  | ok embeddings => simp
  | error err => simp

theorem batchTexts_ne_nil (hsize : 0 < config.batchSize) {k : Nat}
    (hk : k < batchCount config.batchSize chunks) : batchTexts config chunks k ≠ [] := by
  have hstart := ((batchCount_bounds hsize chunks).2 k).mp hk
  rw [← List.length_pos_iff, batchTexts, List.length_take, List.length_drop]
  omega

/-- A batch that does not fail gives the vectors of one of the answers to it. -/
theorem vectorsOf_spec (hsize : 0 < config.batchSize) {k : Nat}
    (hk : k < batchCount config.batchSize chunks) (h : ¬ BatchFails config answers chunks k) :
    embedBatch config answers (k * config.batchSize, batchTexts config chunks k) =
        .ok (k * config.batchSize, vectorsOf config answers chunks k) ∧
      (vectorsOf config answers chunks k).length = (batchTexts config chunks k).length ∧
      ∃ attempt ≤ config.retries, answers (k * config.batchSize) attempt =
        some (.payload (vectorsOf config answers chunks k)) := by
  rw [BatchFails, ← embedBatchWithRetry_error] at h
  unfold embedBatch vectorsOf
  dsimp only
  cases hbatch : embedBatchWithRetry config (answers (k * config.batchSize))
    (batchTexts config chunks k) with
  | error err => exact absurd ⟨err, hbatch⟩ h
  | ok embeddings =>
    obtain ⟨attempt, hretry, hok⟩ := embedBatchWithRetry_ok hbatch
    obtain ⟨hanswer, hlen⟩ := attempt_ok (batchTexts_ne_nil hsize hk) hok
    exact ⟨rfl, hlen, attempt, hretry, hanswer⟩

theorem embeddingOf_getElem? (hsize : 0 < config.batchSize)
    (hall : ∀ k < batchCount config.batchSize chunks, ¬ BatchFails config answers chunks k)
    {i : Nat} {embedding : List F}
    (hi : ((List.range (batchCount config.batchSize chunks)).flatMap
      (vectorsOf config answers chunks))[i]? = some embedding) :
    EmbeddingOf config answers chunks i embedding := by
  have hlength := flatMap_batch_length hsize
    fun k hk => (vectorsOf_spec hsize hk (hall k hk)).2.1
  have hfull := fun k (hk : k + 1 < batchCount config.batchSize chunks) =>
    (vectorsOf_spec hsize (by omega) (hall k (by omega))).2.1.trans (batch_length hsize hk)
  have hlt : i < chunks.length := hlength ▸ (List.getElem?_eq_some_iff.mp hi).1
  have hdiv : i / config.batchSize * config.batchSize + i % config.batchSize = i :=
    Nat.div_add_mod' i config.batchSize
  have hmod := Nat.mod_lt i hsize
  have hk : i / config.batchSize < batchCount config.batchSize chunks :=
    ((batchCount_bounds hsize chunks).2 _).mpr (by omega)
  obtain ⟨-, hlen, attempt, hretry, hanswer⟩ := vectorsOf_spec hsize hk (hall _ hk)
  have htext : (batchTexts config chunks (i / config.batchSize))[i % config.batchSize]? =
      chunks[i]? := by
    rw [batchTexts, List.getElem?_take_of_lt hmod, List.getElem?_drop, hdiv]
  refine ⟨attempt, hretry, _, hanswer, hlen, htext, ?_⟩
  rw [List.getElem?_eq_getElem hlt] at htext
  have hpos : i % config.batchSize <
      (vectorsOf config answers chunks (i / config.batchSize)).length := by
    rw [hlen]
    exact (List.getElem?_eq_some_iff.mp htext).1
  have hthere := flatMap_getElem? hfull hk (List.getElem?_eq_getElem hpos)
  rw [hdiv, hi] at hthere
  rw [List.getElem?_eq_getElem hpos, hthere]

/-- When no batch fails, the vectors come out in the order of the batches, whichever ended first. -/
theorem embedChunksBatched_ok (hsize : 0 < config.batchSize) {schedule : List Nat}
    {result : Except ProcessError (List (List F))}
    (h : embedChunksBatched config answers schedule chunks = some result)
    (hall : ∀ k < batchCount config.batchSize chunks, ¬ BatchFails config answers chunks k) :
    result = .ok ((List.range (batchCount config.batchSize chunks)).flatMap
      (vectorsOf config answers chunks)) := by
  obtain ⟨buffer, hrun, h⟩ := Option.bind_eq_some_iff.mp h
  obtain ⟨hfinished, h⟩ := Option.ite_none_right_eq_some.mp h
  have hdone := Buffer.run_done hrun hfinished
  -- all batches have vectors, so the outputs are these vectors with their starts
  have houtputs : (batches config.batchSize chunks).map (embedBatch config answers) =
      ((List.range (batchCount config.batchSize chunks)).map fun k =>
        (k * config.batchSize, vectorsOf config answers chunks k)).map .ok := by
    rw [batches, List.map_map, List.map_map]
    refine List.map_congr_left fun k hk => ?_
    have hk := List.mem_range.mp hk
    exact (vectorsOf_spec hsize hk (hall k hk)).1
  rw [houtputs] at hdone
  obtain ⟨results, hresults⟩ := eq_map_ok_of_forall fun output houtput => by
    obtain ⟨entry, -, hentry⟩ := List.mem_map.mp (hdone.mem_iff.mp houtput)
    exact ⟨entry, hentry.symm⟩
  rw [hresults, List.map_perm_map_iff fun _ _ => Except.ok.inj] at hdone
  rw [hresults, takeResults_map_ok] at h
  have hlength := flatMap_batch_length hsize
    fun k hk => (vectorsOf_spec hsize hk (hall k hk)).2.1
  have hordered := flatMap_zipIdx fun k (hk : k + 1 < batchCount config.batchSize chunks) =>
    (vectorsOf_spec hsize (by omega) (hall k (by omega))).2.1.trans (batch_length hsize hk)
  have hentries := hdone.flatMap_right fun result => result.2.zipIdx result.1
  rw [List.flatMap_map] at hentries
  have hplaced := place_of_perm (hentries.trans (.of_eq hordered))
  dsimp only at h
  rw [placeEmbeddings_eq_place, ← hlength, hplaced, takeVectors_map_some] at h
  exact (Option.some.inj h).symm

theorem embedChunksBatched_error {schedule : List Nat}
    {result : Except ProcessError (List (List F))}
    (h : embedChunksBatched config answers schedule chunks = some result)
    (hfails : ∃ k < batchCount config.batchSize chunks, BatchFails config answers chunks k) :
    ∃ err, result = .error err := by
  obtain ⟨buffer, hrun, h⟩ := Option.bind_eq_some_iff.mp h
  obtain ⟨hfinished, h⟩ := Option.ite_none_right_eq_some.mp h
  have hdone := Buffer.run_done hrun hfinished
  obtain ⟨k, hk, hfail⟩ := hfails
  obtain ⟨err, herr⟩ := embedBatch_error.mpr hfail
  obtain ⟨err', herr'⟩ := takeResults_error.mpr
    ⟨err, hdone.mem_iff.mpr (mem_embedded_batches.mpr ⟨k, hk, herr⟩)⟩
  rw [herr'] at h
  exact ⟨err', (Option.some.inj h).symm⟩

/-- Whatever the server answers and whichever batch ends first, the run comes to an end, fails
exactly if some batch fails at every attempt, and gives each chunk its own vector otherwise. -/
theorem embedChunksBatched_embedded (config : EmbeddingConfig)
    (answers : Nat → Nat → Option (Answer F)) (chunks : List (List Char))
    (hsize : 0 < config.batchSize) (hconcurrency : 0 < config.concurrency) :
    (∃ schedule result, embedChunksBatched config answers schedule chunks = some result) ∧
      ∀ schedule result, embedChunksBatched config answers schedule chunks = some result →
        Embedded config answers chunks result := by
  constructor
  · obtain ⟨schedule, buffer, hrun, hfinished⟩ := Buffer.run_finishes hconcurrency
      (embedBatch config answers) (Buffer.ofList (batches config.batchSize chunks))
    have hsome : (embedChunksBatched config answers schedule chunks).isSome := by
      unfold embedChunksBatched
      rw [hrun, Option.bind_some, if_pos hfinished]
      rfl
    exact ⟨schedule, Option.isSome_iff_exists.mp hsome⟩
  · intro schedule result h
    by_cases hfails : ∃ k < batchCount config.batchSize chunks, BatchFails config answers chunks k
    · obtain ⟨err, rfl⟩ := embedChunksBatched_error h hfails
      exact ⟨⟨fun _ => hfails, fun _ => ⟨err, rfl⟩⟩, fun _ hok => (by cases hok),
        fun _ hok => (by cases hok)⟩
    · have hall : ∀ k < batchCount config.batchSize chunks, ¬ BatchFails config answers chunks k :=
        fun k hk hfail => hfails ⟨k, hk, hfail⟩
      obtain rfl := embedChunksBatched_ok hsize h hall
      refine ⟨⟨?_, fun hfail => absurd hfail hfails⟩, ?_, ?_⟩
      · rintro ⟨err, herr⟩
        cases herr
      · intro embeddings hok
        obtain rfl := Except.ok.inj hok
        exact flatMap_batch_length hsize fun k hk => (vectorsOf_spec hsize hk (hall k hk)).2.1
      · intro embeddings hok i embedding hi
        obtain rfl := Except.ok.inj hok
        exact embeddingOf_getElem? hsize hall hi

end Chunks

section Stage

variable {config : EmbeddingConfig} {answers : Nat → Nat → Option (Answer F)}

theorem takeResults_toOption {α : Type} (results : List (Except ProcessError α)) :
    (results.map Except.toOption).mapM id = (takeResults results).toOption := by
  induction results with
  | nil => rfl
  | cons result rest ih =>
    rw [List.map_cons, List.mapM_cons, ih]
    cases result with
    | error err => rfl
    | ok a =>
      rw [takeResults]
      cases takeResults rest with
      | ok as => rfl
      | error err => rfl

theorem takeVectors_toOption (index : Nat) (slots : List (Option (List F))) :
    slots.mapM id = (takeVectors index slots).toOption := by
  induction slots generalizing index with
  | nil => rfl
  | cons slot rest ih =>
    rw [List.mapM_cons, ih (index + 1)]
    cases slot with
    | none => rfl
    | some embedding =>
      rw [takeVectors]
      cases takeVectors (index + 1) rest with
      | ok embeddings => rfl
      | error err => rfl

/-- What the ingestion run makes of the outputs of its batches is what the embedding comes to. -/
theorem embedChunksBatched_toOption {chunks : List (List Char)} {schedule : List Nat}
    {result : Except ProcessError (List (List F))}
    (h : embedChunksBatched config answers schedule chunks = some result) :
    ∃ results, results.Perm
        (((batches config.batchSize chunks).map (embedBatch config answers)).map
          Except.toOption) ∧
      Reingestion.embedChunksBatched chunks.length results = result.toOption := by
  obtain ⟨buffer, hrun, h⟩ := Option.bind_eq_some_iff.mp h
  obtain ⟨hfinished, h⟩ := Option.ite_none_right_eq_some.mp h
  refine ⟨buffer.done.map Except.toOption, (Buffer.run_done hrun hfinished).map _, ?_⟩
  rw [← Option.some.inj h, Reingestion.embedChunksBatched, takeResults_toOption]
  cases takeResults buffer.done with
  | error err => rfl
  | ok results => exact takeVectors_toOption 0 _

end Stage

section Sample

def sampleConfig : EmbeddingConfig := ⟨2, 2, 120, 1, 1, ['m']⟩

def sampleChunks : List (List Char) := [['a'], ['b'], ['c']]

/-- The first attempt at the second batch runs into the timeout. -/
def sampleAnswers : Nat → Nat → Option (Answer Nat)
  | 0, _ => some (.payload [[1], [2]])
  | _, 0 => none
  | _, _ => some (.payload [[3]])

/-- The second batch ends first. -/
theorem embedChunksBatched_embedded_sample :
    embedChunksBatched sampleConfig sampleAnswers [1, 0] sampleChunks =
        some (.ok [[1], [2], [3]]) ∧
      Embedded sampleConfig sampleAnswers sampleChunks (.ok [[1], [2], [3]]) := by
  have hrun : embedChunksBatched sampleConfig sampleAnswers [1, 0] sampleChunks =
      some (.ok [[1], [2], [3]]) := rfl
  exact ⟨hrun, (embedChunksBatched_embedded sampleConfig sampleAnswers sampleChunks (by decide)
    (by decide)).2 [1, 0] _ hrun⟩

end Sample

end GmragApi.Embedding

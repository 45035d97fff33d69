import GmragApi.Batching
import GmragApi.GraphParsing
import GmragApi.Query
import GmragApi.Reingestion

/-! The extraction of the graph, chunk by chunk: requests run at the same time and end in any order,
fail on their own, and may be cut off together. -/

namespace GmragApi.GraphExtraction

open Batching GmragApi.Graph Reingestion

/-- `GRAPH_EXTRACTION` settings; the least values are those of their environment variables. -/
structure ExtractionConfig where
  concurrency : Nat
  timeoutSecs : Nat
  retries : Nat
  concurrency_pos : 0 < concurrency

inductive GraphError
  | missingApiKey
  | http
  | emptyResponse
  | invalidJson
  deriving DecidableEq

inductive ProcessError
  | graph (err : GraphError)
  | graphTimeout (timeoutSecs : Nat)

/-- What a request comes to: there is no key, it fails on its way, or its body holds the contents of
the choices. -/
inductive Reply
  | noApiKey
  | failed
  | choices (contents : List (List Char))

def effectiveGraphExtractionConcurrency (config : ExtractionConfig) (chunkCount : Nat) : Nat :=
  min config.concurrency (max chunkCount 1)

section Requests

variable (config : ExtractionConfig) (fromStr : List Char → Option Json)

def extractGraphElements (reply : Reply) : Except GraphError (List GraphElement) :=
  match reply with
  | .noApiKey => .error .missingApiKey
  | .failed => .error .http
  | .choices contents =>
    match contents.head?.filter fun content => !(trim content).isEmpty with
    | none => .error .emptyResponse
    | some content =>
      match parseGraphElements fromStr content with
      | some elements => .ok elements
      | none => .error .invalidJson

/-- The attempts from the `k`-th on, as many as are left; a timeout leaves no reply. -/
def attemptsFrom (replies : Nat → Option Reply) :
    Nat → Nat → Option ProcessError → Except ProcessError (List GraphElement)
  | 0, _, lastError => .error (lastError.getD (.graphTimeout config.timeoutSecs))
  | left + 1, k, _ =>
    match replies k with
    | none => attemptsFrom replies left (k + 1) (some (.graphTimeout config.timeoutSecs))
    | some reply =>
      match extractGraphElements fromStr reply with
      | .ok elements => .ok elements
      | .error .missingApiKey => .error (.graph .missingApiKey)
      | .error err => attemptsFrom replies left (k + 1) (some (.graph err))

def extractGraphWithRetry (replies : Nat → Option Reply) :
    Except ProcessError (List GraphElement) :=
  attemptsFrom config fromStr replies (config.retries + 1) 0 none

/-- A chunk with its index, to its result under the same index. -/
def extractChunk (replies : Int → Nat → Option Reply) (input : Int × List Char) :
    Int × Except ProcessError (List GraphElement) :=
  (input.1, extractGraphWithRetry config fromStr (replies input.1))

def keepElements (outcome : Int × Except ProcessError (List GraphElement)) :
    Option (Int × List GraphElement) :=
  match outcome.2 with
  | .ok elements => some (outcome.1, elements)
  | .error _ => none

structure Stage where
  results : List (Int × List GraphElement)
  completed : Bool

/-- `schedule` tells which of the running requests ends next; where some have not ended, the timeout
of the stage cut them off. -/
def extractGraphForChunks {ν : Type} (replies : Int → Nat → Option Reply) (schedule : List Nat)
    (chunks : List (ChunkRow ν)) : Option Stage :=
  let inputs := chunks.map fun chunk => (chunk.index, chunk.text)
  let concurrency := effectiveGraphExtractionConcurrency config chunks.length
  (Transition.run (Buffer.complete concurrency (extractChunk config fromStr replies))
    (Buffer.ofList inputs) schedule).map fun buffer =>
      ⟨Query.orderBy Prod.fst (buffer.done.filterMap keepElements), buffer.finished⟩

end Requests

section Retry

variable {config : ExtractionConfig} {fromStr : List Char → Option Json}
  {replies : Nat → Option Reply} {elements : List GraphElement}

/-- The attempt fails, and not for want of a key. -/
def Retryable (fromStr : List Char → Option Json) : Option Reply → Prop
  | none => True
  | some reply =>
    ∃ err, extractGraphElements fromStr reply = .error err ∧ err ≠ .missingApiKey

def Succeeds (fromStr : List Char → Option Json) (elements : List GraphElement) :
    Option Reply → Prop
  | none => False
  | some reply => extractGraphElements fromStr reply = .ok elements

/-- The first attempt that is not to be repeated gives the elements. -/
def ExtractedAt (config : ExtractionConfig) (fromStr : List Char → Option Json)
    (replies : Nat → Option Reply) (elements : List GraphElement) : Prop :=
  ∃ k ≤ config.retries, Succeeds fromStr elements (replies k) ∧
    ∀ j < k, Retryable fromStr (replies j)

theorem not_retryable_of_succeeds {answer : Option Reply}
    (h : Succeeds fromStr elements answer) : ¬ Retryable fromStr answer := by
  cases answer with
  | none => exact fun _ => h
  | some reply =>
    rintro ⟨err, herr, -⟩
    rw [Succeeds, herr] at h
    cases h

theorem succeeds_unique {answer : Option Reply} {elements' : List GraphElement}
    (h : Succeeds fromStr elements answer) (h' : Succeeds fromStr elements' answer) :
    elements = elements' := by
  cases answer with
  | none => exact h.elim
  | some reply => exact Except.ok.inj (h.symm.trans h')

/-- What an attempt leads to, by the kind of its answer. -/
theorem attemptsFrom_succ (left k : Nat) (lastError : Option ProcessError) :
    (Retryable fromStr (replies k) ∧ ∃ err,
        attemptsFrom config fromStr replies (left + 1) k lastError =
          attemptsFrom config fromStr replies left (k + 1) (some err)) ∨
      (∃ elements, Succeeds fromStr elements (replies k) ∧
        attemptsFrom config fromStr replies (left + 1) k lastError = .ok elements) ∨
      (¬ Retryable fromStr (replies k) ∧ (∀ elements, ¬ Succeeds fromStr elements (replies k)) ∧
        ∃ err, attemptsFrom config fromStr replies (left + 1) k lastError = .error err) := by
  rw [attemptsFrom]
  cases hreply : replies k with
  | none => exact .inl ⟨trivial, _, rfl⟩
  | some reply =>
    dsimp only
    cases hextract : extractGraphElements fromStr reply with
    | ok elements => exact .inr (.inl ⟨elements, hextract, rfl⟩)
    | error err =>
      by_cases hkey : err = .missingApiKey
      · subst hkey
        refine .inr (.inr ⟨?_, ?_, _, rfl⟩)
        · rintro ⟨err, herr, hne⟩
          rw [hextract] at herr
          cases herr
          exact hne rfl
        · intro elements hok
          rw [Succeeds, hextract] at hok
          cases hok
      · refine .inl ⟨⟨err, hextract, hkey⟩, .graph err, ?_⟩
        cases err with
        | missingApiKey => exact absurd rfl hkey
        | http => rfl
        | emptyResponse => rfl
        | invalidJson => rfl

theorem attemptsFrom_ok_iff (left k : Nat) (lastError : Option ProcessError) :
    attemptsFrom config fromStr replies left k lastError = .ok elements ↔
      ∃ j, k ≤ j ∧ j < k + left ∧ Succeeds fromStr elements (replies j) ∧
        ∀ i, k ≤ i → i < j → Retryable fromStr (replies i) := by
  induction left generalizing k lastError with
  | zero =>
    refine iff_of_false (fun h => by cases h) ?_
    rintro ⟨j, hkj, hj, -⟩
    omega
  | succ left ih =>
    rcases @attemptsFrom_succ config fromStr replies left k lastError with
      ⟨hretry, err, heq⟩ | ⟨found, hfound, heq⟩ | ⟨hfinal, hnone, err, heq⟩
    · rw [heq, ih]
      constructor
      · rintro ⟨j, hkj, hj, hok, hbefore⟩
        refine ⟨j, by omega, by omega, hok, fun i hki hij => ?_⟩
        rcases Nat.eq_or_lt_of_le hki with rfl | hlt
        · exact hretry
        · exact hbefore i hlt hij
      · rintro ⟨j, hkj, hj, hok, hbefore⟩
        have hne : j ≠ k := by
          rintro rfl
          exact not_retryable_of_succeeds hok hretry
        exact ⟨j, by omega, by omega, hok, fun i hki hij => hbefore i (by omega) hij⟩
    · rw [heq]
      constructor
      · intro h
        cases h
        exact ⟨k, le_rfl, by omega, hfound, fun i hki hik => absurd hik (by omega)⟩
      · rintro ⟨j, hkj, hj, hok, hbefore⟩
        have hjk : j = k := by
          by_contra hne
          exact not_retryable_of_succeeds hfound (hbefore k le_rfl (by omega))
        subst hjk
        rw [succeeds_unique hfound hok]
    · rw [heq]
      refine iff_of_false (fun h => by cases h) ?_
      rintro ⟨j, hkj, hj, hok, hbefore⟩
      rcases Nat.eq_or_lt_of_le hkj with rfl | hlt
      · exact hnone elements hok
      · exact hfinal (hbefore k le_rfl hlt)

theorem extractGraphWithRetry_ok_iff :
    extractGraphWithRetry config fromStr replies = .ok elements ↔
      ExtractedAt config fromStr replies elements := by
  rw [extractGraphWithRetry, attemptsFrom_ok_iff]
  constructor
  · rintro ⟨j, -, hj, hok, hbefore⟩
    exact ⟨j, by omega, hok, fun i hij => hbefore i (Nat.zero_le i) hij⟩
  · rintro ⟨j, hj, hok, hbefore⟩
    exact ⟨j, Nat.zero_le j, by omega, hok, fun i _ hij => hbefore i hij⟩

end Retry

section Stages

variable {ν : Type} {config : ExtractionConfig} {fromStr : List Char → Option Json}
  {replies : Int → Nat → Option Reply}

/-- The elements of a chunk under its index, if the requests for it come to any. -/
def chunkElements (config : ExtractionConfig) (fromStr : List Char → Option Json)
    (replies : Int → Nat → Option Reply) (chunk : ChunkRow ν) :
    Option (Int × List GraphElement) :=
  keepElements (extractChunk config fromStr replies (chunk.index, chunk.text))

theorem chunkElements_iff {chunk : ChunkRow ν} {index : Int} {elements : List GraphElement} :
    chunkElements config fromStr replies chunk = some (index, elements) ↔
      index = chunk.index ∧ ExtractedAt config fromStr (replies chunk.index) elements := by
  rw [← extractGraphWithRetry_ok_iff, chunkElements, extractChunk, keepElements]
  dsimp only
  split
  next found hfound =>
    rw [hfound]
    simp [eq_comm]
  next err herr =>
    rw [herr]
    simp

theorem asI32_of_lt {index : Nat} (h : index < 2147483648) : asI32 index = index := by
  have hnat : (BitVec.ofNat 32 index).toNat = index := by
    rw [BitVec.toNat_ofNat]
    exact Nat.mod_eq_of_lt (by omega)
  rw [asI32, BitVec.toInt_eq_toNat_of_lt (by rw [hnat]; omega), hnat]

/-- The rows of a document stand in the order of their indexes. -/
theorem chunkRowsOf_sorted {chunks : List (List Char)} {embeddings : List ν}
    (hcount : chunks.length ≤ 2147483648) :
    (chunkRowsOf chunks embeddings).Pairwise fun a b => a.index < b.index := by
  refine List.pairwise_iff_getElem.mpr fun i j hi hj hij => ?_
  have hlength : (chunkRowsOf chunks embeddings).length ≤ chunks.length := by
    rw [chunkRowsOf, List.length_mapIdx, List.length_zip]
    exact Nat.min_le_left _ _
  simp only [chunkRowsOf, List.getElem_mapIdx]
  rw [asI32_of_lt (by omega), asI32_of_lt (by omega)]
  exact Int.ofNat_lt.mpr hij

theorem filterMap_chunkElements (chunks : List (ChunkRow ν)) :
    ((chunks.map fun chunk => (chunk.index, chunk.text)).map
      (extractChunk config fromStr replies)).filterMap keepElements =
        chunks.filterMap (chunkElements config fromStr replies) := by
  rw [List.map_map, List.filterMap_map]
  rfl

theorem chunkElements_sorted {chunks : List (ChunkRow ν)}
    (hsorted : chunks.Pairwise fun a b => a.index < b.index) :
    (chunks.filterMap (chunkElements config fromStr replies)).Pairwise fun a b => a.1 < b.1 := by
  refine hsorted.filterMap _ ?_
  rintro a b hab ⟨index, elements⟩ hout ⟨index', elements'⟩ hout'
  rw [(chunkElements_iff.mp hout).1, (chunkElements_iff.mp hout').1]
  exact hab

/-- What a stage keeps stands in the order of the chunks; all of it is there once none is cut off. -/
theorem stage_results {chunks : List (ChunkRow ν)} {schedule : List Nat} {stage : Stage}
    (hsorted : chunks.Pairwise fun a b => a.index < b.index)
    (h : extractGraphForChunks config fromStr replies schedule chunks = some stage) :
    stage.results.Sublist (chunks.filterMap (chunkElements config fromStr replies)) ∧
      (stage.completed = true →
        stage.results = chunks.filterMap (chunkElements config fromStr replies)) := by
  obtain ⟨buffer, hrun, rfl⟩ := Option.map_eq_some_iff.mp h
  obtain ⟨all, hperm, hsub⟩ := Buffer.run_subperm hrun
  have hkeep : (buffer.done.filterMap keepElements).Subperm
      (chunks.filterMap (chunkElements config fromStr replies)) := by
    rw [← filterMap_chunkElements]
    exact ⟨_, hperm.filterMap keepElements, hsub.filterMap keepElements⟩
  refine ⟨Query.orderBy_sublist (chunkElements_sorted hsorted) hkeep, fun hfinished => ?_⟩
  have hdone := (Buffer.run_done hrun hfinished).filterMap keepElements
  rw [filterMap_chunkElements] at hdone
  have hlength := ((Query.orderBy_perm Prod.fst _).trans hdone).length_eq
  exact (Query.orderBy_sublist (chunkElements_sorted hsorted) hkeep).eq_of_length hlength

theorem effective_pos (config : ExtractionConfig) (chunkCount : Nat) :
    0 < effectiveGraphExtractionConcurrency config chunkCount := by
  have hpos := config.concurrency_pos
  unfold effectiveGraphExtractionConcurrency
  omega

end Stages

/-- Requests for the chunks of a document end in any order, and no more of them run at once than the
concurrency allows. Whenever the stage ends, its results stand in the order of the chunks and are
those of chunks whose first attempt that is not repeated succeeded; they are all of these, whatever
the order, unless the timeout of the stage cut some requests off. -/
theorem graph_extraction_keeps_chunk_order {ν : Type} (config : ExtractionConfig)
    (fromStr : List Char → Option Json) (replies : Int → Nat → Option Reply)
    (chunks : List (List Char)) (embeddings : List ν) (hcount : chunks.length ≤ 2147483648) :
    (∀ schedule stage,
      extractGraphForChunks config fromStr replies schedule (chunkRowsOf chunks embeddings) =
          some stage →
        stage.results.Sublist
            ((chunkRowsOf chunks embeddings).filterMap (chunkElements config fromStr replies)) ∧
          (stage.completed = true → stage.results =
            (chunkRowsOf chunks embeddings).filterMap (chunkElements config fromStr replies))) ∧
    (∀ chunk : ChunkRow ν, ∀ index elements,
      chunkElements config fromStr replies chunk = some (index, elements) ↔
        index = chunk.index ∧ ExtractedAt config fromStr (replies chunk.index) elements) ∧
    (∃ schedule stage,
      extractGraphForChunks config fromStr replies schedule (chunkRowsOf chunks embeddings) =
        some stage ∧ stage.completed = true) ∧
    ∀ inputs schedule buffer,
      Transition.run (Buffer.complete
          (effectiveGraphExtractionConcurrency config (chunkRowsOf chunks embeddings).length)
          (extractChunk config fromStr replies)) (Buffer.ofList inputs) schedule = some buffer →
        buffer.running.length ≤ config.concurrency := by
  refine ⟨?_, ?_, ?_, ?_⟩
  · exact fun schedule stage h => stage_results (chunkRowsOf_sorted hcount) h
  · exact fun chunk index elements => chunkElements_iff
  · obtain ⟨schedule, buffer, hrun, hfinished⟩ :=
      Buffer.run_finishes (effective_pos config (chunkRowsOf chunks embeddings).length)
        (extractChunk config fromStr replies)
        (Buffer.ofList ((chunkRowsOf chunks embeddings).map fun chunk => (chunk.index, chunk.text)))
    exact ⟨schedule, _, congrArg (Option.map _) hrun, hfinished⟩
  · intro inputs schedule buffer hrun
    exact (Buffer.run_running hrun).trans (Nat.min_le_left _ _)

def sampleExtraction : ExtractionConfig := ⟨2, 60, 1, by decide⟩

def readEmpty (text : List Char) : Option Json :=
  if text = "[]".toList then some (.array []) else none

/-- The first chunk needs its second attempt, and the second chunk has no key. -/
def sampleReplies : Int → Nat → Option Reply
  | 0, 0 => none
  | 1, _ => some .noApiKey
  | _, _ => some (.choices ["[]".toList])

theorem extract_empty : extractGraphElements readEmpty (.choices ["[]".toList]) = .ok [] := by
  have hpayload : extractJsonPayload "[]".toList = "[]".toList := by decide
  have hparse : parseGraphElements readEmpty "[]".toList = some [] := by
    rw [parseGraphElements, hpayload, readEmpty, if_pos rfl, Option.map_some,
      rawGraphElementsFromValue]
    rfl
  have hcontent : (["[]".toList].head?.filter fun content => !(trim content).isEmpty) =
      some "[]".toList := by decide
  simp only [extractGraphElements, hcontent, hparse]

theorem graph_extraction_keeps_chunk_order_sample :
    ∃ stage, extractGraphForChunks sampleExtraction readEmpty sampleReplies [1, 1, 0]
        (chunkRowsOf [['a'], ['b'], ['c']] [(), (), ()]) = some stage ∧
      stage.results = [(0, []), (2, [])] := by
  have hall := graph_extraction_keeps_chunk_order sampleExtraction readEmpty sampleReplies
    [['a'], ['b'], ['c']] [(), (), ()] (by decide)
  have hrun : extractGraphForChunks sampleExtraction readEmpty sampleReplies [1, 1, 0]
      (chunkRowsOf [['a'], ['b'], ['c']] [(), (), ()]) =
        some ((extractGraphForChunks sampleExtraction readEmpty sampleReplies [1, 1, 0]
          (chunkRowsOf [['a'], ['b'], ['c']] [(), (), ()])).getD ⟨[], false⟩) := rfl
  refine ⟨_, hrun, ((hall.1 _ _ hrun).2 rfl).trans ?_⟩
  have hrows : chunkRowsOf [['a'], ['b'], ['c']] [(), (), ()] =
      [⟨0, ['a'], ()⟩, ⟨1, ['b'], ()⟩, ⟨2, ['c'], ()⟩] := rfl
  have hfirst : chunkElements sampleExtraction readEmpty sampleReplies ⟨0, ['a'], ()⟩ =
      some (0, []) :=
    chunkElements_iff.mpr ⟨rfl, 1, le_rfl, extract_empty, fun j hj => by
      rw [Nat.lt_one_iff.mp hj]
      trivial⟩
  have hthird : chunkElements sampleExtraction readEmpty sampleReplies ⟨2, ['c'], ()⟩ =
      some (2, []) :=
    chunkElements_iff.mpr ⟨rfl, 0, Nat.zero_le 1, extract_empty, fun j hj => absurd hj (by omega)⟩
  have hsecond : chunkElements sampleExtraction readEmpty sampleReplies ⟨1, ['b'], ()⟩ = none := rfl
  rw [hrows, List.filterMap_cons, hfirst, List.filterMap_cons, hsecond, List.filterMap_cons, hthird]
  rfl

end GmragApi.GraphExtraction

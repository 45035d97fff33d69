import GmragApi.DeepseekStream

/-! The tokens that the generation stream gives out, call after call, against the lines that come
before the end marker. -/

namespace GmragApi.Deepseek

open Utf8

/-- What the stream of bytes gives when it is asked. -/
inductive StreamItem
  | bytes (bytes : List UInt8)
  | failed
  | idle

inductive DeepseekStreamError
  | http
  | streamIdleTimeout (timeoutSecs : Nat)
  deriving DecidableEq

abbrev TokenResult := Option (Except DeepseekStreamError (List Char))

namespace DeepseekTokenParser

def flushUtf8 (fromStr : List Char → Option DeepseekStreamChunk) (parser : DeepseekTokenParser) :
    Option DeepseekTokenParser :=
  parser.utf8.flush.map fun (chunk, utf8) =>
    if chunk.isEmpty then { parser with utf8 }
    else pushChunk fromStr { parser with utf8 } chunk

def popToken (parser : DeepseekTokenParser) : Option (List Char × DeepseekTokenParser) :=
  match parser.pendingTokens with
  | [] => none
  | token :: tokens => some (token, { parser with pendingTokens := tokens })

end DeepseekTokenParser

section Calls

variable (fromStr : List Char → Option DeepseekStreamChunk) (idleTimeoutSecs : Nat)

/-- One call, with what is left of the stream. It gives no result where the decoder would panic. -/
def nextStreamToken :
    List StreamItem → DeepseekTokenParser →
      Option (TokenResult × List StreamItem × DeepseekTokenParser)
  | stream, parser =>
    match parser.popToken with
    | some (token, parser) => some (some (.ok token), stream, parser)
    | none =>
      if parser.done then some (none, stream, parser)
      else
        match stream with
        | [] => (parser.flushUtf8 fromStr).map fun parser => (none, [], parser)
        | .idle :: stream =>
          some (some (.error (.streamIdleTimeout idleTimeoutSecs)), stream, parser)
        | .failed :: stream => some (some (.error .http), stream, parser)
        | .bytes bytes :: stream =>
          (parser.pushBytes fromStr bytes).bind fun parser => nextStreamToken stream parser

/-- The results of so many calls. -/
def streamTokens : Nat → List StreamItem → DeepseekTokenParser → Option (List TokenResult)
  | 0, _, _ => some []
  | n + 1, stream, parser =>
    (nextStreamToken fromStr idleTimeoutSecs stream parser).bind fun (result, stream, parser) =>
      (streamTokens n stream parser).map fun results => result :: results

end Calls

/-- The first results of calls that return the tokens and then nothing. -/
def resultsOf (tokens : List (List Char)) (n : Nat) : List TokenResult :=
  (tokens.map fun token => some (.ok token)).take n ++ List.replicate (n - tokens.length) none

/-- Repeated calls return the tokens, in their order, and then nothing. -/
def Yields (fromStr : List Char → Option DeepseekStreamChunk) (idleTimeoutSecs : Nat)
    (stream : List StreamItem) (tokens : List (List Char)) : Prop :=
  ∀ n, streamTokens fromStr idleTimeoutSecs n stream .new = some (resultsOf tokens n)

def isDataLine (line : List Char) : Bool :=
  !line.isEmpty && List.isPrefixOf ['d', 'a', 't', 'a', ':'] line

def lineData (line : List Char) : List Char := trim (trimStartData line)

/-- The line, trimmed, is the end marker. -/
def isDoneLine (line : List Char) : Bool :=
  isDataLine (trim line) && decide (lineData (trim line) = ['[', 'D', 'O', 'N', 'E', ']'])

def choiceTokens (choice : DeepseekStreamChoice) : List (List Char) :=
  (choice.delta.content.filter fun content => !content.isEmpty).toList

/-- The contents that the line carries. -/
def lineTokens (fromStr : List Char → Option DeepseekStreamChunk) (line : List Char) :
    List (List Char) :=
  if isDataLine (trim line) && !isDoneLine line then
    ((fromStr (lineData (trim line))).map fun parsed =>
      parsed.choices.flatMap choiceTokens).getD []
  else []

/-- The lines of a stream; the last one has no newline and may be empty. -/
def streamLines (bytes : List UInt8) : List (List Char) :=
  (lines (fromUtf8Lossy bytes)).1 ++ [(lines (fromUtf8Lossy bytes)).2]

/-- What the stream is meant to give: the contents before the first end marker. -/
def contentBeforeDone (fromStr : List Char → Option DeepseekStreamChunk) (bytes : List UInt8) :
    List (List Char) :=
  ((streamLines bytes).takeWhile fun line => !isDoneLine line).flatMap (lineTokens fromStr)

/-- The lines that have come with their newline. -/
def wholeLines (bytes : List UInt8) : List (List Char) := (lines (decode bytes).1).1

def hasDone (bytes : List UInt8) : Bool := (wholeLines bytes).any isDoneLine

/-- The chunks up to the one that completes the first end marker, after the bytes before them. -/
def chunksRead (front : List UInt8) : List (List UInt8) → List UInt8
  | [] => front
  | chunk :: chunks => if hasDone front then front else chunksRead (front ++ chunk) chunks

namespace DeepseekTokenParser

section Lines

variable (fromStr : List Char → Option DeepseekStreamChunk) (parser : DeepseekTokenParser)

theorem foldl_parseChoice (choices : List DeepseekStreamChoice) :
    (choices.foldl parseChoice parser).pendingTokens =
        parser.pendingTokens ++ choices.flatMap choiceTokens ∧
      (choices.foldl parseChoice parser).done = parser.done := by
  induction choices generalizing parser with
  | nil => simp
  | cons choice choices ih =>
    have hone : (parser.parseChoice choice).pendingTokens =
        parser.pendingTokens ++ choiceTokens choice := by
      simp only [parseChoice, choiceTokens]
      cases choice.delta.content with
      | none => simp
      | some content => cases content <;> simp [Option.filter]
    obtain ⟨hpending, hdone⟩ := ih (parser.parseChoice choice)
    rw [List.foldl_cons, hpending, hone, hdone, List.flatMap_cons, List.append_assoc]
    exact ⟨rfl, rfl⟩

theorem parseLine_trim (line : List Char) :
    (parser.parseLine fromStr (trim line)).pendingTokens =
        parser.pendingTokens ++ lineTokens fromStr line ∧
      (parser.parseLine fromStr (trim line)).done = (parser.done || isDoneLine line) := by
  have hskip : ((trim line).isEmpty ||
      !(List.isPrefixOf ['d', 'a', 't', 'a', ':'] (trim line))) = !isDataLine (trim line) := by
    simp [isDataLine, Bool.not_and]
  unfold parseLine
  rw [hskip]
  cases hline : isDataLine (trim line) with
  | false => simp [lineTokens, isDoneLine, hline]
  | true =>
    by_cases hdone : lineData (trim line) = ['[', 'D', 'O', 'N', 'E', ']']
    · have hmarker : isDoneLine line = true := by simp [isDoneLine, hline, hdone]
      rw [lineData] at hdone
      simp [lineTokens, hmarker, hdone]
    · have hmarker : isDoneLine line = false := by simp [isDoneLine, hdone]
      have htokens : lineTokens fromStr line = ((fromStr (lineData (trim line))).map fun parsed =>
          parsed.choices.flatMap choiceTokens).getD [] := by
        simp [lineTokens, hline, hmarker]
      rw [hmarker, htokens]
      rw [lineData] at hdone ⊢
      simp only [Bool.not_true, Bool.false_eq_true, if_false, hdone, Bool.or_false]
      cases fromStr (trim (trimStartData (trim line))) with
      | none => simp
      | some parsed => exact foldl_parseChoice _ parsed.choices

theorem parseLines_result (ls : List (List Char)) :
    (parser.parseLines fromStr ls).pendingTokens =
        parser.pendingTokens ++ ls.flatMap (lineTokens fromStr) ∧
      (parser.parseLines fromStr ls).done = (parser.done || ls.any isDoneLine) := by
  induction ls generalizing parser with
  | nil => simp [parseLines]
  | cons line ls ih =>
    obtain ⟨hpending, hdone⟩ := parseLine_trim fromStr parser line
    obtain ⟨hpendings, hdones⟩ := ih (parser.parseLine fromStr (trim line))
    have hcons : parser.parseLines fromStr (line :: ls) =
        (parser.parseLine fromStr (trim line)).parseLines fromStr ls := rfl
    rw [hcons, hpendings, hdones, hpending, hdone, List.flatMap_cons, List.any_cons,
      List.append_assoc, Bool.or_assoc]
    exact ⟨rfl, rfl⟩

end Lines

end DeepseekTokenParser

/-- The lines that a chunk completes. -/
def newLines (front chunk : List UInt8) : List (List Char) :=
  (lines ((lines (decode front).1).2 ++ (decode ((decode front).2 ++ chunk)).1)).1

theorem decode_append_lines (front chunk : List UInt8) :
    lines (decode (front ++ chunk)).1 = (wholeLines front ++ newLines front chunk,
      (lines ((lines (decode front).1).2 ++ (decode ((decode front).2 ++ chunk)).1)).2) := by
  rw [decode_append, lines_append]
  rfl

theorem wholeLines_append (front chunk : List UInt8) :
    wholeLines (front ++ chunk) = wholeLines front ++ newLines front chunk :=
  congrArg Prod.fst (decode_append_lines front chunk)

theorem hasDone_append (front chunk : List UInt8) :
    hasDone (front ++ chunk) = (hasDone front || (newLines front chunk).any isDoneLine) := by
  rw [hasDone, wholeLines_append, List.any_append]
  rfl

/-- The parser after these bytes, with these tokens still to be given out. -/
structure Reading (front : List UInt8) (tokens : List (List Char))
    (parser : DeepseekTokenParser) : Prop where
  pendingTokens : parser.pendingTokens = tokens
  done : parser.done = hasDone front
  lineBuffer : parser.lineBuffer = (lines (decode front).1).2
  utf8 : parser.utf8.pending = (decode front).2

section Calls

variable {fromStr : List Char → Option DeepseekStreamChunk} {secs n : Nat}
  {front chunk : List UInt8} {tokens : List (List Char)} {parser : DeepseekTokenParser}
  {stream : List StreamItem}

theorem reading_new : Reading [] [] .new := by
  have hlines : lines (decode []).1 = ([], []) := by
    rw [decode_nil]
    exact lines_rest List.not_mem_nil
  refine ⟨rfl, ?_, ?_, ?_⟩
  · rw [hasDone, wholeLines, hlines]
    rfl
  · rw [hlines]
    rfl
  · rw [decode_nil]
    rfl

theorem Reading.push (h : Reading front tokens parser)
    (fromStr : List Char → Option DeepseekStreamChunk) (chunk : List UInt8) :
    ∃ parser', parser.pushBytes fromStr chunk = some parser' ∧
      Reading (front ++ chunk)
        (tokens ++ (newLines front chunk).flatMap (lineTokens fromStr)) parser' := by
  have hplain : '\n' ∉ parser.lineBuffer := by
    rw [h.lineBuffer]
    exact lines_rest_plain _
  have hdecode : decode (parser.utf8.pending ++ chunk) =
      ((decode (parser.utf8.pending ++ chunk)).1, (decode (parser.utf8.pending ++ chunk)).2) := rfl
  have hpush := parser.pushBytes_eq fromStr hplain chunk hdecode
  rw [h.utf8, h.lineBuffer] at hpush
  obtain ⟨hpending, hdone⟩ := parser.parseLines_result fromStr (newLines front chunk)
  refine ⟨_, hpush, ?_, ?_, ?_, ?_⟩
  · rw [← h.pendingTokens]
    exact hpending
  · rw [hasDone_append, ← h.done]
    exact hdone
  · rw [decode_append_lines]
    rfl
  · exact (congrArg Prod.snd (decode_append front chunk)).symm

/-- Nothing is left to be given out, and what the buffers hold makes no line. -/
structure Ended (parser : DeepseekTokenParser) : Prop where
  pendingTokens : parser.pendingTokens = []
  lineBuffer : '\n' ∉ parser.lineBuffer
  utf8 : decode parser.utf8.pending = ([], parser.utf8.pending)

theorem Reading.ended (h : Reading front [] parser) : Ended parser where
  pendingTokens := h.pendingTokens
  lineBuffer := by
    rw [h.lineBuffer]
    exact lines_rest_plain _
  utf8 := by
    rw [h.utf8]
    exact decode_rest front

theorem replacementCharacter_plain : '\n' ≠ replacementCharacter := by decide

theorem Ended.flush (h : Ended parser) (fromStr : List Char → Option DeepseekStreamChunk) :
    ∃ parser', parser.flushUtf8 fromStr = some parser' ∧ Ended parser' := by
  have hlossy : '\n' ∉ fromUtf8Lossy parser.utf8.pending := by
    rw [fromUtf8Lossy_eq_decode, h.utf8]
    split <;> simp [replacementCharacter_plain]
  have hdecode : decode [] = ([], []) := decode_nil
  unfold DeepseekTokenParser.flushUtf8 IncrementalUtf8.flush
  rw [takeValid_eq]
  simp only [if_true, Option.map_some]
  split
  next => exact ⟨_, rfl, h.pendingTokens, h.lineBuffer, hdecode⟩
  next =>
    have hbuffer : '\n' ∉ parser.lineBuffer ++ fromUtf8Lossy parser.utf8.pending := by
      rw [List.mem_append, not_or]
      exact ⟨h.lineBuffer, hlossy⟩
    have hlines := lines_rest hbuffer
    refine ⟨_, rfl, ?_⟩
    unfold DeepseekTokenParser.pushChunk
    rw [DeepseekTokenParser.takeLines_eq fromStr _ _ rfl]
    refine ⟨?_, ?_, ?_⟩
    · exact (congrArg (fun ls => (DeepseekTokenParser.parseLines fromStr _ ls).pendingTokens)
        (congrArg Prod.fst hlines)).trans h.pendingTokens
    · exact lines_rest_plain _
    · exact hdecode

theorem nextStreamToken_token {token : List Char} (h : parser.pendingTokens = token :: tokens) :
    nextStreamToken fromStr secs stream parser =
      some (some (.ok token), stream, { parser with pendingTokens := tokens }) := by
  unfold nextStreamToken
  simp only [DeepseekTokenParser.popToken, h]

theorem nextStreamToken_done (h : parser.pendingTokens = []) (hdone : parser.done = true) :
    nextStreamToken fromStr secs stream parser = some (none, stream, parser) := by
  unfold nextStreamToken
  simp only [DeepseekTokenParser.popToken, h, hdone, if_true]

theorem nextStreamToken_end (h : parser.pendingTokens = []) (hdone : parser.done = false) :
    nextStreamToken fromStr secs [] parser =
      (parser.flushUtf8 fromStr).map fun parser => (none, [], parser) := by
  unfold nextStreamToken
  simp only [DeepseekTokenParser.popToken, h, hdone, Bool.false_eq_true, if_false]

theorem nextStreamToken_bytes (h : parser.pendingTokens = []) (hdone : parser.done = false) :
    nextStreamToken fromStr secs (.bytes chunk :: stream) parser =
      (parser.pushBytes fromStr chunk).bind fun parser =>
        nextStreamToken fromStr secs stream parser := by
  rw [nextStreamToken]
  simp only [DeepseekTokenParser.popToken, h, hdone, Bool.false_eq_true, if_false]

theorem streamTokens_succ {result : TokenResult} {stream' : List StreamItem}
    {parser' : DeepseekTokenParser}
    (h : nextStreamToken fromStr secs stream parser = some (result, stream', parser')) (n : Nat) :
    streamTokens fromStr secs (n + 1) stream parser =
      (streamTokens fromStr secs n stream' parser').map fun results => result :: results := by
  rw [streamTokens, h]
  rfl

theorem streamTokens_done (h : parser.pendingTokens = []) (hdone : parser.done = true) (n : Nat) :
    streamTokens fromStr secs n stream parser = some (List.replicate n none) := by
  induction n with
  | zero => rfl
  | succ n ih =>
    rw [streamTokens_succ (nextStreamToken_done h hdone), ih]
    rfl

theorem streamTokens_ended (h : Ended parser) (n : Nat) :
    streamTokens fromStr secs n [] parser = some (List.replicate n none) := by
  induction n generalizing parser with
  | zero => rfl
  | succ n ih =>
    cases hdone : parser.done with
    | true => exact streamTokens_done h.pendingTokens hdone (n + 1)
    | false =>
      obtain ⟨parser', hflush, hended⟩ := h.flush fromStr
      have hcall : nextStreamToken fromStr secs [] parser = some (none, [], parser') := by
        rw [nextStreamToken_end h.pendingTokens hdone, hflush, Option.map_some]
      rw [streamTokens_succ hcall, ih hended]
      rfl

/-- The tokens that the chunks still give. -/
def restTokens (fromStr : List Char → Option DeepseekStreamChunk) (front : List UInt8) :
    List (List UInt8) → List (List Char)
  | [] => []
  | chunk :: chunks =>
    if hasDone front then []
    else (newLines front chunk).flatMap (lineTokens fromStr) ++
      restTokens fromStr (front ++ chunk) chunks

theorem resultsOf_cons (token : List Char) (tokens : List (List Char)) (n : Nat) :
    resultsOf (token :: tokens) (n + 1) = some (.ok token) :: resultsOf tokens n := by
  simp [resultsOf]

theorem resultsOf_nil (n : Nat) : resultsOf [] n = List.replicate n none := by
  simp [resultsOf]

/-- The calls give out what is waiting, and then what the chunks that are read bring. -/
theorem streamTokens_reading (h : Reading front tokens parser) (chunks : List (List UInt8))
    (n : Nat) :
    streamTokens fromStr secs n (chunks.map .bytes) parser =
      some (resultsOf (tokens ++ restTokens fromStr front chunks) n) := by
  induction n generalizing front tokens parser chunks with
  | zero => simp [streamTokens, resultsOf]
  | succ n ihn =>
    induction chunks generalizing front tokens parser with
    | nil =>
      cases tokens with
      | cons token tokens =>
        have hnext : Reading front tokens { parser with pendingTokens := tokens } :=
          ⟨rfl, h.done, h.lineBuffer, h.utf8⟩
        rw [streamTokens_succ (nextStreamToken_token h.pendingTokens), ihn hnext,
          List.cons_append, resultsOf_cons]
        rfl
      | nil =>
        rw [List.map_nil, streamTokens_ended h.ended]
        simp [restTokens, resultsOf_nil]
    | cons chunk chunks ihc =>
      cases tokens with
      | cons token tokens =>
        have hnext : Reading front tokens { parser with pendingTokens := tokens } :=
          ⟨rfl, h.done, h.lineBuffer, h.utf8⟩
        rw [streamTokens_succ (nextStreamToken_token h.pendingTokens), ihn hnext,
          List.cons_append, resultsOf_cons]
        rfl
      | nil =>
        cases hdone : hasDone front with
        | true =>
          rw [streamTokens_done h.pendingTokens (h.done.trans hdone)]
          simp [restTokens, hdone, resultsOf_nil]
        | false =>
          obtain ⟨parser', hpush, hnext⟩ := h.push fromStr chunk
          have hcall : nextStreamToken fromStr secs ((chunk :: chunks).map .bytes) parser =
              nextStreamToken fromStr secs (chunks.map .bytes) parser' := by
            rw [List.map_cons, nextStreamToken_bytes h.pendingTokens (h.done.trans hdone), hpush,
              Option.bind_some]
          have hread := ihc hnext
          rw [streamTokens, hcall, ← streamTokens, hread]
          simp [restTokens, hdone]

end Calls

section Exact

variable {fromStr : List Char → Option DeepseekStreamChunk} {secs : Nat} {front : List UInt8}
  {tokens tokens' : List (List Char)} {chunks : List (List UInt8)}

theorem resultsOf_tokens (tokens : List (List Char)) (n : Nat) :
    (resultsOf tokens n).filterMap (fun result => result.bind Except.toOption) =
      tokens.take n := by
  unfold resultsOf
  have htokens : (fun result : TokenResult => result.bind Except.toOption) ∘
      (fun token : List Char => some (.ok token)) = some := rfl
  have hnone (n : Nat) : (List.replicate n (none : TokenResult)).filterMap
      (fun result => result.bind Except.toOption) = [] := by
    simp
  rw [List.filterMap_append, ← List.map_take, List.filterMap_map, htokens, List.filterMap_some,
    hnone, List.append_nil]

theorem Yields.unique {stream : List StreamItem} (h : Yields fromStr secs stream tokens)
    (h' : Yields fromStr secs stream tokens') : tokens = tokens' := by
  have hsame (n : Nat) : tokens.take n = tokens'.take n := by
    have hresults : resultsOf tokens n = resultsOf tokens' n :=
      Option.some.inj ((h n).symm.trans (h' n))
    rw [← resultsOf_tokens, hresults, resultsOf_tokens]
  have hall := hsame (tokens.length + tokens'.length)
  rwa [List.take_of_length_le (by omega), List.take_of_length_le (by omega)] at hall

theorem wholeLines_chunksRead (chunks : List (List UInt8)) (front : List UInt8) :
    (wholeLines (chunksRead front chunks)).flatMap (lineTokens fromStr) =
      (wholeLines front).flatMap (lineTokens fromStr) ++ restTokens fromStr front chunks := by
  induction chunks generalizing front with
  | nil => simp [chunksRead, restTokens]
  | cons chunk chunks ih =>
    rw [chunksRead, restTokens]
    split
    · simp
    · rw [ih, wholeLines_append, List.flatMap_append, List.append_assoc]

/-- The loop stops before the end of the stream only after an end marker. -/
theorem chunksRead_rest (chunks : List (List UInt8)) (front : List UInt8) :
    ∃ rest, front ++ chunks.flatten = chunksRead front chunks ++ rest ∧
      (hasDone (chunksRead front chunks) = false → rest = []) := by
  induction chunks generalizing front with
  | nil => exact ⟨[], by simp [chunksRead], fun _ => rfl⟩
  | cons chunk chunks ih =>
    rw [chunksRead, List.flatten_cons, ← List.append_assoc]
    split
    next hdone => exact ⟨chunk ++ chunks.flatten, by simp, fun h => by rw [hdone] at h; cases h⟩
    next => exact ih (front ++ chunk)

theorem streamLines_eq (bytes : List UInt8) :
    streamLines bytes = wholeLines bytes ++ [(lines (fromUtf8Lossy bytes)).2] := by
  have htail : '\n' ∉ (lines (decode bytes).1).2 ++
      if (decode bytes).2 = [] then [] else [replacementCharacter] := by
    rw [List.mem_append, not_or]
    refine ⟨lines_rest_plain _, ?_⟩
    split <;> simp [replacementCharacter_plain]
  have hwhole : (lines (fromUtf8Lossy bytes)).1 = wholeLines bytes := by
    rw [fromUtf8Lossy_eq_decode, lines_append, lines_rest htail, List.append_nil]
    rfl
  rw [streamLines, hwhole]

theorem yields_chunksRead (fromStr : List Char → Option DeepseekStreamChunk) (secs : Nat)
    (chunks : List (List UInt8)) :
    Yields fromStr secs (chunks.map .bytes)
      ((wholeLines (chunksRead [] chunks)).flatMap (lineTokens fromStr)) := by
  have hnone : wholeLines [] = [] := by
    rw [wholeLines, decode_nil, lines_rest List.not_mem_nil]
  intro n
  rw [streamTokens_reading reading_new, wholeLines_chunksRead, hnone]
  rfl

theorem lineTokens_done {line : List Char} (h : isDoneLine line = true) :
    lineTokens fromStr line = [] := by
  simp [lineTokens, h]

/-- With an end marker among the lines that are read, what the calls give beyond the contents before
it is what the lines after it carry. -/
theorem contentBeforeDone_of_done (h : hasDone (chunksRead [] chunks) = true) :
    (wholeLines (chunksRead [] chunks)).flatMap (lineTokens fromStr) =
      contentBeforeDone fromStr chunks.flatten ++
        ((wholeLines (chunksRead [] chunks)).dropWhile fun line => !isDoneLine line).flatMap
          (lineTokens fromStr) := by
  obtain ⟨rest, hflat, -⟩ := chunksRead_rest chunks []
  rw [List.nil_append] at hflat
  have hstop : ∃ line ∈ wholeLines (chunksRead [] chunks), ¬ (!isDoneLine line) = true := by
    obtain ⟨line, hline, hdone⟩ := List.any_eq_true.mp h
    exact ⟨line, hline, by simp [hdone]⟩
  have hfront : (streamLines chunks.flatten).takeWhile (fun line => !isDoneLine line) =
      (wholeLines (chunksRead [] chunks)).takeWhile fun line => !isDoneLine line := by
    rw [streamLines_eq, hflat, wholeLines_append, List.append_assoc, List.takeWhile_append,
      if_neg]
    intro hlength
    obtain ⟨line, hline, hdone⟩ := hstop
    have hall := List.takeWhile_eq_self_iff.mp
      ((List.takeWhile_prefix _).eq_of_length hlength)
    exact hdone (hall line hline)
  rw [contentBeforeDone, hfront, ← List.flatMap_append, List.takeWhile_append_dropWhile]

/-- Without an end marker the calls leave out what the last line carries. -/
theorem contentBeforeDone_of_not_done (h : hasDone (chunksRead [] chunks) = false) :
    contentBeforeDone fromStr chunks.flatten =
      (wholeLines (chunksRead [] chunks)).flatMap (lineTokens fromStr) ++
        lineTokens fromStr (lines (fromUtf8Lossy chunks.flatten)).2 := by
  obtain ⟨rest, hflat, hrest⟩ := chunksRead_rest chunks []
  rw [hrest h, List.append_nil, List.nil_append] at hflat
  have hall : ∀ line ∈ wholeLines (chunksRead [] chunks), (!isDoneLine line) = true := by
    intro line hline
    have hnot := List.any_eq_false.mp h line hline
    simpa using hnot
  rw [contentBeforeDone, streamLines_eq, hflat, List.takeWhile_append_of_pos hall,
    List.flatMap_append]
  congr 1
  cases hlast : isDoneLine (lines (fromUtf8Lossy (chunksRead [] chunks))).2 with
  | true => simp [hlast, lineTokens_done hlast]
  | false => simp [hlast]

/-- The calls return exactly the contents before the first end marker, when no line after the marker
that comes with the same chunk carries a content, and, in a stream without a marker, the last line
carries none unless it has its newline. -/
theorem nextStreamToken_exact_iff (fromStr : List Char → Option DeepseekStreamChunk)
    (idleTimeoutSecs : Nat) (chunks : List (List UInt8)) :
    Yields fromStr idleTimeoutSecs (chunks.map .bytes)
        (contentBeforeDone fromStr chunks.flatten) ↔
      if hasDone (chunksRead [] chunks) then
        ∀ line ∈ (wholeLines (chunksRead [] chunks)).dropWhile fun line => !isDoneLine line,
          lineTokens fromStr line = []
      else lineTokens fromStr (lines (fromUtf8Lossy chunks.flatten)).2 = [] := by
  have hgiven := yields_chunksRead fromStr idleTimeoutSecs chunks
  have hexact : Yields fromStr idleTimeoutSecs (chunks.map .bytes)
      (contentBeforeDone fromStr chunks.flatten) ↔
        (wholeLines (chunksRead [] chunks)).flatMap (lineTokens fromStr) =
          contentBeforeDone fromStr chunks.flatten :=
    ⟨hgiven.unique, fun h => h ▸ hgiven⟩
  rw [hexact]
  cases hdone : hasDone (chunksRead [] chunks) with
  | true =>
    rw [contentBeforeDone_of_done hdone, if_pos rfl, List.append_right_eq_self,
      List.flatMap_eq_nil_iff]
  | false =>
    rw [contentBeforeDone_of_not_done hdone, if_neg Bool.false_ne_true, List.self_eq_append_right]

end Exact

def asciiBytes (s : List Char) : List UInt8 := s.map fun c => UInt8.ofNat c.toNat

theorem decode_ascii {s : List Char} (h : ∀ c ∈ s, c.toNat < 128) :
    decode (asciiBytes s) = (s, []) := by
  induction s with
  | nil => exact decode_nil
  | cons c s ih =>
    obtain ⟨hc, hs⟩ := List.forall_mem_cons.mp h
    have hbyte : (UInt8.ofNat c.toNat).toNat = c.toNat := by
      rw [UInt8.toNat_ofNat']
      omega
    have hfront : front (asciiBytes (c :: s)) = .char c 1 := by
      simp only [asciiBytes, List.map_cons, front, hbyte, hc, if_true, Char.ofNat_toNat]
    rw [decode_char hfront]
    have hrest : (asciiBytes (c :: s)).drop 1 = asciiBytes s := rfl
    rw [hrest, ih hs]

/-- A line with one content, as the provider sends it. -/
def hiData : List Char := "\x7b\"choices\":[\x7b\"delta\":\x7b\"content\":\"Hi\"\x7d\x7d]\x7d".toList

def hiLine : List Char := "data: ".toList ++ hiData

/-- What the JSON of the line reads as. -/
def readHi (data : List Char) : Option DeepseekStreamChunk :=
  if data = hiData then some ⟨none, none, [⟨⟨some "Hi".toList, none⟩, none⟩]⟩ else none

/-- The only line of the stream has no newline: its content is never given out. -/
theorem last_line_is_lost :
    ¬ Yields readHi 30 [.bytes (asciiBytes hiLine)]
      (contentBeforeDone readHi (asciiBytes hiLine)) := by
  have hall : hiLine.all (fun c => decide (c.toNat < 128)) = true := by decide +kernel
  have hascii : ∀ c ∈ hiLine, c.toNat < 128 := fun c hc =>
    of_decide_eq_true (List.all_eq_true.mp hall c hc)
  have hdecode : decode (asciiBytes hiLine) = (hiLine, []) := decode_ascii hascii
  have hlines : lines hiLine = ([], hiLine) := lines_rest (by decide +kernel)
  have hwhole : wholeLines (asciiBytes hiLine) = [] := by rw [wholeLines, hdecode, hlines]
  have hempty : hasDone [] = false := by
    rw [hasDone, wholeLines, decode_nil, lines_rest List.not_mem_nil]
    rfl
  have hread : chunksRead [] [asciiBytes hiLine] = asciiBytes hiLine := by
    rw [chunksRead, hempty]
    rfl
  have hgiven := yields_chunksRead readHi 30 [asciiBytes hiLine]
  rw [hread, hwhole] at hgiven
  have hlossy : fromUtf8Lossy (asciiBytes hiLine) = hiLine := by
    rw [fromUtf8Lossy_eq_decode, hdecode]
    simp
  have hcontent : contentBeforeDone readHi (asciiBytes hiLine) = ["Hi".toList] := by
    rw [contentBeforeDone, streamLines, hlossy, hlines]
    decide +kernel
  intro h
  rw [hcontent] at h
  have hsame := h.unique hgiven
  cases hsame

end GmragApi.Deepseek

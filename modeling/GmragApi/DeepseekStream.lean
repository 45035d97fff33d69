import GmragApi.Text
import GmragApi.Utf8
import Mathlib.Data.List.TakeWhile

/-! The parser of the generation stream reads the same tokens however the network cuts the bytes. -/

namespace GmragApi.Deepseek

open Utf8

/-- The bytes of a character that has not come whole yet. -/
structure IncrementalUtf8 where
  pending : List UInt8

/-- The loop of `take_valid`: the text that is decoded, and the bytes that stay. It gives no result
where `expect` would panic. -/
def takeValid (flushIncomplete : Bool) (pending : List UInt8) : Option (List Char × List UInt8) :=
  match _h : fromUtf8 pending with
  | .ok valid => some (valid, [])
  | .error e =>
    if 0 < e.validUpTo then
      match fromUtf8 (pending.take e.validUpTo) with
      | .ok valid =>
        (takeValid flushIncomplete (pending.drop e.validUpTo)).map fun (output, rest) =>
          (valid ++ output, rest)
      | .error _ => none
    else
      match _hlen : e.errorLen with
      | some errorLen =>
        (takeValid flushIncomplete (pending.drop errorLen)).map fun (output, rest) =>
          (replacementCharacter :: output, rest)
      | none => if flushIncomplete then some ([replacementCharacter], []) else some ([], pending)
termination_by pending.length
decreasing_by
  · have hrest := List.length_pos_of_ne_nil (fromUtf8_error _h).rest
    rw [List.length_drop] at hrest ⊢
    omega
  · have herror := fromUtf8_error _h
    have hwidth : 0 < errorLen := by
      have hfront := herror.front
      rw [_hlen] at hfront
      exact (front_invalid hfront).1
    have hrest := List.length_pos_of_ne_nil herror.rest
    rw [List.length_drop] at hrest ⊢
    omega

def IncrementalUtf8.push (utf8 : IncrementalUtf8) (incoming : List UInt8) :
    Option (List Char × IncrementalUtf8) :=
  (takeValid false (utf8.pending ++ incoming)).map fun (output, pending) => (output, ⟨pending⟩)

def IncrementalUtf8.flush (utf8 : IncrementalUtf8) : Option (List Char × IncrementalUtf8) :=
  (takeValid true utf8.pending).map fun (output, pending) => (output, ⟨pending⟩)

section Utf8

/-- The loop decodes all but the front of a character at the end, and that one when it flushes. -/
theorem takeValid_eq (flushIncomplete : Bool) (pending : List UInt8) :
    takeValid flushIncomplete pending =
      some (if flushIncomplete then (fromUtf8Lossy pending, []) else decode pending) := by
  induction hlength : pending.length using Nat.strongRecOn generalizing pending with
  | _ n ih =>
    subst hlength
    rw [takeValid]
    split
    next valid h =>
      rw [fromUtf8Lossy_eq_decode, fromUtf8_ok h]
      cases flushIncomplete <;> simp
    next e h =>
      obtain ⟨⟨valid, htake, hdecode⟩, hne, hfront⟩ := fromUtf8_error h
      have hrest := List.length_pos_of_ne_nil hne
      rw [List.length_drop] at hrest
      split
      next hpos =>
        simp only [htake]
        rw [ih _ (by rw [List.length_drop]; omega) _ rfl, Option.map_some, hdecode,
          fromUtf8Lossy_eq_decode, fromUtf8Lossy_eq_decode, hdecode]
        cases flushIncomplete <;> simp
      next hzero =>
        have hstart : e.validUpTo = 0 := by omega
        have hpos : 0 < pending.length := by omega
        rw [hstart, List.drop_zero] at hfront
        split
        next errorLen hlen =>
          rw [hlen] at hfront
          have hwidth := front_invalid hfront
          rw [ih _ (by rw [List.length_drop]; omega) _ rfl, Option.map_some,
            fromUtf8Lossy_eq_decode, fromUtf8Lossy_eq_decode, decode_invalid hfront]
          cases flushIncomplete <;> simp
        next hlen =>
          rw [hlen] at hfront
          have hpending : pending ≠ [] := List.ne_nil_of_length_pos hpos
          rw [fromUtf8Lossy_eq_decode, decode_incomplete hfront]
          cases flushIncomplete <;> simp [hpending]

/-- One decoder for all chunks: what the pushes put out in all, and the decoder after them. -/
def IncrementalUtf8.pushAll (utf8 : IncrementalUtf8) :
    List (List UInt8) → Option (List Char × IncrementalUtf8)
  | [] => some ([], utf8)
  | incoming :: chunks =>
    (utf8.push incoming).bind fun (output, utf8) =>
      (utf8.pushAll chunks).map fun (rest, utf8) => (output ++ rest, utf8)

theorem IncrementalUtf8.push_eq (utf8 : IncrementalUtf8) (incoming : List UInt8) :
    utf8.push incoming = some ((decode (utf8.pending ++ incoming)).1,
      ⟨(decode (utf8.pending ++ incoming)).2⟩) := by
  rw [IncrementalUtf8.push, takeValid_eq]
  rfl

theorem IncrementalUtf8.pushAll_eq (utf8 : IncrementalUtf8) (chunks : List (List UInt8))
    (before : List Char) :
    ∃ output utf8', utf8.pushAll chunks = some (output, utf8') ∧
      chunks.foldl reader.push (before, utf8.pending) = (before ++ output, utf8'.pending) := by
  induction chunks generalizing utf8 before with
  | nil => exact ⟨[], utf8, rfl, by simp⟩
  | cons incoming chunks ih =>
    obtain ⟨output, utf8', hpush, hfold⟩ := ih ⟨(decode (utf8.pending ++ incoming)).2⟩
      (before ++ (decode (utf8.pending ++ incoming)).1)
    refine ⟨(decode (utf8.pending ++ incoming)).1 ++ output, utf8', ?_, ?_⟩
    · simp only [IncrementalUtf8.pushAll, utf8.push_eq, Option.bind_some, hpush, Option.map_some]
    · rw [List.foldl_cons, ← List.append_assoc, ← hfold]
      rfl

/-- What is left has no character in it. -/
theorem decode_rest (s : List UInt8) : decode (decode s).2 = ([], (decode s).2) := by
  have h := decode_append s []
  rw [List.append_nil, List.append_nil] at h
  have houtput := congrArg Prod.fst h
  have hrest := congrArg Prod.snd h
  refine Prod.ext ?_ hrest.symm
  exact List.append_cancel_left (houtput.symm.trans (List.append_nil _).symm)

end Utf8

/-- The outputs of the pushes and of the flush are the text that the bytes decode to at once. -/
theorem incrementalUtf8_eq_fromUtf8Lossy (chunks : List (List UInt8)) :
    ((IncrementalUtf8.mk []).pushAll chunks).bind (fun (output, utf8) =>
      utf8.flush.map fun (last, _) => output ++ last) = some (fromUtf8Lossy chunks.flatten) := by
  obtain ⟨output, utf8, hpush, hfold⟩ := (IncrementalUtf8.mk []).pushAll_eq chunks []
  have hdecode := (reader.foldl_push chunks).symm.trans hfold
  have hdecode : decode chunks.flatten = (output, utf8.pending) := hdecode
  have hpending := decode_rest chunks.flatten
  rw [hdecode] at hpending
  simp only [hpush, Option.bind_some, IncrementalUtf8.flush, takeValid_eq, if_true,
    Option.map_some, fromUtf8Lossy_eq_decode, hdecode, hpending, List.nil_append]

structure StreamMetadata where
  model : Option (List Char)
  systemFingerprint : Option (List Char)
  finishReason : Option (List Char)
  reasoningDeltaCount : UInt32
  deriving DecidableEq

structure DeepseekStreamDelta where
  content : Option (List Char)
  reasoningContent : Option (List Char)

structure DeepseekStreamChoice where
  delta : DeepseekStreamDelta
  finishReason : Option (List Char)

structure DeepseekStreamChunk where
  model : Option (List Char)
  systemFingerprint : Option (List Char)
  choices : List DeepseekStreamChoice

structure DeepseekTokenParser where
  lineBuffer : List Char
  pendingTokens : List (List Char)
  done : Bool
  metadata : StreamMetadata
  utf8 : IncrementalUtf8

def DeepseekTokenParser.new : DeepseekTokenParser :=
  ⟨[], [], false, ⟨none, none, none, 0⟩, ⟨[]⟩⟩

/-- `trim_start_matches("data:")`. -/
def trimStartData : List Char → List Char
  | 'd' :: 'a' :: 't' :: 'a' :: ':' :: s => trimStartData s
  | s => s

namespace DeepseekTokenParser

def parseChoice (parser : DeepseekTokenParser) (choice : DeepseekStreamChoice) :
    DeepseekTokenParser :=
  { parser with
    metadata :=
      { parser.metadata with
        finishReason := choice.finishReason.or parser.metadata.finishReason
        reasoningDeltaCount :=
          if choice.delta.reasoningContent.isSome then parser.metadata.reasoningDeltaCount + 1
          else parser.metadata.reasoningDeltaCount }
    pendingTokens :=
      match choice.delta.content with
      | some content =>
        if content.isEmpty then parser.pendingTokens else parser.pendingTokens ++ [content]
      | none => parser.pendingTokens }

/-- `fromStr` reads the JSON of a line. -/
def parseLine (fromStr : List Char → Option DeepseekStreamChunk) (parser : DeepseekTokenParser)
    (line : List Char) : DeepseekTokenParser :=
  if line.isEmpty || !(List.isPrefixOf ['d', 'a', 't', 'a', ':'] line) then parser
  else
    let data := trim (trimStartData line)
    if data = ['[', 'D', 'O', 'N', 'E', ']'] then { parser with done := true }
    else
      match fromStr data with
      | none => parser
      | some parsed =>
        parsed.choices.foldl parseChoice
          { parser with
            metadata :=
              { parser.metadata with
                model := parser.metadata.model.or parsed.model
                systemFingerprint :=
                  parser.metadata.systemFingerprint.or parsed.systemFingerprint } }

/-- The same parser with other buffers. -/
def withBuffers (parser : DeepseekTokenParser) (lineBuffer : List Char) (pending : List UInt8) :
    DeepseekTokenParser :=
  { parser with lineBuffer, utf8 := ⟨pending⟩ }

/-- Reading a line neither reads nor changes the buffers. -/
theorem parseLine_withBuffers (fromStr : List Char → Option DeepseekStreamChunk)
    (parser : DeepseekTokenParser) (line lineBuffer : List Char) (pending : List UInt8) :
    (parser.withBuffers lineBuffer pending).parseLine fromStr line =
      (parser.parseLine fromStr line).withBuffers lineBuffer pending := by
  have hchoices : ∀ (choices : List DeepseekStreamChoice) (parser : DeepseekTokenParser),
      choices.foldl parseChoice (parser.withBuffers lineBuffer pending) =
        (choices.foldl parseChoice parser).withBuffers lineBuffer pending := by
    intro choices
    induction choices with
    | nil => exact fun _ => rfl
    | cons choice choices ih => exact fun parser => ih (parser.parseChoice choice)
  simp only [parseLine]
  split
  · rfl
  · split
    · rfl
    · split
      · rfl
      next parsed _ =>
        exact hchoices parsed.choices
          { parser with
            metadata :=
              { parser.metadata with
                model := parser.metadata.model.or parsed.model
                systemFingerprint :=
                  parser.metadata.systemFingerprint.or parsed.systemFingerprint } }

theorem parseLine_lineBuffer (fromStr : List Char → Option DeepseekStreamChunk)
    (parser : DeepseekTokenParser) (line : List Char) :
    (parser.parseLine fromStr line).lineBuffer = parser.lineBuffer := by
  have h := congrArg lineBuffer
    (parser.parseLine_withBuffers fromStr line parser.lineBuffer parser.utf8.pending)
  exact h

/-- The loop of `push_chunk` takes the lines that are whole. -/
def takeLines (fromStr : List Char → Option DeepseekStreamChunk) (parser : DeepseekTokenParser) :
    DeepseekTokenParser :=
  let line := parser.lineBuffer.takeWhile (· != '\n')
  if line.length < parser.lineBuffer.length then
    takeLines fromStr
      (parseLine fromStr { parser with lineBuffer := parser.lineBuffer.drop (line.length + 1) }
        (trim line))
  else parser
termination_by parser.lineBuffer.length
decreasing_by
  rw [parseLine_lineBuffer, List.length_drop]
  omega

def pushChunk (fromStr : List Char → Option DeepseekStreamChunk) (parser : DeepseekTokenParser)
    (chunk : List Char) : DeepseekTokenParser :=
  takeLines fromStr { parser with lineBuffer := parser.lineBuffer ++ chunk }

def pushBytes (fromStr : List Char → Option DeepseekStreamChunk) (parser : DeepseekTokenParser)
    (bytes : List UInt8) : Option DeepseekTokenParser :=
  (parser.utf8.push bytes).map fun (chunk, utf8) =>
    if chunk.isEmpty then { parser with utf8 }
    else pushChunk fromStr { parser with utf8 } chunk

end DeepseekTokenParser

section Lines

/-- The lines that are whole, and the front of the next. -/
def lines (s : List Char) : List (List Char) × List Char :=
  let line := s.takeWhile (· != '\n')
  if line.length < s.length then
    (line :: (lines (s.drop (line.length + 1))).1, (lines (s.drop (line.length + 1))).2)
  else ([], s)
termination_by s.length
decreasing_by all_goals rw [List.length_drop]; omega

theorem takeWhile_line {line : List Char} (h : '\n' ∉ line) (s : List Char) :
    (line ++ '\n' :: s).takeWhile (· != '\n') = line := by
  rw [List.takeWhile_append_of_pos]
  · simp
  · intro c hc
    have hne : c ≠ '\n' := fun heq => h (heq ▸ hc)
    simpa using hne

theorem takeWhile_rest {s : List Char} (h : '\n' ∉ s) : s.takeWhile (· != '\n') = s := by
  refine List.takeWhile_eq_self_iff.mpr fun c hc => ?_
  have hne : c ≠ '\n' := fun heq => h (heq ▸ hc)
  simpa using hne

theorem lines_cons {line : List Char} (h : '\n' ∉ line) (s : List Char) :
    lines (line ++ '\n' :: s) = (line :: (lines s).1, (lines s).2) := by
  have hdrop : (line ++ '\n' :: s).drop (line.length + 1) = s := by simp
  rw [lines]
  simp only [takeWhile_line h, hdrop]
  rw [if_pos (by simp)]

theorem lines_rest {s : List Char} (h : '\n' ∉ s) : lines s = ([], s) := by
  rw [lines]
  simp only [takeWhile_rest h]
  rw [if_neg (by omega)]

/-- A text is the front of a line, or a line and what follows. -/
theorem lines_induction {P : List Char → Prop} (rest : ∀ s, '\n' ∉ s → P s)
    (cons : ∀ line s, '\n' ∉ line → P s → P (line ++ '\n' :: s)) (s : List Char) : P s := by
  induction hlength : s.length using Nat.strongRecOn generalizing s with
  | _ n ih =>
    subst hlength
    by_cases hline : '\n' ∈ s
    · obtain ⟨line, s, rfl, hfirst⟩ := List.eq_append_cons_of_mem hline
      exact cons line s hfirst (ih _ (by simp; omega) s rfl)
    · exact rest s hline

theorem lines_append (s t : List Char) :
    lines (s ++ t) =
      ((lines s).1 ++ (lines ((lines s).2 ++ t)).1, (lines ((lines s).2 ++ t)).2) := by
  induction s using lines_induction with
  | rest s h => rw [lines_rest h, List.nil_append]
  | cons line s h ih =>
    rw [List.append_assoc, List.cons_append, lines_cons h, lines_cons h, ih]
    rfl

theorem lines_rest_plain (s : List Char) : '\n' ∉ (lines s).2 := by
  induction s using lines_induction with
  | rest s h => rwa [lines_rest h]
  | cons line s h ih => rwa [lines_cons h]

end Lines

namespace DeepseekTokenParser

section Push

variable (fromStr : List Char → Option DeepseekStreamChunk)

def parseLines (parser : DeepseekTokenParser) (ls : List (List Char)) : DeepseekTokenParser :=
  ls.foldl (fun parser line => parser.parseLine fromStr (trim line)) parser

theorem parseLines_withBuffers (parser : DeepseekTokenParser) (ls : List (List Char))
    (lineBuffer : List Char) (pending : List UInt8) :
    (parser.withBuffers lineBuffer pending).parseLines fromStr ls =
      (parser.parseLines fromStr ls).withBuffers lineBuffer pending := by
  induction ls generalizing parser with
  | nil => rfl
  | cons line ls ih =>
    rw [parseLines, List.foldl_cons, parseLine_withBuffers]
    exact ih _

theorem takeLines_eq (buffer : List Char) (parser : DeepseekTokenParser)
    (hbuffer : parser.lineBuffer = buffer) :
    takeLines fromStr parser =
      (parser.parseLines fromStr (lines buffer).1).withBuffers (lines buffer).2
        parser.utf8.pending := by
  induction buffer using lines_induction generalizing parser with
  | rest s h =>
    rw [takeLines]
    simp only [hbuffer, takeWhile_rest h, lines_rest h]
    rw [if_neg (by omega), ← hbuffer]
    rfl
  | cons line s h ih =>
    have hdrop : (line ++ '\n' :: s).drop (line.length + 1) = s := by simp
    have hstep : parseLine fromStr { parser with lineBuffer := s } (trim line) =
        (parser.parseLine fromStr (trim line)).withBuffers s parser.utf8.pending :=
      parser.parseLine_withBuffers fromStr (trim line) s parser.utf8.pending
    rw [takeLines]
    simp only [hbuffer, takeWhile_line h, hdrop]
    rw [if_pos (by simp), hstep, ih _ rfl, parseLines_withBuffers, lines_cons h]
    rfl

theorem pushBytes_eq (parser : DeepseekTokenParser) (hbuffer : '\n' ∉ parser.lineBuffer)
    (bytes : List UInt8) {text : List Char} {rest : List UInt8}
    (hdecode : decode (parser.utf8.pending ++ bytes) = (text, rest)) :
    parser.pushBytes fromStr bytes =
      some ((parser.parseLines fromStr (lines (parser.lineBuffer ++ text)).1).withBuffers
        (lines (parser.lineBuffer ++ text)).2 rest) := by
  rw [pushBytes, IncrementalUtf8.push_eq, hdecode, Option.map_some, Option.some.injEq]
  simp only
  split
  next hempty =>
    rw [List.isEmpty_iff.mp hempty, List.append_nil, lines_rest hbuffer]
    rfl
  next =>
    have htake := takeLines_eq fromStr (parser.lineBuffer ++ text)
      (parser.withBuffers (parser.lineBuffer ++ text) rest) rfl
    rw [parseLines_withBuffers] at htake
    exact htake

/-- The parser after all the bytes of a stream. -/
def after (bytes : List UInt8) : DeepseekTokenParser :=
  (new.parseLines fromStr (lines (decode bytes).1).1).withBuffers (lines (decode bytes).1).2
    (decode bytes).2

theorem after_nil : after fromStr [] = new := by
  rw [after, decode_nil, lines_rest List.not_mem_nil]
  rfl

theorem pushBytes_after (bytes chunk : List UInt8) :
    (after fromStr bytes).pushBytes fromStr chunk = some (after fromStr (bytes ++ chunk)) := by
  generalize htext : (decode ((decode bytes).2 ++ chunk)).1 = text
  generalize hrest : (decode ((decode bytes).2 ++ chunk)).2 = rest
  have hdecode : decode ((after fromStr bytes).utf8.pending ++ chunk) = (text, rest) :=
    Prod.ext htext hrest
  have hafter : after fromStr (bytes ++ chunk) =
      ((new.parseLines fromStr (lines (decode bytes).1).1).parseLines fromStr
        (lines ((lines (decode bytes).1).2 ++ text)).1).withBuffers
          (lines ((lines (decode bytes).1).2 ++ text)).2 rest := by
    rw [after, decode_append bytes chunk, htext, hrest, lines_append (decode bytes).1 text,
      parseLines, List.foldl_append]
    rfl
  rw [pushBytes_eq fromStr (after fromStr bytes) (lines_rest_plain _) chunk hdecode, hafter, after,
    parseLines_withBuffers]
  rfl

theorem foldlM_pushBytes (chunks : List (List UInt8)) (bytes : List UInt8) :
    chunks.foldlM (pushBytes fromStr) (after fromStr bytes) =
      some (after fromStr (bytes ++ chunks.flatten)) := by
  induction chunks generalizing bytes with
  | nil => simp
  | cons chunk chunks ih =>
    rw [List.foldlM_cons, pushBytes_after]
    simpa using ih (bytes ++ chunk)

end Push

end DeepseekTokenParser

/-- The decoder and the parser of the stream do the same however its bytes are cut into chunks, and
never panic. -/
theorem chunking_irrelevant (fromStr : List Char → Option DeepseekStreamChunk)
    (chunks : List (List UInt8)) :
    ((IncrementalUtf8.mk []).pushAll chunks).bind (fun (output, utf8) =>
        utf8.flush.map fun (last, _) => output ++ last) = some (fromUtf8Lossy chunks.flatten) ∧
      ∃ cut whole, chunks.foldlM (DeepseekTokenParser.pushBytes fromStr) .new = some cut ∧
        DeepseekTokenParser.new.pushBytes fromStr chunks.flatten = some whole ∧
        cut.pendingTokens = whole.pendingTokens ∧ cut.done = whole.done ∧
        cut.metadata = whole.metadata := by
  have hcut := DeepseekTokenParser.foldlM_pushBytes fromStr chunks []
  have hwhole := DeepseekTokenParser.pushBytes_after fromStr [] chunks.flatten
  rw [DeepseekTokenParser.after_nil, List.nil_append] at hcut hwhole
  exact ⟨incrementalUtf8_eq_fromUtf8Lossy chunks, _, _, hcut, hwhole, rfl, rfl, rfl⟩

end GmragApi.Deepseek

import GmragApi.Text
import GmragApi.TextSlice
import Mathlib.Data.Finset.Card

/-! The snippet of a cited chunk: the segment that shares the most keywords with the question, grown
to its neighbours and cut to the room there is, or else the front of the chunk. -/

namespace GmragApi.Citation

open TextSlice

def citationSnippetChars : ℕ := 280

/-- The tables of the character database. -/
structure CharTables where
  isAlphanumeric : Char → Bool
  toLowercase : Char → List Char

structure SnippetRange where
  start : ℕ
  stop : ℕ
  deriving DecidableEq

/-- A snippet, with the offset in the chunk at which its content starts. -/
structure Snippet where
  hasPrefix : Bool
  start : ℕ
  content : List Char
  hasSuffix : Bool
  deriving DecidableEq

/-- The string of a snippet. -/
def Snippet.text (s : Snippet) : List Char :=
  (if s.hasPrefix then ['…'] else []) ++ s.content ++ (if s.hasSuffix then ['…'] else [])

section Truncate

def rposition (p : Char → Bool) : List Char → Option ℕ
  | [] => none
  | c :: cs =>
    match rposition p cs with
    | some i => some (i + 1)
    | none => if p c then some 0 else none

/-- The text goes back to its last blank, unless that leaves less than half of the room. -/
def dropLastWord (front : List Char) : List Char :=
  match (rposition isWhitespace front).filter (citationSnippetChars / 2 ≤ ·) with
  | some boundary => (front.take boundary).rdropWhile isWhitespace
  | none => front

def truncateCitationSnippet (text : List Char) : Snippet :=
  let front := text.take (citationSnippetChars + 1)
  if front.length ≤ citationSnippetChars then ⟨false, 0, front, false⟩
  else
    let front := (front.take citationSnippetChars).rdropWhile isWhitespace
    ⟨false, 0, dropLastWord front, true⟩

end Truncate

section Keywords

def foldVietnameseCharacter (c : Char) : Char :=
  if c ∈ ['à', 'á', 'ả', 'ã', 'ạ', 'ă', 'ằ', 'ắ', 'ẳ', 'ẵ', 'ặ', 'â', 'ầ', 'ấ', 'ẩ', 'ẫ', 'ậ'] then
    'a'
  else if c ∈ ['è', 'é', 'ẻ', 'ẽ', 'ẹ', 'ê', 'ề', 'ế', 'ể', 'ễ', 'ệ'] then 'e'
  else if c ∈ ['ì', 'í', 'ỉ', 'ĩ', 'ị'] then 'i'
  else if c ∈ ['ò', 'ó', 'ỏ', 'õ', 'ọ', 'ô', 'ồ', 'ố', 'ổ', 'ỗ', 'ộ', 'ơ', 'ờ', 'ớ', 'ở', 'ỡ',
      'ợ'] then
    'o'
  else if c ∈ ['ù', 'ú', 'ủ', 'ũ', 'ụ', 'ư', 'ừ', 'ứ', 'ử', 'ữ', 'ự'] then 'u'
  else if c ∈ ['ỳ', 'ý', 'ỷ', 'ỹ', 'ỵ'] then 'y'
  else if c = 'đ' then 'd'
  else c

def keywordsFrom (t : CharTables) (keywords : Finset (List Char)) (word : List Char) :
    List Char → Finset (List Char)
  | [] => if word.isEmpty then keywords else insert word keywords
  | c :: cs =>
    if t.isAlphanumeric c then
      keywordsFrom t keywords (word ++ (t.toLowercase c).map foldVietnameseCharacter) cs
    else if word.isEmpty then keywordsFrom t keywords word cs
    else keywordsFrom t (insert word keywords) [] cs

def snippetKeywords (t : CharTables) (text : List Char) : Finset (List Char) :=
  keywordsFrom t ∅ [] text

end Keywords

section Segments

def isTerminator (c : Char) : Bool :=
  c == '\n' || c == '.' || c == '!' || c == '?' || c == '。' || c == '！' || c == '？'

/-- The characters from the offset `index` on, of a segment that begins at `start`. -/
def segmentsFrom (text : List Char) : ℕ → ℕ → List Char → Option (List SnippetRange)
  | _, start, [] => do
    if start < size text then
      let piece ← slice text start (size text)
      return if (trim piece).isEmpty then [] else [⟨start, size text⟩]
    else return []
  | index, start, c :: cs => do
    let stop := index + c.utf8Size
    if isTerminator c then
      let piece ← slice text start stop
      let rest ← segmentsFrom text stop stop cs
      return if (trim piece).isEmpty then rest else ⟨start, stop⟩ :: rest
    else segmentsFrom text stop start cs

def splitSnippetSegments (text : List Char) : Option (List SnippetRange) :=
  segmentsFrom text 0 0 text

def segmentScore (t : CharTables) (queryTerms : Finset (List Char)) (text : List Char)
    (segment : SnippetRange) : Option ℕ :=
  (slice text segment.start segment.stop).map fun piece =>
    (snippetKeywords t piece ∩ queryTerms).card

/-- `max_by_key` over the scores from the index `i` on: the last of the greatest. -/
def bestFrom (i : ℕ) : List ℕ → Option (ℕ × ℕ)
  | [] => none
  | score :: rest =>
    match bestFrom (i + 1) rest with
    | some (j, best) => if best < score then some (i, score) else some (j, best)
    | none => some (i, score)

end Segments

section Window

def ellipsis (text : List Char) : ℕ := if (trim text).isEmpty then 0 else 1

def snippetRangeCharCount (text : List Char) (range : SnippetRange) : Option ℕ :=
  (slice text range.start range.stop).map List.length

structure Window where
  left : ℕ
  right : ℕ
  preferRight : Bool

def leftFits (text : List Char) (segments : List SnippetRange) (bestIndex : ℕ) (w : Window)
    (currentEnd available : ℕ) : Option Bool := do
  if 0 < w.left then
    let range := SnippetRange.mk (← segments[w.left - 1]?).start currentEnd
    let length ← snippetRangeCharCount text range
    return decide (length ≤ available) && !(range.start == 0 && decide (0 < bestIndex))
  else return false

def rightFits (text : List Char) (segments : List SnippetRange) (w : Window)
    (currentStart available : ℕ) : Option Bool := do
  if w.right + 1 < segments.length then
    let range := SnippetRange.mk currentStart (← segments[w.right + 1]?).stop
    let length ← snippetRangeCharCount text range
    return decide (length ≤ available)
  else return false

/-- The window that the turn of the loop leaves, unless it ends the loop. -/
def Window.next (w : Window) (leftFits rightFits : Bool) : Option Window :=
  let toRight := some ⟨w.left, w.right + 1, false⟩
  let toLeft := some ⟨w.left - 1, w.right, true⟩
  if w.preferRight && rightFits then toRight
  else if !w.preferRight && leftFits then toLeft
  else if rightFits then toRight
  else if leftFits then toLeft
  else none

/-- One turn of the loop: the offsets of the window, and the window it leaves. -/
def growWindow (text : List Char) (segments : List SnippetRange) (bestIndex : ℕ) (w : Window) :
    Option ((ℕ × ℕ) × Option Window) := do
  let currentStart := (← segments[w.left]?).start
  let currentEnd := (← segments[w.right]?).stop
  let prefixChars := ellipsis (← slice text 0 currentStart)
  let suffixChars := ellipsis (← slice text currentEnd (size text))
  let available := citationSnippetChars - (prefixChars + suffixChars)
  let leftFits ← leftFits text segments bestIndex w currentEnd available
  let rightFits ← rightFits text segments w currentStart available
  return ((currentStart, currentEnd), w.next leftFits rightFits)

def expandFrom (text : List Char) (segments : List SnippetRange) (bestIndex : ℕ) :
    ℕ → Window → Option (ℕ × ℕ)
  | 0, _ => none
  | fuel + 1, w => do
    let (offsets, next) ← growWindow text segments bestIndex w
    match next with
    | some next => expandFrom text segments bestIndex fuel next
    | none => return offsets

/-- Every turn but the last takes a segment into the window. -/
def expandSnippetWindow (text : List Char) (segments : List SnippetRange) (bestIndex : ℕ) :
    Option (ℕ × ℕ) :=
  expandFrom text segments bestIndex segments.length
    ⟨bestIndex, bestIndex, decide (0 < bestIndex) && decide (bestIndex + 1 < segments.length)⟩

end Window

section Render

def trimStartFrom (text : List Char) : ℕ → ℕ → ℕ → Option ℕ
  | 0, start, stop => if start < stop then none else some start
  | fuel + 1, start, stop => do
    if start < stop then
      let c ← (← slice text start stop).head?
      if isWhitespace c then trimStartFrom text fuel (start + c.utf8Size) stop else return start
    else return start

def trimEndFrom (text : List Char) (start : ℕ) : ℕ → ℕ → Option ℕ
  | 0, stop => if start < stop then none else some stop
  | fuel + 1, stop => do
    if start < stop then
      let c ← (← slice text 0 stop).getLast?
      if isWhitespace c then trimEndFrom text start fuel (stop - c.utf8Size) else return stop
    else return stop

def trimSnippetRange (text : List Char) (start stop : ℕ) : Option (ℕ × ℕ) := do
  let start ← trimStartFrom text (stop - start) start stop
  let stop ← trimEndFrom text start (stop - start) stop
  return (start, stop)

def cutBefore (content : List Char) : ℕ → Option ℕ
  | 0 => some 0
  | cut + 1 => do if isWhitespace (← content[cut]?) then return cut + 1 else cutBefore content cut

def dropBlanks (content : List Char) : ℕ → Option ℕ
  | 0 => some 0
  | cut + 1 => do if isWhitespace (← content[cut]?) then dropBlanks content cut else return cut + 1

def visibleContent (content : List Char) (contentLimit : ℕ) : Option (List Char) :=
  if content.length ≤ contentLimit then some content
  else do
    let cut ← cutBefore content contentLimit
    let cut :=
      if cut = 0 then
        let index := (content.drop contentLimit).findIdx? isWhitespace
        (index.map (contentLimit + ·)).getD contentLimit
      else cut
    let cut ← dropBlanks content cut
    if cut ≤ content.length then return content.take cut else none

def renderSnippetWindow (text : List Char) (start stop : ℕ) : Option Snippet := do
  let (start, stop) ← trimSnippetRange text start stop
  let before ← slice text 0 start
  let after ← slice text stop (size text)
  let contentLimit := citationSnippetChars - (ellipsis before + ellipsis after)
  let content ← slice text start stop
  let visible ← visibleContent content contentLimit
  return ⟨!(trim before).isEmpty, start, visible, !(trim after).isEmpty⟩

end Render

section Select

/-- The window around the strongest segment, and nothing inside where the match is ambiguous. -/
def matchSnippet (t : CharTables) (text : List Char) (queryTerms : Finset (List Char)) :
    Option (Option Snippet) := do
  let segments ← splitSnippetSegments text
  if segments.isEmpty then return none
  let scores ← segments.mapM (segmentScore t queryTerms text)
  match bestFrom 0 scores with
  | none => return none
  | some (bestIndex, bestScore) =>
    if bestScore = 0 ||
        scores.zipIdx.any fun (score, index) => index != bestIndex && score == bestScore then
      return none
    let (start, stop) ← expandSnippetWindow text segments bestIndex
    let (start, stop) ← trimSnippetRange text start stop
    if stop ≤ start then return none
    return some (← renderSnippetWindow text start stop)

def selectSnippet (t : CharTables) (text : List Char) (query : Option (List Char)) :
    Option Snippet :=
  if (trim text).isEmpty then some ⟨false, 0, [], false⟩
  else if text.length ≤ citationSnippetChars then some ⟨false, 0, text, false⟩
  else
    match query with
    | none => some (truncateCitationSnippet text)
    | some query =>
      let queryTerms := snippetKeywords t query
      if queryTerms.card < 2 then some (truncateCitationSnippet text)
      else (matchSnippet t text queryTerms).map (·.getD (truncateCitationSnippet text))

/-- The string that the program returns, and nothing where it panics. -/
def selectCitationSnippet (t : CharTables) (text : List Char) (query : Option (List Char)) :
    Option (List Char) :=
  (selectSnippet t text query).map Snippet.text

end Select

end GmragApi.Citation

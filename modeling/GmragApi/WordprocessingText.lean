import GmragApi.Text
import GmragApi.XmlContent

/-! The text of a DOCX document, read off the events of its `word/document.xml`. -/

namespace GmragApi.Docx

open Xml

/-- The events of the XML reader; `Eof` is the end of their list. -/
inductive Event where
  | start (name : List Char)
  | endTag (name : List Char)
  | empty (name : List Char)
  | text (value : List Char)
  | cData (value : List Char)
  | generalRef (value : List Char)
  | comment (value : List Char)
  | pi (target data : List Char)
  | decl
  | docType (name : List Char)

/-- What the extraction uses of the XML library beside its reader. -/
structure QuickXml where
  xml10Content : List Char → Option (List Char)
  unescape : List Char → Option (List Char)
  xml10Content_eq : ∀ value, xml10Content value = some (normalizeEol value)
  unescape_character : ∀ body c, character? body = some c →
    unescape ('&' :: body ++ [';']) = some [c]
  unescape_declared : ∀ name, isName name = true → predefined name = none →
    unescape ('&' :: name ++ [';']) = none

structure DocxParseError where

/-- The local names that `extract_wordprocessing_text` tells apart. -/
inductive Element where
  | t
  | tab
  | br
  | p
  | other

/-- `name.rsplit(|byte| *byte == b':').next()` -/
def localName (name : List Char) : List Char := name.rtakeWhile (· != ':')

def elementOf (name : List Char) : Element :=
  if localName name = "t".toList then .t
  else if localName name = "tab".toList then .tab
  else if localName name = "br".toList ∨ localName name = "cr".toList then .br
  else if localName name = "p".toList then .p
  else .other

structure Extraction where
  text : List Char
  inTextNode : Bool

namespace Extraction

def push (s : Extraction) (more : List Char) : Extraction := { s with text := s.text ++ more }

def pushLineBreak (s : Extraction) : Extraction :=
  if s.text ≠ [] ∧ s.text.getLast? ≠ some '\n' then s.push ['\n'] else s

def startElement (s : Extraction) (name : List Char) : Extraction :=
  match elementOf name with
  | .t => { s with inTextNode := true }
  | .tab => if s.inTextNode then s.push ['\t'] else s
  | .br => if s.inTextNode then s.push ['\n'] else s
  | _ => s

def emptyElement (s : Extraction) (name : List Char) : Extraction :=
  match elementOf name with
  | .tab => s.push ['\t']
  | .br => s.push ['\n']
  | _ => s

def endElement (s : Extraction) (name : List Char) : Extraction :=
  match elementOf name with
  | .t => { s with inTextNode := false }
  | .p => s.pushLineBreak
  | _ => s

/-- Pushes what the library makes of a piece of the document. -/
def pushDecoded (s : Extraction) (decoded : Option (List Char)) :
    Except DocxParseError Extraction :=
  match decoded with
  | some more => .ok (s.push more)
  | none => .error ⟨⟩

end Extraction

variable (qx : QuickXml)

/-- One round of the loop. -/
def readEvent (s : Extraction) : Event → Except DocxParseError Extraction
  | .start name => .ok (s.startElement name)
  | .empty name => .ok (s.emptyElement name)
  | .text value => if s.inTextNode then s.pushDecoded (qx.xml10Content value) else .ok s
  | .generalRef value =>
    if s.inTextNode then s.pushDecoded (qx.unescape ('&' :: value ++ [';'])) else .ok s
  | .endTag name => .ok (s.endElement name)
  | _ => .ok s

/-- The loop over what `read_event` returns, `none` where it fails. -/
def readEvents : List (Option Event) → Extraction → Except DocxParseError Extraction
  | [], s => .ok s
  | none :: _, _ => .error ⟨⟩
  | some event :: rest, s => readEvent qx s event >>= readEvents rest

/-- What follows the loop: trailing line breaks go, and a blank text is an error. -/
def finish (s : Extraction) : Except DocxParseError (List Char) :=
  let text := s.text.rdropWhile (· == '\n')
  if (trim text).isEmpty then .error ⟨⟩ else .ok text

def extractWordprocessingText (events : List (Option Event)) :
    Except DocxParseError (List Char) :=
  readEvents qx events ⟨[], false⟩ >>= finish

section Events

def markupEvent : Markup → Event
  | .comment value => .comment value
  | .instruction target data => .pi target data

/-- The events of a content as it is written. -/
def events : Content → List Event
  | .nil => []
  | .element tag inner rest => .start tag.name :: events inner ++ .endTag tag.name :: events rest
  | .empty tag rest => .empty tag.name :: events rest
  | .text written rest => .text written :: events rest
  | .cdata written rest => .cData written :: events rest
  | .reference body rest => .generalRef body :: events rest
  | .other markup rest => markupEvent markup :: events rest

def miscEvent : Misc → Event
  | .blank written => .text written
  | .declaration => .decl
  | .doctype name => .docType name
  | .markup markup => markupEvent markup

def documentEvents (d : Document) : List (Option Event) :=
  (d.prolog.map miscEvent ++ events d.content ++ d.epilog.map miscEvent).map some

end Events

end GmragApi.Docx

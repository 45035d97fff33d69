import GmragApi.WordprocessingText

/-! What the extraction makes of the spellings of one information set. -/

namespace GmragApi.Docx

open Xml

namespace Element

def startFlag (inText : Bool) : Element → Bool
  | .t => true
  | _ => inText

def endFlag (inText : Bool) : Element → Bool
  | .t => false
  | _ => inText

end Element

/-- Whether the extraction is in a text node after the items, a childless element being written
with an empty element tag. -/
def inTextAfter : Bool → Items → Bool
  | inText, .nil => inText
  | inText, .element tag inner rest =>
    inTextAfter (if inner.isNil then inText
      else (elementOf tag.name).endFlag
        (inTextAfter ((elementOf tag.name).startFlag inText) inner)) rest
  | inText, .char _ rest => inTextAfter inText rest
  | inText, .other _ rest => inTextAfter inText rest

def afterElement (inText : Bool) (tag : Tag) (inner : Items) : Bool :=
  inTextAfter inText (.element tag inner .nil)

/-- Some spelling of the items can show a character that is no blank. -/
def Legible : Bool → Items → Prop
  | _, .nil => False
  | inText, .element tag inner rest =>
    Legible ((elementOf tag.name).startFlag inText) inner ∨
      Legible (afterElement inText tag inner) rest
  | inText, .char c rest => (inText = true ∧ isWhitespace c = false) ∨ Legible inText rest
  | inText, .other _ rest => Legible inText rest

/-- An element reads alike with both kinds of tags. -/
def Element.Alike (inText : Bool) : Element → Prop
  | .t => inText = false
  | .tab => inText = true
  | .br => inText = true
  | .p => False
  | .other => True

/-- In a text node no character stands in a CDATA section or for a declared entity, and a childless
element has two tags only where these read as one empty element tag. -/
def Uniform (entities : Entities) : Bool → Content → Prop
  | _, .nil => True
  | inText, .element tag inner rest =>
    ((inner.infoset entities).isNil = true → (elementOf tag.name).Alike inText) ∧
      Uniform entities ((elementOf tag.name).startFlag inText) inner ∧
      Uniform entities (afterElement inText tag (inner.infoset entities)) rest
  | inText, .empty _ rest => Uniform entities inText rest
  | inText, .text _ rest => Uniform entities inText rest
  | inText, .cdata written rest => (inText = true → written = []) ∧ Uniform entities inText rest
  | inText, .reference body rest =>
    (inText = true → (character? body).isSome = true) ∧ Uniform entities inText rest
  | inText, .other _ rest => Uniform entities inText rest

/-- What is written for the extraction to see is blank. -/
def Mute (entities : Entities) : Bool → Content → Prop
  | _, .nil => True
  | inText, .element tag inner rest =>
    Mute entities ((elementOf tag.name).startFlag inText) inner ∧
      Mute entities (afterElement inText tag (inner.infoset entities)) rest
  | inText, .empty _ rest => Mute entities inText rest
  | inText, .text written rest =>
    (inText = true → Blank (normalizeEol written)) ∧ Mute entities inText rest
  | inText, .cdata _ rest => Mute entities inText rest
  | inText, .reference body rest =>
    (inText = true → ∀ c, character? body = some c → isWhitespace c = true) ∧
      Mute entities inText rest
  | inText, .other _ rest => Mute entities inText rest

/-- Characters are pushed in a text node only. -/
def Extraction.visible (s : Extraction) (more : List Char) : Extraction :=
  if s.inTextNode then s.push more else s

/-- The extraction's reading of items that are spelled uniformly. -/
def readItems : Items → Extraction → Extraction
  | .nil, s => s
  | .element tag inner rest, s =>
    readItems rest (if inner.isNil then s.emptyElement tag.name
      else (readItems inner (s.startElement tag.name)).endElement tag.name)
  | .char c rest, s => readItems rest (s.visible [c])
  | .other _ rest, s => readItems rest s

section Steps

variable (s : Extraction) (name : List Char)

theorem pushLineBreak_cases : s.pushLineBreak = s.push ['\n'] ∨ s.pushLineBreak = s := by
  unfold Extraction.pushLineBreak
  split
  · exact .inl rfl
  · exact .inr rfl

@[simp] theorem pushLineBreak_inTextNode : s.pushLineBreak.inTextNode = s.inTextNode := by
  rcases pushLineBreak_cases s with h | h <;> rw [h]
  rfl

@[simp] theorem startElement_inTextNode :
    (s.startElement name).inTextNode = (elementOf name).startFlag s.inTextNode := by
  unfold Extraction.startElement
  cases elementOf name <;> simp only [Element.startFlag] <;> split <;> rfl

@[simp] theorem emptyElement_inTextNode :
    (s.emptyElement name).inTextNode = s.inTextNode := by
  unfold Extraction.emptyElement
  cases elementOf name <;> rfl

@[simp] theorem endElement_inTextNode :
    (s.endElement name).inTextNode = (elementOf name).endFlag s.inTextNode := by
  unfold Extraction.endElement
  cases elementOf name with
  | p => exact pushLineBreak_inTextNode s
  | _ => rfl

@[simp] theorem visible_inTextNode (more : List Char) :
    (s.visible more).inTextNode = s.inTextNode := by
  unfold Extraction.visible
  split <;> rfl

theorem visible_of_in (h : s.inTextNode = true) (more : List Char) : s.visible more = s.push more :=
  if_pos h

theorem visible_of_out (h : s.inTextNode = false) (more : List Char) : s.visible more = s := by
  rw [Extraction.visible, h]
  rfl

theorem visible_nil : s.visible [] = s := by
  cases h : s.inTextNode with
  | true => rw [visible_of_in s h, Extraction.push, List.append_nil]
  | false => exact visible_of_out s h []

theorem visible_visible (more further : List Char) :
    (s.visible more).visible further = s.visible (more ++ further) := by
  cases h : s.inTextNode with
  | true =>
    rw [visible_of_in _ h, visible_of_in _ h, visible_of_in _ (by exact h), Extraction.push,
      Extraction.push, Extraction.push, List.append_assoc]
  | false => rw [visible_of_out _ h, visible_of_out _ h, visible_of_out _ h]

/-- A tag adds to the text nothing but a tab or a line break. -/
theorem tag_text (s' : Extraction) (h : s' = s.startElement name ∨ s' = s.emptyElement name ∨
    s' = s.endElement name) : ∃ more, Blank more ∧ s'.text = s.text ++ more := by
  have hnone : ∃ more, Blank more ∧ s.text = s.text ++ more := ⟨[], by simp [Blank], by simp⟩
  have htab : ∃ more, Blank more ∧ (s.push ['\t']).text = s.text ++ more :=
    ⟨['\t'], by simp only [Blank, List.mem_singleton, forall_eq]; decide, rfl⟩
  have hline : ∃ more, Blank more ∧ (s.push ['\n']).text = s.text ++ more :=
    ⟨['\n'], by simp only [Blank, List.mem_singleton, forall_eq]; decide, rfl⟩
  rcases h with rfl | rfl | rfl
  · unfold Extraction.startElement
    cases elementOf name with
    | tab => dsimp only; split <;> assumption
    | br => dsimp only; split <;> assumption
    | _ => exact hnone
  · unfold Extraction.emptyElement
    cases elementOf name with
    | tab => exact htab
    | br => exact hline
    | _ => exact hnone
  · unfold Extraction.endElement
    cases elementOf name with
    | p =>
      rcases pushLineBreak_cases s with h | h
      all_goals
        dsimp only
        rw [h]
        assumption
    | _ => exact hnone

/-- Two tags of a childless element read as its empty element tag. -/
theorem endElement_startElement (h : (elementOf name).Alike s.inTextNode) :
    (s.startElement name).endElement name = s.emptyElement name := by
  unfold Extraction.endElement Extraction.startElement Extraction.emptyElement
  cases he : elementOf name with
  | t =>
    rw [he] at h
    obtain ⟨text, inTextNode⟩ := s
    cases h
    rfl
  | p => rw [he] at h; cases h
  | tab => rw [he] at h; simp [show s.inTextNode = true from h]
  | br => rw [he] at h; simp [show s.inTextNode = true from h]
  | other => rfl

end Steps

section Items

theorem afterElement_eq (inText : Bool) (tag : Tag) (inner : Items) :
    afterElement inText tag inner = if inner.isNil then inText
      else (elementOf tag.name).endFlag
        (inTextAfter ((elementOf tag.name).startFlag inText) inner) := rfl

theorem inTextAfter_element (inText : Bool) (tag : Tag) (inner rest : Items) :
    inTextAfter inText (.element tag inner rest) =
      inTextAfter (afterElement inText tag inner) rest := rfl

theorem inTextAfter_ofChars (inText : Bool) (cs : List Char) (rest : Items) :
    inTextAfter inText (.ofChars cs rest) = inTextAfter inText rest := by
  induction cs with
  | nil => rfl
  | cons c cs ih => exact ih

/-- Outside a text node, every text node that items open they also close. -/
theorem inTextAfter_false (items : Items) : inTextAfter false items = false := by
  induction items with
  | nil => rfl
  | element tag inner rest ihi ihr =>
    have hafter : afterElement false tag inner = false := by
      rw [afterElement_eq]
      split
      · rfl
      · cases elementOf tag.name with
        | t => rfl
        | _ => exact ihi
    rw [inTextAfter_element, hafter, ihr]
  | char c rest ih => exact ih
  | other markup rest ih => exact ih

theorem readItems_ofChars (cs : List Char) (rest : Items) (s : Extraction) :
    readItems (.ofChars cs rest) s = readItems rest (s.visible cs) := by
  induction cs generalizing s with
  | nil =>
    rw [visible_nil]
    rfl
  | cons c cs ih =>
    have hread : readItems (.ofChars (c :: cs) rest) s =
        readItems (.ofChars cs rest) (s.visible [c]) := rfl
    rw [hread, ih, visible_visible]
    rfl

theorem readItems_inTextNode (items : Items) (s : Extraction) :
    (readItems items s).inTextNode = inTextAfter s.inTextNode items := by
  induction items generalizing s with
  | nil => rfl
  | element tag inner rest ihi ihr =>
    rw [readItems, ihr, inTextAfter_element, afterElement_eq]
    split
    · rw [emptyElement_inTextNode]
    · rw [endElement_inTextNode, ihi, startElement_inTextNode]
  | char c rest ih => rw [readItems, ih, visible_inTextNode]; rfl
  | other markup rest ih => exact ih s

/-- An element that reads alike with both kinds of tags is read between its two tags. -/
theorem readItems_tags {tag : Tag} {inner : Items} {s : Extraction}
    (h : inner.isNil = true → (elementOf tag.name).Alike s.inTextNode) :
    readItems (.element tag inner .nil) s =
      (readItems inner (s.startElement tag.name)).endElement tag.name := by
  rw [readItems, readItems]
  split
  next hnil =>
    rw [Items.isNil_iff.mp hnil, readItems, endElement_startElement s tag.name (h hnil)]
  next => rfl

theorem readItems_grows (items : Items) (s : Extraction) :
    s.text <+: (readItems items s).text := by
  induction items generalizing s with
  | nil => exact List.prefix_rfl
  | element tag inner rest ihi ihr =>
    rw [readItems]
    refine List.IsPrefix.trans ?_ (ihr _)
    split
    · obtain ⟨more, -, hmore⟩ := tag_text s tag.name _ (.inr (.inl rfl))
      exact ⟨more, hmore.symm⟩
    · obtain ⟨more, -, hmore⟩ := tag_text s tag.name _ (.inl rfl)
      obtain ⟨more', -, hmore'⟩ :=
        tag_text (readItems inner (s.startElement tag.name)) tag.name _ (.inr (.inr rfl))
      refine List.IsPrefix.trans ⟨more, hmore.symm⟩ (List.IsPrefix.trans (ihi _) ?_)
      exact ⟨more', hmore'.symm⟩
  | char c rest ih =>
    refine List.IsPrefix.trans ?_ (ih _)
    unfold Extraction.visible
    split
    · exact ⟨[c], rfl⟩
    · exact List.prefix_rfl
  | other markup rest ih => exact ih s

/-- Legible items, spelled uniformly, leave a character that is no blank. -/
theorem readItems_legible {items : Items} {s : Extraction} (h : Legible s.inTextNode items) :
    ∃ c ∈ (readItems items s).text, isWhitespace c = false := by
  induction items generalizing s with
  | nil => exact h.elim
  | element tag inner rest ihi ihr =>
    rw [readItems]
    rcases h with hinner | hrest
    · have hnil : ¬ inner.isNil = true := by
        intro hnil
        rw [Items.isNil_iff.mp hnil] at hinner
        exact hinner
      obtain ⟨c, hc, hblank⟩ := ihi (s := s.startElement tag.name) (by simpa using hinner)
      obtain ⟨more, -, hmore⟩ :=
        tag_text (readItems inner (s.startElement tag.name)) tag.name _ (.inr (.inr rfl))
      rw [if_neg hnil]
      refine ⟨c, (readItems_grows rest _).subset ?_, hblank⟩
      rw [hmore]
      exact List.mem_append_left _ hc
    · refine ihr ?_
      rw [afterElement_eq] at hrest
      split
      next hnil => rwa [if_pos hnil, ← emptyElement_inTextNode s tag.name] at hrest
      next hnil =>
        rw [if_neg hnil] at hrest
        rwa [endElement_inTextNode, readItems_inTextNode, startElement_inTextNode]
  | char c rest ih =>
    rw [readItems]
    rcases h with ⟨hin, hblank⟩ | hrest
    · refine ⟨c, (readItems_grows rest _).subset ?_, hblank⟩
      rw [visible_of_in s hin]
      exact List.mem_append_right _ (List.mem_singleton.mpr rfl)
    · exact ih (by rwa [visible_inTextNode])
  | other markup rest ih => exact ih h

theorem legible_ofChars {inText : Bool} {cs : List Char} {rest : Items} :
    Legible inText (.ofChars cs rest) ↔
      (inText = true ∧ ∃ c ∈ cs, isWhitespace c = false) ∨ Legible inText rest := by
  induction cs with
  | nil => simp [Items.ofChars]
  | cons c cs ih =>
    have hcons : Legible inText (.ofChars (c :: cs) rest) ↔
        (inText = true ∧ isWhitespace c = false) ∨ Legible inText (.ofChars cs rest) := Iff.rfl
    rw [hcons, ih, List.exists_mem_cons_iff, ← or_assoc, ← and_or_left]

end Items

section Reading

variable (qx : QuickXml)

theorem readEvents_append (before after : List (Option Event)) (s : Extraction) :
    readEvents qx (before ++ after) s = readEvents qx before s >>= readEvents qx after := by
  induction before generalizing s with
  | nil => rfl
  | cons event before ih =>
    cases event with
    | none => rfl
    | some event =>
      rw [List.cons_append, readEvents, readEvents, bind_assoc]
      exact congrArg _ (funext ih)

/-- The loop over the events of a content. -/
def readContent (content : Content) (s : Extraction) : Except DocxParseError Extraction :=
  readEvents qx ((events content).map some) s

theorem readContent_cons {content rest : Content} {event : Event}
    (h : events content = event :: events rest) (s : Extraction) :
    readContent qx content s = readEvent qx s event >>= readContent qx rest := by
  rw [readContent, h]
  rfl

theorem readContent_element (tag : Tag) (inner rest : Content) (s : Extraction) :
    readContent qx (.element tag inner rest) s =
      readContent qx inner (s.startElement tag.name) >>= fun s' =>
        readContent qx rest (s'.endElement tag.name) := by
  have hevents : (events (.element tag inner rest)).map some =
      some (.start tag.name) :: ((events inner).map some ++
        some (.endTag tag.name) :: (events rest).map some) := by
    rw [events, List.map_append, List.map_cons, List.map_cons, List.cons_append]
  rw [readContent, hevents, readEvents, readEvent]
  exact readEvents_append qx _ _ _

theorem readEvent_text (s : Extraction) (written : List Char) :
    readEvent qx s (.text written) = .ok (s.visible (normalizeEol written)) := by
  rw [readEvent, qx.xml10Content_eq, Extraction.visible]
  split <;> rfl

theorem readEvent_generalRef {s : Extraction} {body : List Char} {c : Char}
    (h : character? body = some c) :
    readEvent qx s (.generalRef body) = .ok (s.visible [c]) := by
  rw [readEvent, qx.unescape_character body c h, Extraction.visible]
  split <;> rfl

theorem readEvent_generalRef_outside {s : Extraction} (h : s.inTextNode = false)
    (body : List Char) : readEvent qx s (.generalRef body) = .ok s := by
  rw [readEvent, h]
  rfl

theorem character_of_name {name : List Char} (h : isName name = true) :
    character? name = predefined name := by
  have hhash : name.head? ≠ some '#' := by
    intro hhead
    rw [isName, hhead, Bool.and_eq_true] at h
    exact absurd h.1 (by decide)
  rw [character?, if_neg hhash]

theorem readEvent_generalRef_declared {s : Extraction} (hin : s.inTextNode = true)
    {body : List Char} (hname : isName body = true) (h : character? body = none) :
    readEvent qx s (.generalRef body) = .error ⟨⟩ := by
  rw [readEvent, hin, if_pos rfl, qx.unescape_declared body hname (character_of_name hname ▸ h)]
  rfl

variable {entities : Entities}

theorem resolve_of_character {body : List Char} {c : Char} (h : character? body = some c) :
    entities.resolve body = some [c] := by
  rw [Entities.resolve, h]

/-- A content spelled uniformly reads as its items do. -/
theorem readContent_uniform {content : Content} {s : Extraction}
    (h : Uniform entities s.inTextNode content) :
    readContent qx content s = .ok (readItems (content.infoset entities) s) := by
  induction content generalizing s with
  | nil => rfl
  | element tag inner rest ihi ihr =>
    obtain ⟨halike, hinner, hrest⟩ := h
    rw [← startElement_inTextNode s tag.name] at hinner
    have hread : readContent qx (.element tag inner rest) s =
        readContent qx rest (readItems (.element tag (inner.infoset entities) .nil) s) := by
      rw [readContent_element, ihi hinner, readItems_tags halike]
      rfl
    rw [hread]
    refine ihr ?_
    rw [readItems_inTextNode]
    exact hrest
  | empty tag rest ih =>
    rw [← emptyElement_inTextNode s tag.name] at h
    exact ih h
  | text written rest ih =>
    rw [readContent_cons qx rfl, readEvent_text, Content.infoset, readItems_ofChars]
    exact ih (by rw [visible_inTextNode]; exact h)
  | cdata written rest ih =>
    have hsame : s.visible (normalizeEol written) = s := by
      cases hin : s.inTextNode with
      | true =>
        rw [h.1 hin]
        exact visible_nil s
      | false => exact visible_of_out s hin _
    rw [Content.infoset, readItems_ofChars, hsame]
    exact ih h.2
  | reference body rest ih =>
    rw [readContent_cons qx rfl, Content.infoset, readItems_ofChars]
    cases hin : s.inTextNode with
    | true =>
      obtain ⟨c, hc⟩ := Option.isSome_iff_exists.mp (h.1 hin)
      rw [readEvent_generalRef qx hc, resolve_of_character hc]
      exact ih (by rw [visible_inTextNode]; exact h.2)
    | false =>
      rw [readEvent_generalRef_outside qx hin, visible_of_out s hin]
      exact ih h.2
  | other markup rest ih =>
    rw [readContent_cons qx rfl]
    cases markup <;> exact ih h

/-- What is read so far is blank or an error, in a text node at most where `inText` allows it. -/
def Unseen (inText : Bool) : Except DocxParseError Extraction → Prop
  | .error _ => True
  | .ok s => Blank s.text ∧ (s.inTextNode = true → inText = true)

theorem Unseen.bind {inText inText' : Bool} {result : Except DocxParseError Extraction}
    {f : Extraction → Except DocxParseError Extraction} (h : Unseen inText result)
    (hf : ∀ s, Unseen inText (.ok s) → Unseen inText' (f s)) : Unseen inText' (result >>= f) := by
  cases result with
  | error e => trivial
  | ok s => exact hf s h

theorem Unseen.tag {inText inText' : Bool} {s s' : Extraction} (h : Unseen inText (.ok s))
    (name : List Char) (htag : s' = s.startElement name ∨ s' = s.emptyElement name ∨
      s' = s.endElement name) (hflag : s'.inTextNode = true → inText' = true) :
    Unseen inText' (.ok s') := by
  obtain ⟨more, hblank, hmore⟩ := tag_text s name s' htag
  refine ⟨?_, hflag⟩
  rw [hmore]
  exact blank_append.mpr ⟨h.1, hblank⟩

theorem Unseen.visible {inText : Bool} {s : Extraction} (h : Unseen inText (.ok s))
    {more : List Char} (hmore : inText = true → Blank more) :
    Unseen inText (.ok (s.visible more)) := by
  refine ⟨?_, fun hin => h.2 (by rwa [visible_inTextNode] at hin)⟩
  cases hin : s.inTextNode with
  | true =>
    rw [visible_of_in s hin]
    exact blank_append.mpr ⟨h.1, hmore (h.2 hin)⟩
  | false =>
    rw [visible_of_out s hin]
    exact h.1

theorem startFlag_mono {a b : Bool} (h : a = true → b = true) (e : Element) :
    e.startFlag a = true → e.startFlag b = true := by
  cases e <;> first | exact h | exact id

theorem endFlag_mono {a b : Bool} (h : a = true → b = true) (e : Element) :
    e.endFlag a = true → e.endFlag b = true := by
  cases e <;> first | exact h | exact id

theorem endFlag_startFlag {inText : Bool} {e : Element}
    (h : e.endFlag (e.startFlag inText) = true) : inText = true := by
  cases e <;> first | exact h | cases h

theorem Unseen.startElement {inText : Bool} {s : Extraction} (h : Unseen inText (.ok s))
    (name : List Char) :
    Unseen ((elementOf name).startFlag inText) (.ok (s.startElement name)) := by
  refine h.tag name (.inl rfl) fun hin => ?_
  rw [startElement_inTextNode] at hin
  exact startFlag_mono h.2 _ hin

theorem Unseen.endElement {inText : Bool} {tag : Tag} {inner : Items} {s : Extraction}
    (h : Unseen (inTextAfter ((elementOf tag.name).startFlag inText) inner) (.ok s)) :
    Unseen (afterElement inText tag inner) (.ok (s.endElement tag.name)) := by
  refine h.tag tag.name (.inr (.inr rfl)) fun hin => ?_
  rw [endElement_inTextNode] at hin
  have hend := endFlag_mono h.2 _ hin
  rw [afterElement_eq]
  split
  next hnil =>
    rw [Items.isNil_iff.mp hnil] at hend
    exact endFlag_startFlag hend
  next => exact hend

theorem name_of_declared {body v : List Char} (h : character? body = none)
    (hv : entities.resolve body = some v) : isName body = true := by
  rw [Entities.resolve, h] at hv
  dsimp only at hv
  split at hv
  next hname => exact hname
  next => cases hv

/-- A content whose visible writing is blank leaves a blank text or an error. -/
theorem readContent_mute {content : Content} {inText : Bool} {s : Extraction}
    (hwf : content.WellFormed entities) (h : Mute entities inText content)
    (hs : Unseen inText (.ok s)) :
    Unseen (inTextAfter inText (content.infoset entities)) (readContent qx content s) := by
  induction content generalizing inText s with
  | nil => exact hs
  | element tag inner rest ihi ihr =>
    rw [readContent_element, Content.infoset, inTextAfter_element]
    exact (ihi hwf.2.1 h.1 (hs.startElement tag.name)).bind fun s' hs' =>
      ihr hwf.2.2 h.2 hs'.endElement
  | empty tag rest ih =>
    refine ih hwf.2 h (hs.tag tag.name (.inr (.inl rfl)) fun hin => ?_)
    rw [emptyElement_inTextNode] at hin
    exact hs.2 hin
  | text written rest ih =>
    rw [readContent_cons qx rfl, readEvent_text, Content.infoset, inTextAfter_ofChars]
    exact ih hwf.2.2 h.2 (hs.visible h.1)
  | cdata written rest ih =>
    rw [Content.infoset, inTextAfter_ofChars]
    exact ih hwf.2 h hs
  | reference body rest ih =>
    rw [readContent_cons qx rfl, Content.infoset, inTextAfter_ofChars]
    cases hc : character? body with
    | some c =>
      have hblank : inText = true → Blank [c] := by
        intro hin
        simpa [Blank] using h.1 hin c hc
      rw [readEvent_generalRef qx hc]
      exact ih hwf.2 h.2 (hs.visible hblank)
    | none =>
      cases hin : s.inTextNode with
      | false =>
        rw [readEvent_generalRef_outside qx hin]
        exact ih hwf.2 h.2 hs
      | true =>
        obtain ⟨v, hv⟩ := Option.isSome_iff_exists.mp hwf.1
        rw [readEvent_generalRef_declared qx hin (name_of_declared hc hv) hc]
        trivial
  | other markup rest ih =>
    rw [readContent_cons qx rfl]
    cases markup <;> exact ih hwf h hs

theorem readMisc {misc : List Misc} {s : Extraction} (h : s.inTextNode = false) :
    readEvents qx ((misc.map miscEvent).map some) s = .ok s := by
  induction misc with
  | nil => rfl
  | cons m misc ih =>
    have hevent : readEvent qx s (miscEvent m) = .ok s := by
      cases m with
      | blank written => rw [miscEvent, readEvent_text, visible_of_out s h]
      | markup markup => cases markup <;> rfl
      | _ => rfl
    rw [List.map_cons, List.map_cons, readEvents, hevent]
    exact ih

/-- What stands around the root element is read over. -/
theorem extract_content (d : Document)
    (h : ∀ s, readContent qx d.content ⟨[], false⟩ = .ok s → s.inTextNode = false) :
    extractWordprocessingText qx (documentEvents d) =
      readContent qx d.content ⟨[], false⟩ >>= finish := by
  rw [extractWordprocessingText, documentEvents, List.map_append, List.map_append,
    readEvents_append, readEvents_append, readMisc qx rfl]
  cases hread : readContent qx d.content ⟨[], false⟩ with
  | error e =>
    rw [readContent] at hread
    simp only [bind, Except.bind, hread]
  | ok s =>
    have hepilog : readEvents qx ((d.epilog.map miscEvent).map some) s = .ok s :=
      readMisc qx (h s hread)
    rw [readContent] at hread
    simp only [bind, Except.bind, hread, hepilog]

end Reading

section Finish

theorem finish_blank {s : Extraction} (h : Blank s.text) : finish s = .error ⟨⟩ := by
  have hblank : Blank (s.text.rdropWhile (· == '\n')) := fun c hc =>
    h c ((List.rdropWhile_prefix _ _).subset hc)
  rw [finish, trim_eq_nil_iff.mpr hblank]
  rfl

theorem finish_of_solid {s : Extraction} {c : Char} (hc : c ∈ s.text)
    (hsolid : isWhitespace c = false) : finish s = .ok (s.text.rdropWhile (· == '\n')) := by
  have hnot : ¬ Blank (s.text.rdropWhile (· == '\n')) := by
    intro hblank
    have hparts : s.text.rdropWhile (· == '\n') ++ s.text.rtakeWhile (· == '\n') = s.text :=
      List.rdropWhile_append_rtakeWhile
    rw [← hparts, List.mem_append] at hc
    rcases hc with hc | hc
    · rw [hblank c hc] at hsolid
      cases hsolid
    · have hline := List.mem_rtakeWhile_imp hc
      rw [beq_iff_eq.mp hline] at hsolid
      exact absurd hsolid (by decide)
  rw [finish, if_neg]
  rwa [List.isEmpty_iff, trim_eq_nil_iff]

end Finish

section Spellings

variable {entities : Entities}

/-- Character references and empty element tags are a uniform spelling. -/
theorem uniform_spelled {items : Items} (h : items.WellFormed) (inText : Bool) :
    Uniform entities inText (items.spelled fun _ => false) := by
  induction items generalizing inText with
  | nil => trivial
  | element tag inner rest ihi ihr =>
    unfold Items.spelled
    split
    · exact ihr h.2.2 inText
    next hnil =>
      refine ⟨fun hnil' => ?_, ihi h.2.1 _, ihr h.2.2 _⟩
      rw [Items.infoset_spelled rfl h.2.1] at hnil'
      exact absurd hnil' hnil
  | char c rest ih =>
    rw [Items.spelled, if_neg Bool.false_ne_true]
    refine ⟨fun _ => ?_, ih h.2 inText⟩
    rw [character?_decimalReference h.1]
    rfl
  | other markup rest ih => exact ih h inText

/-- Every character that is no blank can go to a CDATA section. -/
theorem mute_spelled {items : Items} (h : items.WellFormed) (inText : Bool) :
    Mute entities inText (items.spelled fun c => !isWhitespace c) := by
  induction items generalizing inText with
  | nil => trivial
  | element tag inner rest ihi ihr =>
    unfold Items.spelled
    split
    · exact ihr h.2.2 inText
    · exact ⟨ihi h.2.1 _, ihr h.2.2 _⟩
  | char c rest ih =>
    unfold Items.spelled
    split
    · exact ih h.2 inText
    next hc =>
      refine ⟨fun _ c' hc' => ?_, ih h.2 inText⟩
      rw [character?_decimalReference h.1] at hc'
      cases Option.some.inj hc'
      simpa using hc
  | other markup rest ih => exact ih h inText

theorem mute_of_illegible {content : Content} {inText : Bool}
    (h : ¬ Legible inText (content.infoset entities)) : Mute entities inText content := by
  induction content generalizing inText with
  | nil => trivial
  | element tag inner rest ihi ihr =>
    exact ⟨ihi fun hinner => h (.inl hinner), ihr fun hrest => h (.inr hrest)⟩
  | empty tag rest ih =>
    exact ih fun hrest => h (.inr hrest)
  | text written rest ih =>
    refine ⟨fun hin c hc => ?_, ih fun hrest => h (legible_ofChars.mpr (.inr hrest))⟩
    by_contra hsolid
    exact h (legible_ofChars.mpr (.inl ⟨hin, c, hc, by simpa using hsolid⟩))
  | cdata written rest ih =>
    exact ih fun hrest => h (legible_ofChars.mpr (.inr hrest))
  | reference body rest ih =>
    refine ⟨fun hin c hc => ?_, ih fun hrest => h (legible_ofChars.mpr (.inr hrest))⟩
    by_contra hsolid
    rw [Content.infoset, resolve_of_character hc] at h
    exact h (legible_ofChars.mpr (.inl ⟨hin, c, List.mem_singleton.mpr rfl, by simpa using hsolid⟩))
  | other markup rest ih => exact ih h

end Spellings

section Documents

variable (qx : QuickXml) {d : Document}

theorem extract_uniform (h : Uniform d.entities false d.content) :
    extractWordprocessingText qx (documentEvents d) =
      finish (readItems d.infoset.root ⟨[], false⟩) := by
  have hread : readContent qx d.content ⟨[], false⟩ =
      .ok (readItems d.infoset.root ⟨[], false⟩) := readContent_uniform qx h
  have hout : ∀ s, readContent qx d.content ⟨[], false⟩ = .ok s → s.inTextNode = false := by
    intro s hs
    cases Except.ok.inj (hread.symm.trans hs)
    exact (readItems_inTextNode _ _).trans (inTextAfter_false _)
  rw [extract_content qx d hout, hread]
  rfl

theorem extract_mute (hd : d.WellFormed) (h : Mute d.entities false d.content) :
    extractWordprocessingText qx (documentEvents d) = .error ⟨⟩ := by
  have hstart : Unseen false (.ok ⟨[], false⟩) := ⟨by simp [Blank], id⟩
  have hunseen := readContent_mute qx hd.1 h hstart
  rw [inTextAfter_false] at hunseen
  have hout : ∀ s, readContent qx d.content ⟨[], false⟩ = .ok s → s.inTextNode = false := by
    intro s hs
    rw [hs] at hunseen
    exact Bool.eq_false_iff.mpr fun hin => by cases hunseen.2 hin
  rw [extract_content qx d hout]
  cases hread : readContent qx d.content ⟨[], false⟩ with
  | error e => rfl
  | ok s =>
    rw [hread] at hunseen
    exact finish_blank hunseen.1

/-- The spellings of a document are extracted alike when none of them can show a character, and
otherwise as far as they are uniform. -/
theorem extractWordprocessingText_alike_iff (hd : d.WellFormed) :
    ((∀ d' : Document, d'.WellFormed → d'.infoset = d.infoset →
        extractWordprocessingText qx (documentEvents d') =
          extractWordprocessingText qx (documentEvents d)) ↔
      ¬ Legible false d.infoset.root) ∧
    ∀ d' : Document, d'.WellFormed → d'.infoset = d.infoset →
      Uniform d.entities false d.content → Uniform d'.entities false d'.content →
      extractWordprocessingText qx (documentEvents d') =
        extractWordprocessingText qx (documentEvents d) := by
  refine ⟨⟨fun halike hlegible => ?_, fun hillegible d' hd' hsame => ?_⟩,
    fun d' _ hsame hu hu' => ?_⟩
  · have hitems := Content.wellFormed_infoset hd.1
    have hshown : extractWordprocessingText qx (documentEvents (d.respelled fun _ => false)) =
        finish (readItems d.infoset.root ⟨[], false⟩) := by
      rw [extract_uniform qx, Document.respelled_infoset rfl hd]
      rw [Document.respelled_content]
      exact uniform_spelled hitems false
    have hhidden : extractWordprocessingText qx
        (documentEvents (d.respelled fun c => !isWhitespace c)) = .error ⟨⟩ := by
      refine extract_mute qx (Document.respelled_wellFormed hd) ?_
      rw [Document.respelled_content]
      exact mute_spelled hitems false
    obtain ⟨c, hc, hsolid⟩ := readItems_legible (s := ⟨[], false⟩) hlegible
    have hreturn : (!isWhitespace '\r') = false := by decide
    have hsame : ∀ hidden : Char → Bool, hidden '\r' = false →
        extractWordprocessingText qx (documentEvents (d.respelled hidden)) =
          extractWordprocessingText qx (documentEvents d) := fun hidden hkept =>
      halike _ (Document.respelled_wellFormed hd) (Document.respelled_infoset hkept hd)
    rw [finish_of_solid hc hsolid, hsame (fun _ => false) rfl,
      ← hsame (fun c => !isWhitespace c) hreturn, hhidden] at hshown
    cases hshown
  · have hmute : ∀ e : Document, e.infoset = d.infoset → Mute e.entities false e.content := by
      intro e he
      refine mute_of_illegible ?_
      rw [← he] at hillegible
      exact hillegible
    rw [extract_mute qx hd' (hmute d' hsame), extract_mute qx hd (hmute d rfl)]
  · rw [extract_uniform qx hu, extract_uniform qx hu', hsame]

/-- `unescape` of a text that is one reference. -/
def unescapeReference (raw : List Char) : Option (List Char) :=
  if raw.head? = some '&' ∧ raw.getLast? = some ';' then
    (character? raw.tail.dropLast).map fun c => [c]
  else some raw

theorem unescapeReference_eq (body : List Char) :
    unescapeReference ('&' :: body ++ [';']) = (character? body).map fun c => [c] := by
  have hlast : ('&' :: body ++ [';']).getLast? = some ';' := List.getLast?_concat
  rw [unescapeReference, if_pos ⟨rfl, hlast⟩, List.cons_append, List.tail_cons,
    List.dropLast_concat]

def quickXml : QuickXml where
  xml10Content value := some (normalizeEol value)
  unescape := unescapeReference
  xml10Content_eq _ := rfl
  unescape_character body c h := by rw [unescapeReference_eq, h]; rfl
  unescape_declared name hname h := by rw [unescapeReference_eq, character_of_name hname, h]; rfl

def noEntities : Entities := ⟨fun _ => none, by simp⟩

/-- `<w:p><w:t>…</w:t></w:p>` around a piece of character data. -/
def paragraphOf (run : Content) : Document where
  entities := noEntities
  prolog := [.declaration]
  root := ⟨"w:p".toList, 0⟩
  body := some (.element ⟨"w:t".toList, 0⟩ run .nil)
  epilog := []

def literalParagraph : Document := paragraphOf (.text ['a'] .nil)

def referenceParagraph : Document := paragraphOf (.reference "#97".toList .nil)

def cdataParagraph : Document := paragraphOf (.cdata ['a'] .nil)

theorem paragraphOf_wellFormed {run : Content} (h : run.WellFormed noEntities) :
    (paragraphOf run).WellFormed := by
  have hp : (⟨"w:p".toList, 0⟩ : Tag).WellFormed := ⟨by decide, Multiset.nodup_zero⟩
  have ht : (⟨"w:t".toList, 0⟩ : Tag).WellFormed := ⟨by decide, Multiset.nodup_zero⟩
  exact ⟨⟨hp, ⟨ht, h, trivial⟩, trivial⟩, by simp [paragraphOf]⟩

theorem paragraphOf_uniform {run : Content} (hne : (run.infoset noEntities).isNil = false)
    (h : Uniform noEntities true run) :
    Uniform (paragraphOf run).entities false (paragraphOf run).content := by
  have hrun : (elementOf "w:t".toList).startFlag false = true := by decide
  have ht : Uniform noEntities false (.element ⟨"w:t".toList, 0⟩ run .nil) := by
    refine ⟨fun hnil => ?_, ?_, trivial⟩
    · rw [hne] at hnil
      cases hnil
    · rw [hrun]
      exact h
  have hp : Uniform noEntities false
      (.element ⟨"w:p".toList, 0⟩ (.element ⟨"w:t".toList, 0⟩ run .nil) .nil) :=
    ⟨fun hnil => (by cases hnil), ht, trivial⟩
  exact hp

theorem literalParagraph_wellFormed : literalParagraph.WellFormed :=
  paragraphOf_wellFormed ⟨⟨by decide, by decide, by decide, by decide, by decide⟩, rfl, trivial⟩

theorem extractWordprocessingText_alike_paragraph :
    referenceParagraph.infoset = literalParagraph.infoset ∧
      extractWordprocessingText quickXml (documentEvents referenceParagraph) =
        extractWordprocessingText quickXml (documentEvents literalParagraph) := by
  have hr : referenceParagraph.WellFormed := paragraphOf_wellFormed ⟨by decide, trivial⟩
  have hsame : referenceParagraph.infoset = literalParagraph.infoset := rfl
  have hl : Uniform noEntities true (.text ['a'] .nil) := trivial
  have hu : Uniform noEntities true (.reference "#97".toList .nil) := ⟨fun _ => rfl, trivial⟩
  exact ⟨hsame, (extractWordprocessingText_alike_iff quickXml literalParagraph_wellFormed).2 _ hr
    hsame (paragraphOf_uniform rfl hl) (paragraphOf_uniform rfl hu)⟩

theorem cdataParagraph_unread :
    literalParagraph.WellFormed ∧ cdataParagraph.WellFormed ∧
      cdataParagraph.infoset = literalParagraph.infoset ∧
      extractWordprocessingText quickXml (documentEvents literalParagraph) = .ok ['a'] ∧
      extractWordprocessingText quickXml (documentEvents cdataParagraph) = .error ⟨⟩ := by
  have hcdata : cdataParagraph.WellFormed :=
    paragraphOf_wellFormed ⟨⟨by decide, by decide⟩, trivial⟩
  exact ⟨literalParagraph_wellFormed, hcdata, rfl, rfl, rfl⟩

end Documents

end GmragApi.Docx

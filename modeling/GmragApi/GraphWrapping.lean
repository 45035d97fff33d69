import GmragApi.GraphParsing

/-! The same graph in every wrapping that the model may answer it in: as an array or an object, in a
fence, or between prose. -/

namespace GmragApi.Graph

section Payload

/-- The text of a JSON array or object, from its first bracket to its last. -/
inductive Bracketed : List Char → Prop
  | array (inner : List Char) : Bracketed ('[' :: inner ++ [']'])
  | object (inner : List Char) : Bracketed ('{' :: inner ++ ['}'])

def isBracket (c : Char) : Bool := c == '[' || c == ']' || c == '{' || c == '}'

def NoBracket (text : List Char) : Prop := ∀ c ∈ text, isBracket c = false

def trimStart (s : List Char) : List Char := s.dropWhile isWhitespace

def trimEnd (s : List Char) : List Char := (s.reverse.dropWhile isWhitespace).reverse

theorem trimStart_subset (s : List Char) : trimStart s ⊆ s := (List.dropWhile_sublist _).subset

theorem trimEnd_subset (s : List Char) : trimEnd s ⊆ s := fun _ hc =>
  List.mem_reverse.mp ((List.dropWhile_sublist _).subset (List.mem_reverse.mp hc))

theorem trimStart_of_blank {s : List Char} (h : Blank s) : trimStart s = [] :=
  List.dropWhile_eq_nil_iff.mpr h

theorem trimEnd_of_blank {s : List Char} (h : Blank s) : trimEnd s = [] := by
  rw [trimEnd, List.reverse_eq_nil_iff]
  exact List.dropWhile_eq_nil_iff.mpr fun c hc => h c (List.mem_reverse.mp hc)

/-- A text whose ends are not blank is met by `trim` from both sides. -/
theorem trim_around {core : List Char} {first last : Char} (hfirst : core.head? = some first)
    (hlast : core.getLast? = some last) (hsolid : isWhitespace first = false)
    (hsolid' : isWhitespace last = false) (before after : List Char) :
    trim (before ++ core ++ after) = trimStart before ++ core ++ trimEnd after := by
  have hne : core ≠ [] := List.ne_nil_of_mem (List.mem_of_head? hfirst)
  obtain ⟨rest, hhead⟩ := List.head?_eq_some_iff.mp hfirst
  obtain ⟨front, hback⟩ := List.getLast?_eq_some_iff.mp hlast
  refine trim_between hne ?_ ?_ before after
  · rw [hhead, List.dropWhile_cons_of_neg (by simp [hsolid])]
  · rw [hback, List.reverse_append, List.reverse_singleton, List.singleton_append,
      List.dropWhile_cons_of_neg (by simp [hsolid'])]

theorem Bracketed.ends {text : List Char} (h : Bracketed text) :
    ∃ first last, text.head? = some first ∧ text.getLast? = some last ∧
      isBracket first = true ∧ isBracket last = true ∧ isWhitespace first = false ∧
      isWhitespace last = false := by
  cases h with
  | array inner => exact ⟨'[', ']', rfl, List.getLast?_concat .., by decide⟩
  | object inner => exact ⟨'{', '}', rfl, List.getLast?_concat .., by decide⟩

theorem Bracketed.trim_around {text : List Char} (h : Bracketed text) (before after : List Char) :
    trim (before ++ text ++ after) = trimStart before ++ text ++ trimEnd after := by
  obtain ⟨first, last, hfirst, hlast, -, -, hsolid, hsolid'⟩ := h.ends
  exact Graph.trim_around hfirst hlast hsolid hsolid' before after

/-- Nothing without a bracket stands around a text that is enclosed. -/
theorem enclosed_around {first last : Char} {before text after : List Char}
    (hfirst : isBracket first = true) (hlast : isBracket last = true)
    (hbefore : NoBracket before) (hafter : NoBracket after)
    (h : enclosed first last (before ++ text ++ after) = true) : before = [] ∧ after = [] := by
  rw [enclosed, Bool.and_eq_true, beq_iff_eq, beq_iff_eq] at h
  obtain ⟨hhead, htail⟩ := h
  constructor
  · cases before with
    | nil => rfl
    | cons c before =>
      obtain rfl : c = first := Option.some.inj hhead
      rw [hbefore c List.mem_cons_self] at hfirst
      cases hfirst
  · rcases List.eq_nil_or_concat after with rfl | ⟨after, c, rfl⟩
    · rfl
    · rw [List.concat_eq_append, ← List.append_assoc, List.getLast?_concat] at htail
      obtain rfl : c = last := Option.some.inj htail
      rw [hafter c (by simp)] at hlast
      cases hlast

/-- Between texts without brackets the array or object is found. -/
theorem extractJsonPayload_found {raw text : List Char} (h : Bracketed text)
    (before after : List Char) (hbefore : NoBracket before)
    (hafter : NoBracket after) (hstripped : stripCodeFence (trim raw) = before ++ text ++ after) :
    extractJsonPayload raw = text := by
  unfold extractJsonPayload
  rw [hstripped]
  dsimp only
  split
  next henclosed =>
    obtain ⟨rfl, rfl⟩ : before = [] ∧ after = [] := by
      rcases (Bool.or_eq_true _ _).mp henclosed with henclosed | henclosed
      · exact enclosed_around rfl rfl hbefore hafter henclosed
      · exact enclosed_around rfl rfl hbefore hafter henclosed
    rw [List.nil_append, List.append_nil]
  next =>
    obtain ⟨start, inner, last, rfl, hstart, hend⟩ : ∃ start inner last,
        text = start :: inner ++ [last] ∧ (start != '[' && start != '{') = false ∧
          (if start == '{' then '}' else ']') = last := by
      cases h with
      | array inner => exact ⟨'[', inner, ']', rfl, rfl, rfl⟩
      | object inner => exact ⟨'{', inner, '}', rfl, rfl, rfl⟩
    have hskip : (before ++ (start :: inner ++ [last]) ++ after).dropWhile
        (fun c => c != '[' && c != '{') = start :: (inner ++ [last] ++ after) := by
      have hall : before.dropWhile (fun c => c != '[' && c != '{') = [] := by
        refine List.dropWhile_eq_nil_iff.mpr fun c hc => ?_
        have hplain := hbefore c hc
        simp only [isBracket, Bool.or_eq_false_iff] at hplain
        simp [bne, hplain]
      rw [List.append_assoc, List.dropWhile_append, hall, List.isEmpty_nil, if_pos rfl]
      simp only [List.cons_append]
      rw [List.dropWhile_cons_of_neg (by rw [hstart]; exact Bool.false_ne_true)]
    have hinner : ((inner ++ [last] ++ after).reverse.dropWhile fun c => c != last).reverse =
        inner ++ [last] := by
      have hall : after.reverse.dropWhile (fun c => c != last) = [] := by
        refine List.dropWhile_eq_nil_iff.mpr fun c hc => ?_
        have hplain := hafter c (List.mem_reverse.mp hc)
        refine bne_iff_ne.mpr fun heq => ?_
        rw [heq, ← hend] at hplain
        split at hplain <;> cases hplain
      rw [List.reverse_append, List.dropWhile_append, hall, List.isEmpty_nil, if_pos rfl]
      rw [List.reverse_append, List.reverse_singleton, List.singleton_append,
        List.dropWhile_cons_of_neg (by simp)]
      simp
    rw [hskip]
    dsimp only
    rw [hend, hinner]
    cases inner <;> rfl

theorem fence_eq : fence = ['`', '`', '`'] := rfl

theorem fence_isPrefixOf_append {first : Char} (hfirst : first ≠ '`') (before rest : List Char) :
    fence.isPrefixOf (before ++ first :: rest) = fence.isPrefixOf before := by
  have hfence : ('`' == first) = false := beq_eq_false_iff_ne.mpr hfirst.symm
  rw [fence_eq]
  match before with
  | [] => simp [List.isPrefixOf, hfence]
  | [x] => simp [List.isPrefixOf, hfence]
  | [x, y] => simp [List.isPrefixOf, hfence]
  | x :: y :: z :: before => simp [List.isPrefixOf]

/-- A bracket is no part of a fence. -/
theorem Bracketed.fence_front {text : List Char} (h : Bracketed text) (before after : List Char) :
    fence.isPrefixOf (before ++ text ++ after) = fence.isPrefixOf before := by
  obtain ⟨first, last, hfirst, -, hbracket, -⟩ := h.ends
  obtain ⟨rest, rfl⟩ := List.head?_eq_some_iff.mp hfirst
  rw [List.append_assoc, List.cons_append]
  exact fence_isPrefixOf_append (by rintro rfl; cases hbracket) before _

theorem Bracketed.fence_back {text : List Char} (h : Bracketed text) {before after : List Char}
    (hsuffix : fence.isSuffixOf (before ++ text ++ after) = true) :
    ∃ rest, after = rest ++ fence := by
  obtain ⟨first, last, -, hlast, -, hbracket, -⟩ := h.ends
  obtain ⟨front, rfl⟩ := List.getLast?_eq_some_iff.mp hlast
  have hreverse : (before ++ (front ++ [last]) ++ after).reverse =
      after.reverse ++ last :: (front.reverse ++ before.reverse) := by
    simp
  rw [List.isSuffixOf, hreverse] at hsuffix
  have hprefix : fence.isPrefixOf after.reverse = true :=
    (fence_isPrefixOf_append (by rintro rfl; cases hbracket) _ _).symm.trans hsuffix
  obtain ⟨rest, hrest⟩ := List.isPrefixOf_iff_prefix.mp hprefix
  refine ⟨rest.reverse, ?_⟩
  rw [← List.reverse_reverse after, ← hrest, List.reverse_append]
  rfl

theorem trimStart_trimStart (s : List Char) : trimStart (trimStart s) = trimStart s :=
  List.dropWhile_idempotent _ _

/-- What stands after the line of a fence, without the closing one. -/
theorem stripCodeFence_line {info text : List Char} (h : Bracketed text) (hinfo : '\n' ∉ info)
    (before after : List Char) :
    ∃ rest, rest ⊆ after ∧
      stripCodeFence (fence ++ info ++ '\n' :: (before ++ text ++ after)) =
        trimStart before ++ text ++ rest := by
  have hopen : fence.isPrefixOf (fence ++ info ++ '\n' :: (before ++ text ++ after)) = true := by
    rw [List.append_assoc]
    exact List.isPrefixOf_iff_prefix.mpr (List.prefix_append _ _)
  have hline : ((fence ++ info ++ '\n' :: (before ++ text ++ after)).drop fence.length).dropWhile
      (fun c => c != '\n') = '\n' :: (before ++ text ++ after) := by
    have hall : info.dropWhile (fun c => c != '\n') = [] := by
      refine List.dropWhile_eq_nil_iff.mpr fun c hc => bne_iff_ne.mpr ?_
      rintro rfl
      exact hinfo hc
    rw [List.append_assoc, List.drop_left, List.dropWhile_append, hall, List.isEmpty_nil,
      if_pos rfl, List.dropWhile_cons_of_neg (by simp)]
  unfold stripCodeFence
  rw [if_pos hopen, hline]
  dsimp only
  rw [h.trim_around]
  split
  next hsuffix =>
    obtain ⟨rest, hrest⟩ := h.fence_back hsuffix
    have htake : (trimStart before ++ text ++ trimEnd after).take
        ((trimStart before ++ text ++ trimEnd after).length - fence.length) =
          trimStart before ++ text ++ rest := by
      rw [hrest, ← List.append_assoc, List.length_append, Nat.add_sub_cancel, List.take_left]
    refine ⟨trimEnd rest, fun c hc => ?_, ?_⟩
    · exact trimEnd_subset after (hrest ▸ List.mem_append_left _ (trimEnd_subset rest hc))
    · rw [htake, h.trim_around, trimStart_trimStart]
  next => exact ⟨trimEnd after, trimEnd_subset after, rfl⟩

/-- The prose in front opens a fence on the line on which the text begins, and the line ends
behind that: the text, or its beginning, is taken for the info of the fence. -/
def OnFenceLine (before text after : List Char) : Prop :=
  fence.isPrefixOf (trimStart before) = true ∧ '\n' ∉ trimStart before ∧
    '\n' ∈ text ++ trimEnd after

theorem extractJsonPayload_prose {before text after : List Char} (h : Bracketed text)
    (hbefore : NoBracket before) (hafter : NoBracket after)
    (hline : ¬ OnFenceLine before text after) :
    extractJsonPayload (before ++ text ++ after) = text := by
  have hfront : NoBracket (trimStart before) := fun c hc => hbefore c (trimStart_subset before hc)
  have hback : NoBracket (trimEnd after) := fun c hc => hafter c (trimEnd_subset after hc)
  by_cases hfence : fence.isPrefixOf (trimStart before) = true
  · obtain ⟨opening, hopening⟩ := List.isPrefixOf_iff_prefix.mp hfence
    by_cases hnewline : '\n' ∈ trimStart before
    · have hmem : '\n' ∈ opening := by
        rw [← hopening, List.mem_append] at hnewline
        exact hnewline.resolve_left (by decide)
      obtain ⟨info, body, rfl, hinfo⟩ := List.eq_append_cons_of_mem hmem
      have hsplit : trimStart before ++ text ++ trimEnd after =
          fence ++ info ++ '\n' :: (body ++ text ++ trimEnd after) := by
        rw [← hopening]
        simp
      obtain ⟨rest, hrest, hstripped⟩ := stripCodeFence_line h hinfo body (trimEnd after)
      refine extractJsonPayload_found h (trimStart body) rest (fun c hc => ?_)
        (fun c hc => hback c (hrest hc)) ?_
      · refine hfront c ?_
        rw [← hopening]
        have hbody := trimStart_subset body hc
        simp [hbody]
      · rw [h.trim_around, hsplit, hstripped]
    · have hnone : '\n' ∉ text ++ trimEnd after := fun hmem => hline ⟨hfence, hnewline, hmem⟩
      refine extractJsonPayload_found h _ _ hfront hback ?_
      have hline' : ((trimStart before ++ text ++ trimEnd after).drop fence.length).dropWhile
          (fun c => c != '\n') = [] := by
        refine List.dropWhile_eq_nil_iff.mpr fun c hc => bne_iff_ne.mpr ?_
        rintro rfl
        have hmem := List.mem_of_mem_drop hc
        rw [List.append_assoc] at hmem
        exact (List.mem_append.mp hmem).elim hnewline hnone
      rw [h.trim_around, stripCodeFence, h.fence_front, if_pos hfence, hline']
  · refine extractJsonPayload_found h _ _ hfront hback ?_
    rw [h.trim_around, stripCodeFence, h.fence_front, if_neg hfence]

theorem noBracket_of_blank {s : List Char} (h : Blank s) : NoBracket s := by
  intro c hc
  have hblank := h c hc
  simp only [isBracket, Bool.or_eq_false_iff, beq_eq_false_iff_ne]
  refine ⟨⟨⟨?_, ?_⟩, ?_⟩, ?_⟩ <;> rintro rfl <;> exact absurd hblank (by decide)

theorem extractJsonPayload_fenced {front info before text after back : List Char}
    (h : Bracketed text) (hfront : Blank front) (hinfo : '\n' ∉ info) (hbefore : Blank before)
    (hafter : Blank after) (hback : Blank back) :
    extractJsonPayload (front ++ (fence ++ info ++ '\n' :: (before ++ text ++ (after ++ fence))) ++
      back) = text := by
  have htrim : trim (front ++ (fence ++ info ++ '\n' :: (before ++ text ++ (after ++ fence))) ++
      back) = fence ++ info ++ '\n' :: (before ++ text ++ (after ++ fence)) := by
    have hhead : (fence ++ info ++ '\n' :: (before ++ text ++ (after ++ fence))).head? =
        some '`' := rfl
    have hlast : (fence ++ info ++ '\n' :: (before ++ text ++ (after ++ fence))).getLast? =
        some '`' := by
      have hend : fence ++ info ++ '\n' :: (before ++ text ++ (after ++ fence)) =
          (fence ++ info ++ '\n' :: (before ++ text ++ (after ++ ['`', '`']))) ++ ['`'] := by
        simp [fence_eq]
      rw [hend, List.getLast?_concat]
    rw [trim_around hhead hlast (by decide) (by decide), trimStart_of_blank hfront,
      trimEnd_of_blank hback, List.nil_append, List.append_nil]
  obtain ⟨rest, hrest, hstripped⟩ := stripCodeFence_line h hinfo before (after ++ fence)
  refine extractJsonPayload_found h (trimStart before) rest ?_ (fun c hc => ?_) ?_
  · exact fun c hc => noBracket_of_blank hbefore c (trimStart_subset before hc)
  · rcases List.mem_append.mp (hrest hc) with hc | hc
    · exact noBracket_of_blank hafter c hc
    · rw [fence_eq] at hc
      simp only [List.mem_cons, List.not_mem_nil, or_false, or_self] at hc
      rw [hc]
      rfl
  · rw [htrim, hstripped]

end Payload

section Value

/-- A JSON value that is one element of a graph, with its type in it. -/
def IsElement (value : Json) (element : GraphElement) : Prop :=
  ∃ raw, RawGraphElement.fromValue value = some raw ∧ raw.elementType.isSome = true ∧
    normalizeGraphElement raw = some element

/-- `eq_ignore_ascii_case`. -/
def AnyCase (key name : List Char) : Prop := toAsciiLowercase key = toAsciiLowercase name

/-- The values that hold the graph of the node and edge elements. -/
inductive GraphValue (nodes edges : List Json) : Json → Prop
  | array : GraphValue nodes edges (.array (nodes ++ edges))
  | object {nodesKey edgesKey : List Char} {map : JsonMap}
      (hnodes : AnyCase nodesKey "nodes".toList)
      (hedges : AnyCase edgesKey "edges".toList ∨ AnyCase edgesKey "relationships".toList)
      (hmap : map.Perm [(nodesKey, .array nodes), (edgesKey, .array edges)]) :
      GraphValue nodes edges (.object map)
  | graph {key : List Char} {value : Json} (hkey : AnyCase key "graph".toList)
      (h : GraphValue nodes edges value) : GraphValue nodes edges (.object [(key, value)])

variable {items : List (Json × GraphElement)}

/-- A type that the element has is not replaced by the default. -/
theorem rawGraphElementFromValue_of_isElement {value : Json} {element : GraphElement}
    (h : IsElement value element) (defaultType : Option (List Char)) :
    ∃ raw, rawGraphElementFromValue value defaultType = some raw ∧
      normalizeGraphElement raw = some element := by
  obtain ⟨raw, hraw, htype, hnormal⟩ := h
  refine ⟨raw, ?_, hnormal⟩
  obtain ⟨type, htype⟩ := Option.isSome_iff_exists.mp htype
  rw [rawGraphElementFromValue, hraw, Option.map_some, htype, Option.some_or, ← htype]

theorem normalize_items (h : ∀ item ∈ items, IsElement item.1 item.2)
    (defaultType : Option (List Char)) :
    ((items.map Prod.fst).filterMap fun value =>
        rawGraphElementFromValue value defaultType).filterMap normalizeGraphElement =
      items.map Prod.snd := by
  induction items with
  | nil => rfl
  | cons item items ih =>
    obtain ⟨raw, hraw, hnormal⟩ := rawGraphElementFromValue_of_isElement
      (h item List.mem_cons_self) defaultType
    have hrest := ih fun item hitem => h item (List.mem_cons_of_mem _ hitem)
    simp only [List.map_cons, List.filterMap_cons, hraw, hnormal, hrest]

theorem removeCaseInsensitive_none {map : JsonMap} {key : List Char}
    (h : ∀ entry ∈ map, toAsciiLowercase entry.1 ≠ toAsciiLowercase key) :
    removeCaseInsensitive map key = none := by
  have hexact : map.find? (fun entry => entry.1 == key) = none := by
    refine List.find?_eq_none.mpr fun entry hentry heq => h entry hentry ?_
    rw [beq_iff_eq.mp heq]
  have hcase : map.find? (fun entry => toAsciiLowercase entry.1 == toAsciiLowercase key) = none :=
    List.find?_eq_none.mpr fun entry hentry heq => h entry hentry (beq_iff_eq.mp heq)
  rw [removeCaseInsensitive, hexact, hcase]
  rfl

/-- The one member whose name differs in case only is taken out. -/
theorem removeCaseInsensitive_only {map rest : JsonMap} {key name : List Char} {value : Json}
    (hmap : map.Perm ((name, value) :: rest))
    (hname : toAsciiLowercase name = toAsciiLowercase key)
    (hrest : ∀ entry ∈ rest, toAsciiLowercase entry.1 ≠ toAsciiLowercase key) :
    ∃ left, left.Perm rest ∧ removeCaseInsensitive map key = some (value, left) := by
  have hone : ∀ entry ∈ map, toAsciiLowercase entry.1 = toAsciiLowercase key →
      entry = (name, value) := by
    intro entry hentry heq
    rcases List.mem_cons.mp (hmap.mem_iff.mp hentry) with h | h
    · exact h
    · exact absurd heq (hrest entry h)
  have hmatched : (map.find? fun entry => entry.1 == key).or
      (map.find? fun entry => toAsciiLowercase entry.1 == toAsciiLowercase key) =
        some (name, value) := by
    have hin : (name, value) ∈ map := hmap.mem_iff.mpr List.mem_cons_self
    cases hexact : map.find? fun entry => entry.1 == key with
    | some entry =>
      have hkey : entry.1 = key := by simpa using List.find?_some hexact
      rw [Option.some_or, hone entry (List.mem_of_find?_eq_some hexact) (by rw [hkey])]
    | none =>
      obtain ⟨entry, hentry⟩ : ∃ entry, map.find? (fun entry =>
          toAsciiLowercase entry.1 == toAsciiLowercase key) = some entry :=
        Option.isSome_iff_exists.mp
          (List.find?_isSome.mpr ⟨(name, value), hin, by simpa using hname⟩)
      rw [Option.none_or, hentry]
      exact congrArg some (hone entry (List.mem_of_find?_eq_some hentry)
        (by simpa using List.find?_some hentry))
  refine ⟨map.filter fun entry => entry.1 != name, ?_, ?_⟩
  · have hother : rest.filter (fun entry => entry.1 != name) = rest := by
      refine List.filter_eq_self.mpr fun entry hentry => bne_iff_ne.mpr fun heq => ?_
      exact hrest entry hentry (by rw [heq, hname])
    have hfilter := hmap.filter fun entry => entry.1 != name
    rwa [List.filter_cons_of_neg (by simp), hother] at hfilter
  · rw [removeCaseInsensitive, hmatched]
    rfl

theorem takeRawGraphArray_none {map : JsonMap} {key : List Char}
    (h : ∀ entry ∈ map, toAsciiLowercase entry.1 ≠ toAsciiLowercase key)
    (defaultType : List Char) : takeRawGraphArray map key defaultType = ([], map) := by
  rw [takeRawGraphArray, removeCaseInsensitive_none h]

theorem takeRawGraphArray_only {map rest : JsonMap} {key name : List Char} {value : Json}
    (hmap : map.Perm ((name, value) :: rest))
    (hname : toAsciiLowercase name = toAsciiLowercase key)
    (hrest : ∀ entry ∈ rest, toAsciiLowercase entry.1 ≠ toAsciiLowercase key)
    (defaultType : List Char) : ∃ left, left.Perm rest ∧
      takeRawGraphArray map key defaultType = (rawGraphArray value defaultType, left) := by
  obtain ⟨left, hleft, hremoved⟩ := removeCaseInsensitive_only hmap hname hrest
  exact ⟨left, hleft, by rw [takeRawGraphArray, hremoved]⟩

/-- The object that is left has no type, and is no element. -/
theorem normalize_left : (rawGraphElementFromValue (.object []) none).toList.filterMap
    normalizeGraphElement = [] := rfl

theorem normalize_or_left (elements : List RawGraphElement) :
    (if elements.isEmpty then (rawGraphElementFromValue (.object []) none).toList
      else elements).filterMap normalizeGraphElement =
        elements.filterMap normalizeGraphElement := by
  split
  next hempty =>
    rw [List.isEmpty_iff.mp hempty, normalize_left]
    rfl
  next => rfl

theorem normalize_rawGraphArray (h : ∀ item ∈ items, IsElement item.1 item.2)
    (defaultType : List Char) :
    (rawGraphArray (.array (items.map Prod.fst)) defaultType).filterMap normalizeGraphElement =
      items.map Prod.snd :=
  normalize_items h (some defaultType)

/-- A name that differs from another in more than case. -/
theorem AnyCase.ne {key name other : List Char} (h : AnyCase key name)
    (hne : toAsciiLowercase name ≠ toAsciiLowercase other) :
    toAsciiLowercase key ≠ toAsciiLowercase other := fun heq => hne (h.symm.trans heq)

theorem forall_entry_nil (name : List Char) :
    ∀ entry ∈ ([] : JsonMap), toAsciiLowercase entry.1 ≠ toAsciiLowercase name :=
  fun _ hentry => absurd hentry List.not_mem_nil

/-- A lone array under a name is taken whole. -/
theorem takeRawGraphArray_lone {key name : List Char} {value : Json} (hname : AnyCase name key)
    (defaultType : List Char) :
    takeRawGraphArray [(name, value)] key defaultType = (rawGraphArray value defaultType, []) := by
  obtain ⟨left, hleft, htaken⟩ := takeRawGraphArray_only
    (List.Perm.refl [(name, value)]) hname (forall_entry_nil key) defaultType
  rw [List.perm_nil.mp hleft] at htaken
  exact htaken

/-- The edges are taken under either of their names. -/
theorem takeRawGraphArray_edges {name : List Char} (value : Json)
    (hname : AnyCase name "edges".toList ∨ AnyCase name "relationships".toList) :
    let edges := takeRawGraphArray [(name, value)] "edges".toList "edge".toList
    let relationships := takeRawGraphArray edges.2 "relationships".toList "edge".toList
    edges.1 ++ relationships.1 = rawGraphArray value "edge".toList ∧ relationships.2 = [] := by
  rcases hname with hname | hname
  · simp only [takeRawGraphArray_lone hname, takeRawGraphArray_none (forall_entry_nil _),
      List.append_nil, and_self]
  · have hno : takeRawGraphArray [(name, value)] "edges".toList "edge".toList =
        ([], [(name, value)]) := by
      refine takeRawGraphArray_none (fun entry hentry => ?_) _
      rw [List.mem_singleton.mp hentry]
      exact hname.ne (by decide)
    simp only [hno, takeRawGraphArray_lone hname, List.nil_append, and_self]

theorem removeCaseInsensitive_graph {nodesKey edgesKey : List Char} {map : JsonMap}
    {nodes edges : Json} (hnodes : AnyCase nodesKey "nodes".toList)
    (hedges : AnyCase edgesKey "edges".toList ∨ AnyCase edgesKey "relationships".toList)
    (hmap : map.Perm [(nodesKey, nodes), (edgesKey, edges)]) :
    removeCaseInsensitive map "graph".toList = none := by
  refine removeCaseInsensitive_none fun entry hentry => ?_
  have hentry := hmap.mem_iff.mp hentry
  simp only [List.mem_cons, List.not_mem_nil, or_false] at hentry
  rcases hentry with rfl | rfl
  · exact hnodes.ne (by decide)
  · exact hedges.elim (fun h => h.ne (by decide)) fun h => h.ne (by decide)

theorem normalize_graphValue {nodes edges : List (Json × GraphElement)} {value : Json}
    (hnodes : ∀ item ∈ nodes, IsElement item.1 item.2)
    (hedges : ∀ item ∈ edges, IsElement item.1 item.2)
    (h : GraphValue (nodes.map Prod.fst) (edges.map Prod.fst) value) :
    (rawGraphElementsFromValue value).filterMap normalizeGraphElement =
      (nodes ++ edges).map Prod.snd := by
  induction h with
  | array =>
    rw [rawGraphElementsFromValue, ← List.map_append]
    refine normalize_items (fun item hitem => ?_) none
    exact (List.mem_append.mp hitem).elim (hnodes item) (hedges item)
  | @object nodesKey edgesKey map hnodesKey hedgesKey hmap =>
    have hgraph := removeCaseInsensitive_graph hnodesKey hedgesKey hmap
    have hother : ∀ entry ∈ [(edgesKey, Json.array (edges.map Prod.fst))],
        toAsciiLowercase entry.1 ≠ toAsciiLowercase "nodes".toList := by
      intro entry hentry
      rw [List.mem_singleton.mp hentry]
      exact hedgesKey.elim (fun h => h.ne (by decide)) fun h => h.ne (by decide)
    obtain ⟨left, hleft, hnodesTaken⟩ := takeRawGraphArray_only hmap hnodesKey hother "node".toList
    rw [List.perm_singleton.mp hleft] at hnodesTaken
    obtain ⟨hedgesTaken, hnothing⟩ :=
      takeRawGraphArray_edges (.array (edges.map Prod.fst)) hedgesKey
    rw [rawGraphElementsFromValue]
    split
    next v rest heq => cases hgraph.symm.trans heq
    next =>
      simp only [hnodesTaken, hnothing, List.nil_append, List.append_assoc, hedgesTaken]
      rw [normalize_or_left, List.filterMap_append, normalize_rawGraphArray hnodes,
        normalize_rawGraphArray hedges, List.map_append]
  | @graph key value hkey h ih =>
    obtain ⟨left, hleft, hremoved⟩ := removeCaseInsensitive_only
      (List.Perm.refl [(key, value)]) hkey (forall_entry_nil "graph".toList)
    rw [List.perm_nil.mp hleft] at hremoved
    rw [rawGraphElementsFromValue]
    split
    next v rest heq =>
      obtain ⟨rfl, rfl⟩ := Prod.mk.inj (Option.some.inj (heq.symm.trans hremoved))
      simp only [takeRawGraphArray_none (forall_entry_nil _), List.append_nil]
      rw [normalize_or_left, ih]
    next heq => cases heq.symm.trans hremoved

end Value

/-- The text of the array or object, as the parser reads it. -/
structure JsonText (fromStr : List Char → Option Json) (value : Json) (text : List Char) : Prop where
  reads : fromStr text = some value
  bracketed : Bracketed text

/-- What the model may answer for the text of a graph. -/
inductive Wrapping (text : List Char) : List Char → Prop
  | bare {front back : List Char} (hfront : Blank front) (hback : Blank back) :
      Wrapping text (front ++ text ++ back)
  | fenced {front info before after back : List Char} (hfront : Blank front) (hinfo : '\n' ∉ info)
      (hbefore : Blank before) (hafter : Blank after) (hback : Blank back) :
      Wrapping text
        (front ++ (fence ++ info ++ '\n' :: (before ++ text ++ (after ++ fence))) ++ back)
  | prose {before after : List Char} (hbefore : NoBracket before) (hafter : NoBracket after)
      (hline : ¬ OnFenceLine before text after) : Wrapping text (before ++ text ++ after)

theorem extractJsonPayload_wrapped {text raw : List Char} (h : Bracketed text)
    (hraw : Wrapping text raw) : extractJsonPayload raw = text := by
  cases hraw with
  | bare hfront hback =>
    refine extractJsonPayload_prose h (noBracket_of_blank hfront) (noBracket_of_blank hback) ?_
    rintro ⟨hfence, -⟩
    rw [trimStart_of_blank hfront] at hfence
    cases hfence
  | fenced hfront hinfo hbefore hafter hback =>
    exact extractJsonPayload_fenced h hfront hinfo hbefore hafter hback
  | prose hbefore hafter hline => exact extractJsonPayload_prose h hbefore hafter hline

/-- The elements of a graph are parsed the same from every wrapping of it. -/
theorem parseGraphElements_wrapped {fromStr : List Char → Option Json}
    {nodes edges : List (Json × GraphElement)} {value : Json} {text raw : List Char}
    (hnodes : ∀ item ∈ nodes, IsElement item.1 item.2)
    (hedges : ∀ item ∈ edges, IsElement item.1 item.2)
    (hvalue : GraphValue (nodes.map Prod.fst) (edges.map Prod.fst) value)
    (htext : JsonText fromStr value text) (hraw : Wrapping text raw) :
    parseGraphElements fromStr raw = some ((nodes ++ edges).map Prod.snd) := by
  rw [parseGraphElements, extractJsonPayload_wrapped htext.bracketed hraw, htext.reads,
    Option.map_some, normalize_graphValue hnodes hedges hvalue]

section Acme

def acmeNode : Json :=
  .object [("name".toList, .string "Acme".toList), ("type".toList, .string "node".toList)]

def acmeEdge : Json :=
  .object [("relation".toList, .string "owns".toList), ("source".toList, .string "Acme".toList),
    ("target".toList, .string "Beta".toList), ("type".toList, .string "edge".toList)]

def acmeNodes : List (Json × GraphElement) := [(acmeNode, .node "Acme".toList none none)]

def acmeEdges : List (Json × GraphElement) :=
  [(acmeEdge, .edge "owns".toList "Acme".toList "Beta".toList none)]

theorem acmeNode_isElement : ∀ item ∈ acmeNodes, IsElement item.1 item.2 := by
  intro item hitem
  rw [List.mem_singleton.mp hitem]
  exact ⟨⟨some "node".toList, some "Acme".toList, none, none, none, none, none⟩,
    by decide +kernel, rfl, by decide +kernel⟩

theorem acmeEdge_isElement : ∀ item ∈ acmeEdges, IsElement item.1 item.2 := by
  intro item hitem
  rw [List.mem_singleton.mp hitem]
  exact ⟨⟨some "edge".toList, none, some "owns".toList, none, none, some "Acme".toList,
    some "Beta".toList⟩, by decide +kernel, rfl, by decide +kernel⟩

/-- A parser that reads one text. -/
def reads (text : List Char) (value : Json) (s : List Char) : Option Json :=
  if s = text then some value else none

def acmeText : List Char :=
  ("\x7b\"Graph\":[\x7b\"name\":\"Acme\",\"type\":\"node\"\x7d,\x7b\"relation\":\"owns\"," ++
    "\"source\":\"Acme\",\"target\":\"Beta\",\"type\":\"edge\"\x7d]\x7d").toList

def acmeListText : List Char := "[\x7b\"name\":\"Acme\",\"type\":\"node\"\x7d]".toList

theorem acmeText_bracketed : Bracketed acmeText := by
  have hends : acmeText = '{' :: (acmeText.drop 1).dropLast ++ ['}'] := by decide +kernel
  exact (congrArg Bracketed hends).mpr (.object _)

theorem noBracket_of_all {s : List Char} (h : (s.all fun c => !isBracket c) = true) :
    NoBracket s := fun c hc => by simpa using List.all_eq_true.mp h c hc

theorem blank_nil : Blank [] := fun _ h => absurd h List.not_mem_nil

theorem blank_newline : Blank ['\n'] := by
  intro c hc
  rw [List.mem_singleton.mp hc]
  rfl

theorem parseGraphElements_wrapped_acme :
    parseGraphElements (reads acmeText (.object [("Graph".toList, .array [acmeNode, acmeEdge])]))
      (fence ++ "json".toList ++ '\n' :: (acmeText ++ '\n' :: fence)) =
        some [.node "Acme".toList none none,
          .edge "owns".toList "Acme".toList "Beta".toList none] := by
  have hwrapped : Wrapping acmeText
      ([] ++ (fence ++ "json".toList ++ '\n' :: ([] ++ acmeText ++ (['\n'] ++ fence))) ++ []) :=
    .fenced blank_nil (by decide) blank_nil blank_newline blank_nil
  have hvalue : GraphValue (acmeNodes.map Prod.fst) (acmeEdges.map Prod.fst)
      (.object [("Graph".toList, .array [acmeNode, acmeEdge])]) := .graph rfl .array
  have hreads : JsonText (reads acmeText (.object [("Graph".toList, .array [acmeNode, acmeEdge])]))
      (.object [("Graph".toList, .array [acmeNode, acmeEdge])]) acmeText :=
    ⟨if_pos rfl, acmeText_bracketed⟩
  have hparsed := parseGraphElements_wrapped acmeNode_isElement acmeEdge_isElement hvalue hreads
    hwrapped
  rw [List.nil_append, List.append_nil, List.nil_append] at hparsed
  exact hparsed

/-- A fence on the line of the text takes the text for its info line. -/
theorem parseGraphElements_fence_line :
    NoBracket (fence ++ "json ".toList) ∧ NoBracket ('\n' :: fence) ∧
      (∀ item ∈ acmeNodes, IsElement item.1 item.2) ∧
      GraphValue (acmeNodes.map Prod.fst) [] (.array [acmeNode]) ∧
      JsonText (reads acmeListText (.array [acmeNode])) (.array [acmeNode]) acmeListText ∧
      parseGraphElements (reads acmeListText (.array [acmeNode])) acmeListText =
        some [.node "Acme".toList none none] ∧
      parseGraphElements (reads acmeListText (.array [acmeNode]))
        ((fence ++ "json ".toList) ++ acmeListText ++ '\n' :: fence) = none := by
  have hends : acmeListText = '[' :: (acmeListText.drop 1).dropLast ++ [']'] := by decide +kernel
  have htext : Bracketed acmeListText := (congrArg Bracketed hends).mpr (.array _)
  have hvalue : GraphValue (acmeNodes.map Prod.fst) [] (.array [acmeNode]) := .array
  have hbare : extractJsonPayload acmeListText = acmeListText := by
    have hpayload := extractJsonPayload_wrapped htext (.bare blank_nil blank_nil)
    rwa [List.nil_append, List.append_nil] at hpayload
  have hlost : extractJsonPayload ((fence ++ "json ".toList) ++ acmeListText ++ '\n' :: fence) =
      [] := by decide +kernel
  refine ⟨?_, ?_, acmeNode_isElement, hvalue, ⟨if_pos rfl, htext⟩, ?_, ?_⟩
  · exact noBracket_of_all (by decide +kernel)
  · exact noBracket_of_all (by decide +kernel)
  · rw [parseGraphElements, hbare, reads, if_pos rfl, Option.map_some]
    exact congrArg some (normalize_graphValue acmeNode_isElement
      (fun _ h => absurd h List.not_mem_nil) hvalue)
  · rw [parseGraphElements, hlost, reads, if_neg (by decide +kernel)]
    rfl

end Acme

end GmragApi.Graph

import GmragApi.CitationRedaction

/-! The index markers of an answer and the ids that take their place: the text around them stays as
it is, and the citations are those that can be read off the result. -/

namespace GmragApi.Citations

/-- The number that a text of ASCII digits stands for, however long it is. -/
def indexOf (value : List Char) : Option Nat :=
  if !value.isEmpty && value.all Char.isDigit then some (Nat.ofDigitChars 10 value 0) else none

/-- The chunks are numbered from one. -/
def chunkAt (ids : List Uuid) (value : List Char) : Option Uuid :=
  (indexOf value).bind fun index => if index = 0 then none else ids[index - 1]?

/-- What stands in the place of a marker. -/
def shown (ids : List Uuid) (value : List Char) : List Char :=
  (chunkAt ids value).elim (marker value) fun id => marker id.display

/-- No marker stands in the text. -/
def Free (isValue : List Char → Bool) (s : List Char) : Prop :=
  ∀ value, isValue value = true → ¬ marker value <:+: s

/-- A text as its markers cut it: each with the text before it, and the text after the last. -/
def join (display : List Char → List Char) (segments : List (List Char × List Char))
    (tail : List Char) : List Char :=
  segments.flatMap (fun segment => segment.1 ++ display segment.2) ++ tail

/-- These are all the index markers of the text. -/
structure Cut (digits : DigitClass) (text : List Char) (segments : List (List Char × List Char))
    (tail : List Char) : Prop where
  text_eq : join marker segments tail = text
  segments : ∀ segment ∈ segments,
    Free (isIndex digits) segment.1 ∧ isIndex digits segment.2 = true
  tail : Free (isIndex digits) tail

section Free

variable {isValue : List Char → Bool} {value : List Char} {s t : List Char}

theorem free_nil : Free isValue [] := by
  intro value _ h
  have hnil := List.infix_nil.mp h
  simp [marker] at hnil

theorem free_cons {c : Char} :
    Free isValue (c :: s) ↔
      (∀ value, isValue value = true → ¬ marker value <+: c :: s) ∧ Free isValue s := by
  constructor
  · intro h
    exact ⟨fun value hvalue hpre => h value hvalue hpre.isInfix,
      fun value hvalue hin => h value hvalue (hin.trans (List.suffix_cons c s).isInfix)⟩
  · rintro ⟨hhead, hrest⟩ value hvalue hin
    rcases List.infix_cons_iff.mp hin with hpre | hin
    · exact hhead value hvalue hpre
    · exact hrest value hvalue hin

/-- A text without markers is read letter by letter. -/
theorem pieces_free (hplain : PlainValues isValue) (h : Free isValue s) :
    pieces isValue 0 s = s.map .letter := by
  induction s with
  | nil => rfl
  | cons c s ih =>
    obtain ⟨hhead, hrest⟩ := free_cons.mp h
    have hnone : markedHere isValue (c :: s) = none := by
      cases hmatch : markedHere isValue (c :: s) with
      | none => rfl
      | some value =>
        obtain ⟨hvalue, hpre⟩ := (markedHere_eq_some_iff hplain).mp hmatch
        exact absurd hpre (hhead value hvalue)
    simp only [pieces, hnone, ih hrest, List.map_cons]

theorem marker_eq_cons (value : List Char) :
    marker value = opening :: (chunkPrefix ++ value ++ [closing]) := by
  simp [marker]

theorem pieces_segment (hplain : PlainValues isValue) (hfree : Free isValue s)
    (hvalue : isValue value = true) :
    pieces isValue 0 (s ++ marker value ++ t) =
      s.map .letter ++ .marked value :: pieces isValue 0 t := by
  have hmarker := pieces_marker hplain hvalue t
  rw [marker_eq_cons, List.cons_append] at hmarker
  rw [List.append_assoc, marker_eq_cons, List.cons_append,
    pieces_append_opening hplain s _ (Nat.zero_le _), pieces_free hplain hfree, hmarker]

/-- Nothing begins in a text without an opening bracket. -/
theorem pieces_unopened (hplain : PlainValues isValue) (h : opening ∉ s) :
    pieces isValue 0 (s ++ t) = s.map .letter ++ pieces isValue 0 t := by
  induction s with
  | nil => rfl
  | cons c s ih =>
    rw [List.mem_cons, not_or] at h
    have hnone : markedHere isValue (c :: (s ++ t)) = none := by
      cases hmatch : markedHere isValue (c :: (s ++ t)) with
      | none => rfl
      | some value =>
        obtain ⟨-, hpre⟩ := (markedHere_eq_some_iff hplain).mp hmatch
        rw [marker_eq_cons, List.cons_prefix_cons] at hpre
        exact absurd hpre.1 h.1
    simp only [List.cons_append, pieces, hnone, ih h.2, List.map_cons]

/-- The first closing bracket ends the value. -/
theorem marker_prefix_marker {other : List Char} (hvalue : closing ∉ value) (hother : closing ∉ other)
    (h : marker other <+: marker value ++ t) : other = value := by
  have hwhile (s r : List Char) (hs : closing ∉ s) :
      (s ++ closing :: r).takeWhile (· != closing) = s := by
    rw [List.takeWhile_append_of_pos]
    · simp
    · intro c hc
      have hne : c ≠ closing := fun heq => hs (heq ▸ hc)
      simpa using hne
  obtain ⟨r, hr⟩ := h
  have hcut : other ++ closing :: r = value ++ closing :: t := by
    simpa [marker] using hr
  rw [← hwhile other r hother, hcut, hwhile value t hvalue]

/-- A marker with a value of another kind is text like any other. -/
theorem pieces_foreign (hplain : PlainValues isValue) (hfree : Free isValue s)
    (hvalue : Erasure.Plain opening closing value) (hother : isValue value = false) :
    pieces isValue 0 (s ++ marker value ++ t) =
      (s ++ marker value).map .letter ++ pieces isValue 0 t := by
  have hbody : opening ∉ chunkPrefix ++ value ++ [closing] := by
    have hopen := (plain_chunkPrefix_append hvalue).1
    simpa [opening, closing] using hopen
  have hnone : markedHere isValue (opening :: (chunkPrefix ++ value ++ [closing] ++ t)) = none := by
    cases hmatch : markedHere isValue (opening :: (chunkPrefix ++ value ++ [closing] ++ t)) with
    | none => rfl
    | some found =>
      obtain ⟨hfound, hpre⟩ := (markedHere_eq_some_iff hplain).mp hmatch
      rw [← List.cons_append, ← marker_eq_cons] at hpre
      have heq := marker_prefix_marker hvalue.2 (hplain found hfound).2 hpre
      rw [heq, hother] at hfound
      cases hfound
  rw [List.append_assoc, marker_eq_cons, List.cons_append,
    pieces_append_opening hplain s _ (Nat.zero_le _), pieces_free hplain hfree]
  simp only [pieces, hnone]
  rw [pieces_unopened hplain hbody]
  simp only [List.map_append, List.map_cons, List.append_assoc, List.cons_append]

/-- Every text is free of markers or has a first one. -/
theorem free_or_first (hplain : PlainValues isValue) (s : List Char) :
    Free isValue s ∨ ∃ gap value rest, s = gap ++ marker value ++ rest ∧
      Free isValue gap ∧ isValue value = true := by
  induction s with
  | nil => exact .inl free_nil
  | cons c s ih =>
    cases hmatch : markedHere isValue (c :: s) with
    | some value =>
      obtain ⟨hvalue, rest, hrest⟩ := (markedHere_eq_some_iff hplain).mp hmatch
      exact .inr ⟨[], value, rest, hrest.symm, free_nil, hvalue⟩
    | none =>
      have hhead : ∀ value, isValue value = true → ¬ marker value <+: c :: s := by
        intro value hvalue hpre
        have hsome := (markedHere_eq_some_iff hplain).mpr ⟨hvalue, hpre⟩
        rw [hmatch] at hsome
        cases hsome
      rcases ih with hfree | ⟨gap, value, rest, rfl, hgap, hvalue⟩
      · exact .inl (free_cons.mpr ⟨hhead, hfree⟩)
      · refine .inr ⟨c :: gap, value, rest, rfl, free_cons.mpr ⟨?_, hgap⟩, hvalue⟩
        intro other hother hpre
        refine hhead other hother (hpre.trans ?_)
        rw [List.append_assoc, ← List.cons_append]
        exact List.prefix_append (c :: gap) (marker value ++ rest)

end Free

section Index

variable {digits : DigitClass} {value text tail : List Char} {ids : List Uuid}
  {segments : List (List Char × List Char)}

theorem hyphen_mem_hyphenate {i : Nat} {ds : List Char} (hi : i ≤ 8) (hlength : 8 < i + ds.length) :
    '-' ∈ hyphenate i ds := by
  induction ds generalizing i with
  | nil =>
    rw [List.length_nil] at hlength
    omega
  | cons d ds ih =>
    rw [List.length_cons] at hlength
    rw [hyphenate]
    split
    · exact List.mem_cons_self
    next hnot =>
      have hne : i ≠ 8 := by
        rintro rfl
        exact hnot rfl
      exact List.mem_cons_of_mem _ (ih (by omega) (by omega))

/-- An id has its hyphens, so its marker is no index marker. -/
theorem isIndex_display (id : Uuid) : isIndex digits id.display = false := by
  have hmem : '-' ∈ id.display := by
    refine hyphen_mem_hyphenate (Nat.zero_le 8) ?_
    rw [hexDigits_length]
    omega
  have hdigit : digits.isDigit '-' = false := digits.ascii '-' (by decide)
  have hall : id.display.all digits.isDigit = false :=
    List.all_eq_false.mpr ⟨'-', hmem, by simp [hdigit]⟩
  rw [isIndex, hall, Bool.and_false]

theorem plain_display (id : Uuid) : Erasure.Plain opening closing id.display :=
  plainValues_isUuidValue id.display (isUuidValue_display id)

/-- No list is long enough for an index that overflows. -/
theorem chunkOfIndex_eq (chunkIds : ChunkIds) (value : List Char) :
    chunkOfIndex chunkIds value = chunkAt chunkIds.ids value := by
  have hlength := chunkIds.length_lt
  unfold chunkOfIndex chunkAt parseUsize indexOf
  split
  · generalize Nat.ofDigitChars 10 value 0 = index
    by_cases hindex : index < usizeLimit
    · rw [if_pos hindex, Option.bind_some, Option.bind_some]
      by_cases hzero : index = 0
      · simp [hzero]
      · by_cases hlong : chunkIds.ids.length < index
        · rw [if_pos (.inr hlong), if_neg hzero, List.getElem?_eq_none (by omega)]
        · rw [if_neg (by simp [hzero, hlong]), if_neg hzero]
    · rw [if_neg hindex, Option.bind_none, Option.bind_some, if_neg (by omega),
        List.getElem?_eq_none (by omega)]
  · rfl

theorem resolve_marked (chunkIds : ChunkIds) (value : List Char) :
    (Piece.marked value).resolve chunkIds = shown chunkIds.ids value := by
  simp only [Piece.resolve, chunkOfIndex_eq, shown]
  cases chunkAt chunkIds.ids value <;> rfl

theorem flatMap_resolve_letters (chunkIds : ChunkIds) (s : List Char) :
    (s.map Piece.letter).flatMap (Piece.resolve chunkIds) = s := by
  induction s with
  | nil => rfl
  | cons c s ih => rw [List.map_cons, List.flatMap_cons, ih]; rfl

/-- What a second resolution makes of a marker: an id that is in place stays. -/
def shownAgain (ids others : List Uuid) (value : List Char) : List Char :=
  (chunkAt ids value).elim (shown others value) fun id => marker id.display

theorem join_cons (display : List Char → List Char) (segment : List Char × List Char)
    (segments : List (List Char × List Char)) (tail : List Char) :
    join display (segment :: segments) tail =
      segment.1 ++ display segment.2 ++ join display segments tail := by
  rw [join, List.flatMap_cons, List.append_assoc, join]

/-- The pass over a text whose markers have been resolved before; with no ids it is the first. -/
theorem resolve_join (ids : List Uuid) (chunkIds : ChunkIds)
    (hsegments : ∀ segment ∈ segments,
      Free (isIndex digits) segment.1 ∧ isIndex digits segment.2 = true)
    (htail : Free (isIndex digits) tail) :
    (pieces (isIndex digits) 0 (join (shown ids) segments tail)).flatMap
        (Piece.resolve chunkIds) =
      join (shownAgain ids chunkIds.ids) segments tail := by
  have hplain : PlainValues (isIndex digits) := plainValues_isIndex digits
  induction segments with
  | nil =>
    have hjoin (display : List Char → List Char) : join display [] tail = tail := rfl
    rw [hjoin, hjoin, pieces_free hplain htail, flatMap_resolve_letters]
  | cons segment segments ih =>
    obtain ⟨⟨hgap, hvalue⟩, hrest⟩ := List.forall_mem_cons.mp hsegments
    rw [join_cons, join_cons, ← ih hrest]
    cases hid : chunkAt ids segment.2 with
    | none =>
      have hshown : shown ids segment.2 = marker segment.2 := by rw [shown, hid]; rfl
      have hagain : shownAgain ids chunkIds.ids segment.2 = shown chunkIds.ids segment.2 := by
        rw [shownAgain, hid]
        rfl
      rw [hshown, hagain, pieces_segment hplain hgap hvalue, List.flatMap_append,
        flatMap_resolve_letters, List.flatMap_cons, resolve_marked, List.append_assoc]
    | some id =>
      have hshown : shown ids segment.2 = marker id.display := by rw [shown, hid]; rfl
      have hagain : shownAgain ids chunkIds.ids segment.2 = marker id.display := by
        rw [shownAgain, hid]
        rfl
      rw [hshown, hagain, pieces_foreign hplain hgap (plain_display id) (isIndex_display id),
        List.flatMap_append, flatMap_resolve_letters]

theorem chunkAt_nil (value : List Char) : chunkAt [] value = none := by
  unfold chunkAt
  cases indexOf value <;> simp

theorem shown_nil : shown [] = marker := by
  funext value
  rw [shown, chunkAt_nil]
  rfl

theorem shownAgain_nil (others : List Uuid) : shownAgain [] others = shown others := by
  funext value
  rw [shownAgain, chunkAt_nil]
  rfl

theorem resolved_eq (h : Cut digits text segments tail) (chunkIds : ChunkIds) :
    (resolveChunkIndexCitations digits text chunkIds).1 =
      join (shown chunkIds.ids) segments tail := by
  have hjoin := resolve_join [] chunkIds h.segments h.tail
  rw [shown_nil, shownAgain_nil, h.text_eq] at hjoin
  exact hjoin

/-- A text has exactly one cut; this finds it. -/
theorem exists_cut (digits : DigitClass) (text : List Char) :
    ∃ segments tail, Cut digits text segments tail := by
  induction hlength : text.length using Nat.strongRecOn generalizing text with
  | _ n ih =>
    subst hlength
    have hplain : PlainValues (isIndex digits) := plainValues_isIndex digits
    rcases free_or_first hplain text with
      hfree | ⟨gap, value, rest, rfl, hgap, hvalue⟩
    · refine ⟨[], text, rfl, ?_, hfree⟩
      exact fun segment h => absurd h List.not_mem_nil
    · have hshorter : rest.length < (gap ++ marker value ++ rest).length := by
        rw [marker_eq_cons]
        simp only [List.length_append, List.length_cons]
        omega
      obtain ⟨segments, tail, hcut⟩ := ih _ hshorter rest rfl
      refine ⟨(gap, value) :: segments, tail, ?_, ?_, hcut.tail⟩
      · rw [join_cons, hcut.text_eq]
      · exact List.forall_mem_cons.mpr ⟨⟨hgap, hvalue⟩, hcut.segments⟩

end Index

section Citations

variable {digits : DigitClass} {text : List Char} {id : Uuid}

/-- An id that takes the place of an index is read off the result. -/
theorem chunkOfIndex_cited {chunkIds : ChunkIds} {value : List Char}
    (hmem : .marked value ∈ pieces (isIndex digits) 0 text)
    (hid : chunkOfIndex chunkIds value = some id) :
    id ∈ extractChunkCitations (resolveChunkIndexCitations digits text chunkIds).1 := by
  rw [mem_extractChunkCitations]
  refine ⟨id.display, isUuidValue_display id, parseStr_display id, ?_⟩
  obtain ⟨before, after, hsplit⟩ := List.append_of_mem hmem
  have hpiece : (Piece.marked value).resolve chunkIds = marker id.display := by
    simp only [Piece.resolve, hid]
  refine ⟨before.flatMap (Piece.resolve chunkIds), after.flatMap (Piece.resolve chunkIds), ?_⟩
  rw [← hpiece, ← List.flatMap_cons, ← List.flatMap_append, ← hsplit]
  rfl

theorem mem_citations_iff (digits : DigitClass) (text : List Char) (chunkIds : ChunkIds) (id : Uuid) :
    id ∈ (resolveChunkIndexCitations digits text chunkIds).2 ↔
      id ∈ extractChunkCitations (resolveChunkIndexCitations digits text chunkIds).1 := by
  refine mem_foldl_insertNew.trans (or_iff_right_of_imp fun h => ?_)
  rcases mem_foldl_insertNew.mp h with h | h
  · exact absurd h List.not_mem_nil
  · obtain ⟨piece, hpiece, hid⟩ := List.mem_filterMap.mp h
    cases piece with
    | letter c => cases hid
    | marked value => exact chunkOfIndex_cited hpiece hid

/-- Each index marker within range becomes the marker of its chunk and the text around stays, the
citations are those of the result, each once, and a second resolution only touches markers that were
out of range. -/
theorem resolveChunkIndexCitations_exact (digits : DigitClass) (text : List Char)
    (chunkIds : ChunkIds) :
    let resolved := resolveChunkIndexCitations digits text chunkIds
    (∃ segments tail, Cut digits text segments tail) ∧
    (∀ segments tail, Cut digits text segments tail →
      resolved.1 = join (shown chunkIds.ids) segments tail ∧
      ∀ others : ChunkIds, (resolveChunkIndexCitations digits resolved.1 others).1 =
        join (shownAgain chunkIds.ids others.ids) segments tail) ∧
    resolved.2.Nodup ∧ ∀ id, id ∈ resolved.2 ↔ id ∈ extractChunkCitations resolved.1 := by
  refine ⟨exists_cut digits text, ?_, resolveChunkIndexCitations_nodup digits text chunkIds,
    mem_citations_iff digits text chunkIds⟩
  intro segments tail hcut
  have hresolved := resolved_eq hcut chunkIds
  refine ⟨hresolved, fun others => ?_⟩
  rw [hresolved]
  exact resolve_join chunkIds.ids others hcut.segments hcut.tail

end Citations

end GmragApi.Citations

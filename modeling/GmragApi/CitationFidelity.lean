import GmragApi.SnippetSelection

/-! What a snippet owes to its chunk: the length it keeps to, and the ellipses that tell whether
text was left out before and after it. -/

namespace GmragApi.Citation

open TextSlice

variable {t : CharTables} {text : List Char} {query : Option (List Char)}

section Length

/-- The strongest segment begins with a word that is longer than a snippet, and goes on behind it. -/
def OverlongWord (t : CharTables) (text : List Char) (query : Option (List Char)) : Prop :=
  ∃ before content after, Matched t text query before content after ∧
    citationSnippetChars < (firstWord (trim content)).length ∧
    (firstWord (trim content)).length < (trim content).length

theorem ellipsis_le_length (s : List Char) : ellipsis s ≤ s.length := by
  rw [ellipsis_eq]
  split
  next => exact Nat.zero_le _
  next hsolid =>
    refine List.length_pos_iff.mpr fun hnil => hsolid ?_
    rw [hnil]
    exact fun _ hc => absurd hc List.not_mem_nil

theorem length_trim_le (s : List Char) : (trim s).length ≤ s.length := by
  obtain ⟨front, back, hs, -, -⟩ := trim_parts s
  have hlength := congrArg List.length hs
  simp only [List.length_append] at hlength
  omega

theorem length_trim_le_of_fits {before content after : List Char} (h : Fits before content after) :
    (trim content).length ≤ citationSnippetChars - (ellipsis before + ellipsis after) :=
  (length_trim_le content).trans h

/-- What is rendered keeps to its length unless the window begins with an overlong word. -/
theorem rendered_long_iff {before content after : List Char} {s : Snippet}
    (h : Rendered text before content after s) :
    citationSnippetChars < s.content.length ↔
      citationSnippetChars < (firstWord (trim content)).length ∧
        (firstWord (trim content)).length < (trim content).length := by
  obtain ⟨_, _, -, -, -, -, -, -, hvisible⟩ := h
  rcases Nat.lt_or_ge (citationSnippetChars - (ellipsis before + ellipsis after))
    (trim content).length with hlong | hshort
  · obtain ⟨visible, _, hcut, -, -, hiff⟩ := visibleContent_cut hlong (Nat.sub_le ..)
    obtain rfl := Option.some.inj (hcut.symm.trans hvisible)
    exact hiff
  · have hwhole := Option.some.inj ((visibleContent_whole hshort).symm.trans hvisible)
    rw [← hwhole]
    omega

/-- A segment without room for its ellipsis is found only in a chunk that is longer than a snippet. -/
theorem Matched.long {before content after : List Char}
    (h : Matched t text query before content after)
    (hlong : citationSnippetChars - ellipsis before < (trim content).length) :
    citationSnippetChars < text.length ∧ ¬Blank text := by
  have htrim := length_trim_le content
  have hellipsis := ellipsis_le_length before
  have hlength := congrArg List.length h.text_eq
  simp only [List.length_append] at hlength
  refine ⟨by omega, fun hblank => ?_⟩
  rw [h.text_eq, blank_append, blank_append] at hblank
  rw [trim_eq_nil_iff.mpr hblank.1.2] at hlong
  exact Nat.not_lt_zero _ hlong

theorem OverlongWord.long (h : OverlongWord t text query) :
    citationSnippetChars < text.length ∧ ¬Blank text := by
  obtain ⟨before, content, after, hmatch, hword, hmore⟩ := h
  exact hmatch.long (by omega)

/-- A snippet is found for every chunk and question; its content keeps to the length of a snippet but
where an overlong word stands at the front of the strongest segment. -/
theorem selectCitationSnippet_bounded_iff (t : CharTables) (text : List Char)
    (query : Option (List Char)) :
    ∃ s, selectSnippet t text query = some s ∧ selectCitationSnippet t text query = some s.text ∧
      (s.content.length ≤ citationSnippetChars ↔ ¬OverlongWord t text query) := by
  obtain ⟨s, hs, hselected⟩ := selectSnippet_selected t text query
  refine ⟨s, hs, by rw [selectCitationSnippet, hs, Option.map_some], ?_⟩
  cases hselected with
  | blank hblank => exact iff_of_true (Nat.zero_le _) fun hword => hword.long.2 hblank
  | short hshort =>
    exact iff_of_true hshort fun hword => absurd hshort (Nat.not_le.mpr hword.long.1)
  | front hlong _ hnone =>
    obtain ⟨front, rest, heq, -, hlength, -⟩ := truncateCitationSnippet_long hlong
    rw [heq]
    exact iff_of_true hlength fun ⟨a, b, c, hmatch, _⟩ => hnone a b c hmatch
  | @window a b c before content after _ hmatch hwindow hrender =>
    rw [← Nat.not_lt, not_iff_not, rendered_long_iff hrender]
    refine ⟨fun h => ?_, fun ⟨a', b', c', hmatch', h⟩ => ?_⟩
    · rcases hwindow with ⟨rfl, rfl, rfl⟩ | ⟨hfits, -⟩
      · exact ⟨_, _, _, hmatch, h⟩
      · have hle := length_trim_le_of_fits hfits
        omega
    · obtain ⟨rfl, rfl, rfl⟩ := matched_unique hmatch hmatch'
      rcases hwindow with ⟨rfl, rfl, rfl⟩ | ⟨-, hfits⟩
      · exact h
      · have hle := length_trim_le_of_fits hfits
        omega

/-- The tables for plain ASCII. -/
def asciiTables : CharTables where
  isAlphanumeric := Char.isAlphanum
  toLowercase c := [c.toLower]

/-- A word of 281 characters, and two short ones that the question is about. -/
def overlongChunk : List Char := List.replicate 281 'a' ++ [' ', 'b', ' ', 'c']

theorem overlongChunk_unbounded :
    ¬∀ (t : CharTables) (text : List Char) (query : Option (List Char)),
      ∃ s, selectSnippet t text query = some s ∧ s.content.length ≤ citationSnippetChars := by
  intro h
  obtain ⟨s, hs, hshort⟩ := h asciiTables overlongChunk (some ['b', ' ', 'c'])
  have hfound : selectSnippet asciiTables overlongChunk (some ['b', ' ', 'c']) =
      some ⟨false, 0, List.replicate 281 'a', false⟩ := by decide +kernel
  obtain rfl := Option.some.inj (hfound.symm.trans hs)
  rw [List.length_replicate] at hshort
  exact absurd hshort (by decide)

end Length

section Ellipses

/-- The content is part of the text at the place it is taken from, and an ellipsis stands on each side
on which more than whitespace was left out. -/
def Faithful (text : List Char) (s : Snippet) : Prop :=
  ∃ before after, text = before ++ s.content ++ after ∧ s.start = size before ∧
    (s.hasPrefix = true ↔ ¬Blank before) ∧ (s.hasSuffix = true ↔ ¬Blank after)

/-- No segment is chosen, and the front of the chunk, in which no word is cut off, leaves out only
whitespace: the ellipsis behind it stands for nothing. -/
def MarkedBlank (t : CharTables) (text : List Char) (query : Option (List Char)) : Prop :=
  citationSnippetChars < text.length ∧ ¬Blank text ∧
    (∀ before content after, ¬Matched t text query before content after) ∧
    Blank (text.drop citationSnippetChars) ∧
    ∀ c ∈ (text.rdropWhile isWhitespace).drop (citationSnippetChars / 2), isWhitespace c = false

/-- The strongest segment has no room and only whitespace follows it, so that no ellipsis stands for
what is cut from it. -/
def UnmarkedCut (t : CharTables) (text : List Char) (query : Option (List Char)) : Prop :=
  ∃ before content after, Matched t text query before content after ∧ Blank after ∧
    citationSnippetChars - ellipsis before < (trim content).length

theorem faithful_iff {s : Snippet} {before after : List Char}
    (htext : text = before ++ s.content ++ after) (hstart : s.start = size before) :
    Faithful text s ↔ (s.hasPrefix = true ↔ ¬Blank before) ∧ (s.hasSuffix = true ↔ ¬Blank after) := by
  refine ⟨fun ⟨before', after', htext', hstart', hmarks⟩ => ?_, fun h => ⟨_, _, htext, hstart, h⟩⟩
  have hparts : Parts text (size before) (size before + size s.content) before s.content after :=
    ⟨htext, rfl, rfl⟩
  have hparts' : Parts text (size before) (size before + size s.content) before' s.content after' :=
    ⟨htext', hstart.symm.trans hstart', by rw [← hstart, hstart']⟩
  obtain ⟨rfl, -, rfl⟩ := hparts.unique hparts'
  exact hmarks

/-- What is cut from a trimmed text is not blank. -/
theorem cut_solid {content visible rest : List Char} (h : trim content = visible ++ rest)
    (hrest : rest ≠ []) : ¬Blank rest := by
  intro hblank
  have hback : (trim content).rdropWhile isWhitespace = trim content := by
    rw [List.rdropWhile, trim_back, List.reverse_reverse]
  rw [h, rdropWhile_append_blank hblank] at hback
  have hle := (List.rdropWhile_prefix isWhitespace (l := visible)).length_le
  have hpos := List.length_pos_iff.mpr hrest
  rw [hback, List.length_append] at hle
  omega

theorem rendered_faithful_iff {before content after : List Char} {s : Snippet}
    (h : Rendered text before content after s) :
    Faithful text s ↔ ¬(Blank after ∧
      citationSnippetChars - (ellipsis before + ellipsis after) < (trim content).length) := by
  obtain ⟨front, back, htext, hfront, hback, hstart, hlead, htrail, hvisible⟩ := h
  have hbefore : s.hasPrefix = true ↔ ¬Blank (before ++ front) := by
    rw [hlead, decide_eq_true_eq, blank_append, and_iff_left hfront]
  have hafter : s.hasSuffix = true ↔ ¬Blank after := by
    rw [htrail, decide_eq_true_eq]
  rcases Nat.lt_or_ge (citationSnippetChars - (ellipsis before + ellipsis after))
    (trim content).length with hlong | hshort
  · obtain ⟨visible, rest, hcut, hcontent, hrest, -⟩ := visibleContent_cut hlong le_rfl
    obtain rfl := Option.some.inj (hcut.symm.trans hvisible)
    have hsplit : text = before ++ front ++ s.content ++ (rest ++ (back ++ after)) := by
      rw [htext, hcontent]
      simp only [List.append_assoc]
    have hout : ¬Blank (rest ++ (back ++ after)) :=
      fun hblank => cut_solid hcontent hrest (blank_append.mp hblank).1
    rw [faithful_iff hsplit hstart, hafter]
    refine ⟨fun hmarks hboth => ?_, fun hmarked => ⟨hbefore, ?_⟩⟩
    · exact absurd hboth.1 (hmarks.2.mpr hout)
    · exact iff_of_true (fun hblank => hmarked ⟨hblank, hlong⟩) hout
  · have hwhole := Option.some.inj ((visibleContent_whole hshort).symm.trans hvisible)
    rw [hwhole] at htext
    have hout : Blank (back ++ after) ↔ Blank after := by rw [blank_append, and_iff_right hback]
    rw [faithful_iff htext hstart, hout]
    exact iff_of_true ⟨hbefore, hafter⟩ fun hboth => by omega

/-- A snippet is found for every chunk and question, and it is faithful but for an ellipsis that stands
for whitespace only and for a cut at the end of the chunk that none stands for. -/
theorem selectCitationSnippet_faithful_iff (t : CharTables) (text : List Char)
    (query : Option (List Char)) :
    ∃ s, selectSnippet t text query = some s ∧ selectCitationSnippet t text query = some s.text ∧
      (Faithful text s ↔ ¬MarkedBlank t text query ∧ ¬UnmarkedCut t text query) := by
  obtain ⟨s, hs, hselected⟩ := selectSnippet_selected t text query
  refine ⟨s, hs, by rw [selectCitationSnippet, hs, Option.map_some], ?_⟩
  have hnil : Blank [] := fun _ hc => absurd hc List.not_mem_nil
  cases hselected with
  | blank hblank =>
    refine iff_of_true ⟨[], text, rfl, rfl, by simp [hnil], by simp [hblank]⟩ ⟨?_, ?_⟩
    · exact fun hmarked => hmarked.2.1 hblank
    · exact fun ⟨_, _, _, hmatch, _, hlong⟩ => (hmatch.long hlong).2 hblank
  | short hshort =>
    have hwhole : text = [] ++ text ++ [] := by rw [List.nil_append, List.append_nil]
    refine iff_of_true ⟨[], [], hwhole, rfl, by simp [hnil], by simp [hnil]⟩ ⟨?_, ?_⟩
    · exact fun hmarked => absurd hshort (Nat.not_le.mpr hmarked.1)
    · exact fun ⟨_, _, _, hmatch, _, hlong⟩ =>
        absurd hshort (Nat.not_le.mpr (hmatch.long hlong).1)
  | front hlong hsolid hnone =>
    obtain ⟨front, rest, heq, htext, -, hrest⟩ := truncateCitationSnippet_long hlong
    have hfront : text = [] ++ front ++ rest := htext
    rw [heq, faithful_iff (s := ⟨false, 0, front, true⟩) hfront rfl]
    have hcut : ¬UnmarkedCut t text query := fun ⟨a, b, c, hmatch, _⟩ => hnone a b c hmatch
    have hmarked : MarkedBlank t text query ↔ Blank rest := by
      rw [hrest]
      exact ⟨fun h => h.2.2.2, fun h => ⟨hlong, hsolid, hnone, h⟩⟩
    rw [hmarked]
    simp [hnil, hcut]
  | @window a b c before content after _ hmatch hwindow hrender =>
    have hmarked : ¬MarkedBlank t text query := fun h => h.2.2.1 a b c hmatch
    rw [rendered_faithful_iff hrender, and_iff_right hmarked, not_iff_not]
    refine ⟨fun ⟨hblank, hlong⟩ => ?_, fun ⟨a', b', c', hmatch', hblank, hlong⟩ => ?_⟩
    · have hnone : ellipsis after = 0 := by rw [ellipsis_eq, if_pos hblank]
      rcases hwindow with ⟨rfl, rfl, rfl⟩ | ⟨hfits, -⟩
      · exact ⟨_, _, _, hmatch, hblank, by omega⟩
      · have hle := length_trim_le_of_fits hfits
        omega
    · obtain ⟨rfl, rfl, rfl⟩ := matched_unique hmatch hmatch'
      have hnone : ellipsis c = 0 := by rw [ellipsis_eq, if_pos hblank]
      rcases hwindow with ⟨rfl, rfl, rfl⟩ | ⟨-, hfits⟩
      · exact ⟨hblank, by omega⟩
      · have hle := length_trim_le_of_fits hfits
        omega

/-- As long as a snippet, and a blank behind it. -/
def paddedChunk : List Char := List.replicate 280 'a' ++ [' ']

/-- One segment that is cut in front of the words that the question is about. -/
def cutChunk : List Char := List.replicate 279 'a' ++ [' ', 'b', ' ', 'c']

theorem paddedChunk_cutChunk_unfaithful :
    (∃ s, selectSnippet asciiTables paddedChunk none = some s ∧ ¬Faithful paddedChunk s) ∧
      ∃ s, selectSnippet asciiTables cutChunk (some ['b', ' ', 'c']) = some s ∧
        ¬Faithful cutChunk s := by
  refine ⟨⟨⟨false, 0, List.replicate 280 'a', true⟩, by decide +kernel, fun h => ?_⟩,
    ⟨false, 0, List.replicate 279 'a', false⟩, by decide +kernel, fun h => ?_⟩
  · have hsplit : paddedChunk = [] ++ List.replicate 280 'a' ++ [' '] := rfl
    rw [faithful_iff (s := ⟨false, 0, List.replicate 280 'a', true⟩) hsplit rfl] at h
    exact absurd (h.2.mp rfl) (by decide)
  · have hsplit : cutChunk = [] ++ List.replicate 279 'a' ++ [' ', 'b', ' ', 'c'] := rfl
    rw [faithful_iff (s := ⟨false, 0, List.replicate 279 'a', false⟩) hsplit rfl] at h
    exact absurd (h.2.mpr (by decide)) (by decide)

end Ellipses

end GmragApi.Citation

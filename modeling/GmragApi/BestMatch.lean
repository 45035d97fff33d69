import GmragApi.CitationFidelity

/-! The segment that the question is about stays in the snippet: the window grows around it, and what
is trimmed and cut from the window is not taken from it. -/

namespace GmragApi.Citation

open TextSlice

variable {t : CharTables} {text q : List Char} {segments : List SnippetRange} {i : ℕ}
  {best : SnippetRange} {a b c : List Char}

/-- The segment of the index shares strictly more keywords with the query than any other. -/
def StrictlyBest (t : CharTables) (text q : List Char) (segments : List SnippetRange) (i : ℕ)
    (content : List Char) : Prop :=
  ∀ (j : ℕ) (other : SnippetRange) (content' : List Char), j ≠ i → segments[j]? = some other →
    slice text other.start other.stop = some content' →
    sharedKeywords t q content' < sharedKeywords t q content

section Search

/-- A score above all the others is found where it stands. -/
theorem bestFrom_of_strict {scores : List ℕ} {best : ℕ} (hi : scores[i]? = some best)
    (hless : ∀ j score, j ≠ i → scores[j]? = some score → score < best) :
    bestFrom 0 scores = some (i, best) := by
  cases hfound : bestFrom 0 scores with
  | none =>
    rw [bestFrom_none hfound] at hi
    cases hi
  | some found =>
    obtain ⟨j, score⟩ := found
    obtain ⟨k, hj, hk, hall⟩ := bestFrom_some hfound
    rw [Nat.zero_add] at hj
    have hge := hall best (List.mem_of_getElem? hi)
    have hindex : k = i := by
      by_contra hne
      have hlt := hless k score hne hk
      omega
    rw [hindex] at hj hk
    rw [hj, Option.some.inj (hk.symm.trans hi)]

theorem scores_of_strict {scores : List ℕ} (hs : Segmented text segments)
    (hscore : Scored t text q segments scores) (hstrict : StrictlyBest t text q segments i b)
    {j score : ℕ} (hj : j ≠ i) (hget : scores[j]? = some score) :
    score < sharedKeywords t q b := by
  rw [hscore j] at hget
  obtain ⟨other, hother, hshared⟩ := Option.bind_eq_some_iff.mp hget
  obtain ⟨_, content', _, hparts', -⟩ := hs.parts hother
  rw [segmentScore_of_parts hparts'] at hshared
  have hlt := hstrict j other content' hj hother hparts'.slice
  have heq := Option.some.inj hshared
  omega

/-- The search ends with the window around the segment that is strictly the best, if that shares a
keyword at all. -/
theorem matchSnippet_of_strict {start stop start' stop' : ℕ} {s : Snippet}
    (hsegments : splitSnippetSegments text = some segments) (hs : Segmented text segments)
    (hbest : segments[i]? = some best) (hparts : Parts text best.start best.stop a b c)
    (hstrict : StrictlyBest t text q segments i b) (hpos : 0 < sharedKeywords t q b)
    (hexpand : expandSnippetWindow text segments i = some (start, stop))
    (htrim : trimSnippetRange text start stop = some (start', stop')) (hlt : start' < stop')
    (hrender : renderSnippetWindow text start' stop' = some s) :
    matchSnippet t text (snippetKeywords t q) = some (some s) := by
  have hnonempty : segments.isEmpty = false := by
    cases hsegs : segments with
    | nil =>
      rw [hsegs] at hbest
      cases hbest
    | cons => rfl
  obtain ⟨scores, hscores, hscore⟩ :=
    exists_mapM (f := segmentScore t (snippetKeywords t q) text) fun r hr => by
      obtain ⟨_, _, _, hparts', -⟩ := hs.segment r hr
      exact ⟨_, segmentScore_of_parts hparts' q⟩
  have hown := score_of_slice hscore hbest hparts.slice
  have hfound := bestFrom_of_strict hown fun j score hj hget =>
    scores_of_strict hs hscore hstrict hj hget
  have hzero : ¬sharedKeywords t q b = 0 := by omega
  have hothers : ¬∃ j, j ≠ i ∧ scores[j]? = some (sharedKeywords t q b) := by
    rintro ⟨j, hj, hget⟩
    exact Nat.lt_irrefl _ (scores_of_strict hs hscore hstrict hj hget)
  have htie := mt tie_iff.mp hothers
  unfold matchSnippet
  simp only [hsegments, Option.bind_eq_bind, Option.bind_some, hnonempty, Bool.false_eq_true,
    if_false, hscores, hfound, Bool.or_eq_true, decide_eq_true_eq, hzero, htie, or_self, hexpand,
    htrim, if_neg (Nat.not_le.mpr hlt), hrender]
  rfl

end Search

section Shown

theorem length_le_of_fits {before content after : List Char} (h : Fits before content after) :
    content.length ≤ citationSnippetChars :=
  h.trans (Nat.sub_le ..)

/-- A window with the room that its ellipses leave is rendered whole. -/
theorem rendered_whole {before content after : List Char} {s : Snippet}
    (h : Rendered text before content after s)
    (hroom : (trim content).length ≤ citationSnippetChars - (ellipsis before + ellipsis after)) :
    s.content = trim content := by
  obtain ⟨_, _, -, -, -, -, -, -, hvisible⟩ := h
  exact Option.some.inj (hvisible.symm.trans (visibleContent_whole hroom))

/-- The trimmed segment is in what is rendered of the window around it. -/
theorem rendered_holds {start stop : ℕ} {before content after : List Char} {s : Snippet}
    (hparts : Parts text best.start best.stop a b c)
    (hrange : Parts text start stop before content after) (hstart : start ≤ best.start)
    (hstop : best.stop ≤ stop)
    (hwindow : (before = a ∧ content = b ∧ after = c) ∨ (Fits before content after ∧ Fits a b c))
    (hrender : Rendered text before content after s)
    (hroom : (trim b).length ≤ citationSnippetChars - (ellipsis a + ellipsis c)) :
    trim b <:+: s.content := by
  have hwhole : s.content = trim content := by
    rcases hwindow with ⟨rfl, rfl, rfl⟩ | ⟨hfits, -⟩
    · exact rendered_whole hrender hroom
    · exact rendered_whole hrender (length_trim_le_of_fits hfits)
  obtain ⟨front, back, -, hcontent, -⟩ := hparts.nested hrange hstart hstop
  rw [hwhole]
  exact trim_infix ⟨front, back, hcontent.symm⟩

/-- What the snippet shows of the segment that is strictly the best. -/
structure ShowsBest (t : CharTables) (text q : List Char) (segments : List SnippetRange) (i : ℕ)
    (best : SnippetRange) (a b c : List Char) (start stop : ℕ) (s : Snippet) : Prop where
  window : expandSnippetWindow text segments i = some (start, stop)
  contains : start ≤ best.start ∧ best.stop ≤ stop
  bounded : ∃ content, slice text start stop = some content ∧
    (b.length ≤ citationSnippetChars → content.length ≤ citationSnippetChars)
  rendered : ∃ start' stop', trimSnippetRange text start stop = some (start', stop') ∧
    renderSnippetWindow text start' stop' = some s
  shown : (trim b).length ≤ citationSnippetChars - (ellipsis a + ellipsis c) → trim b <:+: s.content

/-- A segment that is strictly the best and shares a keyword is what the snippet is built around and
shows. -/
theorem selectSnippet_shows_best (hlong : citationSnippetChars < text.length)
    (hquery : 2 ≤ (snippetKeywords t q).card)
    (hsegments : splitSnippetSegments text = some segments) (hbest : segments[i]? = some best)
    (hparts : Parts text best.start best.stop a b c)
    (hstrict : StrictlyBest t text q segments i b) :
    ∃ start stop s, ShowsBest t text q segments i best a b c start stop s ∧
      (0 < sharedKeywords t q b → selectSnippet t text (some q) = some s ∧
        selectCitationSnippet t text (some q) = some s.text) := by
  obtain ⟨segments', hsegments', hs⟩ := splitSnippetSegments_segmented text
  obtain rfl := Option.some.inj (hsegments'.symm.trans hsegments)
  obtain ⟨a', b', c', hown, hsolid'⟩ := hs.parts hbest
  obtain ⟨rfl, rfl, rfl⟩ := hparts.unique hown
  obtain ⟨start, stop, before, content, after, hexpand, hrange, hstart, hstop, hwindow⟩ :=
    expandSnippetWindow_around hs hbest hparts
  have hsolid := solid_of_nested hparts hrange hstart hstop hsolid'
  obtain ⟨start', stop', s, htrim, hlt, hrender, hrendered⟩ := rendered_window hrange hsolid
  refine ⟨start, stop, s, ⟨hexpand, ⟨hstart, hstop⟩, ⟨content, hrange.slice, fun hshort => ?_⟩,
    ⟨start', stop', htrim, hrender⟩,
    rendered_holds hparts hrange hstart hstop hwindow hrendered⟩, fun hpos => ?_⟩
  · rcases hwindow with ⟨-, rfl, -⟩ | ⟨hfits, -⟩
    · exact hshort
    · exact length_le_of_fits hfits
  · have hmatch := matchSnippet_of_strict hsegments hs hbest hparts hstrict hpos hexpand htrim hlt
      hrender
    have hblank : ¬(trim text).isEmpty = true := by
      rw [List.isEmpty_iff, trim_eq_nil_iff, hparts.text, blank_append, blank_append]
      exact fun h => hsolid' h.1.2
    have hselect : selectSnippet t text (some q) = some s := by
      unfold selectSnippet
      rw [if_neg hblank, if_neg (Nat.not_le.mpr hlong)]
      dsimp only
      rw [if_neg (Nat.not_lt.mpr hquery), hmatch]
      rfl
    exact ⟨hselect, by rw [selectCitationSnippet, hselect, Option.map_some]⟩

/-- A sentence that the question is about, and a word that fills the room of a snippet. -/
def answerChunk : List Char := ['b', ' ', 'c', '.'] ++ List.replicate 280 'a'

theorem selectSnippet_shows_answer : ∃ start stop s,
    ShowsBest asciiTables answerChunk ['b', ' ', 'c'] [⟨0, 4⟩, ⟨4, 284⟩] 0 ⟨0, 4⟩ []
      ['b', ' ', 'c', '.'] (List.replicate 280 'a') start stop s ∧
    selectSnippet asciiTables answerChunk (some ['b', ' ', 'c']) = some s := by
  have hparts : Parts answerChunk 0 4 [] ['b', ' ', 'c', '.'] (List.replicate 280 'a') :=
    ⟨rfl, rfl, by decide⟩
  have hstrict : StrictlyBest asciiTables answerChunk ['b', ' ', 'c'] [⟨0, 4⟩, ⟨4, 284⟩] 0
      ['b', ' ', 'c', '.'] := by
    intro j other content' hj hother hcontent'
    match j with
    | 0 => exact absurd rfl hj
    | 1 =>
      cases Option.some.inj hother
      have hslice : slice answerChunk 4 284 = some (List.replicate 280 'a') := by decide +kernel
      cases Option.some.inj (hcontent'.symm.trans hslice)
      decide +kernel
    | j + 2 => cases hother
  obtain ⟨start, stop, s, hshows, hselect⟩ := selectSnippet_shows_best (by decide +kernel)
    (by decide +kernel) (by decide +kernel) rfl hparts hstrict
  exact ⟨start, stop, s, hshows, (hselect (by decide +kernel)).1⟩

/-- One word behind a blank line. -/
def lonelyChunk : List Char := List.replicate 280 ' ' ++ ['\n'] ++ ['a']

/-- A lone segment is above all others without sharing a keyword, and the snippet falls back to the
front of the chunk. -/
theorem lonelyChunk_unshown :
    ¬∀ (t : CharTables) (text q : List Char) (segments : List SnippetRange) (i : ℕ)
      (best : SnippetRange) (a b c : List Char), citationSnippetChars < text.length →
      2 ≤ (snippetKeywords t q).card → splitSnippetSegments text = some segments →
      segments[i]? = some best → Parts text best.start best.stop a b c →
      StrictlyBest t text q segments i b →
      b.length ≤ citationSnippetChars - (ellipsis a + ellipsis c) →
      ∃ s, selectSnippet t text (some q) = some s ∧ trim b <:+: s.text := by
  intro h
  have hparts : Parts lonelyChunk 281 282 (List.replicate 280 ' ' ++ ['\n']) ['a'] [] :=
    ⟨(List.append_nil lonelyChunk).symm, by decide +kernel, by decide +kernel⟩
  have hstrict : StrictlyBest asciiTables lonelyChunk ['b', ' ', 'c'] [⟨281, 282⟩] 0 ['a'] := by
    intro j other content' hj hother _
    match j with
    | 0 => exact absurd rfl hj
    | j + 1 => cases hother
  obtain ⟨s, hs, hshown⟩ := h asciiTables lonelyChunk ['b', ' ', 'c'] [⟨281, 282⟩] 0 ⟨281, 282⟩
    (List.replicate 280 ' ' ++ ['\n']) ['a'] [] (by decide +kernel) (by decide +kernel)
    (by decide +kernel) rfl hparts hstrict (by decide +kernel)
  have hfound : selectSnippet asciiTables lonelyChunk (some ['b', ' ', 'c']) =
      some ⟨false, 0, [], true⟩ := by decide +kernel
  obtain rfl := Option.some.inj (hfound.symm.trans hs)
  have hmem := hshown.subset (List.mem_singleton_self 'a')
  exact absurd hmem (by decide)

end Shown

end GmragApi.Citation

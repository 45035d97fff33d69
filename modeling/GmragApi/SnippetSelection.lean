import GmragApi.SnippetRendering

/-! The ways to a snippet: nothing of a blank chunk, the whole of a short one, the window around the
strongest segment, and the front of the chunk where no segment is the strongest. -/

namespace GmragApi.Citation

open TextSlice

variable {t : CharTables} {text : List Char} {query : Option (List Char)}

def sharedKeywords (t : CharTables) (query content : List Char) : ℕ :=
  (snippetKeywords t content ∩ snippetKeywords t query).card

/-- The content is that of the one segment that shares the most keywords with the query. -/
def Strongest (t : CharTables) (text query before content after : List Char) : Prop :=
  ∃ (segments : List SnippetRange) (i : ℕ) (best : SnippetRange),
    splitSnippetSegments text = some segments ∧ segments[i]? = some best ∧
    Parts text best.start best.stop before content after ∧ 0 < sharedKeywords t query content ∧
    ∀ (j : ℕ) (other : SnippetRange) (content' : List Char), j ≠ i → segments[j]? = some other →
      slice text other.start other.stop = some content' →
      sharedKeywords t query content' < sharedKeywords t query content

/-- There is a query of two keywords at least, and the content is its strongest segment. -/
def Matched (t : CharTables) (text : List Char) (query : Option (List Char))
    (before content after : List Char) : Prop :=
  ∃ q, query = some q ∧ 2 ≤ (snippetKeywords t q).card ∧ Strongest t text q before content after

/-- What the rendering of the window with the given parts gives. -/
def Rendered (text before content after : List Char) (s : Snippet) : Prop :=
  ∃ front back, text = before ++ front ++ trim content ++ (back ++ after) ∧ Blank front ∧
    Blank back ∧ s.start = size (before ++ front) ∧ s.hasPrefix = decide (¬Blank before) ∧
    s.hasSuffix = decide (¬Blank after) ∧
    visibleContent (trim content) (citationSnippetChars - (ellipsis before + ellipsis after)) =
      some s.content

inductive Selected (t : CharTables) (text : List Char) (query : Option (List Char)) :
    Snippet → Prop
  | blank (hblank : Blank text) : Selected t text query ⟨false, 0, [], false⟩
  | short (hshort : text.length ≤ citationSnippetChars) :
      Selected t text query ⟨false, 0, text, false⟩
  | front (hlong : citationSnippetChars < text.length) (hsolid : ¬Blank text)
      (hnone : ∀ before content after, ¬Matched t text query before content after) :
      Selected t text query (truncateCitationSnippet text)
  | window {a b c before content after : List Char} {s : Snippet} (hmatch : Matched t text query a b c)
      (hwindow : (before = a ∧ content = b ∧ after = c) ∨ (Fits before content after ∧ Fits a b c))
      (hrender : Rendered text before content after s) : Selected t text query s

section Scores

theorem exists_mapM {α β : Type} {f : α → Option β} {l : List α} (h : ∀ a ∈ l, ∃ b, f a = some b) :
    ∃ l' : List β, l.mapM f = some l' ∧ ∀ i : ℕ, l'[i]? = l[i]?.bind f := by
  induction l with
  | nil => exact ⟨[], rfl, fun _ => rfl⟩
  | cons a l ih =>
    obtain ⟨b, hb⟩ := h a List.mem_cons_self
    obtain ⟨l', hl', hget⟩ := ih fun a ha => h a (List.mem_cons_of_mem _ ha)
    refine ⟨b :: l', ?_, fun i => ?_⟩
    · rw [List.mapM_cons, hb, hl']
      rfl
    · cases i with
      | zero => exact hb.symm
      | succ i => simpa using hget i

theorem bestFrom_none {scores : List ℕ} {i : ℕ} (h : bestFrom i scores = none) : scores = [] := by
  cases scores with
  | nil => rfl
  | cons score rest =>
    rw [bestFrom] at h
    cases hrest : bestFrom (i + 1) rest with
    | none =>
      rw [hrest] at h
      cases h
    | some best =>
      rw [hrest] at h
      dsimp only at h
      split at h <;> cases h

theorem bestFrom_some {scores : List ℕ} {i j best : ℕ} (h : bestFrom i scores = some (j, best)) :
    ∃ k, j = i + k ∧ scores[k]? = some best ∧ ∀ score ∈ scores, score ≤ best := by
  induction scores generalizing i j best with
  | nil => cases h
  | cons score rest ih =>
    rw [bestFrom] at h
    cases hrest : bestFrom (i + 1) rest with
    | none =>
      rw [hrest] at h
      cases h
      refine ⟨0, rfl, rfl, ?_⟩
      rw [bestFrom_none hrest]
      exact fun s hs => (List.mem_singleton.mp hs).le
    | some found =>
      obtain ⟨j', best'⟩ := found
      rw [hrest] at h
      obtain ⟨k, hj', hk, hall⟩ := ih hrest
      dsimp only at h
      split at h
      next hlt =>
        cases h
        refine ⟨0, rfl, rfl, List.forall_mem_cons.mpr ⟨le_rfl, fun s hs => ?_⟩⟩
        exact (hall s hs).trans hlt.le
      next hge =>
        cases h
        refine ⟨k + 1, by omega, hk, List.forall_mem_cons.mpr ⟨by omega, hall⟩⟩

/-- Whether another segment has the best score as well. -/
theorem tie_iff {scores : List ℕ} {bestIndex bestScore : ℕ} :
    (scores.zipIdx.any fun (score, index) => index != bestIndex && score == bestScore) = true ↔
      ∃ j, j ≠ bestIndex ∧ scores[j]? = some bestScore := by
  rw [List.any_eq_true]
  refine ⟨fun h => ?_, fun h => ?_⟩
  · obtain ⟨⟨score, index⟩, hmem, htie⟩ := h
    have hget := List.mem_zipIdx_iff_getElem?.mp hmem
    obtain ⟨hne, heq⟩ := Bool.and_eq_true_iff.mp htie
    rw [beq_iff_eq] at heq
    exact ⟨index, bne_iff_ne.mp hne, heq ▸ hget⟩
  · obtain ⟨j, hne, hget⟩ := h
    exact ⟨(bestScore, j), List.mem_zipIdx_iff_getElem?.mpr hget, by simp [hne]⟩

end Scores

section Selection

theorem strongest_unique {q a b c a' b' c' : List Char} (h : Strongest t text q a b c)
    (h' : Strongest t text q a' b' c') : a = a' ∧ b = b' ∧ c = c' := by
  obtain ⟨segments, i, best, hsegments, hbest, hparts, -, hless⟩ := h
  obtain ⟨segments', i', best', hsegments', hbest', hparts', -, hless'⟩ := h'
  obtain rfl := Option.some.inj (hsegments.symm.trans hsegments')
  have hindex : i' = i := by
    by_contra hne
    have hlt := hless i' best' b' hne hbest' hparts'.slice
    have hgt := hless' i best b (Ne.symm hne) hbest hparts.slice
    omega
  obtain rfl := hindex
  obtain rfl := Option.some.inj (hbest.symm.trans hbest')
  exact hparts.unique hparts'

theorem matched_unique {a b c a' b' c' : List Char} (h : Matched t text query a b c)
    (h' : Matched t text query a' b' c') : a = a' ∧ b = b' ∧ c = c' := by
  obtain ⟨q, rfl, -, hstrong⟩ := h
  obtain ⟨q', hq, -, hstrong'⟩ := h'
  obtain rfl := Option.some.inj hq
  exact strongest_unique hstrong hstrong'

theorem Matched.text_eq {a b c : List Char} (h : Matched t text query a b c) :
    text = a ++ b ++ c := by
  obtain ⟨q, -, -, _, _, _, -, -, hparts, -⟩ := h
  exact hparts.text

/-- A window is trimmed and rendered. -/
theorem rendered_window {start stop : ℕ} {before content after : List Char}
    (h : Parts text start stop before content after) (hsolid : ¬Blank content) :
    ∃ start' stop' s, trimSnippetRange text start stop = some (start', stop') ∧ start' < stop' ∧
      renderSnippetWindow text start' stop' = some s ∧ Rendered text before content after s := by
  obtain ⟨start', stop', front, back, htrim, hfront, hback, -, hparts⟩ := trimSnippetRange_parts h
  have hcore : trim content ≠ [] := mt trim_eq_nil_iff.mp hsolid
  have hlen := length_le_size (trim content)
  have hpos := List.length_pos_iff.mpr hcore
  have hbefore : Blank (before ++ front) ↔ Blank before := by
    rw [blank_append, and_iff_left hfront]
  have hafter : Blank (back ++ after) ↔ Blank after := by
    rw [blank_append, and_iff_right hback]
  have hellipsis : ellipsis (before ++ front) = ellipsis before ∧
      ellipsis (back ++ after) = ellipsis after := by
    simp only [ellipsis_eq, hbefore, hafter, and_self]
  have hvisible : ∃ visible, visibleContent (trim content)
      (citationSnippetChars - (ellipsis before + ellipsis after)) = some visible := by
    rcases Nat.lt_or_ge (citationSnippetChars - (ellipsis before + ellipsis after))
      (trim content).length with hlong | hshort
    · obtain ⟨visible, _, hvisible, _⟩ := visibleContent_cut hlong le_rfl
      exact ⟨visible, hvisible⟩
    · exact ⟨_, visibleContent_whole hshort⟩
  obtain ⟨visible, hvisible⟩ := hvisible
  refine ⟨start', stop', ⟨decide (¬Blank before), start', visible, decide (¬Blank after)⟩, htrim, ?_,
    ?_, front, back, hparts.text, hfront, hback, hparts.start, rfl, rfl, hvisible⟩
  · rw [hparts.start, hparts.stop]
    omega
  · rw [renderSnippetWindow_trimmed hparts (trim_trim content), hellipsis.1, hellipsis.2, hvisible]
    simp only [hbefore, hafter, Option.map_some]

theorem segmentScore_of_parts {segment : SnippetRange} {before content after : List Char}
    (h : Parts text segment.start segment.stop before content after) (q : List Char) :
    segmentScore t (snippetKeywords t q) text segment = some (sharedKeywords t q content) := by
  rw [segmentScore, h.slice]
  rfl

section Scored

variable {segments : List SnippetRange} {scores : List ℕ} {q : List Char} {i bestScore : ℕ}

/-- The scores are those of the segments. -/
def Scored (t : CharTables) (text q : List Char) (segments : List SnippetRange)
    (scores : List ℕ) : Prop :=
  ∀ i : ℕ, scores[i]? = segments[i]?.bind (segmentScore t (snippetKeywords t q) text)

theorem score_of_slice (hscore : Scored t text q segments scores)
    {segment : SnippetRange} {content : List Char} (hi : segments[i]? = some segment)
    (hcontent : slice text segment.start segment.stop = some content) :
    scores[i]? = some (sharedKeywords t q content) := by
  rw [hscore i, hi, Option.bind_some, segmentScore, hcontent]
  rfl

theorem strongest_of_scores (hsegments : splitSnippetSegments text = some segments)
    (hscore : Scored t text q segments scores)
    (hi : scores[i]? = some bestScore) (hall : ∀ score ∈ scores, score ≤ bestScore)
    (hpos : bestScore ≠ 0) (htie : ¬∃ j, j ≠ i ∧ scores[j]? = some bestScore)
    {best : SnippetRange} {a b c : List Char} (hbest : segments[i]? = some best)
    (hparts : Parts text best.start best.stop a b c) : Strongest t text q a b c := by
  have hown := score_of_slice hscore hbest hparts.slice
  obtain rfl : bestScore = sharedKeywords t q b := Option.some.inj (hi.symm.trans hown)
  refine ⟨segments, i, best, hsegments, hbest, hparts, by omega, ?_⟩
  intro j other content' hj hother hcontent'
  have hscore' := score_of_slice hscore hother hcontent'
  have hle := hall _ (List.mem_of_getElem? hscore')
  have hne : sharedKeywords t q content' ≠ sharedKeywords t q b := by
    intro heq
    exact htie ⟨j, hj, heq ▸ hscore'⟩
  omega

theorem not_strongest_of_scores (hsegments : splitSnippetSegments text = some segments)
    (hscore : Scored t text q segments scores)
    (hs : Segmented text segments)
    (hi : scores[i]? = some bestScore) (hall : ∀ score ∈ scores, score ≤ bestScore)
    (hweak : bestScore = 0 ∨ ∃ j, j ≠ i ∧ scores[j]? = some bestScore) (a b c : List Char) :
    ¬Strongest t text q a b c := by
  rintro ⟨segments', k, best, hsegments', hbest, hparts, hpos, hless⟩
  obtain rfl := Option.some.inj (hsegments.symm.trans hsegments')
  have hown := score_of_slice hscore hbest hparts.slice
  have hle := hall _ (List.mem_of_getElem? hown)
  -- A segment other than the strongest scores less than it, so the best score is that of it alone.
  have hothers : ∀ j, j ≠ k → scores[j]? = some bestScore → False := by
    intro j hj hj'
    rw [hscore j] at hj'
    obtain ⟨other, hother, hshared⟩ := Option.bind_eq_some_iff.mp hj'
    obtain ⟨_, content', _, hparts', -⟩ := hs.parts hother
    rw [segmentScore_of_parts hparts'] at hshared
    have hlt := hless j other content' hj hother hparts'.slice
    have heq := Option.some.inj hshared
    omega
  rcases hweak with hzero | ⟨j, hj, hj'⟩
  · omega
  · rcases eq_or_ne i k with rfl | hik
    · exact hothers j hj hj'
    · exact hothers i hik hi

end Scored

/-- The search ends with the window around the strongest segment, or finds that there is none. -/
theorem matchSnippet_cases (t : CharTables) (text q : List Char) :
    (matchSnippet t text (snippetKeywords t q) = some none ∧
      ∀ a b c, ¬Strongest t text q a b c) ∨
    ∃ s a b c before content after, matchSnippet t text (snippetKeywords t q) = some (some s) ∧
      Strongest t text q a b c ∧
      ((before = a ∧ content = b ∧ after = c) ∨ (Fits before content after ∧ Fits a b c)) ∧
      Rendered text before content after s := by
  obtain ⟨segments, hsegments, hs⟩ := splitSnippetSegments_segmented text
  unfold matchSnippet
  simp only [hsegments, Option.bind_eq_bind, Option.bind_some]
  by_cases hempty : segments.isEmpty = true
  · refine .inl ⟨if_pos hempty, ?_⟩
    rintro a b c ⟨segments', i, best, hsegments', hbest, -⟩
    obtain rfl := Option.some.inj (hsegments.symm.trans hsegments')
    rw [List.isEmpty_iff.mp hempty] at hbest
    cases hbest
  rw [if_neg hempty]
  obtain ⟨scores, hscores, hscore⟩ :=
    exists_mapM (f := segmentScore t (snippetKeywords t q) text) fun r hr => by
      obtain ⟨_, _, _, hparts, -⟩ := hs.segment r hr
      exact ⟨_, segmentScore_of_parts hparts q⟩
  rw [hscores, Option.bind_some]
  cases hbestFrom : bestFrom 0 scores with
  | none =>
    refine .inl ⟨rfl, ?_⟩
    rintro a b c ⟨segments', i, best, hsegments', hbest, hparts, -⟩
    obtain rfl := Option.some.inj (hsegments.symm.trans hsegments')
    have hown := score_of_slice hscore hbest hparts.slice
    rw [bestFrom_none hbestFrom] at hown
    cases hown
  | some found =>
    obtain ⟨bestIndex, bestScore⟩ := found
    obtain ⟨k, rfl, hk, hall⟩ := bestFrom_some hbestFrom
    rw [Nat.zero_add]
    dsimp only
    split_ifs with hweak
    · rw [Bool.or_eq_true, decide_eq_true_eq, tie_iff] at hweak
      exact .inl ⟨rfl, not_strongest_of_scores hsegments hscore hs hk hall hweak⟩
    · rw [Bool.or_eq_true, decide_eq_true_eq, tie_iff, not_or] at hweak
      obtain ⟨best, hbest, -⟩ := Option.bind_eq_some_iff.mp ((hscore k).symm.trans hk)
      obtain ⟨a, b, c, hparts, hsolid⟩ := hs.parts hbest
      obtain ⟨start, stop, before, content, after, hexpand, hrange, hstart, hstop, hwindow⟩ :=
        expandSnippetWindow_around hs hbest hparts
      have hcontent := solid_of_nested hparts hrange hstart hstop hsolid
      obtain ⟨start', stop', s, htrim, hlt, hrender, hrendered⟩ := rendered_window hrange hcontent
      refine .inr ⟨s, a, b, c, before, content, after, ?_,
        strongest_of_scores hsegments hscore hk hall hweak.1 hweak.2 hbest hparts, hwindow, hrendered⟩
      simp only [hexpand, Option.bind_some, htrim, if_neg (Nat.not_le.mpr hlt), hrender]
      rfl

theorem selectSnippet_selected (t : CharTables) (text : List Char) (query : Option (List Char)) :
    ∃ s, selectSnippet t text query = some s ∧ Selected t text query s := by
  unfold selectSnippet
  split_ifs with hblank hshort
  · exact ⟨_, rfl, .blank (trim_eq_nil_iff.mp (List.isEmpty_iff.mp hblank))⟩
  · exact ⟨_, rfl, .short hshort⟩
  have hsolid : ¬Blank text := fun h => hblank (List.isEmpty_iff.mpr (trim_eq_nil_iff.mpr h))
  have hlong : citationSnippetChars < text.length := Nat.lt_of_not_le hshort
  cases query with
  | none =>
    refine ⟨_, rfl, .front hlong hsolid ?_⟩
    rintro a b c ⟨q, hq, -⟩
    cases hq
  | some q =>
    dsimp only
    split_ifs with hfew
    · refine ⟨_, rfl, .front hlong hsolid ?_⟩
      rintro a b c ⟨q', hq, htwo, -⟩
      cases hq
      omega
    · rcases matchSnippet_cases t text q with ⟨hnone, hweak⟩ |
        ⟨s, a, b, c, before, content, after, hsome, hstrong, hwindow, hrendered⟩
      · rw [hnone]
        refine ⟨_, rfl, .front hlong hsolid ?_⟩
        rintro a b c ⟨q', hq, -, hstrong⟩
        cases hq
        exact hweak a b c hstrong
      · rw [hsome]
        exact ⟨s, rfl, .window ⟨q, rfl, by omega, hstrong⟩ hwindow hrendered⟩

end Selection

end GmragApi.Citation

import GmragApi.CitationSnippet

/-! The segments of a chunk and the window that grows around one of them: every range lies between
boundaries of the text, and a window of more than its segment leaves room for the ellipses. -/

namespace GmragApi.Citation

open TextSlice

variable {text : List Char}

section Blanks

instance (s : List Char) : Decidable (Blank s) := decidable_of_iff _ trim_eq_nil_iff

theorem ellipsis_eq (s : List Char) : ellipsis s = if Blank s then 0 else 1 := by
  simp only [ellipsis, List.isEmpty_iff, trim_eq_nil_iff]

theorem ellipsis_le_append_right (a b : List Char) : ellipsis a ≤ ellipsis (a ++ b) := by
  simp only [ellipsis_eq, blank_append]
  by_cases ha : Blank a <;> by_cases hb : Blank b <;> simp [ha, hb]

theorem ellipsis_le_append_left (a b : List Char) : ellipsis b ≤ ellipsis (a ++ b) := by
  simp only [ellipsis_eq, blank_append]
  by_cases ha : Blank a <;> by_cases hb : Blank b <;> simp [ha, hb]

end Blanks

section Segments

def Segment (text : List Char) (r : SnippetRange) : Prop :=
  ∃ before content after, Parts text r.start r.stop before content after ∧ ¬Blank content

structure Segmented (text : List Char) (segments : List SnippetRange) : Prop where
  segment : ∀ r ∈ segments, Segment text r
  ordered : segments.Pairwise fun r r' => r.stop ≤ r'.start

theorem segmented_nil (text : List Char) : Segmented text [] :=
  ⟨fun _ h => absurd h List.not_mem_nil, List.Pairwise.nil⟩

/-- A piece of the text becomes a segment in front of the later ones, unless it is blank. -/
theorem segmented_push {segments : List SnippetRange} {start stop : ℕ}
    {before piece after : List Char} (h : Parts text start stop before piece after)
    (hs : Segmented text segments) (hlater : ∀ r ∈ segments, stop ≤ r.start) :
    Segmented text (if (trim piece).isEmpty then segments else ⟨start, stop⟩ :: segments) ∧
      ∀ r ∈ (if (trim piece).isEmpty then segments else ⟨start, stop⟩ :: segments),
        start ≤ r.start := by
  have hle := h.start_le_stop
  have hafter : ∀ r ∈ segments, start ≤ r.start := fun r hr => hle.trans (hlater r hr)
  split
  next => exact ⟨hs, hafter⟩
  next hsolid =>
    rw [List.isEmpty_iff, trim_eq_nil_iff] at hsolid
    refine ⟨⟨List.forall_mem_cons.mpr ⟨⟨before, piece, after, h, hsolid⟩, hs.segment⟩,
      List.pairwise_cons.mpr ⟨hlater, hs.ordered⟩⟩, List.forall_mem_cons.mpr ⟨le_rfl, hafter⟩⟩

theorem segmentsFrom_segmented (before piece : List Char) {rest : List Char}
    (htext : text = before ++ piece ++ rest) :
    ∃ segments, segmentsFrom text (size before + size piece) (size before) rest = some segments ∧
      Segmented text segments ∧ ∀ r ∈ segments, size before ≤ r.start := by
  induction rest generalizing before piece with
  | nil =>
    have hparts : Parts text (size before) (size text) before piece [] :=
      ⟨htext, rfl, by rw [htext, size_append, size_append, size_nil, Nat.add_zero]⟩
    rw [segmentsFrom]
    by_cases hlt : size before < size text
    · rw [if_pos hlt, hparts.slice]
      exact ⟨_, rfl, segmented_push hparts (segmented_nil text) fun _ h => absurd h List.not_mem_nil⟩
    · rw [if_neg hlt]
      exact ⟨[], rfl, segmented_nil text, fun _ h => absurd h List.not_mem_nil⟩
  | cons c rest ih =>
    have hsize : size before + size piece + c.utf8Size = size before + size (piece ++ [c]) := by
      rw [size_append, size_cons, size_nil, Nat.add_zero, Nat.add_assoc]
    have htext' : text = before ++ (piece ++ [c]) ++ rest := by
      rw [htext]
      simp only [List.append_assoc, List.singleton_append]
    rw [segmentsFrom, hsize]
    by_cases hterm : isTerminator c = true
    · have hparts : Parts text (size before) (size before + size (piece ++ [c])) before
          (piece ++ [c]) rest := ⟨htext', rfl, rfl⟩
      have hnext : text = before ++ (piece ++ [c]) ++ [] ++ rest := by
        rw [List.append_nil]
        exact htext'
      obtain ⟨segments, hsegments, hs, hlater⟩ := ih _ _ hnext
      rw [size_nil, Nat.add_zero, size_append before] at hsegments
      rw [size_append before] at hlater
      simp only [hterm, if_true, hparts.slice, hsegments]
      exact ⟨_, rfl, segmented_push hparts hs hlater⟩
    · obtain ⟨segments, hsegments, h⟩ := ih _ _ htext'
      simp only [hterm]
      exact ⟨segments, hsegments, h⟩

theorem splitSnippetSegments_segmented (text : List Char) :
    ∃ segments, splitSnippetSegments text = some segments ∧ Segmented text segments := by
  obtain ⟨segments, hsegments, hs, _⟩ :=
    segmentsFrom_segmented [] [] (rfl : text = [] ++ [] ++ text)
  exact ⟨segments, hsegments, hs⟩

theorem Segmented.parts {segments : List SnippetRange} (hs : Segmented text segments)
    {i : ℕ} {r : SnippetRange} (hr : segments[i]? = some r) : Segment text r :=
  hs.segment r (List.mem_of_getElem? hr)

theorem Segmented.start_boundary {segments : List SnippetRange} (hs : Segmented text segments)
    {i : ℕ} {r : SnippetRange} (hr : segments[i]? = some r) : Boundary text r.start := by
  obtain ⟨before, content, after, h, _⟩ := hs.parts hr
  exact h.start_boundary

theorem Segmented.stop_boundary {segments : List SnippetRange} (hs : Segmented text segments)
    {i : ℕ} {r : SnippetRange} (hr : segments[i]? = some r) : Boundary text r.stop := by
  obtain ⟨before, content, after, h, _⟩ := hs.parts hr
  exact h.stop_boundary

/-- A segment further on neither starts nor stops earlier. -/
theorem Segmented.mono {segments : List SnippetRange} (hs : Segmented text segments) {i j : ℕ}
    {r r' : SnippetRange} (hr : segments[i]? = some r) (hr' : segments[j]? = some r')
    (hij : i ≤ j) : r.start ≤ r'.start ∧ r.stop ≤ r'.stop := by
  obtain ⟨_, _, _, h, _⟩ := hs.parts hr
  obtain ⟨_, _, _, h', _⟩ := hs.parts hr'
  have hle := h.start_le_stop
  have hle' := h'.start_le_stop
  rcases Nat.lt_or_ge i j with hlt | hge
  · obtain ⟨hi, rfl⟩ := List.getElem?_eq_some_iff.mp hr
    obtain ⟨hj, rfl⟩ := List.getElem?_eq_some_iff.mp hr'
    have hord := List.pairwise_iff_getElem.mp hs.ordered i j hi hj hlt
    omega
  · obtain rfl : i = j := by omega
    obtain rfl := Option.some.inj (hr.symm.trans hr')
    exact ⟨le_rfl, le_rfl⟩

/-- The parts of the text that a run of segments leaves. -/
theorem Segmented.range {segments : List SnippetRange} (hs : Segmented text segments) {l r : ℕ}
    {first last : SnippetRange} (hfirst : segments[l]? = some first)
    (hlast : segments[r]? = some last) (hle : l ≤ r) :
    ∃ before content after, Parts text first.start last.stop before content after := by
  obtain ⟨_, _, _, h, _⟩ := hs.parts hfirst
  refine exists_parts (hs.start_boundary hfirst) (hs.stop_boundary hlast) ?_
  exact h.start_le_stop.trans (hs.mono hfirst hlast hle).2

end Segments

section Window

/-- The content has the room that the ellipses for what it leaves out do not take. -/
def Fits (before content after : List Char) : Prop :=
  content.length ≤ citationSnippetChars - (ellipsis before + ellipsis after)

/-- What fits into the room of a range inside it fits, and so does that range. -/
theorem fits_of_nested {start stop start' stop' : ℕ}
    {before content after before' content' after' : List Char}
    (h : Parts text start stop before content after)
    (h' : Parts text start' stop' before' content' after') (hstart : start' ≤ start)
    (hstop : stop ≤ stop')
    (hroom : content'.length ≤ citationSnippetChars - (ellipsis before + ellipsis after)) :
    Fits before' content' after' ∧ Fits before content after := by
  obtain ⟨front, back, rfl, rfl, rfl⟩ := h.nested h' hstart hstop
  have hfront := ellipsis_le_append_right before' front
  have hback := ellipsis_le_append_left back after'
  simp only [List.length_append] at hroom
  refine ⟨?_, ?_⟩
  · rw [Fits, List.length_append, List.length_append]
    omega
  · rw [Fits]
    omega

variable {segments : List SnippetRange} {bestIndex : ℕ}

structure Inside (segments : List SnippetRange) (bestIndex : ℕ) (w : Window) : Prop where
  left : w.left ≤ bestIndex
  right : bestIndex ≤ w.right
  lt : w.right < segments.length

/-- The segments from `l` to `r` have room for `available` characters. -/
def RunFits (text : List Char) (segments : List SnippetRange) (l r available : ℕ) : Prop :=
  ∃ first last before content after, segments[l]? = some first ∧ segments[r]? = some last ∧
    Parts text first.start last.stop before content after ∧ content.length ≤ available

theorem leftFits_cases (hs : Segmented text segments) {w : Window}
    (hw : Inside segments bestIndex w) {last : SnippetRange}
    (hlast : segments[w.right]? = some last) (available : ℕ) :
    ∃ fits, leftFits text segments bestIndex w last.stop available = some fits ∧
      (fits = true → 0 < w.left ∧ RunFits text segments (w.left - 1) w.right available) := by
  have hleft := hw.left
  have hright := hw.right
  have hlt := hw.lt
  unfold leftFits
  by_cases hpos : 0 < w.left
  · obtain ⟨first, hfirst⟩ : ∃ first, segments[w.left - 1]? = some first :=
      ⟨_, List.getElem?_eq_getElem (by omega)⟩
    obtain ⟨before, content, after, hparts⟩ := hs.range hfirst hlast (by omega)
    simp only [hpos, if_true, hfirst, Option.bind_eq_bind, Option.bind_some,
      snippetRangeCharCount, hparts.slice, Option.map_some]
    refine ⟨_, rfl, fun hfits => ⟨trivial, first, last, before, content, after, hfirst, hlast,
      hparts, ?_⟩⟩
    exact of_decide_eq_true (Bool.and_eq_true_iff.mp hfits).1
  · rw [if_neg hpos]
    exact ⟨false, rfl, fun h => by cases h⟩

theorem rightFits_cases (hs : Segmented text segments) {w : Window}
    (hw : Inside segments bestIndex w) {first : SnippetRange}
    (hfirst : segments[w.left]? = some first) (available : ℕ) :
    ∃ fits, rightFits text segments w first.start available = some fits ∧
      (fits = true → w.right + 1 < segments.length ∧
        RunFits text segments w.left (w.right + 1) available) := by
  have hleft := hw.left
  have hright := hw.right
  unfold rightFits
  by_cases hlt : w.right + 1 < segments.length
  · obtain ⟨last, hlast⟩ : ∃ last, segments[w.right + 1]? = some last :=
      ⟨_, List.getElem?_eq_getElem hlt⟩
    obtain ⟨before, content, after, hparts⟩ := hs.range hfirst hlast (by omega)
    simp only [hlt, if_true, hlast, Option.bind_eq_bind, Option.bind_some,
      snippetRangeCharCount, hparts.slice, Option.map_some]
    exact ⟨_, rfl, fun hfits => ⟨trivial, first, last, before, content, after, hfirst, hlast,
      hparts, of_decide_eq_true hfits⟩⟩
  · rw [if_neg hlt]
    exact ⟨false, rfl, fun h => by cases h⟩

/-- The loop goes on to the right or to the left, where there is room. -/
theorem Window.next_cases {w next : Window} {leftFits rightFits : Bool}
    (h : w.next leftFits rightFits = some next) :
    (rightFits = true ∧ next.left = w.left ∧ next.right = w.right + 1) ∨
      (leftFits = true ∧ next.left = w.left - 1 ∧ next.right = w.right) := by
  unfold Window.next at h
  split_ifs at h with h₁ h₂ h₃ h₄
  · cases h
    exact .inl ⟨(Bool.and_eq_true_iff.mp h₁).2, rfl, rfl⟩
  · cases h
    exact .inr ⟨(Bool.and_eq_true_iff.mp h₂).2, rfl, rfl⟩
  · cases h
    exact .inl ⟨h₃, rfl, rfl⟩
  · cases h
    exact .inr ⟨h₄, rfl, rfl⟩

/-- A turn of the loop ends it or takes one segment more into the window. -/
theorem growWindow_cases (hs : Segmented text segments) {w : Window}
    (hw : Inside segments bestIndex w) :
    ∃ first last before content after next,
      segments[w.left]? = some first ∧ segments[w.right]? = some last ∧
      Parts text first.start last.stop before content after ∧
      growWindow text segments bestIndex w = some ((first.start, last.stop), next) ∧
      ∀ w', next = some w' → Inside segments bestIndex w' ∧ w'.left ≤ w.left ∧
        w.right ≤ w'.right ∧ w'.left + w.right + 1 = w.left + w'.right ∧
        RunFits text segments w'.left w'.right
          (citationSnippetChars - (ellipsis before + ellipsis after)) := by
  have hleft := hw.left
  have hright := hw.right
  have hlt := hw.lt
  obtain ⟨first, hfirst⟩ : ∃ first, segments[w.left]? = some first :=
    ⟨_, List.getElem?_eq_getElem (by omega)⟩
  obtain ⟨last, hlast⟩ : ∃ last, segments[w.right]? = some last :=
    ⟨_, List.getElem?_eq_getElem hlt⟩
  obtain ⟨before, content, after, hparts⟩ := hs.range hfirst hlast (by omega)
  obtain ⟨toLeft, hl, hlroom⟩ := leftFits_cases hs hw hlast
    (citationSnippetChars - (ellipsis before + ellipsis after))
  obtain ⟨toRight, hr, hrroom⟩ := rightFits_cases hs hw hfirst
    (citationSnippetChars - (ellipsis before + ellipsis after))
  refine ⟨first, last, before, content, after, w.next toLeft toRight, hfirst, hlast, hparts, ?_, ?_⟩
  · simp only [growWindow, hfirst, hlast, Option.bind_eq_bind, Option.bind_some,
      hparts.before_slice, hparts.after_slice, hl, hr]
    rfl
  · intro w' hnext
    rcases Window.next_cases hnext with ⟨hfits, hl', hr'⟩ | ⟨hfits, hl', hr'⟩
    · obtain ⟨hbound, hroom⟩ := hrroom hfits
      refine ⟨⟨by omega, by omega, by omega⟩, by omega, by omega, by omega, ?_⟩
      rw [hl', hr']
      exact hroom
    · obtain ⟨hbound, hroom⟩ := hlroom hfits
      refine ⟨⟨by omega, by omega, by omega⟩, by omega, by omega, by omega, ?_⟩
      rw [hl', hr']
      exact hroom

/-- The range of the window is the segment, or it fits where the segment itself does. -/
def Spread (best start stop : SnippetRange) (a b c before content after : List Char) : Prop :=
  (start.start = best.start ∧ stop.stop = best.stop) ∨ (Fits before content after ∧ Fits a b c)

theorem expandFrom_spread (hs : Segmented text segments) {best : SnippetRange} {a b c : List Char}
    (hbest : segments[bestIndex]? = some best) (hparts : Parts text best.start best.stop a b c)
    {fuel : ℕ} {w : Window} (hw : Inside segments bestIndex w)
    (hfuel : segments.length + w.left ≤ fuel + w.right)
    (hspread : ∀ first last before content after, segments[w.left]? = some first →
      segments[w.right]? = some last → Parts text first.start last.stop before content after →
      Spread best first last a b c before content after) :
    ∃ first last before content after,
      expandFrom text segments bestIndex fuel w = some (first.start, last.stop) ∧
      Parts text first.start last.stop before content after ∧ first.start ≤ best.start ∧
      best.stop ≤ last.stop ∧ Spread best first last a b c before content after := by
  induction fuel generalizing w with
  | zero =>
    have hlt := hw.lt
    have hleft := hw.left
    have hright := hw.right
    omega
  | succ fuel ih =>
    obtain ⟨first, last, before, content, after, next, hfirst, hlast, hrange, hgrow, hnext⟩ :=
      growWindow_cases hs hw
    have hstart := (hs.mono hfirst hbest hw.left).1
    have hstop := (hs.mono hbest hlast hw.right).2
    have hown := hspread first last before content after hfirst hlast hrange
    rw [expandFrom, hgrow]
    cases next with
    | none => exact ⟨first, last, before, content, after, rfl, hrange, hstart, hstop, hown⟩
    | some w' =>
      obtain ⟨hw', hleft, hright, hcount, hroom⟩ := hnext w' rfl
      refine ih hw' (by omega) ?_
      intro first' last' before' content' after' hfirst' hlast' hrange'
      obtain ⟨_, _, _, _, _, hfirst'', hlast'', hrange'', hshort⟩ := hroom
      cases Option.some.inj (hfirst'.symm.trans hfirst'')
      cases Option.some.inj (hlast'.symm.trans hlast'')
      obtain ⟨rfl, rfl, rfl⟩ := hrange'.unique hrange''
      have hstart' := (hs.mono hfirst' hfirst hleft).1
      have hstop' := (hs.mono hlast hlast' hright).2
      obtain ⟨houter, hinner⟩ := fits_of_nested hrange hrange' hstart' hstop' hshort
      refine .inr ⟨houter, ?_⟩
      rcases hown with ⟨hfrom, hto⟩ | ⟨_, hfits⟩
      · rw [hfrom, hto] at hrange
        obtain ⟨rfl, rfl, rfl⟩ := hrange.unique hparts
        exact hinner
      · exact hfits

/-- The window around a segment holds it: it is the segment, or it has room where the segment has. -/
theorem expandSnippetWindow_around (hs : Segmented text segments) {best : SnippetRange}
    {a b c : List Char} (hbest : segments[bestIndex]? = some best)
    (hparts : Parts text best.start best.stop a b c) :
    ∃ start stop before content after,
      expandSnippetWindow text segments bestIndex = some (start, stop) ∧
      Parts text start stop before content after ∧ start ≤ best.start ∧ best.stop ≤ stop ∧
      ((before = a ∧ content = b ∧ after = c) ∨ (Fits before content after ∧ Fits a b c)) := by
  obtain ⟨hlt, -⟩ := List.getElem?_eq_some_iff.mp hbest
  have hinitial : ∀ first last before content after, segments[bestIndex]? = some first →
      segments[bestIndex]? = some last → Parts text first.start last.stop before content after →
      Spread best first last a b c before content after := by
    intro first last before content after hfirst hlast _
    cases Option.some.inj (hfirst.symm.trans hbest)
    cases Option.some.inj (hlast.symm.trans hbest)
    exact .inl ⟨rfl, rfl⟩
  obtain ⟨first, last, before, content, after, hexpand, hrange, hstart, hstop, hspread⟩ :=
    expandFrom_spread hs hbest hparts
      (w := ⟨bestIndex, bestIndex,
        decide (0 < bestIndex) && decide (bestIndex + 1 < segments.length)⟩)
      ⟨le_rfl, le_rfl, hlt⟩ le_rfl hinitial
  refine ⟨first.start, last.stop, before, content, after, hexpand, hrange, hstart, hstop, ?_⟩
  rcases hspread with ⟨hfrom, hto⟩ | hfits
  · rw [hfrom, hto] at hrange
    exact .inl (hrange.unique hparts)
  · exact .inr hfits

/-- A range around one that is not blank is not blank. -/
theorem solid_of_nested {start stop start' stop' : ℕ}
    {before content after before' content' after' : List Char}
    (h : Parts text start stop before content after)
    (h' : Parts text start' stop' before' content' after') (hstart : start' ≤ start)
    (hstop : stop ≤ stop') (hsolid : ¬Blank content) : ¬Blank content' := by
  obtain ⟨front, back, -, hcontent, -⟩ := h.nested h' hstart hstop
  intro hblank
  rw [hcontent, blank_append, blank_append] at hblank
  exact hsolid hblank.1.2

end Window

end GmragApi.Citation

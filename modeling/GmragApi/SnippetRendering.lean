import GmragApi.SnippetWindow

/-! What the end of the selection does to a range: blanks go from both of its ends, what has no room
is cut, and each ellipsis is decided by the text outside. -/

namespace GmragApi.Citation

open TextSlice

variable {text : List Char}

section Trimming

theorem trimStartFrom_done {start stop : ℕ} (h : ¬start < stop) (fuel : ℕ) :
    trimStartFrom text fuel start stop = some start := by
  cases fuel with
  | zero => rw [trimStartFrom, if_neg h]
  | succ fuel =>
    rw [trimStartFrom, if_neg h]
    rfl

theorem trimStartFrom_parts {fuel start stop : ℕ} {before content after : List Char}
    (h : Parts text start stop before content after) (hfuel : content.length ≤ fuel) :
    ∃ start', trimStartFrom text fuel start stop = some start' ∧
      Parts text start' stop (before ++ content.takeWhile isWhitespace)
        (content.dropWhile isWhitespace) after := by
  induction content generalizing before start fuel with
  | nil =>
    refine ⟨start, trimStartFrom_done h.not_lt_of_nil fuel, ?_⟩
    rw [List.takeWhile_nil, List.dropWhile_nil, List.append_nil]
    exact h
  | cons c content ih =>
    rw [List.length_cons] at hfuel
    obtain ⟨fuel, rfl⟩ : ∃ n, fuel = n + 1 := ⟨fuel - 1, by omega⟩
    have hrest : content.length ≤ fuel := by omega
    rw [trimStartFrom, if_pos (h.lt_of_content List.mem_cons_self), h.slice]
    simp only [Option.bind_eq_bind, Option.bind_some, List.head?_cons]
    by_cases hblank : isWhitespace c = true
    · obtain ⟨start', hstart, hparts⟩ := ih h.move_start hrest
      rw [List.append_assoc, List.singleton_append] at hparts
      rw [List.takeWhile_cons_of_pos hblank, List.dropWhile_cons_of_pos hblank, if_pos hblank]
      exact ⟨start', hstart, hparts⟩
    · rw [List.takeWhile_cons_of_neg hblank, List.dropWhile_cons_of_neg hblank, List.append_nil,
        if_neg hblank]
      exact ⟨start, rfl, h⟩

theorem trimEndFrom_done {start stop : ℕ} (h : ¬start < stop) (fuel : ℕ) :
    trimEndFrom text start fuel stop = some stop := by
  cases fuel with
  | zero => rw [trimEndFrom, if_neg h]
  | succ fuel =>
    rw [trimEndFrom, if_neg h]
    rfl

theorem trimEndFrom_parts {fuel start stop : ℕ} {before content after : List Char}
    (h : Parts text start stop before content after) (hfuel : content.length ≤ fuel) :
    ∃ stop' back, trimEndFrom text start fuel stop = some stop' ∧ Blank back ∧
      content = content.rdropWhile isWhitespace ++ back ∧
      Parts text start stop' before (content.rdropWhile isWhitespace) (back ++ after) := by
  have hnil : Blank [] := fun _ hc => absurd hc List.not_mem_nil
  induction content using List.reverseRecOn generalizing after stop fuel with
  | nil => exact ⟨stop, [], trimEndFrom_done h.not_lt_of_nil fuel, hnil, rfl, h⟩
  | append_singleton content c ih =>
    rw [List.length_append, List.length_singleton] at hfuel
    obtain ⟨fuel, rfl⟩ : ∃ n, fuel = n + 1 := ⟨fuel - 1, by omega⟩
    have hrest : content.length ≤ fuel := by omega
    have hlast : (before ++ (content ++ [c])).getLast? = some c := by
      rw [← List.append_assoc]
      exact List.getLast?_concat
    rw [trimEndFrom, if_pos (h.lt_of_content (List.mem_append_right _ List.mem_cons_self)),
      h.front_slice]
    simp only [Option.bind_eq_bind, Option.bind_some, hlast]
    by_cases hblank : isWhitespace c = true
    · obtain ⟨stop', back, hstop, hback, hcontent, hparts⟩ := ih h.move_stop hrest
      rw [List.rdropWhile_concat_pos _ _ _ hblank, if_pos hblank]
      refine ⟨stop', back ++ [c], hstop, ?_, ?_, ?_⟩
      · refine blank_append.mpr ⟨hback, fun c' hc' => ?_⟩
        rw [List.mem_singleton.mp hc']
        exact hblank
      · rw [← List.append_assoc, ← hcontent]
      · rw [List.append_assoc]
        exact hparts
    · rw [List.rdropWhile_concat_neg _ _ _ hblank, if_neg hblank]
      exact ⟨stop, [], rfl, hnil, (List.append_nil _).symm, h⟩

/-- Trimming moves the ends of a range over the blanks at the ends of its content. -/
theorem trimSnippetRange_parts {start stop : ℕ} {before content after : List Char}
    (h : Parts text start stop before content after) :
    ∃ start' stop' front back, trimSnippetRange text start stop = some (start', stop') ∧
      Blank front ∧ Blank back ∧ content = front ++ trim content ++ back ∧
      Parts text start' stop' (before ++ front) (trim content) (back ++ after) := by
  have hlen := length_le_size content
  have hwidth : content.length ≤ stop - start := by
    rw [h.stop, h.start, Nat.add_sub_cancel_left]
    exact hlen
  obtain ⟨start', hstart, hparts⟩ := trimStartFrom_parts h hwidth
  have hlen' := length_le_size (content.dropWhile isWhitespace)
  have hwidth' : (content.dropWhile isWhitespace).length ≤ stop - start' := by
    rw [hparts.stop, hparts.start, Nat.add_sub_cancel_left]
    exact hlen'
  obtain ⟨stop', back, hstop, hback, hcontent, hparts'⟩ := trimEndFrom_parts hparts hwidth'
  refine ⟨start', stop', content.takeWhile isWhitespace, back, ?_, ?_, hback, ?_, hparts'⟩
  · rw [trimSnippetRange, hstart]
    simp only [Option.bind_eq_bind, Option.bind_some, hstop]
    rfl
  · exact fun c hc => List.mem_takeWhile_imp hc
  · rw [List.append_assoc]
    calc content = content.takeWhile isWhitespace ++ content.dropWhile isWhitespace :=
          List.takeWhile_append_dropWhile.symm
      _ = content.takeWhile isWhitespace ++ (trim content ++ back) := congrArg _ hcontent

/-- A trimmed range stays as it is. -/
theorem trimSnippetRange_trimmed {start stop : ℕ} {before content after : List Char}
    (h : Parts text start stop before content after) (hcontent : trim content = content) :
    trimSnippetRange text start stop = some (start, stop) := by
  obtain ⟨start', stop', front, back, htrim, -, -, hsplit, hparts⟩ := trimSnippetRange_parts h
  rw [hcontent] at hsplit hparts
  have hlen := congrArg List.length hsplit
  simp only [List.length_append] at hlen
  obtain rfl : front = [] := List.length_eq_zero_iff.mp (by omega)
  obtain rfl : back = [] := List.length_eq_zero_iff.mp (by omega)
  rw [List.append_nil, List.nil_append] at hparts
  have hstart : start' = start := hparts.start.trans h.start.symm
  have hstop : stop' = stop := hparts.stop.trans h.stop.symm
  rw [htrim, hstart, hstop]

end Trimming

section Cut

def firstWord (content : List Char) : List Char := content.takeWhile fun c => !isWhitespace c

theorem length_firstWord_le {content : List Char} {i : ℕ} {c : Char} (hc : content[i]? = some c)
    (hblank : isWhitespace c = true) : (firstWord content).length ≤ i := by
  induction content generalizing i with
  | nil => simp at hc
  | cons d content ih =>
    rw [firstWord, List.takeWhile_cons]
    split
    next hsolid =>
      cases i with
      | zero =>
        cases Option.some.inj hc
        simp [hblank] at hsolid
      | succ i =>
        rw [List.getElem?_cons_succ] at hc
        have hrest := ih hc
        rw [List.length_cons]
        exact Nat.succ_le_succ hrest
    next => exact Nat.zero_le _

/-- Behind the first word stands a blank, where anything does. -/
theorem firstWord_spec (content : List Char) :
    ∃ rest, content = firstWord content ++ rest ∧
      (rest = [] ∨ ∃ c rest', rest = c :: rest' ∧ isWhitespace c = true) := by
  induction content with
  | nil => exact ⟨[], rfl, .inl rfl⟩
  | cons d content ih =>
    rw [firstWord, List.takeWhile_cons]
    split
    next hsolid =>
      obtain ⟨rest, hrest, hblank⟩ := ih
      exact ⟨rest, congrArg (d :: ·) hrest, hblank⟩
    next hblank => exact ⟨d :: content, rfl, .inr ⟨d, content, rfl, by simpa using hblank⟩⟩

theorem firstWord_solid {content : List Char} {i : ℕ} {c : Char}
    (hc : (firstWord content)[i]? = some c) : isWhitespace c = false := by
  have hmem := List.mem_takeWhile_imp (List.mem_of_getElem? hc)
  simpa using hmem

/-- The cut goes back to behind a blank, or to the front where there is none. -/
theorem cutBefore_spec {content : List Char} {limit : ℕ} (hlimit : limit ≤ content.length) :
    ∃ cut, cutBefore content limit = some cut ∧ cut ≤ limit ∧
      (cut = 0 → limit ≤ (firstWord content).length) ∧
      (0 < cut → (firstWord content).length < limit) := by
  obtain ⟨rest, hcontent, hrest⟩ := firstWord_spec content
  have hsplit := congrArg List.length hcontent
  rw [List.length_append] at hsplit
  induction limit with
  | zero => exact ⟨0, rfl, le_rfl, fun _ => Nat.zero_le _, fun h => absurd h (Nat.lt_irrefl _)⟩
  | succ limit ih =>
    obtain ⟨c, hc⟩ : ∃ c, content[limit]? = some c := ⟨_, List.getElem?_eq_getElem (by omega)⟩
    obtain ⟨cut, hcut, hle, hnone, hsome⟩ := ih (by omega)
    by_cases hblank : isWhitespace c = true
    · have hword := length_firstWord_le hc hblank
      refine ⟨limit + 1, ?_, le_rfl, fun h => by omega, fun _ => by omega⟩
      simp [cutBefore, hc, hblank]
    · refine ⟨cut, ?_, by omega, fun h => ?_, fun h => by have := hsome h; omega⟩
      · simpa [cutBefore, hc, hblank] using hcut
      · have hword := hnone h
        by_contra hshort
        have hlength : (firstWord content).length = limit := by omega
        rcases hrest with rfl | ⟨d, rest', rfl, hd⟩
        · rw [List.length_nil] at hsplit
          omega
        · rw [hcontent, List.getElem?_append_right (by omega), hlength, Nat.sub_self] at hc
          cases Option.some.inj hc
          exact hblank hd

theorem dropBlanks_spec {content : List Char} {cut : ℕ} (hcut : cut ≤ content.length) :
    ∃ cut', dropBlanks content cut = some cut' ∧ cut' ≤ cut := by
  induction cut with
  | zero => exact ⟨0, rfl, le_rfl⟩
  | succ cut ih =>
    obtain ⟨c, hc⟩ : ∃ c, content[cut]? = some c := ⟨_, List.getElem?_eq_getElem (by omega)⟩
    obtain ⟨cut', hcut', hle⟩ := ih (by omega)
    by_cases hblank : isWhitespace c = true
    · refine ⟨cut', ?_, by omega⟩
      simpa [dropBlanks, hc, hblank] using hcut'
    · refine ⟨cut + 1, ?_, le_rfl⟩
      simp [dropBlanks, hc, hblank]

/-- Inside the first word there is no blank to drop. -/
theorem dropBlanks_firstWord {content : List Char} {cut : ℕ}
    (hcut : cut ≤ (firstWord content).length) : dropBlanks content cut = some cut := by
  obtain ⟨rest, hcontent, -⟩ := firstWord_spec content
  cases cut with
  | zero => rfl
  | succ cut =>
    have hc : (firstWord content)[cut]? = some (firstWord content)[cut] :=
      List.getElem?_eq_getElem (by omega)
    have hc' : content[cut]? = some (firstWord content)[cut] := by
      rw [← hc]
      conv_lhs => rw [hcontent]
      exact List.getElem?_append_left (by omega)
    simp [dropBlanks, hc', firstWord_solid hc]

/-- Where the limit falls into the first word, the word is taken whole unless it is all there is. -/
theorem findIdx_firstWord {content : List Char} {limit : ℕ}
    (hlimit : limit ≤ (firstWord content).length) :
    ((((content.drop limit).findIdx? isWhitespace).map (limit + ·)).getD limit) =
      if (firstWord content).length < content.length then (firstWord content).length else limit := by
  obtain ⟨rest, hcontent, hrest⟩ := firstWord_spec content
  have hsplit := congrArg List.length hcontent
  rw [List.length_append] at hsplit
  have hnone : ((firstWord content).drop limit).findIdx? isWhitespace = none := by
    refine List.findIdx?_eq_none_iff.mpr fun c hc => ?_
    obtain ⟨i, hi⟩ := List.mem_iff_getElem?.mp (List.mem_of_mem_drop hc)
    exact firstWord_solid hi
  have hdrop : content.drop limit = (firstWord content).drop limit ++ rest := by
    conv_lhs => rw [hcontent]
    exact List.drop_append_of_le_length hlimit
  rw [hdrop, List.findIdx?_append, hnone]
  rcases hrest with rfl | ⟨c, rest', rfl, hblank⟩
  · rw [List.length_nil] at hsplit
    rw [if_neg (by omega)]
    rfl
  · rw [List.length_cons] at hsplit
    rw [if_pos (by omega), List.findIdx?_cons, hblank]
    simp only [if_true, Option.none_or, Option.map_some, Option.getD_some, List.length_drop]
    omega

theorem visibleContent_whole {content : List Char} {limit : ℕ} (h : content.length ≤ limit) :
    visibleContent content limit = some content := by
  rw [visibleContent, if_pos h]

/-- Where the content is cut: behind its first word, or within the limit. -/
theorem visibleContent_cut_at {content : List Char} {limit : ℕ} (h : limit < content.length) :
    ∃ cut, visibleContent content limit = some (content.take cut) ∧ cut < content.length ∧
      (cut ≤ limit ∧ ¬(limit < (firstWord content).length ∧
          (firstWord content).length < content.length) ∨
        cut = (firstWord content).length) := by
  obtain ⟨cut, hcut, hle, hnone, hsome⟩ := cutBefore_spec (show limit ≤ content.length by omega)
  have htake : ∀ {index cut' : ℕ}, dropBlanks content index = some cut' → cut' ≤ content.length →
      (if cut = 0 then
        (((content.drop limit).findIdx? isWhitespace).map (limit + ·)).getD limit
      else cut) = index → visibleContent content limit = some (content.take cut') := by
    intro index cut' hdrop hcut' hfrom
    rw [visibleContent, if_neg (by omega), hcut]
    simp only [Option.bind_eq_bind, Option.bind_some, hfrom, hdrop, if_pos hcut']
    rfl
  rcases Nat.eq_zero_or_pos cut with hzero | hpos
  · have hword := hnone hzero
    have hindex := findIdx_firstWord hword
    by_cases hlt : (firstWord content).length < content.length
    · rw [if_pos hlt] at hindex
      refine ⟨(firstWord content).length, ?_, hlt, .inr rfl⟩
      exact htake (dropBlanks_firstWord le_rfl) hlt.le ((if_pos hzero).trans hindex)
    · rw [if_neg hlt] at hindex
      refine ⟨limit, ?_, h, .inl ⟨le_rfl, fun hboth => hlt hboth.2⟩⟩
      exact htake (dropBlanks_firstWord hword) h.le ((if_pos hzero).trans hindex)
  · have hword := hsome hpos
    obtain ⟨cut', hcut', hle'⟩ := dropBlanks_spec (show cut ≤ content.length by omega)
    refine ⟨cut', ?_, by omega, .inl ⟨by omega, fun hboth => by omega⟩⟩
    exact htake hcut' (by omega) (if_neg (by omega))

theorem visibleContent_cut {content : List Char} {limit bound : ℕ} (h : limit < content.length)
    (hbound : limit ≤ bound) :
    ∃ visible rest, visibleContent content limit = some visible ∧ content = visible ++ rest ∧
      rest ≠ [] ∧ (bound < visible.length ↔
        bound < (firstWord content).length ∧ (firstWord content).length < content.length) := by
  obtain ⟨cut, hvisible, hlt, hcut⟩ := visibleContent_cut_at h
  refine ⟨content.take cut, content.drop cut, hvisible, (List.take_append_drop ..).symm, ?_, ?_⟩
  · exact fun hnil => absurd (List.drop_eq_nil_iff.mp hnil) (by omega)
  · rw [List.length_take]
    omega

end Cut

section Rendering

/-- A trimmed range is rendered with the ellipses that the text outside asks for. -/
theorem renderSnippetWindow_trimmed {start stop : ℕ} {before content after : List Char}
    (h : Parts text start stop before content after) (hcontent : trim content = content) :
    renderSnippetWindow text start stop =
      (visibleContent content (citationSnippetChars - (ellipsis before + ellipsis after))).map
        fun visible => ⟨decide (¬Blank before), start, visible, decide (¬Blank after)⟩ := by
  have hmark : ∀ s : List Char, (!(trim s).isEmpty) = decide (¬Blank s) := by
    intro s
    by_cases hs : Blank s
    · simp [hs, trim_eq_nil_iff.mpr hs]
    · simp [hs, mt trim_eq_nil_iff.mp hs]
  rw [renderSnippetWindow, trimSnippetRange_trimmed h hcontent]
  simp only [Option.bind_eq_bind, Option.bind_some, h.before_slice, h.after_slice, h.slice, hmark]
  exact (Option.map_eq_bind ..).symm

end Rendering

section Truncation

theorem rposition_lt {p : Char → Bool} {s : List Char} {i : ℕ} (h : rposition p s = some i) :
    i < s.length := by
  induction s generalizing i with
  | nil => cases h
  | cons c s ih =>
    rw [rposition] at h
    cases hs : rposition p s with
    | some j =>
      rw [hs] at h
      cases h
      exact Nat.succ_lt_succ (ih hs)
    | none =>
      rw [hs] at h
      dsimp only at h
      split at h
      next =>
        cases h
        exact Nat.succ_pos _
      next => cases h

theorem rposition_filter_none_iff {p : Char → Bool} {s : List Char} {n : ℕ} :
    (rposition p s).filter (n ≤ ·) = none ↔ ∀ c ∈ s.drop n, p c = false := by
  induction s generalizing n with
  | nil => simp [rposition]
  | cons c s ih =>
    cases hs : rposition p s with
    | some i =>
      cases n with
      | zero =>
        have hall := (not_congr (ih (n := 0))).mp (by simp [hs])
        rw [rposition, hs]
        simp only [List.drop_zero] at hall ⊢
        refine ⟨fun h => by simp at h, fun h => absurd (fun d hd => ?_) hall⟩
        exact h d (List.mem_cons_of_mem _ hd)
      | succ n =>
        rw [List.drop_succ_cons, ← ih, rposition, hs]
        simp
    | none =>
      have hall := ih.mp (show (rposition p s).filter (0 ≤ ·) = none by rw [hs]; rfl)
      rw [List.drop_zero] at hall
      cases n with
      | zero =>
        rw [rposition, hs, List.drop_zero, List.forall_mem_cons]
        cases hc : p c
        · simpa using hall
        · simp
      | succ n =>
        rw [List.drop_succ_cons, rposition, hs]
        refine ⟨fun _ d hd => hall d (List.mem_of_mem_drop hd), fun _ => ?_⟩
        cases p c <;> simp

theorem rdropWhile_parts (s : List Char) :
    ∃ back, s = s.rdropWhile isWhitespace ++ back ∧ Blank back :=
  ⟨s.rtakeWhile isWhitespace, List.rdropWhile_append_rtakeWhile.symm,
    fun _ hc => List.mem_rtakeWhile_imp hc⟩

theorem rdropWhile_append_blank {s back : List Char} (hback : Blank back) :
    (s ++ back).rdropWhile isWhitespace = s.rdropWhile isWhitespace := by
  rw [List.rdropWhile, List.reverse_append, List.dropWhile_append_of_pos, List.rdropWhile]
  exact fun c hc => hback c (List.mem_reverse.mp hc)

theorem dropLastWord_parts {front : List Char} (hfront : front.rdropWhile isWhitespace = front) :
    ∃ dropped, front = dropLastWord front ++ dropped ∧
      (Blank dropped ↔ ∀ c ∈ front.drop (citationSnippetChars / 2), isWhitespace c = false) := by
  unfold dropLastWord
  cases hboundary : (rposition isWhitespace front).filter (citationSnippetChars / 2 ≤ ·) with
  | none =>
    refine ⟨[], (List.append_nil _).symm, fun _ => rposition_filter_none_iff.mp hboundary, ?_⟩
    exact fun _ _ hc => absurd hc List.not_mem_nil
  | some boundary =>
    have hlt := rposition_lt (Option.filter_eq_some_iff.mp hboundary).1
    obtain ⟨back, htaken, -⟩ := rdropWhile_parts (front.take boundary)
    refine ⟨back ++ front.drop boundary, ?_, fun hblank => ?_, fun hnone => ?_⟩
    · rw [← List.append_assoc, ← htaken, List.take_append_drop]
    · -- The last character of the front is no blank, and it goes with the word.
      have hrest := rdropWhile_append_blank (s := front.take boundary) (blank_append.mp hblank).2
      rw [List.take_append_drop, hfront] at hrest
      have hle := (List.rdropWhile_prefix isWhitespace (l := front.take boundary)).length_le
      rw [← hrest, List.length_take] at hle
      omega
    · rw [rposition_filter_none_iff.mpr hnone] at hboundary
      cases hboundary

/-- The front of the chunk, and when nothing but blanks follows it. -/
theorem truncateCitationSnippet_long (hlong : citationSnippetChars < text.length) :
    ∃ front rest, truncateCitationSnippet text = ⟨false, 0, front, true⟩ ∧ text = front ++ rest ∧
      front.length ≤ citationSnippetChars ∧
      (Blank rest ↔ Blank (text.drop citationSnippetChars) ∧
        ∀ c ∈ (text.rdropWhile isWhitespace).drop (citationSnippetChars / 2),
          isWhitespace c = false) := by
  have hwide : ¬(text.take (citationSnippetChars + 1)).length ≤ citationSnippetChars := by
    rw [List.length_take]
    omega
  have hcut : (text.take (citationSnippetChars + 1)).take citationSnippetChars =
      text.take citationSnippetChars := by
    rw [List.take_take, Nat.min_eq_left (Nat.le_succ _)]
  obtain ⟨back, htaken, hback⟩ := rdropWhile_parts (text.take citationSnippetChars)
  obtain ⟨dropped, hdropped, hwords⟩ :=
    dropLastWord_parts (List.rdropWhile_idempotent isWhitespace (text.take citationSnippetChars))
  have hwhole : Blank (text.drop citationSnippetChars) → text.rdropWhile isWhitespace =
      (text.take citationSnippetChars).rdropWhile isWhitespace := by
    intro hrest
    conv_lhs => rw [← List.take_append_drop citationSnippetChars text]
    exact rdropWhile_append_blank hrest
  refine ⟨dropLastWord ((text.take citationSnippetChars).rdropWhile isWhitespace),
    dropped ++ (back ++ text.drop citationSnippetChars), ?_, ?_, ?_, ?_⟩
  · rw [truncateCitationSnippet, if_neg hwide, hcut]
  · rw [← List.append_assoc, ← hdropped, ← List.append_assoc, ← htaken, List.take_append_drop]
  · have hlength := congrArg List.length htaken
    have hlength' := congrArg List.length hdropped
    rw [List.length_append, List.length_take] at hlength
    rw [List.length_append] at hlength'
    omega
  · rw [blank_append, blank_append, hwords]
    refine ⟨fun h => ⟨h.2.2, ?_⟩, fun h => ⟨?_, hback, h.1⟩⟩
    · rw [hwhole h.2.2]
      exact h.1
    · rw [← hwhole h.1]
      exact h.2

end Truncation

end GmragApi.Citation

import GmragApi.Citations

/-! Which markers are left in a stored answer, once those of the citations that the reader may not
see are removed. -/

namespace GmragApi.Citations

section Values

theorem plainValues_isUuidValue : PlainValues isUuidValue := by
  intro value hvalue
  have hall := List.all_eq_true.mp (Bool.and_eq_true_iff.mp hvalue).2
  exact ⟨fun h => absurd (hall _ h) (by decide), fun h => absurd (hall _ h) (by decide)⟩

theorem isUuidValue_display (id : Uuid) : isUuidValue id.display = true := by
  rw [isUuidValue, display_length, display_all]
  rfl

end Values

section Insert

variable {seen ids : List Uuid}

theorem insertNew_nodup (h : seen.Nodup) (id : Uuid) : (insertNew seen id).Nodup := by
  unfold insertNew
  split
  · exact h
  · next hnew =>
    refine List.nodup_append.mpr ⟨h, List.nodup_singleton id, fun a ha b hb heq => hnew ?_⟩
    rw [List.mem_singleton] at hb
    exact hb ▸ heq ▸ ha

theorem foldl_insertNew_nodup (h : seen.Nodup) : (ids.foldl insertNew seen).Nodup := by
  induction ids generalizing seen with
  | nil => exact h
  | cons id ids ih => exact ih (insertNew_nodup h id)

theorem mem_foldl_insertNew {id : Uuid} :
    id ∈ ids.foldl insertNew seen ↔ id ∈ seen ∨ id ∈ ids := by
  induction ids generalizing seen with
  | nil => simp
  | cons first ids ih =>
    rw [List.foldl_cons, ih, insertNew, List.mem_cons]
    split
    · next hmem =>
      constructor
      · exact fun h => h.imp_right .inr
      · rintro (h | rfl | h)
        · exact .inl h
        · exact .inl hmem
        · exact .inr h
    · rw [List.mem_append, List.mem_singleton, or_assoc]

theorem mem_extractChunkCitations {text : List Char} {id : Uuid} :
    id ∈ extractChunkCitations text ↔ ∃ value, isUuidValue value = true ∧
      Uuid.parseStr value = some id ∧ ∃ left right, text = left ++ (marker value ++ right) := by
  rw [extractChunkCitations, mem_foldl_insertNew, or_iff_right List.not_mem_nil,
    List.mem_filterMap]
  constructor
  · rintro ⟨piece, hpiece, hid⟩
    cases piece with
    | letter c => cases hid
    | marked value =>
      obtain ⟨hvalue, hplace⟩ := (marked_mem_pieces_iff plainValues_isUuidValue).mp hpiece
      exact ⟨value, hvalue, hid, hplace⟩
  · rintro ⟨value, hvalue, hid, hplace⟩
    exact ⟨.marked value, (marked_mem_pieces_iff plainValues_isUuidValue).mpr ⟨hvalue, hplace⟩, hid⟩

end Insert

section Filter

variable {citations allowed : List Uuid}

theorem resolveChunkIndexCitations_nodup (digits : DigitClass) (text : List Char)
    (chunkIds : ChunkIds) : (resolveChunkIndexCitations digits text chunkIds).2.Nodup :=
  foldl_insertNew_nodup (foldl_insertNew_nodup List.nodup_nil)

/-- The citations that go out are the allowed ones, in their order. -/
theorem visible_eq_filter (h : citations.Nodup) (text : List Char) (allowed : List Uuid) :
    (filterCitationsForAllowedIds text citations allowed).2 =
      citations.filter fun id => decide (id ∈ allowed) := by
  have hfold : ∀ seen : List Uuid, (seen ++ citations).Nodup →
      citations.foldl (fun visible citation =>
        if citation ∈ allowed then insertNew visible citation else visible) seen =
          seen ++ citations.filter fun id => decide (id ∈ allowed) := by
    clear h
    induction citations with
    | nil => simp
    | cons id ids ih =>
      intro seen hseen
      have hmoved : (seen ++ [id] ++ ids).Nodup := by simpa using hseen
      have hrest : (seen ++ ids).Nodup :=
        hseen.sublist (List.Sublist.append_left (List.sublist_cons_self id ids) seen)
      rw [List.foldl_cons, List.filter_cons]
      by_cases hallowed : id ∈ allowed
      · have hnew : id ∉ seen := by
          intro hmem
          exact (List.nodup_append.mp hseen).2.2 id hmem id List.mem_cons_self rfl
        rw [if_pos hallowed, if_pos (by simpa using hallowed), insertNew, if_neg hnew,
          ih _ hmoved, List.append_assoc, List.singleton_append]
      · rw [if_neg hallowed, if_neg (by simpa using hallowed), ih _ hrest]
  exact hfold [] (by simpa using h)

/-- The citations that the reader may not see, as the bodies of their markers. -/
def deniedBodies (citations allowed : List Uuid) : List (List Char) :=
  (citations.filter fun id => decide (id ∉ allowed)).map fun id => chunkPrefix ++ id.display

theorem plain_deniedBodies :
    ∀ body ∈ deniedBodies citations allowed, Erasure.Plain opening closing body := by
  intro body hbody
  obtain ⟨id, -, rfl⟩ := List.mem_map.mp hbody
  exact plain_chunkPrefix_append (plainValues_isUuidValue _ (isUuidValue_display id))

theorem sanitized_eq_eraseAll (text : List Char) :
    (filterCitationsForAllowedIds text citations allowed).1 =
      Erasure.eraseAll opening closing (deniedBodies citations allowed) text := by
  rw [deniedBodies, filterCitationsForAllowedIds, Erasure.eraseAll]
  induction citations generalizing text with
  | nil => rfl
  | cons id ids ih =>
    by_cases hallowed : id ∈ allowed
    · simpa [hallowed] using ih text
    · have hmarker : Erasure.marker opening closing (chunkPrefix ++ id.display) =
          marker id.display := rfl
      simpa [hallowed, hmarker] using ih (Erasure.erase (marker id.display) 0 text)

/-- Where a pair of brackets of the text spells a marker of an id outside `allowed`, once the
markers of denied citations in it are removed, it is spelled as `display` spells it, and is so
already when the turn of its citation comes. -/
def Redactable (text : List Char) (citations allowed : List Uuid) : Prop :=
  ∀ left inside right value id, text = left ++ (opening :: inside ++ closing :: right) →
    Erasure.Reads opening closing (deniedBodies citations allowed)
      (deniedBodies citations allowed).length inside (chunkPrefix ++ value) →
    isUuidValue value = true → Uuid.parseStr value = some id → id ∉ allowed →
      ∃ j, (deniedBodies citations allowed)[j]? = some (chunkPrefix ++ value) ∧
        Erasure.Reads opening closing (deniedBodies citations allowed) j inside
          (chunkPrefix ++ value)

theorem marker_left_iff_reads (text : List Char) {value : List Char}
    (hvalue : isUuidValue value = true) :
    (∃ left right, (filterCitationsForAllowedIds text citations allowed).1 =
        left ++ (marker value ++ right)) ↔
      ∃ left inside right, text = left ++ (opening :: inside ++ closing :: right) ∧
        Erasure.Reads opening closing (deniedBodies citations allowed)
          (deniedBodies citations allowed).length inside (chunkPrefix ++ value) ∧
        ∀ j, (deniedBodies citations allowed)[j]? = some (chunkPrefix ++ value) →
          ¬ Erasure.Reads opening closing (deniedBodies citations allowed) j inside
            (chunkPrefix ++ value) := by
  rw [sanitized_eq_eraseAll]
  exact Erasure.marker_left_iff plain_deniedBodies (by decide)
    (plain_chunkPrefix_append (plainValues_isUuidValue value hvalue))

theorem extract_sanitized_allowed_iff (text : List Char) :
    (∀ id ∈ extractChunkCitations (filterCitationsForAllowedIds text citations allowed).1,
        id ∈ allowed) ↔ Redactable text citations allowed := by
  constructor
  · intro h left inside right value id htext hreads hvalue hid hdenied
    by_contra hturn
    have hturns : ∀ j, (deniedBodies citations allowed)[j]? = some (chunkPrefix ++ value) →
        ¬ Erasure.Reads opening closing (deniedBodies citations allowed) j inside
          (chunkPrefix ++ value) := fun j hj hread => hturn ⟨j, hj, hread⟩
    refine hdenied (h id (mem_extractChunkCitations.mpr ⟨value, hvalue, hid, ?_⟩))
    exact (marker_left_iff_reads text hvalue).mpr ⟨left, inside, right, htext, hreads, hturns⟩
  · intro h id hmem
    by_contra hdenied
    obtain ⟨value, hvalue, hid, hplace⟩ := mem_extractChunkCitations.mp hmem
    obtain ⟨left, inside, right, htext, hreads, hturns⟩ :=
      (marker_left_iff_reads text hvalue).mp hplace
    obtain ⟨j, hj, hread⟩ := h left inside right value id htext hreads hvalue hid hdenied
    exact hturns j hj hread

end Filter

/-- Removing the denied markers leaves none behind just when the text spells and nests them so that
each is found in its turn. -/
theorem redaction_complete_iff (digits : DigitClass) (text : List Char) (chunkIds : ChunkIds)
    (allowed : List Uuid) :
    let resolved := resolveChunkIndexCitations digits text chunkIds
    let sanitized := filterCitationsForAllowedIds resolved.1 resolved.2 allowed
    ((∀ id ∈ extractChunkCitations sanitized.1, id ∈ allowed) ∧
      sanitized.2 = resolved.2.filter (fun id => decide (id ∈ allowed)) ∧ sanitized.2.Nodup) ↔
    Redactable resolved.1 resolved.2 allowed := by
  intro resolved sanitized
  have hnodup : resolved.2.Nodup := resolveChunkIndexCitations_nodup digits text chunkIds
  have hvisible : sanitized.2 = resolved.2.filter fun id => decide (id ∈ allowed) :=
    visible_eq_filter hnodup resolved.1 allowed
  rw [and_iff_left ⟨hvisible, hvisible ▸ hnodup.filter _⟩]
  exact extract_sanitized_allowed_iff resolved.1

section Examples

def asciiDigits : DigitClass := ⟨Char.isDigit, fun _ _ => rfl⟩

def noChunks : ChunkIds := ⟨[], by decide⟩

/-- The marker of a chunk that no one cited by index, in capitals. -/
def capitalMarker : List Char := "[chunk:AAAAAAAA-BBBB-CCCC-DDDD-EEEEEEEEEEEE]".toList

theorem capital_marker_survives :
    ∃ text : List Char, ∃ chunkIds : ChunkIds, ∃ allowed : List Uuid,
      let resolved := resolveChunkIndexCitations asciiDigits text chunkIds
      ∃ id ∈ extractChunkCitations
          (filterCitationsForAllowedIds resolved.1 resolved.2 allowed).1, id ∉ allowed := by
  refine ⟨capitalMarker, noChunks, [], ?_⟩
  decide +kernel

end Examples

end GmragApi.Citations

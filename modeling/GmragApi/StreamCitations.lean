import GmragApi.Citations

/-! The citations that end a stream, against the text that is stored for the history. -/

namespace GmragApi.Citations

structure CitationHydrationRow where
  chunkId : Uuid
  documentId : Uuid
  documentName : List Char
  originalText : List Char
  chunkIndex : Int
  deriving DecidableEq

structure HydratedCitation where
  chunkId : Uuid
  documentId : Uuid
  documentName : List Char
  originalText : List Char
  snippet : List Char
  chunkIndex : Int
  deriving DecidableEq

structure ResolvedCitation where
  chunkId : Uuid
  documentId : Uuid
  documentName : List Char
  snippet : List Char
  chunkIndex : Int
  deriving DecidableEq

structure StreamCitation where
  index : Nat
  chunkId : Uuid
  documentId : Uuid
  documentName : List Char
  snippet : List Char
  deriving DecidableEq

def HydratedCitation.intoResolved (c : HydratedCitation) : ResolvedCitation :=
  ⟨c.chunkId, c.documentId, c.documentName, c.snippet, c.chunkIndex⟩

def ResolvedCitation.at (c : ResolvedCitation) (index : Nat) : StreamCitation :=
  ⟨index, c.chunkId, c.documentId, c.documentName, c.snippet⟩

section HashMap

variable {β : Type} (key : β → Uuid)

/-- A map from keys to values; a key that is inserted again takes the new value. -/
def insertEntry (entries : List β) (value : β) : List β :=
  entries.filter (key · != key value) ++ [value]

def collectMap (values : List β) : List β := values.foldl (insertEntry key) []

/-- Each id takes its entry out of the map; the positions of the ids are kept. -/
def removeInOrder : Nat → List Uuid → List β → List (Nat × β)
  | _, [], _ => []
  | position, id :: ids, entries =>
    match entries.find? (key · == id) with
    | some value =>
      (position, value) :: removeInOrder (position + 1) ids (entries.filter (key · != id))
    | none => removeInOrder (position + 1) ids entries

end HashMap

/-- `rows` are the chunks that the database has of the ids. -/
def hydrateCitations (rows : List CitationHydrationRow) (allowedIds : List Uuid)
    (selectSnippet : List Char → List Char) : List HydratedCitation :=
  (removeInOrder CitationHydrationRow.chunkId 0 allowedIds
    (collectMap CitationHydrationRow.chunkId rows)).map fun (_, row) =>
      ⟨row.chunkId, row.documentId, row.documentName, row.originalText,
        selectSnippet row.originalText, row.chunkIndex⟩

def buildStreamCitations (chunkIds : List Uuid) (citations : List ResolvedCitation) :
    List StreamCitation :=
  (removeInOrder ResolvedCitation.chunkId 0 chunkIds
    (collectMap ResolvedCitation.chunkId citations)).map fun (position, c) => c.at (position + 1)

section HashMap

variable {β : Type} {key : β → Uuid} {entries values : List β} {ids : List Uuid} {position : Nat}

theorem collectMap_nodup (values : List β) : ((collectMap key values).map key).Nodup := by
  have hfold : ∀ entries : List β, (entries.map key).Nodup →
      ((values.foldl (insertEntry key) entries).map key).Nodup := by
    induction values with
    | nil => exact fun _ h => h
    | cons value values ih =>
      intro entries h
      refine ih _ ?_
      rw [insertEntry, List.map_append, List.nodup_append]
      refine ⟨h.sublist (List.filter_sublist.map key), List.nodup_singleton _, ?_⟩
      intro k hk k' hk' heq
      obtain ⟨old, hold, rfl⟩ := List.mem_map.mp hk
      rw [List.map_singleton, List.mem_singleton] at hk'
      have hne := (List.mem_filter.mp hold).2
      rw [heq.trans hk'] at hne
      simp at hne
  exact hfold [] List.nodup_nil

/-- The map of values with keys of their own holds them all. -/
theorem mem_collectMap (h : (values.map key).Nodup) {value : β} :
    value ∈ collectMap key values ↔ value ∈ values := by
  have hfold : ∀ entries : List β, ((entries ++ values).map key).Nodup →
      values.foldl (insertEntry key) entries = entries ++ values := by
    induction values with
    | nil => simp
    | cons value values ih =>
      intro entries hentries
      have hkeep : entries.filter (key · != key value) = entries := by
        refine List.filter_eq_self.mpr fun old hold => ?_
        rw [List.map_append, List.map_cons] at hentries
        have hne := (List.nodup_append.mp hentries).2.2 (key old) (List.mem_map_of_mem hold)
          (key value) List.mem_cons_self
        simpa using hne
      have hcons : (entries ++ [value]) ++ values = entries ++ value :: values := by simp
      have htail : (values.map key).Nodup := (List.nodup_cons.mp h).2
      rw [List.foldl_cons, insertEntry, hkeep, ih htail _ (hcons ▸ hentries), hcons]
  rw [collectMap, hfold [] (by simpa using h), List.nil_append]

theorem mem_removeInOrder {x : Nat × β} (h : x ∈ removeInOrder key position ids entries) :
    x.2 ∈ entries ∧ position ≤ x.1 ∧ ids[x.1 - position]? = some (key x.2) := by
  induction ids generalizing position entries with
  | nil => exact absurd h List.not_mem_nil
  | cons id ids ih =>
    have hlater : ∀ entries', entries' ⊆ entries →
        x ∈ removeInOrder key (position + 1) ids entries' →
        x.2 ∈ entries ∧ position ≤ x.1 ∧ (id :: ids)[x.1 - position]? = some (key x.2) := by
      intro entries' hsub hx
      obtain ⟨hmem, hle, hid⟩ := ih hx
      have hindex : x.1 - position = x.1 - (position + 1) + 1 := by omega
      exact ⟨hsub hmem, by omega, by rw [hindex, List.getElem?_cons_succ, hid]⟩
    simp only [removeInOrder] at h
    split at h
    next value hvalue =>
      rcases List.mem_cons.mp h with rfl | h
      · have hkey : key value = id := by simpa using List.find?_some hvalue
        exact ⟨List.mem_of_find?_eq_some hvalue, le_rfl, by simp [hkey]⟩
      · exact hlater _ (List.filter_subset_self _) h
    next => exact hlater _ (List.Subset.refl _) h

theorem removeInOrder_increasing :
    ((removeInOrder key position ids entries).map Prod.fst).Pairwise (· < ·) := by
  induction ids generalizing position entries with
  | nil => exact .nil
  | cons id ids ih =>
    simp only [removeInOrder]
    split
    next value _ =>
      refine List.pairwise_cons.mpr ⟨fun i hi => ?_, ih⟩
      obtain ⟨x, hx, rfl⟩ := List.mem_map.mp hi
      exact (mem_removeInOrder hx).2.1
    next => exact ih

/-- An entry is taken out of the map once. -/
theorem removeInOrder_nodup :
    ((removeInOrder key position ids entries).map fun x => key x.2).Nodup := by
  induction ids generalizing position entries with
  | nil => exact List.nodup_nil
  | cons id ids ih =>
    simp only [removeInOrder]
    split
    next value hvalue =>
      have hkey : key value = id := by simpa using List.find?_some hvalue
      refine List.nodup_cons.mpr ⟨fun hmem => ?_, ih⟩
      obtain ⟨x, hx, heq⟩ := List.mem_map.mp hmem
      have hne := (List.mem_filter.mp (mem_removeInOrder hx).1).2
      rw [heq.trans hkey] at hne
      simp at hne
    next => exact ih

theorem exists_removeInOrder (hentries : (entries.map key).Nodup) {value : β}
    (hvalue : value ∈ entries) (hid : key value ∈ ids) :
    ∃ i, (i, value) ∈ removeInOrder key position ids entries := by
  induction ids generalizing position entries with
  | nil => exact absurd hid List.not_mem_nil
  | cons id ids ih =>
    have hfind : ∀ found, (entries.find? (key · == id)) = some found →
        found ∈ entries ∧ key found = id := fun found hfound =>
      ⟨List.mem_of_find?_eq_some hfound, by simpa using List.find?_some hfound⟩
    simp only [removeInOrder]
    by_cases hhead : key value = id
    · split
      next found hfound =>
        obtain ⟨hmem, hkey⟩ := hfind found hfound
        have heq := List.inj_on_of_nodup_map hentries hmem hvalue (hkey.trans hhead.symm)
        exact ⟨position, heq ▸ List.mem_cons_self⟩
      next hnone =>
        have hne := List.find?_eq_none.mp hnone value hvalue
        exact absurd (beq_iff_eq.mpr hhead) hne
    · have hrest : key value ∈ ids := (List.mem_cons.mp hid).resolve_left hhead
      split
      next found _ =>
        have hkept : value ∈ entries.filter (key · != id) :=
          List.mem_filter.mpr ⟨hvalue, by simpa using hhead⟩
        have hnodup : ((entries.filter (key · != id)).map key).Nodup :=
          hentries.sublist (List.filter_sublist.map key)
        exact (ih hnodup hkept hrest).imp fun _ hi => List.mem_cons_of_mem _ hi
      next => exact ih hentries hvalue hrest

/-- The values of one key, where no two values have it. -/
theorem filter_key_eq {γ : Type} {name : γ → Uuid} {rows : List γ} (h : (rows.map name).Nodup)
    {row : γ} (hrow : row ∈ rows) : rows.filter (name · == name row) = [row] := by
  induction rows with
  | nil => exact absurd hrow List.not_mem_nil
  | cons first rows ih =>
    obtain ⟨hfirst, hrest⟩ := List.nodup_cons.mp h
    rcases List.mem_cons.mp hrow with rfl | hmem
    · have hnone : rows.filter (name · == name row) = [] := by
        refine List.filter_eq_nil_iff.mpr fun other hother heq => hfirst ?_
        rw [← beq_iff_eq.mp heq]
        exact List.mem_map_of_mem hother
      rw [List.filter_cons, if_pos (beq_self_eq_true _), hnone]
    · have hne : ¬ (name first == name row) = true := by
        intro heq
        rw [beq_iff_eq.mp heq] at hfirst
        exact hfirst (List.mem_map_of_mem hmem)
      rw [List.filter_cons, if_neg hne, ih hrest hmem]

end HashMap

section Stream

variable {chunkIds : List Uuid} {citations : List ResolvedCitation} {c : StreamCitation}

theorem mem_buildStreamCitations (h : c ∈ buildStreamCitations chunkIds citations) :
    1 ≤ c.index ∧ chunkIds[c.index - 1]? = some c.chunkId := by
  obtain ⟨x, hx, rfl⟩ := List.mem_map.mp h
  obtain ⟨-, -, hid⟩ := mem_removeInOrder hx
  exact ⟨Nat.succ_le_succ (Nat.zero_le _), hid⟩

theorem buildStreamCitations_increasing (chunkIds : List Uuid) (citations : List ResolvedCitation) :
    ((buildStreamCitations chunkIds citations).map StreamCitation.index).Pairwise (· < ·) := by
  rw [buildStreamCitations, List.map_map]
  have h : ((removeInOrder ResolvedCitation.chunkId 0 chunkIds
      (collectMap ResolvedCitation.chunkId citations)).map Prod.fst).Pairwise (· < ·) :=
    removeInOrder_increasing
  exact List.pairwise_map.mpr ((List.pairwise_map.mp h).imp fun hlt => Nat.succ_lt_succ hlt)

theorem buildStreamCitations_nodup (chunkIds : List Uuid) (citations : List ResolvedCitation) :
    ((buildStreamCitations chunkIds citations).map StreamCitation.chunkId).Nodup := by
  have h : ((removeInOrder ResolvedCitation.chunkId 0 chunkIds
      (collectMap ResolvedCitation.chunkId citations)).map fun x => x.2.chunkId).Nodup :=
    removeInOrder_nodup
  rw [buildStreamCitations, List.map_map]
  exact h

theorem exists_at_mem (hnodup : (citations.map ResolvedCitation.chunkId).Nodup)
    {citation : ResolvedCitation} (h : citation ∈ citations) (hid : citation.chunkId ∈ chunkIds) :
    ∃ index, citation.at index ∈ buildStreamCitations chunkIds citations := by
  obtain ⟨i, hi⟩ : ∃ i, (i, citation) ∈ removeInOrder ResolvedCitation.chunkId 0 chunkIds
      (collectMap ResolvedCitation.chunkId citations) :=
    exists_removeInOrder (collectMap_nodup citations) ((mem_collectMap hnodup).mpr h) hid
  exact ⟨i + 1, List.mem_map_of_mem hi⟩

theorem hydrateCitations_nodup (rows : List CitationHydrationRow) (allowedIds : List Uuid)
    (selectSnippet : List Char → List Char) :
    (((hydrateCitations rows allowedIds selectSnippet).map HydratedCitation.intoResolved).map
      ResolvedCitation.chunkId).Nodup := by
  have h : ((removeInOrder CitationHydrationRow.chunkId 0 allowedIds
      (collectMap CitationHydrationRow.chunkId rows)).map fun x => x.2.chunkId).Nodup :=
    removeInOrder_nodup
  rw [hydrateCitations, List.map_map, List.map_map]
  exact h

end Stream

section Index

variable {digits : DigitClass} {chunkIds : ChunkIds}

theorem isDigit_of_mem_toDigits {i : Nat} {c : Char} (h : c ∈ Nat.toDigits 10 i) :
    c.isDigit = true := Nat.isDigit_of_mem_toDigits (by omega) le_rfl h

theorem isIndex_toDigits (digits : DigitClass) (i : Nat) :
    isIndex digits (Nat.toDigits 10 i) = true := by
  refine Bool.and_eq_true_iff.mpr ⟨?_, List.all_eq_true.mpr fun c hc => ?_⟩
  · simp
  · have hdigit := isDigit_of_mem_toDigits hc
    have hascii : c.toNat < 128 := by
      simp only [Char.isDigit, Bool.and_eq_true, decide_eq_true_eq] at hdigit
      have hle : c.toNat ≤ 57 := hdigit.2
      omega
    rw [digits.ascii c hascii, hdigit]

theorem parseUsize_toDigits {i : Nat} (h : i < usizeLimit) :
    parseUsize (Nat.toDigits 10 i) = some i := by
  have hdigits : (!(Nat.toDigits 10 i).isEmpty && (Nat.toDigits 10 i).all Char.isDigit) = true := by
    refine Bool.and_eq_true_iff.mpr ⟨?_, List.all_eq_true.mpr fun c hc => ?_⟩
    · simp
    · exact isDigit_of_mem_toDigits hc
  have hvalue : Nat.ofDigitChars 10 (Nat.toDigits 10 i) 0 = i :=
    Nat.ofDigitChars_toDigits (by omega) le_rfl
  rw [parseUsize, if_pos hdigits, hvalue, if_pos h]

/-- The marker of an index becomes that of its chunk, and the text around it is resolved on its
own. -/
theorem resolve_index_marker {i : Nat} {id : Uuid} (hi : 1 ≤ i)
    (hid : chunkIds.ids[i - 1]? = some id) (before after : List Char) :
    (resolveChunkIndexCitations digits (before ++ (marker (Nat.toDigits 10 i) ++ after))
        chunkIds).1 =
      (resolveChunkIndexCitations digits before chunkIds).1 ++
        (marker id.display ++ (resolveChunkIndexCitations digits after chunkIds).1) := by
  have hlength : i - 1 < chunkIds.ids.length := (List.getElem?_eq_some_iff.mp hid).1
  have hlimit := chunkIds.length_lt
  have hchunk : chunkOfIndex chunkIds (Nat.toDigits 10 i) = some id := by
    rw [chunkOfIndex, parseUsize_toDigits (by omega), Option.bind_some, if_neg (by omega), hid]
  have hmarker := pieces_marker (plainValues_isIndex digits) (isIndex_toDigits digits i) after
  have hpieces : pieces (isIndex digits) 0 (before ++ (marker (Nat.toDigits 10 i) ++ after)) =
      pieces (isIndex digits) 0 before ++
        .marked (Nat.toDigits 10 i) :: pieces (isIndex digits) 0 after := by
    rw [← hmarker]
    exact pieces_append_opening (plainValues_isIndex digits) before _ (Nat.zero_le _)
  simp only [resolveChunkIndexCitations, hpieces, List.flatMap_append, List.flatMap_cons,
    Piece.resolve, hchunk]

end Index

/-- The indexes that a stream announces are those that the stored text is resolved with. -/
theorem streamCitations_agree (digits : DigitClass) (chunkIds : ChunkIds)
    (rows : List CitationHydrationRow) (allowedIds : List Uuid)
    (selectSnippet : List Char → List Char) :
    let hydrated := (hydrateCitations rows allowedIds selectSnippet).map
      HydratedCitation.intoResolved
    let stream := buildStreamCitations chunkIds.ids hydrated
    (∀ c ∈ stream, ∀ before after,
      (resolveChunkIndexCitations digits (before ++ (marker (Nat.toDigits 10 c.index) ++ after))
          chunkIds).1 =
        (resolveChunkIndexCitations digits before chunkIds).1 ++
          (marker c.chunkId.display ++ (resolveChunkIndexCitations digits after chunkIds).1)) ∧
    (stream.map StreamCitation.index).Pairwise (· < ·) ∧
    (∀ c ∈ stream, 1 ≤ c.index ∧ c.index ≤ chunkIds.ids.length) ∧
    ∀ citation ∈ hydrated, citation.chunkId ∈ chunkIds.ids →
      ∃ index, stream.filter (·.chunkId == citation.chunkId) = [citation.at index] := by
  intro hydrated stream
  refine ⟨fun c hc before after => ?_, buildStreamCitations_increasing _ _, fun c hc => ?_,
    fun citation hcitation hid => ?_⟩
  · obtain ⟨hi, hid⟩ := mem_buildStreamCitations hc
    exact resolve_index_marker hi hid before after
  · obtain ⟨hi, hid⟩ := mem_buildStreamCitations hc
    have hlt := (List.getElem?_eq_some_iff.mp hid).1
    omega
  · have hkeys : (hydrated.map ResolvedCitation.chunkId).Nodup := hydrateCitations_nodup _ _ _
    obtain ⟨index, hindex⟩ := exists_at_mem hkeys hcitation hid
    exact ⟨index, filter_key_eq (buildStreamCitations_nodup _ _) hindex⟩

end GmragApi.Citations

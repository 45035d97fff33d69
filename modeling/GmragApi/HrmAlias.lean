import GmragApi.HrmScope
import GmragApi.Words

/-! The alias rewrite changes no verdict of the scope guard, and leaves no alias behind. -/

namespace GmragApi.Hrm

/-- The path that the handlers see when every rewritten path is a valid URI. -/
def aliasedPath (text : UuidText) (config : HrmConfig) (path : List Char) : List Char :=
  (resolveWorkspaceAliasPath text path config).getD path

/-- The segment at `i` is the alias, directly after `workspaces`. -/
def AliasAt (segments : List (List Char)) (i : Nat) : Prop :=
  segments[i]? = some hrmWorkspaceAlias ∧
    ∃ k, i = k + 1 ∧ segments[k]? = some workspacesSegment

theorem not_mem_splitOn {sep : Char} {path segment : List Char}
    (h : segment ∈ path.splitOn sep) : sep ∉ segment := by
  intro hmem
  have hnot : (sep == sep) = false := Words.not_sep_of_mem_splitOnP h sep hmem
  simp at hnot

section Display

variable (text : UuidText) (id : Uuid)

theorem display_length_ge : 32 ≤ (text.display id).length :=
  text.parse_long _ _ (text.parse_display id)

theorem display_no_slash : '/' ∉ text.display id :=
  (text.parse_plain _ _ (text.parse_display id)).2

/-- No fixed segment is as long as an id. -/
theorem display_ne_of_short {segment : List Char} (h : segment.length < 32) :
    text.display id ≠ segment := by
  rintro rfl
  have := display_length_ge text id
  omega

theorem display_ne_workspaces : text.display id ≠ workspacesSegment :=
  display_ne_of_short text id (by decide)

theorem display_ne_tenants : text.display id ≠ tenantsSegment :=
  display_ne_of_short text id (by decide)

theorem display_ne_alias : text.display id ≠ hrmWorkspaceAlias :=
  display_ne_of_short text id (by decide)

theorem display_ne_nil : text.display id ≠ [] :=
  display_ne_of_short text id (by decide)

theorem parseStr_alias : text.parseStr hrmWorkspaceAlias = none := by
  cases h : text.parseStr hrmWorkspaceAlias with
  | none => rfl
  | some u =>
    have hlong := text.parse_long _ _ h
    exact absurd hlong (by decide)

end Display

section Replaced

variable {text : UuidText} {config : HrmConfig} {previous : List Char}
  {rest : List (List Char)}

theorem replaceAliases_length (id : List Char) :
    (replaceAliases id previous rest).1.length = rest.length := by
  induction rest generalizing previous with
  | nil => rfl
  | cons s rest ih =>
    rw [replaceAliases]
    split
    · simp [ih]
    · simp [ih]

theorem replaceAliases_no_slash (hrest : ∀ s ∈ rest, '/' ∉ s) :
    ∀ s ∈ (replaceAliases (text.display config.workspaceId) previous rest).1, '/' ∉ s := by
  induction rest generalizing previous with
  | nil => simp [replaceAliases]
  | cons s rest ih =>
    have htail := fun t ht => hrest t (List.mem_cons_of_mem s ht)
    intro t ht
    rw [replaceAliases] at ht
    split at ht
    · rcases List.mem_cons.mp ht with rfl | ht
      · exact display_no_slash text config.workspaceId
      · exact ih htail t ht
    · rcases List.mem_cons.mp ht with rfl | ht
      · exact hrest t (List.mem_cons_self ..)
      · exact ih htail t ht

/-- Nothing is rewritten when the rewrite reports that it found no alias. -/
theorem replaceAliases_unresolved {id : List Char}
    (h : (replaceAliases id previous rest).2 = false) :
    (replaceAliases id previous rest).1 = rest := by
  induction rest generalizing previous with
  | nil => rfl
  | cons s rest ih =>
    rw [replaceAliases] at h ⊢
    split at h
    next => cases h
    next hno =>
      rw [if_neg hno]
      exact congrArg (s :: ·) (ih h)

/-- The rewritten segment can start no alias: the loop, which reads what it has written, takes the
same decisions as one over the original segments. -/
theorem replaceAliases_getElem (previous' : List Char)
    (hprev : previous = workspacesSegment ↔ previous' = workspacesSegment) (i : Nat) :
    (AliasAt (previous' :: rest) (i + 1) →
      (replaceAliases (text.display config.workspaceId) previous rest).1[i]? =
        some (text.display config.workspaceId)) ∧
    (¬ AliasAt (previous' :: rest) (i + 1) →
      (replaceAliases (text.display config.workspaceId) previous rest).1[i]? = rest[i]?) := by
  induction rest generalizing previous previous' i with
  | nil => simp [AliasAt, replaceAliases]
  | cons s rest ih =>
    have hzero : AliasAt (previous' :: s :: rest) 1 ↔
        previous = workspacesSegment ∧ s = hrmWorkspaceAlias := by
      simp [AliasAt, hprev, and_comm]
    have hsucc : ∀ j, AliasAt (previous' :: s :: rest) (j + 1 + 1) ↔
        AliasAt (s :: rest) (j + 1) := by
      simp [AliasAt]
    cases i with
    | zero =>
      rw [hzero, replaceAliases]
      split
      next hyes => simp [hyes]
      next hno => simp [hno]
    | succ j =>
      rw [hsucc, replaceAliases]
      split
      next hyes =>
        have hwritten := display_ne_workspaces text config.workspaceId
        have halias : s ≠ workspacesSegment := by
          rw [hyes.2]
          decide
        exact ih s (by simp [hwritten, halias]) j
      next hno => exact ih s Iff.rfl j

theorem replaceAliases_idempotent :
    (replaceAliases (text.display config.workspaceId) previous
      (replaceAliases (text.display config.workspaceId) previous rest).1).2 = false := by
  induction rest generalizing previous with
  | nil => rfl
  | cons s rest ih =>
    rw [replaceAliases]
    split
    next hyes =>
      have hwritten := display_ne_alias text config.workspaceId
      rw [replaceAliases, if_neg fun h => hwritten h.2]
      exact ih
    next hno =>
      rw [replaceAliases, if_neg hno]
      exact ih

end Replaced

section Guard

variable {text : UuidText} {config : HrmConfig}

/-- The guard treats the two segments alike. -/
structure SameGuard (a b : List Char) : Prop where
  tenants : a = tenantsSegment ↔ b = tenantsSegment
  workspaces : a = workspacesSegment ↔ b = workspacesSegment

theorem SameGuard.refl (a : List Char) : SameGuard a a := ⟨Iff.rfl, Iff.rfl⟩

theorem sameGuard_display_alias (text : UuidText) (id : Uuid) :
    SameGuard (text.display id) hrmWorkspaceAlias := by
  constructor
  · exact iff_of_false (display_ne_tenants text id) (by decide)
  · exact iff_of_false (display_ne_workspaces text id) (by decide)

theorem filter_cons_nonempty {s : List Char} (hs : s ≠ []) (segments : List (List Char)) :
    (s :: segments).filter (!·.isEmpty) = s :: segments.filter (!·.isEmpty) := by
  simp [hs]

/-- The pair that the rewrite makes of an alias passes the guard, as the alias itself does. -/
theorem ensurePairs_aliased (tail tail' : List (List Char × List Char)) :
    ensurePairs text config ((workspacesSegment, text.display config.workspaceId) :: tail) =
      ensurePairs text config tail ∧
    ensurePairs text config ((workspacesSegment, hrmWorkspaceAlias) :: tail') =
      ensurePairs text config tail' := by
  have htenants : workspacesSegment ≠ tenantsSegment := by decide
  constructor
  · simp [ensurePairs, text.parse_display, htenants]
  · simp [ensurePairs, parseStr_alias]

theorem ensurePairs_congr {a b s : List Char} {tail tail' : List (List Char × List Char)}
    (hguard : SameGuard a b) (htail : ensurePairs text config tail = ensurePairs text config tail') :
    ensurePairs text config ((a, s) :: tail) = ensurePairs text config ((b, s) :: tail') := by
  rw [ensurePairs, ensurePairs, htail]
  simp only [hguard.tenants, hguard.workspaces]

/-- `a` and `b` are the last nonempty segments before `rest`, after and before the rewrite;
`previous` is the raw segment that the loop has just left. -/
theorem ensurePairs_replaceAliases {a b previous : List Char} (rest : List (List Char))
    (hguard : SameGuard a b) (hprev : previous = workspacesSegment → b = workspacesSegment) :
    ensurePairs text config (windows (a ::
        (replaceAliases (text.display config.workspaceId) previous rest).1.filter (!·.isEmpty))) =
      ensurePairs text config (windows (b :: rest.filter (!·.isEmpty))) := by
  induction rest generalizing a b previous with
  | nil => rfl
  | cons s rest ih =>
    rw [replaceAliases]
    split
    next hyes =>
      obtain ⟨hp, rfl⟩ := hyes
      have hb := hprev hp
      have ha := hguard.workspaces.mpr hb
      have hnext := ih (sameGuard_display_alias text config.workspaceId)
        fun h => absurd h (display_ne_workspaces text config.workspaceId)
      rw [filter_cons_nonempty (display_ne_nil text config.workspaceId),
        filter_cons_nonempty (show hrmWorkspaceAlias ≠ [] by decide), windows, windows, ha, hb,
        (ensurePairs_aliased _ []).1, (ensurePairs_aliased [] _).2]
      exact hnext
    next hno =>
      by_cases hs : s = []
      · subst hs
        have hempty : ([] : List Char) ≠ workspacesSegment := by decide
        simpa using ih hguard fun h => absurd h hempty
      · rw [filter_cons_nonempty hs, filter_cons_nonempty hs, windows, windows]
        exact ensurePairs_congr hguard (ih (SameGuard.refl s) fun h => h)

/-- A first segment that the guard does not know may be put before the others. -/
theorem ensurePairs_windows_nil (segments : List (List Char)) :
    ensurePairs text config (windows ([] :: segments)) =
      ensurePairs text config (windows segments) := by
  cases segments with
  | nil => rfl
  | cons s segments =>
    have htenants : ([] : List Char) ≠ tenantsSegment := by decide
    have hworkspaces : ([] : List Char) ≠ workspacesSegment := by decide
    rw [windows, ensurePairs]
    cases text.parseStr s with
    | none => rfl
    | some candidate => simp [htenants, hworkspaces]

theorem ensureScope_eq_of_splitOn {path first : List Char} {rest : List (List Char)}
    (h : path.splitOn '/' = first :: rest) :
    ensureScope text path config =
      ensurePairs text config (windows ((first :: rest).filter (!·.isEmpty))) := by
  rw [ensureScope, h]

theorem ensurePairs_first_segment (first : List Char) (rest : List (List Char)) :
    ensurePairs text config (windows ((first ::
        (replaceAliases (text.display config.workspaceId) first rest).1).filter (!·.isEmpty))) =
      ensurePairs text config (windows ((first :: rest).filter (!·.isEmpty))) := by
  have hrun := @ensurePairs_replaceAliases text config first first first rest
    (SameGuard.refl first) fun h => h
  by_cases hfirst : first = []
  · subst hfirst
    rw [ensurePairs_windows_nil, ensurePairs_windows_nil] at hrun
    simpa using hrun
  · rw [filter_cons_nonempty hfirst, filter_cons_nonempty hfirst]
    exact hrun

end Guard

/-- The path is rewritten segment by segment. -/
theorem aliasedPath_splitOn (text : UuidText) (config : HrmConfig) {path first : List Char}
    {rest : List (List Char)} (h : path.splitOn '/' = first :: rest) :
    (aliasedPath text config path).splitOn '/' =
      first :: (replaceAliases (text.display config.workspaceId) first rest).1 := by
  have hsegments : ∀ s ∈ first :: rest, '/' ∉ s := fun s hs => not_mem_splitOn (h ▸ hs)
  unfold aliasedPath resolveWorkspaceAliasPath
  simp only [h]
  cases hres : (replaceAliases (text.display config.workspaceId) first rest).2 with
  | false => simp [h, replaceAliases_unresolved hres]
  | true =>
    simp only [if_true, Option.getD_some, joinSegments]
    refine List.splitOn_intercalate '/' ?_ (List.cons_ne_nil _ _)
    intro s hs
    rcases List.mem_cons.mp hs with rfl | hs
    · exact hsegments s (List.mem_cons_self ..)
    · exact replaceAliases_no_slash (fun t ht => hsegments t (List.mem_cons_of_mem _ ht)) s hs

/-- For every path: the guard gives the same verdict before and after the rewrite, the rewrite
puts the workspace id in place of each alias and leaves every other segment, and no alias is
left. -/
theorem aliasedPath_transparent (text : UuidText) (config : HrmConfig) (path : List Char) :
    ensureScope text (aliasedPath text config path) config = ensureScope text path config ∧
    ((aliasedPath text config path).splitOn '/').length = (path.splitOn '/').length ∧
    (∀ i, AliasAt (path.splitOn '/') i →
      ((aliasedPath text config path).splitOn '/')[i]? =
        some (text.display config.workspaceId)) ∧
    (∀ i, ¬ AliasAt (path.splitOn '/') i →
      ((aliasedPath text config path).splitOn '/')[i]? = (path.splitOn '/')[i]?) ∧
    resolveWorkspaceAliasPath text (aliasedPath text config path) config = none := by
  obtain ⟨first, rest, h⟩ := List.exists_cons_of_ne_nil (List.splitOn_ne_nil '/' path)
  have hsplit := aliasedPath_splitOn text config h
  have hzero : ¬ AliasAt (first :: rest) 0 := by
    rintro ⟨-, k, hk, -⟩
    omega
  refine ⟨?_, ?_, ?_, ?_, ?_⟩
  · rw [ensureScope_eq_of_splitOn hsplit, ensureScope_eq_of_splitOn h]
    exact ensurePairs_first_segment first rest
  · rw [hsplit, h]
    simp [replaceAliases_length]
  · intro i hi
    rw [h] at hi
    rw [hsplit]
    cases i with
    | zero => exact absurd hi hzero
    | succ i => exact (replaceAliases_getElem first Iff.rfl i).1 hi
  · intro i hi
    rw [h] at hi ⊢
    rw [hsplit]
    cases i with
    | zero => rfl
    | succ i => exact (replaceAliases_getElem first Iff.rfl i).2 hi
  · rw [resolveWorkspaceAliasPath, hsplit]
    simp [replaceAliases_idempotent]

end GmragApi.Hrm

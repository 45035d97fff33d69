import GmragApi.Uuid
import Mathlib.Data.List.Basic

/-! HRM mode: the workspace alias, the scope guard over the raw path, and the ids that the router
extracts from the same path. -/

namespace GmragApi.Hrm

structure HrmConfig where
  tenantId : Uuid
  workspaceId : Uuid
  deriving DecidableEq

def workspacesSegment : List Char := "workspaces".toList
def tenantsSegment : List Char := "tenants".toList
def hrmWorkspaceAlias : List Char := "hrm".toList

def joinSegments (segments : List (List Char)) : List Char := ['/'].intercalate segments

/-- Rewrites each alias that stands right after `workspaces`, and tells whether there was one. -/
def replaceAliases (workspaceId previous : List Char) :
    List (List Char) → List (List Char) × Bool
  | [] => ([], false)
  | s :: rest =>
    if previous = workspacesSegment ∧ s = hrmWorkspaceAlias then
      (workspaceId :: (replaceAliases workspaceId workspaceId rest).1, true)
    else (s :: (replaceAliases workspaceId s rest).1, (replaceAliases workspaceId s rest).2)

def resolveWorkspaceAliasPath (text : UuidText) (path : List Char) (config : HrmConfig) :
    Option (List Char) :=
  match path.splitOn '/' with
  | [] => none
  | first :: rest =>
    let (rewritten, resolved) := replaceAliases (text.display config.workspaceId) first rest
    if resolved then some (joinSegments (first :: rewritten)) else none

/-- The middleware keeps the original path when the rewritten one is no valid URI. -/
def resolveHrmWorkspaceAlias (text : UuidText) (validUri : List Char → Bool) (config : HrmConfig)
    (path : List Char) : List Char :=
  match resolveWorkspaceAliasPath text path config with
  | some rewritten => if validUri rewritten then rewritten else path
  | none => path

inductive HrmScopeError
  | tenant (candidate : Uuid)
  | workspace (candidate : Uuid)
  deriving DecidableEq

/-- `slice::windows(2)`. -/
def windows {α : Type} : List α → List (α × α)
  | a :: b :: rest => (a, b) :: windows (b :: rest)
  | _ => []

def ensurePairs (text : UuidText) (config : HrmConfig) :
    List (List Char × List Char) → Except HrmScopeError Unit
  | [] => .ok ()
  | (a, b) :: rest =>
    match text.parseStr b with
    | none => ensurePairs text config rest
    | some candidate =>
      if a = tenantsSegment ∧ candidate ≠ config.tenantId then .error (.tenant candidate)
      else if a = workspacesSegment ∧ candidate ≠ config.workspaceId then
        .error (.workspace candidate)
      else ensurePairs text config rest

def ensureScope (text : UuidText) (path : List Char) (config : HrmConfig) :
    Except HrmScopeError Unit :=
  ensurePairs text config (windows ((path.splitOn '/').filter fun s => !s.isEmpty))

inductive PathSegment
  | literal (text : List Char)
  | param (name : List Char)
  deriving DecidableEq

def lit (text : String) : PathSegment := .literal text.toList
def par (name : String) : PathSegment := .param name.toList

/-- The routes of `routed_app`, but for those of the API documentation. -/
def routes : List (List PathSegment) :=
  let workspace := [lit "workspaces", par "workspace_id"]
  let document := workspace ++ [lit "documents", par "document_id"]
  [[lit "health"], [lit "ready"], [lit "metrics"], [lit "users", lit "me"], [lit "users", lit "sync"],
    [lit "me", lit "tenants"], [lit "tenants"],
    [lit "tenants", par "tenant_id", lit "owners"],
    [lit "tenants", par "tenant_id", lit "workspaces"],
    [lit "workspaces"], workspace,
    workspace ++ [lit "documents"],
    workspace ++ [lit "documents", lit "upload"],
    document,
    document ++ [lit "retry"],
    document ++ [lit "access-mode"],
    document ++ [lit "shares", par "user_id"],
    document ++ [lit "shares"],
    document ++ [lit "permissions"],
    document ++ [lit "preview"],
    document ++ [lit "file"],
    workspace ++ [lit "chunks", par "chunk_id"],
    workspace ++ [lit "citations", lit "resolve"],
    workspace ++ [lit "chat"],
    workspace ++ [lit "chat", lit "history"],
    workspace ++ [lit "chat", lit "sessions"],
    workspace ++ [lit "chat", lit "sessions", par "session_id", lit "messages"],
    workspace ++ [lit "chat", lit "sessions", par "session_id"],
    workspace ++ [lit "graph"],
    workspace ++ [lit "members"],
    workspace ++ [lit "members", par "member_id"]]

def PathSegment.accepts : PathSegment → List Char → Bool
  | literal t, s => s == t
  | param _, s => !s.isEmpty

/-- The raw segments that a matching route captures, by parameter name. -/
def matchRoute : List PathSegment → List (List Char) → Option (List (List Char × List Char))
  | [], [] => some []
  | p :: ps, s :: ss =>
    if p.accepts s then
      (matchRoute ps ss).map fun captures =>
        match p with
        | .literal _ => captures
        | .param name => (name, s) :: captures
    else none
  | _, _ => none

def routeCaptures (route : List PathSegment) (path : List Char) :
    Option (List (List Char × List Char)) :=
  match path.splitOn '/' with
  | [] :: segments => matchRoute route segments
  | _ => none

/-- What the router's path extractor is relied on for. -/
structure PercentDecoding where
  decode : List Char → Option (List Char)
  decode_plain : ∀ s, '%' ∉ s → decode s = some s

def workspaceIdParam : List Char := "workspace_id".toList
def tenantIdParam : List Char := "tenant_id".toList

/-- The id that the handler receives for a captured segment. -/
def extractId (text : UuidText) (percent : PercentDecoding) (raw : List Char) : Option Uuid :=
  (percent.decode raw).bind text.parseStr

/-- `raw` is captured as `name` from `path` by some route. -/
def Captured (path name raw : List Char) : Prop :=
  ∃ route ∈ routes, ∃ captures, routeCaptures route path = some captures ∧ (name, raw) ∈ captures

/-- The ids that the router extracts from an accepted path are the configured ones. -/
def ScopeHolds (text : UuidText) (percent : PercentDecoding) (config : HrmConfig)
    (path : List Char) : Prop :=
  ensureScope text path config = .ok () →
    (∀ raw id, Captured path workspaceIdParam raw → extractId text percent raw = some id →
      id = config.workspaceId) ∧
    ∀ raw id, Captured path tenantIdParam raw → extractId text percent raw = some id →
      id = config.tenantId

/-- No captured id is spelled with percent escapes that decode to a foreign id. -/
def NoEscapedForeignId (text : UuidText) (percent : PercentDecoding) (config : HrmConfig)
    (path : List Char) : Prop :=
  (∀ raw id, Captured path workspaceIdParam raw → '%' ∈ raw →
    extractId text percent raw = some id → id = config.workspaceId) ∧
  ∀ raw id, Captured path tenantIdParam raw → '%' ∈ raw →
    extractId text percent raw = some id → id = config.tenantId

theorem mem_windows_iff {α : Type} {l : List α} {a b : α} :
    (a, b) ∈ windows l ↔ ∃ i : Nat, l[i]? = some a ∧ l[i + 1]? = some b := by
  induction l with
  | nil => simp [windows]
  | cons x l ih =>
    cases l with
    | nil =>
      simp only [windows, List.not_mem_nil, false_iff, not_exists, not_and]
      intro i _ hb
      simp at hb
    | cons y l =>
      simp only [windows, List.mem_cons, Prod.mk.injEq, ih]
      constructor
      · rintro (⟨rfl, rfl⟩ | ⟨i, ha, hb⟩)
        · exact ⟨0, rfl, rfl⟩
        · exact ⟨i + 1, ha, hb⟩
      · rintro ⟨i, ha, hb⟩
        cases i with
        | zero => exact .inl ⟨(Option.some.inj ha).symm, (Option.some.inj hb).symm⟩
        | succ i => exact .inr ⟨i, ha, hb⟩

theorem ensurePairs_ok_iff {text : UuidText} {config : HrmConfig}
    {pairs : List (List Char × List Char)} :
    ensurePairs text config pairs = .ok () ↔ ∀ a b id, (a, b) ∈ pairs → text.parseStr b = some id →
      (a = tenantsSegment → id = config.tenantId) ∧
        (a = workspacesSegment → id = config.workspaceId) := by
  induction pairs with
  | nil => simp [ensurePairs]
  | cons p rest ih =>
    obtain ⟨a, b⟩ := p
    rw [ensurePairs]
    cases hb : text.parseStr b with
    | none =>
      rw [ih]
      constructor
      · intro h x y id hmem hy
        rcases List.mem_cons.mp hmem with heq | hmem
        · cases heq
          rw [hb] at hy
          cases hy
        · exact h x y id hmem hy
      · intro h x y id hmem
        exact h x y id (List.mem_cons_of_mem _ hmem)
    | some candidate =>
      simp only
      constructor
      · intro h
        split at h
        next => cases h
        next htenant =>
          split at h
          next => cases h
          next hworkspace =>
            intro x y id hmem hy
            rcases List.mem_cons.mp hmem with heq | hmem
            · cases heq
              cases Option.some.inj (hb.symm.trans hy)
              exact ⟨fun ha => by_contra fun hn => htenant ⟨ha, hn⟩,
                fun ha => by_contra fun hn => hworkspace ⟨ha, hn⟩⟩
            · exact ih.mp h x y id hmem hy
      · intro h
        have hhead := h a b candidate (List.mem_cons_self ..) hb
        rw [if_neg fun hn => hn.2 (hhead.1 hn.1), if_neg fun hn => hn.2 (hhead.2 hn.1)]
        exact ih.mpr fun x y id hmem => h x y id (List.mem_cons_of_mem _ hmem)

/-- A match compares the path with the route position by position. -/
structure Matches (route : List PathSegment) (segments : List (List Char))
    (captures : List (List Char × List Char)) : Prop where
  length : segments.length = route.length
  accepts : ∀ (i : Nat) (p : PathSegment) (s : List Char), route[i]? = some p →
    segments[i]? = some s → p.accepts s = true
  captured : ∀ (name s : List Char), (name, s) ∈ captures ↔
    ∃ i : Nat, route[i]? = some (.param name) ∧ segments[i]? = some s

theorem matchRoute_matches {route : List PathSegment} {segments : List (List Char)}
    {captures : List (List Char × List Char)} (h : matchRoute route segments = some captures) :
    Matches route segments captures := by
  induction route generalizing segments captures with
  | nil =>
    cases segments with
    | nil =>
      cases Option.some.inj h
      exact ⟨rfl, by simp, by simp⟩
    | cons s ss => cases h
  | cons p ps ih =>
    cases segments with
    | nil => cases h
    | cons s ss =>
      rw [matchRoute] at h
      obtain ⟨hp, h⟩ := Option.ite_none_right_eq_some.mp h
      obtain ⟨rest, hrest, hcap⟩ := Option.map_eq_some_iff.mp h
      have hm := ih hrest
      refine ⟨by simp [hm.length], ?_, ?_⟩
      · intro i q t hq ht
        cases i with
        | zero =>
          cases Option.some.inj hq
          cases Option.some.inj ht
          exact hp
        | succ i => exact hm.accepts i q t hq ht
      · intro name t
        have hsplit : (∃ i : Nat, (p :: ps)[i]? = some (.param name) ∧ (s :: ss)[i]? = some t) ↔
            (p = .param name ∧ s = t) ∨ (name, t) ∈ rest := by
          rw [hm.captured]
          constructor
          · rintro ⟨i, hq, ht⟩
            cases i with
            | zero => exact .inl ⟨Option.some.inj hq, Option.some.inj ht⟩
            | succ i => exact .inr ⟨i, hq, ht⟩
          · rintro (⟨rfl, rfl⟩ | ⟨i, hq, ht⟩)
            · exact ⟨0, rfl, rfl⟩
            · exact ⟨i + 1, hq, ht⟩
        rw [hsplit, ← hcap]
        cases p with
        | literal t => simp
        | param n => simp [eq_comm]

/-- What the guard needs of the route table at position `i`: ids follow their own literal at the
front of the path, parameters follow literals, and no literal is long enough to be an id. -/
def positionOk (route : List PathSegment) (i : Nat) : Bool :=
  match i, route[i]? with
  | 0, some (.param _) => false
  | i + 1, some (.param name) =>
    match route[i]? with
    | some (.literal t) =>
      decide (t = workspacesSegment ↔ name = workspaceIdParam) &&
        decide (t = tenantsSegment ↔ name = tenantIdParam) &&
        (i == 0 || (name != workspaceIdParam && name != tenantIdParam))
    | _ => false
  | _, some (.literal t) => decide (t ≠ [] ∧ t.length < 32)
  | _, none => true

theorem routes_positionOk : ∀ route ∈ routes, ∀ i < route.length, positionOk route i = true := by
  decide

section Routed

variable {text : UuidText} {percent : PercentDecoding} {config : HrmConfig} {path : List Char}
  {route : List PathSegment} {segments : List (List Char)}
  {captures : List (List Char × List Char)}

theorem literal_at (hr : route ∈ routes) {i : Nat} {t : List Char}
    (h : route[i]? = some (.literal t)) : t ≠ [] ∧ t.length < 32 := by
  have hlt := (List.getElem?_eq_some_iff.mp h).1
  have hok := routes_positionOk route hr i hlt
  cases i with
  | zero => simpa [positionOk, h] using hok
  | succ i => simpa [positionOk, h] using hok

theorem param_at (hr : route ∈ routes) {i : Nat} {name : List Char}
    (h : route[i]? = some (.param name)) :
    ∃ k t, i = k + 1 ∧ route[k]? = some (.literal t) ∧
      (t = workspacesSegment ↔ name = workspaceIdParam) ∧
      (t = tenantsSegment ↔ name = tenantIdParam) ∧
      (name = workspaceIdParam ∨ name = tenantIdParam → k = 0) := by
  have hlt := (List.getElem?_eq_some_iff.mp h).1
  have hok := routes_positionOk route hr i hlt
  cases i with
  | zero => simp [positionOk, h] at hok
  | succ k =>
    cases hk : route[k]? with
    | none => simp [positionOk, h, hk] at hok
    | some p =>
      cases p with
      | param n => simp [positionOk, h, hk] at hok
      | literal t =>
        simp only [positionOk, h, hk, Bool.and_eq_true, decide_eq_true_eq, Bool.or_eq_true,
          beq_iff_eq, bne_iff_ne, ne_eq] at hok
        refine ⟨k, t, rfl, hk, hok.1.1, hok.1.2, ?_⟩
        intro hname
        rcases hok.2 with h0 | ⟨hw, ht⟩
        · exact h0
        · exact absurd hname (by simp [hw, ht])

/-- The segments of a routed path are its pieces, none of them empty. -/
theorem routeCaptures_matches (hr : route ∈ routes)
    (h : routeCaptures route path = some captures) :
    ∃ segments, Matches route segments captures ∧
      (path.splitOn '/').filter (fun s => !s.isEmpty) = segments := by
  unfold routeCaptures at h
  split at h
  next segments hsplit =>
    have hm := matchRoute_matches h
    refine ⟨segments, hm, ?_⟩
    rw [hsplit, List.filter_cons_of_neg (by simp), List.filter_eq_self]
    intro s hs
    obtain ⟨i, hi⟩ := List.mem_iff_getElem?.mp hs
    have hlt : i < route.length := by
      rw [← hm.length]
      exact (List.getElem?_eq_some_iff.mp hi).1
    have hacc := hm.accepts i _ s (List.getElem?_eq_getElem hlt) hi
    cases hp : route[i] with
    | param name =>
      rw [hp] at hacc
      exact hacc
    | literal t =>
      rw [hp] at hacc
      have ht := (literal_at hr (List.getElem?_eq_some_iff.mpr ⟨hlt, hp⟩)).1
      simp only [PathSegment.accepts, beq_iff_eq] at hacc
      subst hacc
      simpa using ht
  next => cases h

/-- On a routed path the guard looks at the captured ids only: an id spelled with an escape
passes it. -/
theorem ensureScope_of_escaped (hr : route ∈ routes)
    (h : routeCaptures route path = some captures) {name raw : List Char}
    (hname : name = workspaceIdParam ∨ name = tenantIdParam) (hc : (name, raw) ∈ captures)
    (hesc : '%' ∈ raw) : ensureScope text path config = .ok () := by
  obtain ⟨segments, hm, hfilter⟩ := routeCaptures_matches hr h
  rw [ensureScope, hfilter, ensurePairs_ok_iff]
  intro a b id hab hid
  obtain ⟨i, ha, hb⟩ := mem_windows_iff.mp hab
  obtain ⟨j, hj, hraw⟩ := (hm.captured name raw).mp hc
  have hilt : i + 1 < route.length := by
    rw [← hm.length]
    exact (List.getElem?_eq_some_iff.mp hb).1
  have hbacc := hm.accepts (i + 1) _ b (List.getElem?_eq_getElem hilt) hb
  have hforeign : ¬ (a = tenantsSegment ∨ a = workspacesSegment) := by
    intro hseg
    cases hq : route[i + 1] with
    | literal t =>
      have ht := (literal_at hr (List.getElem?_eq_some_iff.mpr ⟨hilt, hq⟩)).2
      rw [hq] at hbacc
      simp only [PathSegment.accepts, beq_iff_eq] at hbacc
      have := text.parse_long b id hid
      rw [hbacc] at this
      omega
    | param n =>
      obtain ⟨k, t, hk, hlit, hws, htn, hfront⟩ :=
        param_at hr (List.getElem?_eq_some_iff.mpr ⟨hilt, hq⟩)
      obtain rfl : k = i := by omega
      have hta := hm.accepts k _ a hlit ha
      simp only [PathSegment.accepts, beq_iff_eq] at hta
      subst hta
      have hn : n = workspaceIdParam ∨ n = tenantIdParam := by
        rcases hseg with hseg | hseg
        · exact .inr (htn.mp hseg)
        · exact .inl (hws.mp hseg)
      have hk0 := hfront hn
      obtain ⟨k', t', hj', -, -, -, hfront'⟩ := param_at hr hj
      have hk'0 := hfront' hname
      subst hk0 hk'0 hj'
      cases Option.some.inj (hb.symm.trans hraw)
      exact (text.parse_plain _ id hid).1 hesc
  exact ⟨fun ha => absurd (.inl ha) hforeign, fun ha => absurd (.inr ha) hforeign⟩

theorem plain_extract {raw : List Char} {id : Uuid} (hplain : '%' ∉ raw)
    (h : extractId text percent raw = some id) : text.parseStr raw = some id := by
  rw [extractId, percent.decode_plain raw hplain] at h
  exact h

/-- A captured id without an escape is what the guard has checked. -/
theorem ensureScope_plain {name raw : List Char} {id : Uuid} (hc : Captured path name raw)
    (hok : ensureScope text path config = .ok ()) (hid : text.parseStr raw = some id) :
    (name = tenantIdParam → id = config.tenantId) ∧
      (name = workspaceIdParam → id = config.workspaceId) := by
  obtain ⟨route, hr, captures, h, hc⟩ := hc
  obtain ⟨segments, hm, hfilter⟩ := routeCaptures_matches hr h
  rw [ensureScope, hfilter, ensurePairs_ok_iff] at hok
  obtain ⟨j, hj, hraw⟩ := (hm.captured name raw).mp hc
  obtain ⟨k, t, rfl, hlit, hws, htn, -⟩ := param_at hr hj
  have hklt : k < segments.length := by
    have := (List.getElem?_eq_some_iff.mp hraw).1
    omega
  have hka := List.getElem?_eq_getElem hklt
  have hacc := hm.accepts k _ _ hlit hka
  simp only [PathSegment.accepts, beq_iff_eq] at hacc
  have hwin := hok t raw id (mem_windows_iff.mpr ⟨k, hacc ▸ hka, hraw⟩) hid
  exact ⟨fun hn => hwin.1 (htn.mpr hn), fun hn => hwin.2 (hws.mpr hn)⟩

theorem scopeHolds_iff_noEscapedForeignId :
    ScopeHolds text percent config path ↔ NoEscapedForeignId text percent config path := by
  constructor
  · intro h
    have haccept : ∀ name raw, name = workspaceIdParam ∨ name = tenantIdParam →
        Captured path name raw → '%' ∈ raw → ensureScope text path config = .ok () := by
      rintro name raw hname ⟨route, hr, captures, hcap, hc⟩ hesc
      exact ensureScope_of_escaped hr hcap hname hc hesc
    constructor
    · intro raw id hc hesc hid
      exact (h (haccept _ raw (.inl rfl) hc hesc)).1 raw id hc hid
    · intro raw id hc hesc hid
      exact (h (haccept _ raw (.inr rfl) hc hesc)).2 raw id hc hid
  · intro h hok
    constructor
    · intro raw id hc hid
      by_cases hesc : '%' ∈ raw
      · exact h.1 raw id hc hesc hid
      · exact (ensureScope_plain hc hok (plain_extract hesc hid)).2 rfl
    · intro raw id hc hid
      by_cases hesc : '%' ∈ raw
      · exact h.2 raw id hc hesc hid
      · exact (ensureScope_plain hc hok (plain_extract hesc hid)).1 rfl

end Routed

/-- For every request path: after the alias rewrite, the guard keeps the router's ids in scope
exactly when the path captures no foreign id that is spelled with percent escapes. -/
theorem hrm_scope_holds_iff (text : UuidText) (percent : PercentDecoding)
    (validUri : List Char → Bool) (config : HrmConfig) (path : List Char) :
    ScopeHolds text percent config (resolveHrmWorkspaceAlias text validUri config path) ↔
      NoEscapedForeignId text percent config
        (resolveHrmWorkspaceAlias text validUri config path) :=
  scopeHolds_iff_noEscapedForeignId

/-- Percent decoding of escapes for ASCII characters; the others are left to fail. -/
def percentDecodeAscii : List Char → Option (List Char)
  | '%' :: a :: b :: rest =>
    match hexDigit a, hexDigit b with
    | some h, some l =>
      if h * 16 + l < 128 then (percentDecodeAscii rest).map (Char.ofNat (h * 16 + l) :: ·) else none
    | _, _ => (percentDecodeAscii (a :: b :: rest)).map ('%' :: ·)
  | c :: rest => (percentDecodeAscii rest).map (c :: ·)
  | [] => some []

theorem percentDecodeAscii_plain {s : List Char} (h : '%' ∉ s) : percentDecodeAscii s = some s := by
  induction s with
  | nil => rfl
  | cons c cs ih =>
    simp only [List.mem_cons, not_or] at h
    rw [percentDecodeAscii.eq_def]
    split
    next heq => exact absurd (List.cons.inj heq).1.symm h.1
    next heq =>
      obtain ⟨rfl, rfl⟩ := List.cons.inj heq
      rw [ih h.2]
      rfl
    next heq => cases heq

def percentDecoding : PercentDecoding where
  decode := percentDecodeAscii
  decode_plain := fun _ h => percentDecodeAscii_plain h

def sampleScope : HrmConfig := ⟨Uuid.ofNat 1, Uuid.ofNat 2⟩

/-- The foreign workspace `00000000-0000-0000-0000-000000000003` with its first digit escaped. -/
def escapedPath : List Char :=
  "/workspaces/%300000000-0000-0000-0000-000000000003/documents".toList

theorem escaped_workspace_leaves_scope :
    ¬ ScopeHolds uuidText percentDecoding sampleScope
      (resolveHrmWorkspaceAlias uuidText (fun _ => true) sampleScope escapedPath) := by
  intro h
  have hok : ensureScope uuidText
      (resolveHrmWorkspaceAlias uuidText (fun _ => true) sampleScope escapedPath) sampleScope =
        .ok () := by decide
  have hc : Captured (resolveHrmWorkspaceAlias uuidText (fun _ => true) sampleScope escapedPath)
      workspaceIdParam "%300000000-0000-0000-0000-000000000003".toList := by
    exact ⟨[lit "workspaces", par "workspace_id", lit "documents"], by decide,
      [(workspaceIdParam, "%300000000-0000-0000-0000-000000000003".toList)], by decide, by decide⟩
  have hid := (h hok).1 _ (Uuid.ofNat 3) hc (by decide)
  exact absurd hid (by decide)

end GmragApi.Hrm

import GmragApi.GraphAnswers
import Mathlib.Data.Char
import Mathlib.Data.List.Lex

/-! What the answers of the graph tables disclose of documents that the caller may not see. -/

namespace GmragApi.Graph

structure GraphContext.SameAs (c d : GraphContext) : Prop where
  nodes : ∀ n, n ∈ c.shownNodes ↔ n ∈ d.shownNodes
  edges : ∀ e, e ∈ c.shownEdges ↔ e ∈ d.shownEdges

structure GraphResponse.SameAs (r q : GraphResponse) : Prop where
  nodes : ∀ n, n ∈ r.shownNodes ↔ n ∈ q.shownNodes
  links : ∀ e, e ∈ r.shownLinks ↔ e ∈ q.shownLinks

variable {ν δ : Type} {rules : TextRules} {workspaceId : Nat} {visible : List Nat}

/-- The two databases answer a query alike, whatever order the vector search puts rows of equal
distance in. -/
def AnswersAlike [LinearOrder δ] (rules : TextRules) (db other : Database ν) (workspaceId : Nat)
    (distance : ν → δ) (userMessage : List Char) (visible : List Nat) : Prop :=
  (∀ ranked ranked' c c',
    fetchGraphContext rules db workspaceId distance userMessage visible ranked = some c →
      fetchGraphContext rules other workspaceId distance userMessage visible ranked' = some c' →
        c.SameAs c') ∧
    (fetchWorkspaceGraph rules db workspaceId visible).SameAs
      (fetchWorkspaceGraph rules other workspaceId visible)

namespace Ledger

/-- The visible documents say the same in both. -/
def SameVisible (ledger other : Ledger rules ν) (workspaceId : Nat) (visible : List Nat) : Prop :=
  ∀ d ∈ visible, ledger.extracted workspaceId d = other.extracted workspaceId d

/-- What a visible document names is kept under one spelling. -/
def SpelledAlike (ledger other : Ledger rules ν) (workspaceId : Nat) (visible : List Nat) : Prop :=
  ∀ d ∈ visible, ∀ key f, ledger.Tells workspaceId d key f →
    ledger.spelling workspaceId key = other.spelling workspaceId key

variable {ledger other : Ledger rules ν}

theorem SameVisible.firstTells_iff (h : ledger.SameVisible other workspaceId visible)
    (key : List Char) (f : EntityFact ν) :
    ledger.FirstTells workspaceId visible key f ↔ other.FirstTells workspaceId visible key f := by
  have htells : ∀ d ∈ visible, ∀ g,
      ledger.Tells workspaceId d key g ↔ other.Tells workspaceId d key g := by
    intro d hd g
    rw [Tells, Tells, h d hd]
  refine exists_congr fun d => and_congr_right fun hd => and_congr (htells d hd f) ?_
  exact forall₂_congr fun d' hd' => forall_congr' fun g => by rw [htells d' hd' g]

theorem SameVisible.firstRelates_iff (h : ledger.SameVisible other workspaceId visible)
    (source target relationship : List Char) (f : RelationFact) :
    ledger.FirstRelates workspaceId visible source target relationship f ↔
      other.FirstRelates workspaceId visible source target relationship f := by
  have hrelates : ∀ d ∈ visible, ∀ g, ledger.Relates workspaceId d source target relationship g ↔
      other.Relates workspaceId d source target relationship g := by
    intro d hd g
    rw [Relates, Relates, h d hd]
  refine exists_congr fun d => and_congr_right fun hd => and_congr (hrelates d hd f) ?_
  exact forall₂_congr fun d' hd' => forall_congr' fun g => by rw [hrelates d' hd' g]

theorem SpelledAlike.spelling_eq (h : ledger.SpelledAlike other workspaceId visible)
    {key : List Char} {f : EntityFact ν} (hf : ledger.FirstTells workspaceId visible key f) :
    ledger.spelling workspaceId key = other.spelling workspaceId key := by
  obtain ⟨d, hd, htells, -⟩ := hf
  exact h d hd key f htells

theorem SpelledAlike.shows_iff (hspelled : ledger.SpelledAlike other workspaceId visible)
    (hsame : ledger.SameVisible other workspaceId visible) (n : ShownNode) (embedding : Option ν) :
    ledger.Shows workspaceId visible n embedding ↔ other.Shows workspaceId visible n embedding := by
  unfold Shows Spells
  rw [← hsame.firstTells_iff]
  exact and_congr_left fun hf => by rw [hspelled.spelling_eq hf]

theorem SpelledAlike.showsEdge_iff (hspelled : ledger.SpelledAlike other workspaceId visible)
    (hsame : ledger.SameVisible other workspaceId visible) (e : ShownEdge) :
    ledger.ShowsEdge workspaceId visible e ↔ other.ShowsEdge workspaceId visible e := by
  unfold ShowsEdge Spells
  simp only [← and_assoc, ← hsame.firstRelates_iff]
  refine and_congr_left fun ⟨relationship, hf⟩ => ?_
  obtain ⟨⟨f, hsource⟩, g, htarget⟩ := hf.ends
  rw [hspelled.spelling_eq hsource, hspelled.spelling_eq htarget]

end Ledger

/-- The rows of the vector search, or those of the text search where it finds none. -/
def contextNodes (rules : TextRules) (db : Database ν) (workspaceId : Nat)
    (userMessage : List Char) (visible : List Nat) (ranked : List (GraphNodeRow × δ)) :
    List GraphNodeRow :=
  let nodes := (ranked.take nodeLimit).map Prod.fst
  if nodes.isEmpty then
    (orderByName rules
      (matchingNodes rules db workspaceId visible (searchPattern userMessage))).take nodeLimit
  else nodes

section Shown

variable {db : Database ν} {userMessage : List Char}

/-- The visible nodes with a vector, without their ids. -/
theorem embeddedNodes_shown (db : Database ν) (workspaceId : Nat) (visible : List Nat)
    (distance : ν → δ) :
    (embeddedNodes db workspaceId visible distance).map (fun r => (r.1.shown, r.2)) =
      (db.shownNodes workspaceId visible).filterMap fun n =>
        n.2.map fun embedding => (n.1, distance embedding) := by
  rw [embeddedNodes, Database.shownNodes, List.map_filterMap, List.filterMap_map]
  refine List.filterMap_congr fun row _ => ?_
  rw [Option.map_map]
  rfl

/-- Sorting by name leaves no choice, since no two visible nodes have one name. -/
theorem orderByName_shown_eq {rows rows' : List GraphNodeRow}
    (hnames : (rows.map GraphNodeRow.entityName).Nodup)
    (hperm : (rows.map GraphNodeRow.shown).Perm (rows'.map GraphNodeRow.shown)) :
    (orderByName rules rows).map GraphNodeRow.shown =
      (orderByName rules rows').map GraphNodeRow.shown := by
  have hsorted : ∀ rows : List GraphNodeRow,
      ((orderByName rules rows).map GraphNodeRow.shown).Pairwise fun a b =>
        rules.le a.entityName b.entityName := by
    intro rows
    rw [List.pairwise_map]
    exact List.pairwise_mergeSort
      (fun a b c => rules.le_trans a.entityName b.entityName c.entityName)
      (fun a b => rules.le_total a.entityName b.entityName) rows
  have hmem : ∀ rows : List GraphNodeRow,
      ((orderByName rules rows).map GraphNodeRow.shown).Perm (rows.map GraphNodeRow.shown) :=
    fun rows => (List.mergeSort_perm _ _).map _
  refine List.Perm.eq_of_pairwise (fun a b ha hb hab hba => ?_) (hsorted rows) (hsorted rows')
    ((hmem rows).trans (hperm.trans (hmem rows').symm))
  have ha : a ∈ rows.map GraphNodeRow.shown := (hmem rows).mem_iff.mp ha
  have hb : b ∈ rows.map GraphNodeRow.shown := hperm.mem_iff.mpr ((hmem rows').mem_iff.mp hb)
  have hshown : ((rows.map GraphNodeRow.shown).map ShownNode.entityName).Nodup := by
    rw [List.map_map]
    exact hnames
  exact List.inj_on_of_nodup_map hshown ha hb (rules.le_antisymm _ _ hab hba)

theorem matchingNodes_shown (db : Database ν) (workspaceId : Nat) (visible : List Nat)
    (pattern : List Char) :
    (matchingNodes rules db workspaceId visible pattern).map GraphNodeRow.shown =
      ((db.shownNodes workspaceId visible).map Prod.fst).filter fun n =>
        ilike rules n.entityName pattern || ilike rules (n.description.getD []) pattern := by
  rw [matchingNodes, Database.shownNodes, List.map_map, List.filter_map, List.filter_map,
    List.map_map]
  rfl

theorem matchingNodes_names_nodup (hwf : db.WellFormed rules) (workspaceId : Nat)
    (visible : List Nat) (pattern : List Char) :
    ((matchingNodes rules db workspaceId visible pattern).map GraphNodeRow.entityName).Nodup := by
  have hnames := hwf.visibleNames_nodup workspaceId visible
  refine hnames.sublist ?_
  have hsub := (List.filter_sublist (p := fun row : GraphNodeRow =>
    ilike rules row.entityName pattern || ilike rules (row.description.getD []) pattern)
    (l := (visibleNodes db workspaceId visible).map Prod.fst)).map GraphNodeRow.entityName
  rwa [List.map_map] at hsub

theorem contextNodes_of_front {front back : List (GraphNodeRow × δ)} {a : GraphNodeRow × δ}
    (hfront : front.length + 1 = nodeLimit) :
    contextNodes rules db workspaceId userMessage visible (front ++ a :: back) =
      (front ++ [a]).map Prod.fst := by
  have htake : (front ++ a :: back).take nodeLimit = front ++ [a] := by
    rw [← hfront, List.take_length_add_append]
    rfl
  have hsome : ((front ++ [a]).map Prod.fst).isEmpty = false := by simp
  rw [contextNodes, htake, hsome]
  rfl

end Shown

variable [LinearOrder δ] {db other : Database ν} {distance : ν → δ} {userMessage : List Char}
  {ranked ranked' : List (GraphNodeRow × δ)} {c : GraphContext}

/-- An order that the vector search can return. -/
def Ranks (db : Database ν) (workspaceId : Nat) (visible : List Nat) (distance : ν → δ)
    (ranked : List (GraphNodeRow × δ)) : Prop :=
  ranked.Perm (embeddedNodes db workspaceId visible distance) ∧ Ranking.Sorted Prod.snd ranked

theorem fetchGraphContext_eq_some (hvisible : visible ≠ []) :
    fetchGraphContext rules db workspaceId distance userMessage visible ranked = some c ↔
      Ranks db workspaceId visible distance ranked ∧
        c = graphContextOf db workspaceId visible
          (contextNodes rules db workspaceId userMessage visible ranked) := by
  rw [fetchGraphContext, if_neg (by simpa using hvisible), Option.ite_none_right_eq_some,
    Option.some.injEq, eq_comm (a := c)]
  exact Iff.rfl

section ContextNodes

theorem Ranks.perm_shown (h : Ranks db workspaceId visible distance ranked)
    (h' : Ranks other workspaceId visible distance ranked')
    (hperm : (db.shownNodes workspaceId visible).Perm (other.shownNodes workspaceId visible)) :
    (ranked.map fun r => (r.1.shown, r.2)).Perm (ranked'.map fun r => (r.1.shown, r.2)) := by
  refine (h.1.map _).trans (List.Perm.trans ?_ (h'.1.map _).symm)
  rw [embeddedNodes_shown, embeddedNodes_shown]
  exact hperm.filterMap _

theorem contextNodes_shown_iff (hwf : db.WellFormed rules)
    (h : Ranks db workspaceId visible distance ranked)
    (h' : Ranks other workspaceId visible distance ranked')
    (hperm : (db.shownNodes workspaceId visible).Perm (other.shownNodes workspaceId visible))
    (hties : ¬ Ranking.TiesAt Prod.snd (embeddedNodes db workspaceId visible distance) nodeLimit)
    (n : ShownNode) :
    n ∈ (contextNodes rules db workspaceId userMessage visible ranked).map GraphNodeRow.shown ↔
      n ∈ (contextNodes rules other workspaceId userMessage visible ranked').map
        GraphNodeRow.shown := by
  have hfirst : ∀ rows : List (GraphNodeRow × δ),
      ((rows.take nodeLimit).map Prod.fst).map GraphNodeRow.shown =
        ((rows.map fun r => (r.1.shown, r.2)).take nodeLimit).map Prod.fst := by
    intro rows
    rw [← List.map_take, List.map_map, List.map_map]
    rfl
  have hshown := h.perm_shown h' hperm
  have hlength : ranked.length = ranked'.length := by simpa using hshown.length_eq
  have hempty : ∀ rows : List (GraphNodeRow × δ),
      ((rows.take nodeLimit).map Prod.fst).isEmpty = true ↔ rows.length = 0 := by
    intro rows
    simp [nodeLimit]
  unfold contextNodes
  by_cases hnone : ranked.length = 0
  · rw [if_pos ((hempty _).mpr hnone), if_pos ((hempty _).mpr (hlength ▸ hnone))]
    rw [List.map_take, List.map_take, orderByName_shown_eq
      (matchingNodes_names_nodup hwf workspaceId visible _)]
    rw [matchingNodes_shown, matchingNodes_shown]
    exact (hperm.map _).filter _
  · rw [if_neg (fun he => hnone ((hempty _).mp he)),
      if_neg (fun he => hnone (hlength ▸ (hempty _).mp he)), hfirst, hfirst]
    have hcut : ¬ Ranking.TiesAt Prod.snd (ranked.map fun r => (r.1.shown, r.2)) nodeLimit := by
      intro htie
      have hranked : Ranking.TiesAt Prod.snd ranked nodeLimit :=
        (Ranking.tiesAt_map (fun r : GraphNodeRow × δ => (r.1.shown, r.2)) ranked).mp htie
      exact hties ((Ranking.tiesAt_perm h.1).mp hranked)
    have hsorted : ∀ rows : List (GraphNodeRow × δ), Ranking.Sorted Prod.snd rows →
        Ranking.Sorted Prod.snd (rows.map fun r => (r.1.shown, r.2)) :=
      fun rows hs => List.pairwise_map.mpr hs
    simp only [List.mem_map,
      (hsorted ranked h.2).mem_take_congr (hsorted ranked' h'.2) hshown hcut]

end ContextNodes

/-- Every node of a context is a visible row. -/
theorem contextNodes_visible (h : Ranks db workspaceId visible distance ranked) {row : GraphNodeRow}
    (hrow : row ∈ contextNodes rules db workspaceId userMessage visible ranked) :
    ∃ embedding, (row, embedding) ∈ visibleNodes db workspaceId visible := by
  simp only [contextNodes] at hrow
  split at hrow
  · have hmatch := Database.mem_orderByName.mp (List.mem_of_mem_take hrow)
    obtain ⟨⟨_, embedding⟩, hin, rfl⟩ := List.mem_map.mp (List.mem_filter.mp hmatch).1
    exact ⟨embedding, hin⟩
  · obtain ⟨r, hr, rfl⟩ := List.mem_map.mp hrow
    have hin := h.1.mem_iff.mp (List.mem_of_mem_take hr)
    obtain ⟨⟨row, embedding⟩, hvisible, heq⟩ := List.mem_filterMap.mp hin
    obtain ⟨e, -, rfl⟩ := Option.map_eq_some_iff.mp heq
    exact ⟨embedding, hvisible⟩

section Disclosure

variable {ledger ledger' : Ledger rules ν}

theorem Database.Refines.contextNodes_labels (hr : db.Refines ledger)
    (h : Ranks db workspaceId visible distance ranked) :
    ∀ row ∈ contextNodes rules db workspaceId userMessage visible ranked,
      ∃ l ∈ db.nodeLabels, l.id = row.id ∧ l.workspaceId = workspaceId ∧
        l.name = row.entityName := by
  intro row hrow
  obtain ⟨embedding, hin⟩ := contextNodes_visible h hrow
  exact (hr.mem_visibleNodes.mp hin).1

theorem shownNodes_perm (hr : db.Refines ledger) (hr' : other.Refines ledger')
    (hsame : ledger.SameVisible ledger' workspaceId visible)
    (hspelled : ledger.SpelledAlike ledger' workspaceId visible) :
    (db.shownNodes workspaceId visible).Perm (other.shownNodes workspaceId visible) := by
  refine (List.perm_ext_iff_of_nodup (hr.wellFormed.shownNodes_nodup workspaceId visible)
    (hr'.wellFormed.shownNodes_nodup workspaceId visible)).mpr fun ⟨n, embedding⟩ => ?_
  rw [hr.mem_shownNodes, hr'.mem_shownNodes]
  exact hspelled.shows_iff hsame n embedding

theorem graphs_alike (hr : db.Refines ledger) (hr' : other.Refines ledger')
    (hsame : ledger.SameVisible ledger' workspaceId visible)
    (hspelled : ledger.SpelledAlike ledger' workspaceId visible) :
    (fetchWorkspaceGraph rules db workspaceId visible).SameAs
      (fetchWorkspaceGraph rules other workspaceId visible) := by
  refine ⟨fun n => ?_, fun e => ?_⟩
  · rw [hr.mem_graph_shownNodes, hr'.mem_graph_shownNodes]
    exact exists_congr fun embedding => hspelled.shows_iff hsame n embedding
  · by_cases hvisible : visible = []
    · subst hvisible
      exact Iff.rfl
    · rw [hr.mem_graph_shownLinks hvisible, hr'.mem_graph_shownLinks hvisible]
      exact hspelled.showsEdge_iff hsame e

theorem contexts_alike (hr : db.Refines ledger) (hr' : other.Refines ledger')
    (hsame : ledger.SameVisible ledger' workspaceId visible)
    (hspelled : ledger.SpelledAlike ledger' workspaceId visible)
    (hties : ¬ Ranking.TiesAt Prod.snd (embeddedNodes db workspaceId visible distance) nodeLimit)
    (h : Ranks db workspaceId visible distance ranked)
    (h' : Ranks other workspaceId visible distance ranked') :
    (graphContextOf db workspaceId visible
        (contextNodes rules db workspaceId userMessage visible ranked)).SameAs
      (graphContextOf other workspaceId visible
        (contextNodes rules other workspaceId userMessage visible ranked')) := by
  have hnodes : ∀ n : ShownNode,
      n ∈ (contextNodes rules db workspaceId userMessage visible ranked).map GraphNodeRow.shown ↔
        n ∈ (contextNodes rules other workspaceId userMessage visible ranked').map
          GraphNodeRow.shown :=
    contextNodes_shown_iff hr.wellFormed h h' (shownNodes_perm hr hr' hsame hspelled) hties
  refine ⟨fun n => ?_, fun e => ?_⟩
  · rw [GraphContext.shownNodes, GraphContext.shownNodes, Database.graphContextOf_nodes,
      Database.graphContextOf_nodes]
    exact hnodes n
  · rw [hr.mem_graphContextOf_shownEdges (hr.contextNodes_labels h),
      hr'.mem_graphContextOf_shownEdges (hr'.contextNodes_labels h'),
      hspelled.showsEdge_iff hsame]
    simp only [hnodes]

/-- Alike graphs show one spelling of what a visible document names. -/
theorem spelledAlike_of_graphs (hr : db.Refines ledger) (hr' : other.Refines ledger')
    (h : (fetchWorkspaceGraph rules db workspaceId visible).SameAs
      (fetchWorkspaceGraph rules other workspaceId visible)) :
    ledger.SpelledAlike ledger' workspaceId visible := by
  intro d hd key f htells
  obtain ⟨g, hg⟩ := Ledger.exists_firstTells hd htells
  obtain ⟨s, -, -, ⟨l, hl, -, hkey⟩, -⟩ := (hr.tells _ _ _ _).mpr htells
  have hspelling : ledger.spelling workspaceId key = some l.name :=
    (hr.spelling _ _ _).mpr ⟨l, hl, hkey, rfl⟩
  obtain ⟨-, rfl⟩ := Prod.ext_iff.mp hkey
  have hshows : ledger.Shows workspaceId visible ⟨l.name, g.entityType, g.description⟩
      g.embedding := ⟨hspelling, hg⟩
  obtain ⟨embedding, hspells, -⟩ := hr'.mem_graph_shownNodes.mp
    ((h.nodes _).mp (hr.mem_graph_shownNodes.mpr ⟨_, hshows⟩))
  exact hspelling.trans hspells.symm

/-- No two rows of the vector search show one node. -/
theorem Ranks.shown_nodup (hwf : db.WellFormed rules)
    (h : Ranks db workspaceId visible distance ranked) :
    (ranked.map fun r => r.1.shown).Nodup := by
  refine (h.1.map _).nodup_iff.mpr ?_
  have hnames := List.pairwise_map.mp (hwf.visibleNames_nodup workspaceId visible)
  refine List.pairwise_map.mpr (List.pairwise_filterMap.mpr (hnames.imp ?_))
  intro a b hne r hr r' hr' hshown
  obtain ⟨_, -, rfl⟩ := Option.map_eq_some_iff.mp hr
  obtain ⟨_, -, rfl⟩ := Option.map_eq_some_iff.mp hr'
  exact hne (congrArg ShownNode.entityName hshown)

/-- Rows of one distance that contend for the last place of a context make two contexts of it. -/
theorem exists_contexts_differ (userMessage : List Char) (hwf : db.WellFormed rules)
    (hties : Ranking.TiesAt Prod.snd (embeddedNodes db workspaceId visible distance) nodeLimit) :
    ∃ ranked ranked', Ranks db workspaceId visible distance ranked ∧
      Ranks db workspaceId visible distance ranked' ∧
      ∃ n, n ∈ (contextNodes rules db workspaceId userMessage visible ranked).map
          GraphNodeRow.shown ∧
        n ∉ (contextNodes rules db workspaceId userMessage visible ranked').map
          GraphNodeRow.shown := by
  obtain ⟨ranked, hperm, hsorted⟩ :=
    Ranking.exists_sorted Prod.snd (embeddedNodes db workspaceId visible distance)
  obtain ⟨front, a, b, back, rfl, hfront, hab⟩ :=
    hsorted.exists_swap ((Ranking.tiesAt_perm hperm).mpr hties)
  have hranks : Ranks db workspaceId visible distance (front ++ a :: b :: back) := ⟨hperm, hsorted⟩
  have hswap : (front ++ b :: a :: back).Perm (front ++ a :: b :: back) :=
    (List.Perm.swap a b back).append_left front
  refine ⟨_, _, hranks, ⟨hswap.trans hperm, hsorted.swap hab⟩, a.1.shown, ?_, ?_⟩
  · rw [contextNodes_of_front hfront]
    simp
  · have hnodup := hranks.shown_nodup hwf
    rw [List.map_append, List.map_cons, List.map_cons, List.nodup_append] at hnodup
    obtain ⟨-, hrest, hcross⟩ := hnodup
    rw [contextNodes_of_front hfront, List.map_map, List.map_append, List.mem_append]
    rintro (hmem | hmem)
    · exact hcross _ hmem _ List.mem_cons_self rfl
    · have hne := (List.nodup_cons.mp hrest).1
      rw [List.mem_singleton.mp hmem] at hne
      exact hne List.mem_cons_self

theorem not_tiesAt_of_contexts (hr : db.Refines ledger)
    (h : ∀ ranked ranked' c c',
      fetchGraphContext rules db workspaceId distance userMessage visible ranked = some c →
        fetchGraphContext rules other workspaceId distance userMessage visible ranked' = some c' →
          c.SameAs c') :
    ¬ Ranking.TiesAt Prod.snd (embeddedNodes db workspaceId visible distance) nodeLimit := by
  intro hties
  have hvisible : visible ≠ [] := by
    rintro rfl
    obtain ⟨r, hmem, -⟩ := hties
    obtain ⟨⟨row, embedding⟩, hrow, -⟩ := List.mem_filterMap.mp hmem
    obtain ⟨-, -, d, hd, -⟩ := hr.mem_visibleNodes.mp hrow
    exact List.not_mem_nil hd
  obtain ⟨ranked, ranked', hranks, hranks', n, hn, hn'⟩ :=
    exists_contexts_differ userMessage hr.wellFormed hties
  obtain ⟨rankedOther, hother⟩ : ∃ ranked, Ranks other workspaceId visible distance ranked :=
    Ranking.exists_sorted Prod.snd _
  have hcontext : ∀ ranked, Ranks db workspaceId visible distance ranked → ∀ n,
      n ∈ (contextNodes rules db workspaceId userMessage visible ranked).map GraphNodeRow.shown ↔
        n ∈ (contextNodes rules other workspaceId userMessage visible rankedOther).map
          GraphNodeRow.shown := by
    intro ranked hranks
    have hsame := h ranked rankedOther _ _ ((fetchGraphContext_eq_some hvisible).mpr ⟨hranks, rfl⟩)
      ((fetchGraphContext_eq_some hvisible).mpr ⟨hother, rfl⟩)
    have hnodes := hsame.nodes
    simpa only [GraphContext.shownNodes, Database.graphContextOf_nodes] using hnodes
  exact hn' ((hcontext ranked' hranks' n).mpr ((hcontext ranked hranks n).mp hn))

/-- Two runs in which the visible documents say the same answer alike just when every entity that
they name is kept under one spelling, and no visible nodes contend for the last place of the vector
search. -/
theorem answersAlike_iff {writes writes' : List (Write rules ν)}
    (h : Transition.run step Database.empty writes = some db)
    (h' : Transition.run step Database.empty writes' = some other)
    (hsame : (Ledger.ofWrites writes).SameVisible (Ledger.ofWrites writes') workspaceId visible) :
    AnswersAlike rules db other workspaceId distance userMessage visible ↔
      (Ledger.ofWrites writes).SpelledAlike (Ledger.ofWrites writes') workspaceId visible ∧
        ¬ Ranking.TiesAt Prod.snd (embeddedNodes db workspaceId visible distance) nodeLimit := by
  have hr := Database.refines_ofWrites h
  have hr' := Database.refines_ofWrites h'
  constructor
  · rintro ⟨hcontexts, hgraphs⟩
    exact ⟨spelledAlike_of_graphs hr hr' hgraphs, not_tiesAt_of_contexts hr hcontexts⟩
  · rintro ⟨hspelled, hties⟩
    refine ⟨fun ranked ranked' c c' hc hc' => ?_, graphs_alike hr hr' hsame hspelled⟩
    by_cases hvisible : visible = []
    · subst hvisible
      cases Option.some.inj hc
      cases Option.some.inj hc'
      exact ⟨fun _ => Iff.rfl, fun _ => Iff.rfl⟩
    · obtain ⟨hranks, rfl⟩ := (fetchGraphContext_eq_some hvisible).mp hc
      obtain ⟨hranks', rfl⟩ := (fetchGraphContext_eq_some hvisible).mp hc'
      exact contexts_alike hr hr' hsame hspelled hties hranks hranks'

end Disclosure

section Company

/-- ASCII texts, ordered by their characters. -/
def asciiRules : TextRules where
  toLowercase := List.map Char.toLower
  lower := List.map Char.toLower
  le a b := decide (a ≤ b)
  le_total a b := by simpa using le_total a b
  le_trans _ _ _ hab hbc := decide_eq_true ((of_decide_eq_true hab).trans (of_decide_eq_true hbc))
  le_antisymm _ _ hab hba := le_antisymm (of_decide_eq_true hab) (of_decide_eq_true hba)

/-- The transaction of a document that names one company. -/
def ingestCompany (documentId : Nat) (name : List Char) : Write asciiRules Nat :=
  let batch := fromExtractions asciiRules Nat [(0, [.node name none none])]
  .ingest 0 documentId ((attachNodeEmbeddings batch [1]).getD batch)

/-- Document 1, which the caller may not see, comes before document 2, which they may. -/
def hiddenFirst (name : List Char) : List (Write asciiRules Nat) :=
  [ingestCompany 1 name, ingestCompany 2 ['A', 'c', 'm', 'e']]

def visibleAlone : List (Write asciiRules Nat) := [ingestCompany 2 ['A', 'c', 'm', 'e']]

theorem hiddenFirst_sameVisible (name : List Char) :
    (Ledger.ofWrites (hiddenFirst name)).SameVisible (Ledger.ofWrites visibleAlone) 0 [2] := by
  intro d hd
  cases List.mem_singleton.mp hd
  exact Ledger.extracted_ofWrites_congr rfl

/-- The nodes of the graph and of the context that the caller is answered. -/
def companyAnswer (db : Database Nat) : List ShownNode × Option (List ShownNode) :=
  ((fetchWorkspaceGraph asciiRules db 0 [2]).shownNodes,
    (fetchGraphContext asciiRules db 0 id ['a', 'c', 'm', 'e'] [2]
      (embeddedNodes db 0 [2] id)).map GraphContext.shownNodes)

theorem run_visibleAlone : ∃ db, Transition.run step Database.empty visibleAlone = some db ∧
    companyAnswer db = ([⟨['A', 'c', 'm', 'e'], none, none⟩],
      some [⟨['A', 'c', 'm', 'e'], none, none⟩]) ∧
    (fetchWorkspaceGraph asciiRules db 0 [2]).shownLinks = [] := by
  have hrun : (Transition.run step Database.empty visibleAlone).any
      (fun db => companyAnswer db = ([⟨['A', 'c', 'm', 'e'], none, none⟩],
        some [⟨['A', 'c', 'm', 'e'], none, none⟩]) ∧
          (fetchWorkspaceGraph asciiRules db 0 [2]).shownLinks = []) = true := by decide +kernel
  obtain ⟨db, hdb, hanswer⟩ := (Option.any_eq_true _ _).mp hrun
  exact ⟨db, hdb, of_decide_eq_true hanswer⟩

theorem answersAlike_same_spelling : ∃ db other : Database Nat,
    Transition.run step Database.empty (hiddenFirst ['A', 'c', 'm', 'e']) = some db ∧
    Transition.run step Database.empty visibleAlone = some other ∧
    AnswersAlike asciiRules db other 0 id ['a', 'c', 'm', 'e'] [2] := by
  have hrun : (Transition.run step Database.empty (hiddenFirst ['A', 'c', 'm', 'e'])).any
      (fun db => (fetchWorkspaceGraph asciiRules db 0 [2]).shownNodes =
          [⟨['A', 'c', 'm', 'e'], none, none⟩] ∧
        (fetchWorkspaceGraph asciiRules db 0 [2]).shownLinks = [] ∧
          (embeddedNodes db 0 [2] id).length ≤ nodeLimit) = true := by decide +kernel
  obtain ⟨db, hdb, hgraph⟩ := (Option.any_eq_true _ _).mp hrun
  obtain ⟨hnodes, hlinks, hfew⟩ := of_decide_eq_true hgraph
  obtain ⟨other, hother, hanswer, hlinks'⟩ := run_visibleAlone
  have hgraphs : (fetchWorkspaceGraph asciiRules db 0 [2]).SameAs
      (fetchWorkspaceGraph asciiRules other 0 [2]) := by
    have hnodes' := congrArg Prod.fst hanswer
    exact ⟨fun n => hnodes.trans hnodes'.symm ▸ Iff.rfl,
      fun e => hlinks.trans hlinks'.symm ▸ Iff.rfl⟩
  have hspelled := spelledAlike_of_graphs (Database.refines_ofWrites hdb)
    (Database.refines_ofWrites hother) hgraphs
  exact ⟨db, other, hdb, hother, (answersAlike_iff hdb hother (hiddenFirst_sameVisible _)).mpr
    ⟨hspelled, Ranking.not_tiesAt_of_length_le hfew⟩⟩

/-- A hidden document that names the company first decides how the caller reads it. -/
theorem hidden_document_respells : ∃ db other : Database Nat,
    Transition.run step Database.empty (hiddenFirst ['A', 'C', 'M', 'E']) = some db ∧
    Transition.run step Database.empty visibleAlone = some other ∧
    (Ledger.ofWrites (hiddenFirst ['A', 'C', 'M', 'E'])).SameVisible
      (Ledger.ofWrites visibleAlone) 0 [2] ∧
    companyAnswer db = ([⟨['A', 'C', 'M', 'E'], none, none⟩],
      some [⟨['A', 'C', 'M', 'E'], none, none⟩]) ∧
    companyAnswer other = ([⟨['A', 'c', 'm', 'e'], none, none⟩],
      some [⟨['A', 'c', 'm', 'e'], none, none⟩]) ∧
    ¬ AnswersAlike asciiRules db other 0 id ['a', 'c', 'm', 'e'] [2] := by
  have hrun : (Transition.run step Database.empty (hiddenFirst ['A', 'C', 'M', 'E'])).any
      (fun db => companyAnswer db = ([⟨['A', 'C', 'M', 'E'], none, none⟩],
        some [⟨['A', 'C', 'M', 'E'], none, none⟩])) = true := by decide +kernel
  obtain ⟨db, hdb, hanswer⟩ := (Option.any_eq_true _ _).mp hrun
  obtain ⟨other, hother, hanswer', -⟩ := run_visibleAlone
  have hanswer := of_decide_eq_true hanswer
  refine ⟨db, other, hdb, hother, hiddenFirst_sameVisible _, hanswer, hanswer', fun halike => ?_⟩
  have hgraph : (fetchWorkspaceGraph asciiRules db 0 [2]).shownNodes =
      [⟨['A', 'C', 'M', 'E'], none, none⟩] := congrArg Prod.fst hanswer
  have hgraph' : (fetchWorkspaceGraph asciiRules other 0 [2]).shownNodes =
      [⟨['A', 'c', 'm', 'e'], none, none⟩] := congrArg Prod.fst hanswer'
  have hnodes := halike.2.nodes ⟨['A', 'C', 'M', 'E'], none, none⟩
  rw [hgraph, hgraph'] at hnodes
  exact absurd (hnodes.mp List.mem_cons_self) (by decide)

end Company

end GmragApi.Graph

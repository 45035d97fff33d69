import GmragApi.GraphWrites
import GmragApi.Ranking
import Mathlib.Data.Nat.Find

/-! What the two queries of the graph tables answer, read off the ledger. -/

namespace GmragApi.Graph

/-- A node of an answer without its id. -/
structure ShownNode where
  entityName : List Char
  entityType : Option (List Char)
  description : Option (List Char)
  deriving DecidableEq

structure ShownEdge where
  sourceName : List Char
  targetName : List Char
  relationship : List Char
  description : Option (List Char)
  deriving DecidableEq

def GraphNodeRow.shown (n : GraphNodeRow) : ShownNode := ⟨n.entityName, n.entityType, n.description⟩

def GraphEdgeRow.shown (e : GraphEdgeRow) : ShownEdge :=
  ⟨e.sourceName, e.targetName, e.relationship, e.description⟩

def GraphContext.shownNodes (c : GraphContext) : List ShownNode := c.nodes.map GraphNodeRow.shown

def GraphContext.shownEdges (c : GraphContext) : List ShownEdge := c.edges.map GraphEdgeRow.shown

def GraphResponse.shownNodes (r : GraphResponse) : List ShownNode := r.nodes.map GraphNodeRow.shown

def GraphResponse.nameOf (r : GraphResponse) (id : Nat) : Option (List Char) :=
  (r.nodes.find? fun n => n.id == id).map GraphNodeRow.entityName

/-- The links, with the names of the nodes of the answer that they end in. -/
def GraphResponse.shownLinks (r : GraphResponse) : List ShownEdge :=
  r.links.filterMap fun l =>
    (r.nameOf l.source).bind fun source =>
      (r.nameOf l.target).map fun target => ⟨source, target, l.relationship, l.description⟩

variable {ν : Type} {rules : TextRules}

namespace Ledger

variable (ledger : Ledger rules ν) (workspaceId : Nat) (visible : List Nat)

/-- What the first of the visible documents that name the entity tells of it. -/
def FirstTells (key : List Char) (f : EntityFact ν) : Prop :=
  ∃ d ∈ visible, ledger.Tells workspaceId d key f ∧
    ∀ d' ∈ visible, ∀ g, ledger.Tells workspaceId d' key g → d ≤ d'

def FirstRelates (source target relationship : List Char) (f : RelationFact) : Prop :=
  ∃ d ∈ visible, ledger.Relates workspaceId d source target relationship f ∧
    ∀ d' ∈ visible, ∀ g, ledger.Relates workspaceId d' source target relationship g → d ≤ d'

/-- The name is the spelling that the entity is kept under. -/
def Spells (name : List Char) : Prop :=
  ledger.spelling workspaceId (rules.lower name) = some name

def Shows (n : ShownNode) (embedding : Option ν) : Prop :=
  ledger.Spells workspaceId n.entityName ∧
    ledger.FirstTells workspaceId visible (rules.lower n.entityName)
      ⟨n.entityType, n.description, embedding⟩

def ShowsEdge (e : ShownEdge) : Prop :=
  ledger.Spells workspaceId e.sourceName ∧ ledger.Spells workspaceId e.targetName ∧
    ∃ relationship, ledger.FirstRelates workspaceId visible (rules.lower e.sourceName)
      (rules.lower e.targetName) relationship ⟨e.relationship, e.description⟩

variable {ledger workspaceId visible}

/-- Where a visible document names the entity, one of them is the first. -/
theorem exists_firstTells {d : Nat} (hd : d ∈ visible) {key : List Char} {f : EntityFact ν}
    (h : ledger.Tells workspaceId d key f) :
    ∃ g, ledger.FirstTells workspaceId visible key g := by
  classical
  have hex : ∃ d, d ∈ visible ∧ ∃ g, ledger.Tells workspaceId d key g := ⟨d, hd, f, h⟩
  obtain ⟨hmem, g, hg⟩ := Nat.find_spec hex
  exact ⟨g, Nat.find hex, hmem, hg, fun d' hd' g' hg' => Nat.find_min' hex ⟨hd', g', hg'⟩⟩

/-- The ends of a relationship that is shown are shown. -/
theorem FirstRelates.ends {source target relationship : List Char} {f : RelationFact}
    (h : ledger.FirstRelates workspaceId visible source target relationship f) :
    (∃ g, ledger.FirstTells workspaceId visible source g) ∧
      ∃ g, ledger.FirstTells workspaceId visible target g := by
  obtain ⟨d, hd, ⟨batch, hbatch, hrelates⟩, -⟩ := h
  obtain ⟨⟨g, hg⟩, g', hg'⟩ := hrelates.ends
  exact ⟨exists_firstTells hd ⟨batch, hbatch, hg⟩, exists_firstTells hd ⟨batch, hbatch, hg'⟩⟩

end Ledger

namespace Database

variable {db : Database ν} {ledger : Ledger rules ν} {workspaceId : Nat} {visible : List Nat}

section Provenance

/-- The row of the first visible document carries the first of the facts, when the rows are the
facts of their documents and no two have one document. -/
theorem argmin_visible_iff {σ φ : Type} {rows : List σ} {own : σ → Bool} {document : σ → Nat}
    {fact : σ → φ} {tells : Nat → φ → Prop}
    (hone : ∀ s ∈ rows, ∀ t ∈ rows, own s = true → own t = true → document s = document t → s = t)
    (htells : ∀ d f, tells d f ↔ ∃ s ∈ rows, own s = true ∧ document s = d ∧ fact s = f) {f : φ} :
    (∃ s, (rows.filter fun s => own s && visible.contains (document s)).argmin document = some s ∧
        fact s = f) ↔
      ∃ d ∈ visible, tells d f ∧ ∀ d' ∈ visible, ∀ g, tells d' g → d ≤ d' := by
  have hmem : ∀ s, s ∈ rows.filter (fun s => own s && visible.contains (document s)) ↔
      s ∈ rows ∧ own s = true ∧ document s ∈ visible := by
    intro s
    rw [List.mem_filter, Bool.and_eq_true, List.contains_iff_mem]
  constructor
  · rintro ⟨s, hs, rfl⟩
    obtain ⟨hrow, hown, hvisible⟩ := (hmem s).mp (List.argmin_mem hs)
    refine ⟨document s, hvisible, (htells _ _).mpr ⟨s, hrow, hown, rfl, rfl⟩, ?_⟩
    intro d' hd' g hg
    obtain ⟨t, ht, htown, rfl, -⟩ := (htells d' g).mp hg
    exact List.le_of_mem_argmin ((hmem t).mpr ⟨ht, htown, hd'⟩) hs
  · rintro ⟨d, hd, hf, hfirst⟩
    obtain ⟨s, hs, hown, rfl, rfl⟩ := (htells d f).mp hf
    have hin := (hmem s).mpr ⟨hs, hown, hd⟩
    obtain ⟨t, ht⟩ : ∃ t, (rows.filter fun s =>
        own s && visible.contains (document s)).argmin document = some t := by
      refine Option.ne_none_iff_exists'.mp fun hnone => ?_
      exact List.ne_nil_of_mem hin (List.argmin_eq_none.mp hnone)
    obtain ⟨htrow, htown, htvisible⟩ := (hmem t).mp (List.argmin_mem ht)
    have hle : document s ≤ document t :=
      hfirst _ htvisible (fact t) ((htells _ _).mpr ⟨t, htrow, htown, rfl, rfl⟩)
    cases hone s hs t htrow hown htown (Nat.le_antisymm hle (List.le_of_mem_argmin hin ht))
    exact ⟨s, ht, rfl⟩

theorem Refines.tells_label (hr : db.Refines ledger) {l : NodeLabel} (hl : l ∈ db.nodeLabels)
    (hws : l.workspaceId = workspaceId) (d : Nat) (f : EntityFact ν) :
    ledger.Tells workspaceId d (rules.lower l.name) f ↔
      ∃ s ∈ db.nodeSources, (s.graphNodeId == l.id && s.workspaceId == workspaceId) = true ∧
        s.documentId = d ∧ s.fact = f := by
  have hown : db.HasKey rules l.id (workspaceId, rules.lower l.name) :=
    ⟨l, hl, rfl, Prod.ext hws rfl⟩
  rw [← hr.tells]
  refine exists_congr fun s => and_congr_right fun hs => ?_
  rw [Bool.and_eq_true, beq_iff_eq, beq_iff_eq]
  constructor
  · rintro ⟨hd, hk, hf⟩
    exact ⟨⟨hr.wellFormed.id_unique hk hown, hr.wellFormed.nodeSource_workspace hs hk⟩, hd, hf⟩
  · rintro ⟨⟨hid, -⟩, hd, hf⟩
    exact ⟨hd, hid ▸ hown, hf⟩

/-- The lateral query of a node finds what the first visible document tells of it. -/
theorem Refines.nodeProvenance_iff (hr : db.Refines ledger) {l : NodeLabel}
    (hl : l ∈ db.nodeLabels) (hws : l.workspaceId = workspaceId) {f : EntityFact ν} :
    (∃ s, nodeProvenance db workspaceId visible l.id = some s ∧ s.fact = f) ↔
      ledger.FirstTells workspaceId visible (rules.lower l.name) f := by
  refine argmin_visible_iff (fun s hs t ht hsown htown hdoc => ?_) (hr.tells_label hl hws)
  rw [Bool.and_eq_true, beq_iff_eq] at hsown htown
  exact List.inj_on_of_nodup_map hr.wellFormed.nodeSourceKeys hs ht
    (Prod.ext (hsown.1.trans htown.1.symm) hdoc)

/-- The row of the edge and those of its ends. -/
structure EdgeRows (db : Database ν) (workspaceId : Nat) (e : EdgeLabel) (a b : NodeLabel) :
    Prop where
  edge : e ∈ db.edgeLabels
  source : a ∈ db.nodeLabels
  target : b ∈ db.nodeLabels
  sourceId : a.id = e.sourceNodeId
  targetId : b.id = e.targetNodeId
  edgeWorkspace : e.workspaceId = workspaceId
  sourceWorkspace : a.workspaceId = workspaceId
  targetWorkspace : b.workspaceId = workspaceId

theorem WellFormed.edgeRows (hwf : db.WellFormed rules) {e : EdgeLabel} (he : e ∈ db.edgeLabels)
    (hws : e.workspaceId = workspaceId) : ∃ a b, db.EdgeRows workspaceId e a b := by
  obtain ⟨a, ha, haid, haws⟩ := hwf.sourceEnd e he
  obtain ⟨b, hb, hbid, hbws⟩ := hwf.targetEnd e he
  exact ⟨a, b, he, ha, hb, haid, hbid, hws, haws.trans hws, hbws.trans hws⟩

theorem Refines.relates_label (hr : db.Refines ledger) {e : EdgeLabel} {a b : NodeLabel}
    (h : db.EdgeRows workspaceId e a b) (d : Nat) (f : RelationFact) :
    ledger.Relates workspaceId d (rules.lower a.name) (rules.lower b.name)
        (rules.lower e.relationship) f ↔
      ∃ s ∈ db.edgeSources, (s.graphEdgeId == e.id && s.workspaceId == workspaceId) = true ∧
        s.documentId = d ∧ s.fact = f := by
  have ha : db.HasKey rules e.sourceNodeId (workspaceId, rules.lower a.name) :=
    ⟨a, h.source, h.sourceId, Prod.ext h.sourceWorkspace rfl⟩
  have hb : db.HasKey rules e.targetNodeId (workspaceId, rules.lower b.name) :=
    ⟨b, h.target, h.targetId, Prod.ext h.targetWorkspace rfl⟩
  rw [← hr.relates]
  refine exists_congr fun s => and_congr_right fun hs => ?_
  rw [Bool.and_eq_true, beq_iff_eq, beq_iff_eq]
  constructor
  · rintro ⟨hd, ⟨e', he', hid, hrel, hsource, htarget⟩, hf⟩
    have hkey : e'.key rules = e.key rules := by
      simp only [EdgeLabel.key, hrel, hr.wellFormed.id_unique hsource ha,
        hr.wellFormed.id_unique htarget hb, hr.wellFormed.edge_workspace he' hsource,
        h.edgeWorkspace]
    cases hr.wellFormed.edge_eq_of_key he' h.edge hkey
    exact ⟨⟨hid.symm, hr.wellFormed.edgeSource_workspace hs he' hid hsource⟩, hd, hf⟩
  · rintro ⟨⟨hid, -⟩, hd, hf⟩
    exact ⟨hd, ⟨e, h.edge, hid.symm, rfl, ha, hb⟩, hf⟩

theorem Refines.edgeProvenance_iff (hr : db.Refines ledger) {e : EdgeLabel} {a b : NodeLabel}
    (h : db.EdgeRows workspaceId e a b) {f : RelationFact} :
    (∃ s, edgeProvenance db workspaceId visible e.id = some s ∧ s.fact = f) ↔
      ledger.FirstRelates workspaceId visible (rules.lower a.name) (rules.lower b.name)
        (rules.lower e.relationship) f := by
  refine argmin_visible_iff (fun s hs t ht hsown htown hdoc => ?_) (hr.relates_label h)
  rw [Bool.and_eq_true, beq_iff_eq] at hsown htown
  exact List.inj_on_of_nodup_map hr.wellFormed.edgeSourceKeys hs ht
    (Prod.ext (hsown.1.trans htown.1.symm) hdoc)

/-- A document that relates two entities has an edge between their rows. -/
theorem Refines.edgeRows_of_relates (hr : db.Refines ledger) {d : Nat}
    {source target relationship : List Char} {f : RelationFact}
    (h : ledger.Relates workspaceId d source target relationship f) :
    ∃ e a b, db.EdgeRows workspaceId e a b ∧ rules.lower a.name = source ∧
      rules.lower b.name = target ∧ rules.lower e.relationship = relationship := by
  obtain ⟨s, -, -, ⟨e, he, -, hrel, hsource, htarget⟩, -⟩ := (hr.relates _ _ _ _ _ _).mpr h
  obtain ⟨a, b, hrows⟩ := hr.wellFormed.edgeRows he (hr.wellFormed.edge_workspace he hsource)
  refine ⟨e, a, b, hrows, ?_, ?_, hrel⟩
  · have hk := hr.wellFormed.key_unique ⟨a, hrows.source, hrows.sourceId, rfl⟩ hsource
    exact congrArg Prod.snd hk
  · have hk := hr.wellFormed.key_unique ⟨b, hrows.target, hrows.targetId, rfl⟩ htarget
    exact congrArg Prod.snd hk

end Provenance

section VisibleNodes

theorem Refines.mem_visibleNodes (hr : db.Refines ledger) {row : GraphNodeRow}
    {embedding : Option ν} :
    (row, embedding) ∈ visibleNodes db workspaceId visible ↔
      (∃ l ∈ db.nodeLabels, l.id = row.id ∧ l.workspaceId = workspaceId ∧
        l.name = row.entityName) ∧ ledger.Shows workspaceId visible row.shown embedding := by
  simp only [visibleNodes, List.mem_filterMap, Option.ite_none_right_eq_some,
    Option.map_eq_some_iff]
  constructor
  · rintro ⟨n, hn, hws, s, hs, heq⟩
    cases heq
    have hl : n.label ∈ db.nodeLabels := List.mem_map_of_mem hn
    exact ⟨⟨n.label, hl, rfl, hws, rfl⟩,
      (hr.spelling _ _ _).mpr ⟨n.label, hl, Prod.ext hws rfl, rfl⟩,
      (hr.nodeProvenance_iff hl hws).mp ⟨s, hs, rfl⟩⟩
  · rintro ⟨⟨l, hl, hid, hws, hname⟩, -, hfirst⟩
    obtain ⟨n, hn, rfl⟩ := List.mem_map.mp hl
    obtain ⟨id, entityName, entityType, description⟩ := row
    cases hid
    cases hname
    obtain ⟨s, hs, hfact⟩ := (hr.nodeProvenance_iff hl hws).mpr hfirst
    obtain ⟨htype, hdescription, hembedding⟩ := EntityFact.mk.inj hfact
    exact ⟨n, hn, hws, s, hs, by rw [htype, hdescription, hembedding]; rfl⟩

/-- The visible nodes without their ids. -/
def shownNodes (db : Database ν) (workspaceId : Nat) (visible : List Nat) :
    List (ShownNode × Option ν) :=
  (visibleNodes db workspaceId visible).map fun row => (row.1.shown, row.2)

theorem Refines.mem_shownNodes (hr : db.Refines ledger) {n : ShownNode} {embedding : Option ν} :
    (n, embedding) ∈ shownNodes db workspaceId visible ↔
      ledger.Shows workspaceId visible n embedding := by
  rw [shownNodes, List.mem_map]
  constructor
  · rintro ⟨⟨row, _⟩, hrow, heq⟩
    cases heq
    exact (hr.mem_visibleNodes.mp hrow).2
  · intro h
    obtain ⟨l, hl, hkey, hname⟩ := (hr.spelling _ _ _).mp h.1
    refine ⟨(⟨l.id, n.entityName, n.entityType, n.description⟩, embedding), ?_, rfl⟩
    exact hr.mem_visibleNodes.mpr ⟨⟨l, hl, rfl, congrArg Prod.fst hkey, hname⟩, h⟩

/-- No two visible nodes have one name. -/
theorem WellFormed.visibleNames_nodup (hwf : db.WellFormed rules) (workspaceId : Nat)
    (visible : List Nat) :
    ((visibleNodes db workspaceId visible).map fun row => row.1.entityName).Nodup := by
  have hkeys := List.pairwise_map.mp hwf.nodeRowKeys
  refine List.pairwise_map.mpr (List.pairwise_filterMap.mpr (hkeys.imp ?_))
  intro n m hne row hrow row' hrow' hname
  obtain ⟨hn, hrow⟩ := Option.ite_none_right_eq_some.mp hrow
  obtain ⟨hm, hrow'⟩ := Option.ite_none_right_eq_some.mp hrow'
  obtain ⟨s, -, rfl⟩ := Option.map_eq_some_iff.mp hrow
  obtain ⟨t, -, rfl⟩ := Option.map_eq_some_iff.mp hrow'
  exact hne (Prod.ext (hn.trans hm.symm) (congrArg rules.lower hname))

theorem WellFormed.shownNodes_nodup (hwf : db.WellFormed rules) (workspaceId : Nat)
    (visible : List Nat) : (shownNodes db workspaceId visible).Nodup := by
  refine List.Nodup.of_map (fun n => n.1.entityName) ?_
  rw [shownNodes, List.map_map]
  exact hwf.visibleNames_nodup workspaceId visible

end VisibleNodes

section WorkspaceGraph

theorem mem_orderByName {rows : List GraphNodeRow} {row : GraphNodeRow} :
    row ∈ orderByName rules rows ↔ row ∈ rows :=
  (List.mergeSort_perm _ _).mem_iff

theorem Refines.mem_graph_nodes (hr : db.Refines ledger) {row : GraphNodeRow} :
    row ∈ (fetchWorkspaceGraph rules db workspaceId visible).nodes ↔
      (∃ l ∈ db.nodeLabels, l.id = row.id ∧ l.workspaceId = workspaceId ∧
        l.name = row.entityName) ∧
          ∃ embedding, ledger.Shows workspaceId visible row.shown embedding := by
  have hrows : row ∈ (visibleNodes db workspaceId visible).map Prod.fst ↔
      (∃ l ∈ db.nodeLabels, l.id = row.id ∧ l.workspaceId = workspaceId ∧
        l.name = row.entityName) ∧
          ∃ embedding, ledger.Shows workspaceId visible row.shown embedding := by
    rw [List.mem_map]
    constructor
    · rintro ⟨⟨_, embedding⟩, hrow, rfl⟩
      obtain ⟨hl, hshows⟩ := hr.mem_visibleNodes.mp hrow
      exact ⟨hl, embedding, hshows⟩
    · rintro ⟨hl, embedding, hshows⟩
      exact ⟨(row, embedding), hr.mem_visibleNodes.mpr ⟨hl, hshows⟩, rfl⟩
  rw [← hrows, fetchWorkspaceGraph]
  split
  next hempty =>
    refine iff_of_false List.not_mem_nil fun h => ?_
    obtain ⟨-, -, -, d, hd, -⟩ := hrows.mp h
    rw [List.isEmpty_iff.mp hempty] at hd
    exact List.not_mem_nil hd
  next => exact mem_orderByName

theorem Refines.mem_graph_shownNodes (hr : db.Refines ledger) {n : ShownNode} :
    n ∈ (fetchWorkspaceGraph rules db workspaceId visible).shownNodes ↔
      ∃ embedding, ledger.Shows workspaceId visible n embedding := by
  rw [GraphResponse.shownNodes, List.mem_map]
  constructor
  · rintro ⟨row, hrow, rfl⟩
    exact (hr.mem_graph_nodes.mp hrow).2
  · rintro ⟨embedding, h⟩
    obtain ⟨l, hl, hkey, hname⟩ := (hr.spelling _ _ _).mp h.1
    exact ⟨⟨l.id, n.entityName, n.entityType, n.description⟩, hr.mem_graph_nodes.mpr
      ⟨⟨l, hl, rfl, congrArg Prod.fst hkey, hname⟩, embedding, h⟩, rfl⟩

/-- The answer names the ends of its links. -/
theorem Refines.nameOf_label (hr : db.Refines ledger) {l : NodeLabel} (hl : l ∈ db.nodeLabels)
    (hws : l.workspaceId = workspaceId) {f : EntityFact ν}
    (h : ledger.FirstTells workspaceId visible (rules.lower l.name) f) :
    (fetchWorkspaceGraph rules db workspaceId visible).nameOf l.id = some l.name := by
  have hrow : (⟨l.id, l.name, f.entityType, f.description⟩ : GraphNodeRow) ∈
      (fetchWorkspaceGraph rules db workspaceId visible).nodes := hr.mem_graph_nodes.mpr
    ⟨⟨l, hl, rfl, hws, rfl⟩, f.embedding,
      (hr.spelling _ _ _).mpr ⟨l, hl, Prod.ext hws rfl, rfl⟩, h⟩
  obtain ⟨found, hfound⟩ : ∃ found, ((fetchWorkspaceGraph rules db workspaceId visible).nodes.find?
      fun n => n.id == l.id) = some found :=
    Option.isSome_iff_exists.mp (List.find?_isSome.mpr ⟨_, hrow, beq_self_eq_true _⟩)
  have hid : found.id = l.id := by simpa using List.find?_some hfound
  obtain ⟨⟨m, hm, hmid, -, hmname⟩, -⟩ := hr.mem_graph_nodes.mp (List.mem_of_find?_eq_some hfound)
  cases hr.wellFormed.node_eq_of_id hm hl (hmid.trans hid)
  rw [GraphResponse.nameOf, hfound, Option.map_some, ← hmname]

theorem mem_graph_links (hvisible : visible ≠ []) {link : GraphLinkResponse} :
    link ∈ (fetchWorkspaceGraph rules db workspaceId visible).links ↔
      ∃ e ∈ db.edgeLabels, e.workspaceId = workspaceId ∧
        ∃ s, edgeProvenance db workspaceId visible e.id = some s ∧
          link = ⟨e.id, e.sourceNodeId, e.targetNodeId, s.relationship, s.description⟩ := by
  rw [fetchWorkspaceGraph, if_neg (by simpa using hvisible), (List.mergeSort_perm _ _).mem_iff]
  simp only [List.mem_filterMap, Option.ite_none_right_eq_some, Option.map_eq_some_iff]
  constructor
  · rintro ⟨e, he, hws, s, hs, rfl⟩
    exact ⟨e.label, List.mem_map_of_mem he, hws, s, hs, rfl⟩
  · rintro ⟨e, he, hws, s, hs, rfl⟩
    obtain ⟨row, hrow, rfl⟩ := List.mem_map.mp he
    exact ⟨row, hrow, hws, s, hs, rfl⟩

/-- An edge whose row is found shows what the ledger relates of its ends. -/
theorem Refines.showsEdge (hr : db.Refines ledger) {e : EdgeLabel} {a b : NodeLabel}
    (h : db.EdgeRows workspaceId e a b) {s : EdgeSource}
    (hs : edgeProvenance db workspaceId visible e.id = some s) :
    ledger.ShowsEdge workspaceId visible ⟨a.name, b.name, s.relationship, s.description⟩ := by
  refine ⟨(hr.spelling _ _ _).mpr ⟨a, h.source, Prod.ext h.sourceWorkspace rfl, rfl⟩,
    (hr.spelling _ _ _).mpr ⟨b, h.target, Prod.ext h.targetWorkspace rfl, rfl⟩,
    rules.lower e.relationship, ?_⟩
  exact (hr.edgeProvenance_iff h).mp ⟨s, hs, rfl⟩

/-- What the ledger relates is found in the row of an edge. -/
theorem Refines.edgeRows_of_shows (hr : db.Refines ledger) {x : ShownEdge}
    (h : ledger.ShowsEdge workspaceId visible x) :
    ∃ e a b s, db.EdgeRows workspaceId e a b ∧
      edgeProvenance db workspaceId visible e.id = some s ∧
      x = ⟨a.name, b.name, s.relationship, s.description⟩ := by
  obtain ⟨hsource, htarget, relationship, hfirst⟩ := h
  obtain ⟨d, -, hrelates, -⟩ := id hfirst
  obtain ⟨e, a, b, hrows, ha, hb, rfl⟩ := hr.edgeRows_of_relates hrelates
  rw [← ha, ← hb] at hfirst
  obtain ⟨s, hs, hfact⟩ := (hr.edgeProvenance_iff hrows).mpr hfirst
  obtain ⟨hrel, hdescription⟩ := RelationFact.mk.inj hfact
  have hnamed : ∀ l ∈ db.nodeLabels, l.workspaceId = workspaceId → ∀ name,
      rules.lower l.name = rules.lower name → ledger.Spells workspaceId name → l.name = name := by
    intro l hl hws name hlower hspells
    obtain ⟨m, hm, hmkey, rfl⟩ := (hr.spelling _ _ _).mp hspells
    rw [hr.wellFormed.node_eq_of_key hl hm ((Prod.ext hws hlower).trans hmkey.symm)]
  refine ⟨e, a, b, s, hrows, hs, ?_⟩
  rw [hnamed a hrows.source hrows.sourceWorkspace _ ha hsource,
    hnamed b hrows.target hrows.targetWorkspace _ hb htarget, hrel, hdescription]

theorem Refines.mem_graph_shownLinks (hr : db.Refines ledger) (hvisible : visible ≠ [])
    {x : ShownEdge} :
    x ∈ (fetchWorkspaceGraph rules db workspaceId visible).shownLinks ↔
      ledger.ShowsEdge workspaceId visible x := by
  have hnames : ∀ e a b, db.EdgeRows workspaceId e a b →
      (∃ s, edgeProvenance db workspaceId visible e.id = some s) →
      (fetchWorkspaceGraph rules db workspaceId visible).nameOf e.sourceNodeId = some a.name ∧
        (fetchWorkspaceGraph rules db workspaceId visible).nameOf e.targetNodeId =
          some b.name := by
    rintro e a b h ⟨s, hs⟩
    obtain ⟨-, -, _, hfirst⟩ := hr.showsEdge h hs
    obtain ⟨⟨f, hf⟩, g, hg⟩ := hfirst.ends
    rw [← h.sourceId, ← h.targetId]
    exact ⟨hr.nameOf_label h.source h.sourceWorkspace hf,
      hr.nameOf_label h.target h.targetWorkspace hg⟩
  rw [GraphResponse.shownLinks, List.mem_filterMap]
  constructor
  · rintro ⟨link, hlink, hx⟩
    obtain ⟨e, he, hws, s, hs, rfl⟩ := (mem_graph_links hvisible).mp hlink
    obtain ⟨a, b, hrows⟩ := hr.wellFormed.edgeRows he hws
    obtain ⟨hsource, htarget⟩ := hnames e a b hrows ⟨s, hs⟩
    simp only [hsource, htarget, Option.bind_some, Option.map_some, Option.some.injEq] at hx
    exact hx ▸ hr.showsEdge hrows hs
  · intro h
    obtain ⟨e, a, b, s, hrows, hs, rfl⟩ := hr.edgeRows_of_shows h
    obtain ⟨hsource, htarget⟩ := hnames e a b hrows ⟨s, hs⟩
    refine ⟨_, (mem_graph_links hvisible).mpr ⟨e, hrows.edge, hrows.edgeWorkspace, s, hs, rfl⟩, ?_⟩
    simp only [hsource, htarget, Option.bind_some, Option.map_some]

end WorkspaceGraph

section Context

theorem WellFormed.find?_node (hwf : db.WellFormed rules) {l : NodeLabel}
    (hl : l ∈ db.nodeLabels) (hws : l.workspaceId = workspaceId) :
    ∃ n, (db.nodes.find? fun n => n.id == l.id && n.workspaceId == workspaceId) = some n ∧
      n.entityName = l.name := by
  obtain ⟨row, hrow, rfl⟩ := List.mem_map.mp hl
  obtain ⟨n, hn⟩ := Option.isSome_iff_exists.mp (List.find?_isSome.mpr
    (show ∃ n ∈ db.nodes, (n.id == row.label.id && n.workspaceId == workspaceId) = true from
      ⟨row, hrow, by rw [← hws]; simp [GraphNode.label]⟩))
  refine ⟨n, hn, ?_⟩
  have hfound := List.find?_some hn
  rw [Bool.and_eq_true, beq_iff_eq, beq_iff_eq] at hfound
  have heq := hwf.node_eq_of_id (List.mem_map_of_mem (List.mem_of_find?_eq_some hn)) hl hfound.1
  exact congrArg NodeLabel.name heq

theorem WellFormed.mem_contextEdges (hwf : db.WellFormed rules) {ids : List Nat}
    {row : GraphEdgeRow} :
    row ∈ contextEdges db workspaceId visible ids ↔
      ∃ e a b s, db.EdgeRows workspaceId e a b ∧ (a.id ∈ ids ∨ b.id ∈ ids) ∧
        edgeProvenance db workspaceId visible e.id = some s ∧
        row = ⟨e.id, a.name, b.name, s.relationship, s.description⟩ := by
  simp only [contextEdges, List.mem_filterMap, (List.mergeSort_perm _ _).mem_iff,
    Option.ite_none_right_eq_some]
  constructor
  · rintro ⟨e, he, ⟨hws, hids⟩, hrow⟩
    obtain ⟨a, b, hrows⟩ := hwf.edgeRows (List.mem_map_of_mem he) hws
    obtain ⟨n, hn, hname⟩ := hwf.find?_node hrows.source hrows.sourceWorkspace
    obtain ⟨m, hm, hmname⟩ := hwf.find?_node hrows.target hrows.targetWorkspace
    rw [hrows.sourceId] at hn
    rw [hrows.targetId] at hm
    obtain ⟨n', hn', hrow⟩ := Option.bind_eq_some_iff.mp hrow
    obtain ⟨m', hm', hrow⟩ := Option.bind_eq_some_iff.mp hrow
    cases Option.some.inj (hn.symm.trans hn')
    cases Option.some.inj (hm.symm.trans hm')
    obtain ⟨s, hs, rfl⟩ := Option.map_eq_some_iff.mp hrow
    refine ⟨e.label, a, b, s, hrows, ?_, hs, by rw [hname, hmname]; rfl⟩
    rwa [hrows.sourceId, hrows.targetId]
  · rintro ⟨e, a, b, s, hrows, hids, hs, rfl⟩
    obtain ⟨n, hn, hname⟩ := hwf.find?_node hrows.source hrows.sourceWorkspace
    obtain ⟨m, hm, hmname⟩ := hwf.find?_node hrows.target hrows.targetWorkspace
    obtain ⟨edge, hedge, hlabel⟩ := List.mem_map.mp hrows.edge
    rw [hrows.sourceId] at hn
    rw [hrows.targetId] at hm
    rw [hrows.sourceId, hrows.targetId] at hids
    have hws := hrows.edgeWorkspace
    subst hlabel
    refine ⟨edge, hedge, ⟨hws, hids⟩, ?_⟩
    refine Option.bind_eq_some_iff.mpr ⟨n, hn, Option.bind_eq_some_iff.mpr ⟨m, hm, ?_⟩⟩
    refine Option.map_eq_some_iff.mpr ⟨s, hs, ?_⟩
    rw [hname, hmname]
    rfl

/-- The edges of a context are those that the ledger shows at one of its nodes. -/
theorem Refines.mem_graphContextOf_shownEdges (hr : db.Refines ledger) {rows : List GraphNodeRow}
    (hrows : ∀ row ∈ rows, ∃ l ∈ db.nodeLabels, l.id = row.id ∧ l.workspaceId = workspaceId ∧
      l.name = row.entityName) {x : ShownEdge} :
    x ∈ (graphContextOf db workspaceId visible rows).shownEdges ↔
      ledger.ShowsEdge workspaceId visible x ∧ ∃ n ∈ rows.map GraphNodeRow.shown,
        n.entityName = x.sourceName ∨ n.entityName = x.targetName := by
  have hends : ∀ e a b, db.EdgeRows workspaceId e a b →
      ((a.id ∈ rows.map GraphNodeRow.id ∨ b.id ∈ rows.map GraphNodeRow.id) ↔
        ∃ n ∈ rows.map GraphNodeRow.shown, n.entityName = a.name ∨ n.entityName = b.name) := by
    intro e a b h
    have hend : ∀ l ∈ db.nodeLabels, l.workspaceId = workspaceId →
        (l.id ∈ rows.map GraphNodeRow.id ↔ ∃ row ∈ rows, row.entityName = l.name) := by
      intro l hl hws
      rw [List.mem_map]
      refine exists_congr fun row => and_congr_right fun hrow => ?_
      obtain ⟨m, hm, hmid, hmws, hmname⟩ := hrows row hrow
      constructor
      · intro hid
        cases hr.wellFormed.node_eq_of_id hm hl (hmid.trans hid)
        exact hmname.symm
      · intro hname
        have hkey : m.key rules = l.key rules :=
          Prod.ext (hmws.trans hws.symm) (congrArg rules.lower (hmname.trans hname))
        cases hr.wellFormed.node_eq_of_key hm hl hkey
        exact hmid.symm
    rw [hend a h.source h.sourceWorkspace, hend b h.target h.targetWorkspace]
    simp only [List.mem_map, exists_exists_and_eq_and, GraphNodeRow.shown, and_or_left, exists_or]
  have hmem : x ∈ (contextEdges db workspaceId visible (rows.map GraphNodeRow.id)).map
        GraphEdgeRow.shown ↔
      ledger.ShowsEdge workspaceId visible x ∧ ∃ n ∈ rows.map GraphNodeRow.shown,
        n.entityName = x.sourceName ∨ n.entityName = x.targetName := by
    rw [List.mem_map]
    constructor
    · rintro ⟨row, hrow, rfl⟩
      obtain ⟨e, a, b, s, h, hids, hs, rfl⟩ := hr.wellFormed.mem_contextEdges.mp hrow
      exact ⟨hr.showsEdge h hs, (hends e a b h).mp hids⟩
    · rintro ⟨hshows, hnames⟩
      obtain ⟨e, a, b, s, h, hs, rfl⟩ := hr.edgeRows_of_shows hshows
      exact ⟨_, hr.wellFormed.mem_contextEdges.mpr ⟨e, a, b, s, h, (hends e a b h).mpr hnames, hs,
        rfl⟩, rfl⟩
  rw [← hmem, graphContextOf]
  split
  next hempty =>
    rw [List.isEmpty_iff.mp hempty] at hmem ⊢
    refine iff_of_false List.not_mem_nil fun h => ?_
    obtain ⟨-, n, hn, -⟩ := hmem.mp h
    exact List.not_mem_nil hn
  next => exact Iff.rfl

theorem graphContextOf_nodes (db : Database ν) (workspaceId : Nat) (visible : List Nat)
    (rows : List GraphNodeRow) : (graphContextOf db workspaceId visible rows).nodes = rows := by
  unfold graphContextOf
  split
  next hempty => exact (List.isEmpty_iff.mp hempty).symm
  next => rfl

end Context

end Database

end GmragApi.Graph

import ShaderGraph.Proofs.Linking

namespace ShaderGraph

open Relation

namespace Command

/-- The node whose own value a command may change. -/
def affected? (g : Graph) : Command → Option NodeId
  | setLiteral id _ | destroyNode id => some id
  | connect _ target _ | finishLink _ target _ => some target
  | destroyLink e => (g.edge? e).bind fun e => e.target.map Socket.node
  | createNode .. | beginLink _ | cancelLink _ | setProperty .. | setAlphaClip ..
  | setPosition .. => none

def node? : Command → Outcome → Option NodeId
  | destroyNode id, _ | setLiteral id _, _ | setProperty id _, _ | setAlphaClip id _, _
  | setPosition id _, _ => some id
  | _, .node id => some id
  | _, _ => none

def edge? : Command → Outcome → Option EdgeId
  | finishLink e _ _, _ | cancelLink e, _ | destroyLink e, _ => some e
  | _, .connection e => some e
  | _, _ => none

def displaces (g : Graph) : Command → Edge → Bool
  | destroyNode id, e => e.touches id
  | connect source target _, e => e.joins source target
  | finishLink id target _, e => (g.edge? id).any fun d => e.joins d.source target
  | _, _ => false

end Command

/-- What both lists hold stands in the same order in both. -/
def KeepsOrder (old new : List Nat) : Prop :=
  new.filter (· ∈ old) = old.filter (· ∈ new)

theorem keepsOrder_refl (ids : List Nat) : KeepsOrder ids ids := rfl

theorem keepsOrder_filter (ids : List Nat) (p : Nat → Bool) : KeepsOrder ids (ids.filter p) := by
  unfold KeepsOrder
  rw [List.filter_filter]
  refine List.filter_congr fun x hx => ?_
  simp [hx]

theorem keepsOrder_concat {ids : List Nat} {id : Nat} (hid : id ∉ ids) :
    KeepsOrder ids (ids ++ [id]) := by
  have hnew : (ids ++ [id]).filter (· ∈ ids) = ids := by
    rw [List.filter_append, List.filter_eq_self.mpr (by simp)]
    simp [hid]
  have hold : ids.filter (· ∈ ids ++ [id]) = ids :=
    List.filter_eq_self.mpr fun x hx => by simp [hx]
  rw [KeepsOrder, hnew, hold]

section Update

variable {α : Type} (key : α → Nat) {id : Nat} {f : α → α} {xs : List α}

/-- The entries with another key stay. -/
theorem filter_update (hf : ∀ x ∈ xs, key x = id → key (f x) = id) :
    (xs.map fun x => if key x = id then f x else x).filter (fun x => some (key x) ≠ some id) =
      xs.filter fun x => some (key x) ≠ some id := by
  induction xs with
  | nil => rfl
  | cons x xs ih =>
    have hrest := ih fun y hy => hf y (List.mem_cons_of_mem x hy)
    rw [List.map_cons]
    by_cases hx : key x = id
    · have hkept := hf x List.mem_cons_self hx
      rw [if_pos hx, List.filter_cons_of_neg (by simp [hkept]),
        List.filter_cons_of_neg (by simp [hx]),
        hrest]
    · rw [if_neg hx, List.filter_cons_of_pos (by simpa using hx),
        List.filter_cons_of_pos (by simpa using hx), hrest]

theorem map_key_update (hf : ∀ x ∈ xs, key x = id → key (f x) = id) :
    (xs.map fun x => if key x = id then f x else x).map key = xs.map key := by
  rw [List.map_map]
  refine List.map_congr_left fun x hx => ?_
  simp only [Function.comp_apply]
  split
  · rename_i he
    rw [hf x hx he, he]
  · rfl

end Update

namespace Graph

variable {g g' : Graph}

/-- What a command leaves alone: all nodes and edges but the one it names and those that give way to
it, and the order of the ones that are still there. -/
structure Spares (g : Graph) (c : Command) (outcome : Outcome) (g' : Graph) : Prop where
  nodes : (g'.nodes.filter fun n => some n.id ≠ c.node? outcome).map Node.core =
    (g.nodes.filter fun n => some n.id ≠ c.node? outcome).map Node.core
  node_order : KeepsOrder g.ids g'.ids
  edges : (g'.edges.filter fun e => some e.id ≠ c.edge? outcome) =
    g.edges.filter fun e => some e.id ≠ c.edge? outcome ∧ c.displaces g e = false
  edge_order : KeepsOrder ((g.edges.filter fun e => !c.displaces g e).map Edge.id)
    (g'.edges.map Edge.id)

/-- Passes change nothing of it. -/
theorem Spares.of_core {c : Command} {outcome : Outcome} {g'' : Graph}
    (h : g.Spares c outcome g') (hc : g''.core = g'.core) : g.Spares c outcome g'' := by
  have hnodes : g''.nodes.map Node.core = g'.nodes.map Node.core := congrArg Graph.nodes hc
  have hfilter : ∀ ns : List Node, (ns.filter fun n => some n.id ≠ c.node? outcome).map Node.core =
      (ns.map Node.core).filter fun n => some n.id ≠ c.node? outcome := by
    intro ns
    rw [List.filter_map]
    rfl
  exact {
    nodes := by rw [hfilter, hnodes, ← hfilter, h.nodes]
    node_order := core_ids hc ▸ h.node_order
    edges := core_edges hc ▸ h.edges
    edge_order := core_edges hc ▸ h.edge_order }

theorem spares_createNode (hw : g.WellFormed) {kind : Kind} {init : Init} {handle : Handle}
    {id : NodeId} (h : g.createNode kind init handle = .ok (id, g')) :
    g.Spares (.createNode kind init) (.node id) g' := by
  obtain ⟨_, n, pool, ha, hn, rfl⟩ := createNode_ok_iff.mp h
  obtain ⟨rfl, _⟩ := Node.create_ok hn
  exact {
    nodes := by simp [Command.node?]
    node_order := by
      have hids : ({ g with nodes := g.nodes ++ [n], nodeIds := pool } : Graph).ids =
          g.ids ++ [n.id] := by simp [ids]
      rw [hids]
      exact keepsOrder_concat (hw.nodePool.allocate ha).1
    edges := by simp [Command.edge?, Command.displaces]
    edge_order := by simp [Command.displaces, keepsOrder_refl] }

theorem spares_destroyNode {id : NodeId} {n : Node} (h : g.destroyNode id = .ok (n, g')) :
    g.Spares (.destroyNode id) .updated g' := by
  obtain ⟨_, _, rfl⟩ := destroyNode_ok_iff.mp h
  exact {
    nodes := by simp [Command.node?]
    node_order := by
      have hids : (g.nodes.filter (·.id ≠ id)).map Node.id = g.ids.filter (· ≠ id) := by
        rw [ids, List.filter_map]
        rfl
      unfold ids at hids ⊢
      rw [hids]
      exact keepsOrder_filter _ _
    edges := by simp [Command.edge?, Command.displaces, dropEdges]
    edge_order := keepsOrder_refl _ }

theorem spares_beginEdge (hw : g.WellFormed) {source : NodeId} {e : EdgeId}
    (h : g.beginEdge source = .ok (e, g')) :
    g.Spares (.beginLink source) (.connection e) g' := by
  obtain ⟨_, pool, _, _, ha, rfl⟩ := beginEdge_ok_iff.mp h
  exact {
    nodes := rfl
    node_order := keepsOrder_refl _
    edges := by simp [Command.edge?, Command.displaces]
    edge_order := by
      simpa [Command.displaces] using keepsOrder_concat (hw.edgePool.allocate ha).1 }

theorem spares_connect (hw : g.WellFormed) {source target : NodeId} {request : Option Nat}
    {e : EdgeId} (h : g.connect source target request = .ok (e, g')) :
    g.Spares (.connect source target request) (.connection e) g' := by
  obtain ⟨slot, pool, _, ha, rfl⟩ := connect_ok_iff.mp h
  have hd := hw.dropEdges (·.joins source target)
  exact {
    nodes := rfl
    node_order := keepsOrder_refl _
    edges := by simp [Command.edge?, Command.displaces, dropEdges, List.filter_filter]
    edge_order := by
      rw [List.map_append]
      exact keepsOrder_concat (hd.edgePool.allocate ha).1 }

theorem spares_finishEdge {e : EdgeId} {target : NodeId} {request : Option Nat} {slot : Nat}
    (h : g.finishEdge e target request = .ok (slot, g')) :
    g.Spares (.finishLink e target request) (.connection e) g' := by
  obtain ⟨d, hd, _, rfl⟩ := finishEdge_ok_iff.mp h
  obtain ⟨hfound, _⟩ := pendingEdge_ok_iff.mp hd
  have hdisplaces : (Command.finishLink e target request).displaces g =
      fun x => x.joins d.source target := by
    funext x
    simp [Command.displaces, hfound]
  -- the edge that lands keeps its id and its place
  have hlands : ∀ x ∈ (g.dropEdges (·.joins d.source target)).edges, x.id = e →
      ({ x with target := some ⟨target, slot⟩ } : Edge).id = e := fun _ _ hx => hx
  exact {
    nodes := rfl
    node_order := keepsOrder_refl _
    edges := by
      rw [hdisplaces]
      refine (filter_update Edge.id hlands).trans ?_
      simp [Command.edge?, dropEdges, List.filter_filter]
    edge_order := by
      rw [hdisplaces, map_key_update Edge.id hlands]
      exact keepsOrder_refl _ }

/-- Dropping the edge that a command names. -/
theorem spares_dropEdge {c : Command} {e : EdgeId} (hedge : c.edge? .updated = some e)
    (hkeep : ∀ d, c.displaces g d = false) :
    g.Spares c .updated (g.dropEdges (·.id = e)) where
  nodes := rfl
  node_order := keepsOrder_refl _
  edges := by simp [hedge, hkeep, dropEdges, List.filter_filter]
  edge_order := by
    have hids : (g.dropEdges (·.id = e)).edges.map Edge.id =
        (g.edges.map Edge.id).filter fun x => !decide (x = e) := by
      rw [List.filter_map]
      rfl
    have hall : (g.edges.filter fun x => !c.displaces g x) = g.edges :=
      List.filter_eq_self.mpr fun x _ => by simp [hkeep]
    rw [hids, hall]
    exact keepsOrder_filter _ _

/-- Changing the node that a command names. -/
theorem spares_updateNode {c : Command} {id : NodeId} {f : Node → Node}
    (hnode : c.node? .updated = some id) (hedge : c.edge? .updated = none)
    (hkeep : ∀ d, c.displaces g d = false) (hid : ∀ n ∈ g.nodes, n.id = id → (f n).id = id) :
    g.Spares c .updated (g.updateNode id f) := by
  exact {
    nodes := by rw [hnode, updateNode, filter_update Node.id hid]
    node_order := by
      rw [ids, ids, updateNode, map_key_update Node.id hid]
      exact keepsOrder_refl _
    edges := by simp [hedge, hkeep, updateNode]
    edge_order := by simp [hkeep, updateNode, keepsOrder_refl] }

/-- One node changes, and neither in its kind nor in its literal. -/
def Retouches (g : Graph) (id : NodeId) (g' : Graph) : Prop :=
  ∃ f : Node → Node, g' = g.updateNode id f ∧ ∀ n ∈ g.nodes, n.id = id →
    (f n).id = n.id ∧ (f n).kind = n.kind ∧ (f n).literal = n.literal

theorem retouches_setParameter (hw : g.WellFormed) {id : NodeId} {parameter : Parameter}
    {has : Kind → Bool} {f : Node → Node}
    (hf : ∀ n, (f n).id = n.id ∧ (f n).kind = n.kind ∧ (f n).literal = n.literal)
    (h : g.setParameter id parameter has (fun n => .ok (f n)) = .ok g') : g.Retouches id g' := by
  obtain ⟨n, m, hn, _, hm, rfl⟩ := setParameter_ok_iff.mp h
  refine ⟨_, rfl, fun k hk hid => ?_⟩
  cases eq_of_node? hw.id_once hn hk hid
  cases hm
  exact hf n

theorem retouches_setProperty (hw : g.WellFormed) {id : NodeId} {property : Bool}
    (h : g.setProperty id property = .ok g') : g.Retouches id g' :=
  retouches_setParameter (f := ({ · with property := property })) hw (fun _ => ⟨rfl, rfl, rfl⟩) h

theorem retouches_setAlphaClip (hw : g.WellFormed) {id : NodeId} {threshold : Option Scalar}
    (h : g.setAlphaClip id threshold = .ok g') : g.Retouches id g' :=
  retouches_setParameter (f := ({ · with alphaClip := threshold })) hw (fun _ => ⟨rfl, rfl, rfl⟩) h

theorem retouches_setPosition {id : NodeId} {position : Scalar × Scalar}
    (h : g.setPosition id position = .ok g') : g.Retouches id g' := by
  obtain ⟨_, rfl⟩ := setPosition_ok_iff.mp h
  exact ⟨_, rfl, fun _ _ _ => ⟨rfl, rfl, rfl⟩⟩

theorem setLiteral_ok {id : NodeId} {xs : List Scalar} (h : g.setLiteral id xs = .ok g') :
    ∃ m : Node, m.id = id ∧ g' = g.updateNode id fun _ => m := by
  obtain ⟨n, m, hn, _, hm, rfl⟩ := setParameter_ok_iff.mp h
  refine ⟨m, ?_, rfl⟩
  split at hm
  · cases hm
    exact (mem_of_node? hn).2
  · cases hm

theorem Retouches.spares {c : Command} {id : NodeId} (h : g.Retouches id g')
    (hnode : c.node? .updated = some id) (hedge : c.edge? .updated = none)
    (hkeep : ∀ d, c.displaces g d = false) : g.Spares c .updated g' := by
  obtain ⟨f, rfl, hf⟩ := h
  exact spares_updateNode hnode hedge hkeep fun n hn hid => (hf n hn hid).1.trans hid

/-- A command leaves alone what it does not name. -/
theorem spares_apply (hw : g.WellFormed) {c : Command} {handle : Handle} {outcome : Outcome}
    (ha : g.apply c handle = .ok (outcome, g')) : g.Spares c outcome g' := by
  cases c <;> obtain ⟨r, hr, he⟩ := except_map_eq_ok.mp ha <;> cases he
  case createNode => exact spares_createNode hw hr
  case destroyNode => exact spares_destroyNode hr
  case beginLink => exact spares_beginEdge hw hr
  case finishLink => exact spares_finishEdge hr
  case cancelLink =>
    obtain ⟨_, rfl⟩ := cancelEdge_ok_iff.mp hr
    exact spares_dropEdge rfl fun _ => rfl
  case destroyLink =>
    obtain ⟨_, hg⟩ := destroyEdge_ok_iff.mp hr
    rw [hg]
    exact spares_dropEdge rfl fun _ => rfl
  case connect => exact spares_connect hw hr
  case setLiteral =>
    obtain ⟨m, hid, rfl⟩ := setLiteral_ok hr
    exact spares_updateNode rfl rfl (fun _ => rfl) fun _ _ _ => hid
  case setProperty => exact (retouches_setProperty hw hr).spares rfl rfl fun _ => rfl
  case setAlphaClip => exact (retouches_setAlphaClip hw hr).spares rfl rfl fun _ => rfl
  case setPosition => exact (retouches_setPosition hr).spares rfl rfl fun _ => rfl

def Apart (g : Graph) (affected : Option NodeId) (id : NodeId) : Prop :=
  ∀ a, affected = some a → ¬ ReflTransGen (Feeds g.links) a id

theorem Apart.ne {a id : NodeId} (h : g.Apart (some a) id) : id ≠ a := by
  rintro rfl
  exact h id rfl .refl

/-- Whoever feeds a node that is apart is apart. -/
theorem Apart.source {affected : Option NodeId} {l : Link} (hl : l ∈ g.links)
    (h : g.Apart affected l.target) : g.Apart affected l.source :=
  fun a ha hchain => h a ha (hchain.tail ⟨l, hl, rfl, rfl⟩)

/-- Apart from what depends on the affected node, the second graph has the kinds, literals and links
of the first. -/
structure SameApart (g : Graph) (affected : Option NodeId) (g' : Graph) : Prop where
  node : ∀ n ∈ g.nodes, g.Apart affected n.id →
    ∃ m ∈ g'.nodes, m.id = n.id ∧ m.kind = n.kind ∧ m.literal = n.literal
  link : ∀ l : Link, g.Apart affected l.target → (l ∈ g'.links ↔ l ∈ g.links)

variable {affected : Option NodeId}

theorem SameApart.of_core {g'' : Graph} (h : g.SameApart affected g') (hc : g''.core = g'.core) :
    g.SameApart affected g'' where
  node n hn ha := by
    obtain ⟨m, hm, hid, hkind, hliteral⟩ := h.node n hn ha
    obtain ⟨k, hk, hkc⟩ := core_node hc.symm hm
    obtain ⟨hkid, _, hkkind, _, hkliteral, _⟩ := Node.core_eq_iff.mp hkc
    exact ⟨k, hk, hkid.trans hid, hkkind.trans hkind, hkliteral.trans hliteral⟩
  link l ha := by rw [core_links hc, h.link l ha]

/-- Then the nodes that are apart show the same values. Their producers are apart too, so the values
are determined by what is the same. -/
theorem Evaluated.output?_apart (he : g.Evaluated) (hw : g.WellFormed) (he' : g'.Evaluated)
    (hw' : g'.WellFormed) (h : g.SameApart affected g') {n : Node} (hn : n ∈ g.nodes)
    (ha : g.Apart affected n.id) : g'.output? n.id = some n.output := by
  refine he.output_eq hw he' hw'.id_once (fun x => x) (P := g.Apart affected)
    (fun l hl => Apart.source hl) h.node ?_ hn ha
  intro m hm ham
  apply Slots.ext_at?
  intro slot
  apply Option.ext
  intro source
  rw [input_iff hw', Slots.at?_apply, Option.bind_fun_some, input_iff hw]
  exact h.link ⟨source, m.id, slot⟩ ham

theorem SameApart.of_nodes (hn : g'.nodes = g.nodes)
    (hl : ∀ l : Link, g.Apart affected l.target → (l ∈ g'.links ↔ l ∈ g.links)) :
    g.SameApart affected g' where
  node n hm _ := ⟨n, hn ▸ hm, rfl, rfl, rfl⟩
  link := hl

theorem sameApart_createNode {kind : Kind} {init : Init} {handle : Handle} {id : NodeId}
    (h : g.createNode kind init handle = .ok (id, g')) : g.SameApart none g' := by
  obtain ⟨_, n, pool, _, _, rfl⟩ := createNode_ok_iff.mp h
  exact ⟨fun m hm _ => ⟨m, List.mem_append_left _ hm, rfl, rfl, rfl⟩, fun _ _ => .rfl⟩

/-- A node that is apart from one that goes loses no producer. -/
theorem sameApart_destroyNode {id : NodeId} {n : Node} (h : g.destroyNode id = .ok (n, g')) :
    g.SameApart (some id) g' := by
  obtain ⟨_, _, rfl⟩ := destroyNode_ok_iff.mp h
  refine ⟨fun m hm ha => ⟨m, List.mem_filter.mpr ⟨hm, by simpa using ha.ne⟩, rfl, rfl, rfl⟩, ?_⟩
  intro l ha
  constructor
  · intro hl
    exact (dropEdges_links_sublist g (·.touches id)).subset hl
  · intro hl
    obtain ⟨e, he, hs, ht⟩ := mem_links.mp hl
    have hsource := (Apart.source hl ha).ne
    have htarget := ha.ne
    refine mem_links.mpr ⟨e, List.mem_filter.mpr ⟨he, ?_⟩, hs, ht⟩
    simp [Edge.touches, hs, ht, Link.socket, hsource, htarget]

theorem Linked.sameApart {source target : NodeId} {slot : Nat} {e : EdgeId}
    (h : g.Linked source target slot e g') : g.SameApart (some target) g' := by
  refine .of_nodes h.nodes fun l ha => ?_
  have hne := ha.ne
  rw [h.links.mem_iff, List.mem_append, List.mem_filter, List.mem_singleton]
  constructor
  · rintro (⟨hl, _⟩ | rfl)
    · exact hl
    · exact absurd rfl hne
  · intro hl
    exact .inl ⟨hl, by simp [Link.ends, hne]⟩

/-- Dropping an edge takes away its link at most. -/
theorem sameApart_dropEdge (hw : g.WellFormed) {id : EdgeId} {e : Edge} (he : g.edge? id = some e) :
    g.SameApart (e.target.map Socket.node) (g.dropEdges (·.id = id)) := by
  refine .of_nodes rfl fun l ha => ⟨fun hl => ?_, fun hl => ?_⟩
  · exact (dropEdges_links_sublist g (·.id = id)).subset hl
  · obtain ⟨d, hd, hs, ht⟩ := mem_links.mp hl
    refine mem_links.mpr ⟨d, List.mem_filter.mpr ⟨hd, ?_⟩, hs, ht⟩
    have hne : d.id ≠ id := by
      intro hid
      have hfound := edge?_of_mem hw.edge_once hd
      rw [hid, he] at hfound
      cases hfound
      rw [ht] at ha
      exact ha.ne rfl
    simpa using hne

/-- Changing a node leaves the other nodes as they are. -/
theorem sameApart_updateNode {id : NodeId} {f : Node → Node} :
    g.SameApart (some id) (g.updateNode id f) := by
  refine ⟨fun n hn ha => ⟨n, List.mem_map.mpr ⟨n, hn, if_neg ha.ne⟩, rfl, rfl, rfl⟩,
    fun _ _ => .rfl⟩

/-- What neither kind nor literal shows matters to no value. -/
theorem Retouches.sameApart {id : NodeId} (h : g.Retouches id g') : g.SameApart affected g' := by
  obtain ⟨f, rfl, hf⟩ := h
  refine ⟨fun n hn _ => ⟨_, List.mem_map_of_mem hn, ?_⟩, fun _ _ => .rfl⟩
  split
  · rename_i hid
    exact hf n hn hid
  · exact ⟨rfl, rfl, rfl⟩

/-- A command changes nothing that matters to the values of nodes apart from the one it affects. -/
theorem sameApart_apply (hw : g.WellFormed) {c : Command} {handle : Handle} {outcome : Outcome}
    (ha : g.apply c handle = .ok (outcome, g')) : g.SameApart (c.affected? g) g' := by
  cases c <;> obtain ⟨r, hr, he⟩ := except_map_eq_ok.mp ha <;> cases he
  case createNode => exact sameApart_createNode hr
  case destroyNode => exact sameApart_destroyNode hr
  case beginLink =>
    obtain ⟨hnodes, hlinks⟩ := begun_same hr
    exact .of_nodes hnodes fun l _ => by rw [hlinks]
  case finishLink =>
    obtain ⟨_, _, _, hlinked⟩ := linked_of_finishEdge hw hr
    exact hlinked.sameApart
  case cancelLink =>
    obtain ⟨⟨e, he⟩, rfl⟩ := cancelEdge_ok_iff.mp hr
    obtain ⟨hfound, hpending⟩ := pendingEdge_ok_iff.mp he
    have hsame := sameApart_dropEdge hw hfound
    rwa [hpending] at hsame
  case destroyLink e =>
    obtain ⟨hfound, hg⟩ := destroyEdge_ok_iff.mp hr
    rw [hg, Command.affected?, hfound]
    exact sameApart_dropEdge hw hfound
  case connect =>
    obtain ⟨_, _, hlinked⟩ := linked_of_connect hw hr
    exact hlinked.sameApart
  case setLiteral =>
    obtain ⟨m, _, rfl⟩ := setLiteral_ok hr
    exact sameApart_updateNode
  case setProperty => exact (retouches_setProperty hw hr).sameApart
  case setAlphaClip => exact (retouches_setAlphaClip hw hr).sameApart
  case setPosition => exact (retouches_setPosition hr).sameApart

end Graph

namespace Session

variable {s s' : Session}

/-- After a command every node that is still there shows the value it had, unless it depended on the
node that the command affects. Nothing else changes but the node or edge that the command names, and
the edges that give way to it. -/
theorem edits_stay_downstream (hs : s.Reachable) (ho : s.order = .topological) {c : Command}
    {handle : Handle} {outcome : Outcome} (h : s.apply c handle = .ok (outcome, s')) :
    (∀ id v v', s.graph.output? id = some v → s'.graph.output? id = some v' →
      v' = v ∨ ∃ a, c.affected? s.graph = some a ∧ dependsOn s.graph.links id a = true) ∧
      s.graph.Spares c outcome s'.graph := by
  have hw := hs.graph.wellFormed
  have hs' := hs.apply h
  obtain ⟨g, ha, hof⟩ := apply_ok h
  obtain ⟨ho', hr⟩ := ofGraph_ok hof
  have hcore := Graph.core_recompute hr
  refine ⟨?_, (Graph.spares_apply hw ha).of_core hcore⟩
  intro id v v' hv hv'
  obtain ⟨n, hn, rfl⟩ := Option.map_eq_some_iff.mp hv
  obtain ⟨hm, rfl⟩ := Graph.mem_of_node? hn
  by_cases hdep : s.graph.Apart (c.affected? s.graph) n.id
  · have hsame := (Graph.sameApart_apply hw ha).of_core hcore
    have hkept := (hs.evaluated ho).output?_apart hw (hs'.evaluated (ho'.trans ho))
      hs'.graph.wellFormed hsame hm hdep
    rw [hkept] at hv'
    exact .inl (Option.some.inj hv').symm
  · simp only [Graph.Apart, not_forall, not_not] at hdep
    obtain ⟨a, haff, hchain⟩ := hdep
    exact .inr ⟨a, haff, (dependsOn_iff _ _ _).mpr hchain⟩

/-- A sum of two numbers that feeds a negation and has a link under way, and a second negation by
it. -/
def branching : Session :=
  ((Session.new ⟨0⟩ ⟨1⟩).applyAll Handle.mk
    [.createNode .float (.literal [.one]), .createNode .float .standard, .createNode .add .standard,
      .createNode .negate .standard, .createNode .negate .standard, .connect 2 4 none,
      .connect 3 4 none, .connect 4 5 none, .connect 2 6 none, .beginLink 4]).2

def pruned : Session :=
  ((branching.apply (.destroyNode 4) ⟨9⟩).toOption.map Prod.snd).getD branching

/-- With the sum go its links and the value of the negation it fed. The other negation, fed by a
number that the sum was fed by too, keeps its link and its value. -/
theorem pruned_stays_downstream :
    branching.graph.edges = [⟨0, 2, some ⟨4, 0⟩⟩, ⟨1, 3, some ⟨4, 1⟩⟩, ⟨2, 4, some ⟨5, 0⟩⟩,
        ⟨3, 2, some ⟨6, 0⟩⟩, ⟨4, 4, none⟩] ∧
      pruned.graph.edges = [⟨3, 2, some ⟨6, 0⟩⟩] ∧ pruned.graph.ids = [0, 1, 2, 3, 5, 6] ∧
      pruned.graph.output? 5 ≠ branching.graph.output? 5 ∧
      pruned.graph.output? 6 = branching.graph.output? 6 ∧
      branching.graph.Spares (.destroyNode 4) .updated pruned.graph := by
  have hs : branching.Reachable := (Reachable.new ⟨0⟩ ⟨1⟩).applyAll Handle.mk _
  have h : branching.apply (.destroyNode 4) ⟨9⟩ = .ok (.updated, pruned) :=
    except_toOption_eq_some.mp (by decide +kernel)
  have hlocal := edits_stay_downstream hs (by decide +kernel) h
  exact ⟨by decide +kernel, by decide +kernel, by decide +kernel, by decide +kernel,
    by decide +kernel, hlocal.2⟩

end Session

end ShaderGraph

import ShaderGraph.Proofs.Linking

namespace ShaderGraph

namespace Graph

variable {g g' : Graph}

/-- No edge touches a node that is not there. -/
theorem WellFormed.untouched (hw : g.WellFormed) {id : NodeId} (hid : id ∉ g.ids) :
    ∀ e ∈ g.edges, e.touches id = false := by
  intro e he
  have hsource : e.source ≠ id := by
    intro hsame
    obtain ⟨n, hn, hnid, _⟩ := hw.source e he
    exact hid (mem_ids.mpr ⟨n, hn, hnid.trans hsame⟩)
  have htarget : ∀ p, e.target = some p → p.node ≠ id := by
    intro p hp hsame
    have hlink : ⟨e.source, p.node, p.slot⟩ ∈ g.links := mem_links.mpr ⟨e, he, rfl, hp⟩
    exact hid (hsame ▸ hw.target_mem hlink)
  cases ht : e.target with
  | none => simp [Edge.touches, hsource, ht]
  | some p => simp [Edge.touches, hsource, ht, htarget p ht]

theorem destroyNode_created (hw : g.WellFormed) {kind : Kind} {init : Init} {handle : Handle}
    {id : NodeId} (h : g.createNode kind init handle = .ok (id, g')) :
    ∃ n, g'.destroyNode id = .ok (n, g) := by
  have hw' := hw.createNode h
  obtain ⟨hsink, n, pool, ha, hn, rfl⟩ := createNode_ok_iff.mp h
  obtain ⟨rfl, rfl, _⟩ := Node.create_ok hn
  have hfresh := (hw.nodePool.allocate ha).1
  have hfound : ({ g with nodes := g.nodes ++ [n], nodeIds := pool } : Graph).node? n.id = some n :=
    node?_of_mem hw'.id_once (by simp)
  have hedges : ({ g with nodes := g.nodes ++ [n], nodeIds := pool } : Graph).dropEdges
      (·.touches n.id) = { g with nodes := g.nodes ++ [n], nodeIds := pool } :=
    dropEdges_nil (List.filter_eq_nil_iff.mpr fun e he => by simp [hw.untouched hfresh e he])
  have hnodes : (g.nodes ++ [n]).filter (·.id ≠ n.id) = g.nodes := by
    have hother : ∀ m ∈ g.nodes, m.id ≠ n.id := fun m hm hid =>
      hfresh (mem_ids.mpr ⟨m, hm, hid⟩)
    rw [List.filter_append, List.filter_eq_self.mpr (by simpa using hother)]
    simp
  refine ⟨n, destroyNode_ok_iff.mpr ⟨hfound, hsink, ?_⟩⟩
  rw [hedges]
  simp only [hnodes, hw.nodePool.tidy.release_allocated ha]

theorem destroyEdge_begun (hw : g.WellFormed) {source : NodeId} {e : EdgeId}
    (h : g.beginEdge source = .ok (e, g')) : g'.destroyEdge e = .ok (⟨e, source, none⟩, g) := by
  refine destroyEdge_ok_iff.mpr ⟨edge?_begun hw h, ?_⟩
  obtain ⟨_, pool, _, _, ha, rfl⟩ := beginEdge_ok_iff.mp h
  exact (hw.dropEdges_added (e := ⟨e, source, none⟩) ha).symm

/-- A link that took the place of none can be taken back. -/
theorem destroyEdge_connected (hw : g.WellFormed) {source target : NodeId} {request : Option Nat}
    {e : EdgeId} (hnew : g.edgeBetween? source target = none)
    (h : g.connect source target request = .ok (e, g')) :
    ∃ d, g'.destroyEdge e = .ok (d, g) := by
  obtain ⟨_, _, hlinked⟩ := linked_of_connect hw h
  refine ⟨_, destroyEdge_ok_iff.mpr ⟨hlinked.edge, ?_⟩⟩
  obtain ⟨slot, pool, _, ha, rfl⟩ := connect_ok_iff.mp h
  have hkept : g.dropEdges (·.joins source target) = g :=
    dropEdges_nil (by rw [filter_joins hw, hnew, Option.toList_none])
  rw [hkept] at ha ⊢
  exact (hw.dropEdges_added (e := ⟨e, source, some ⟨target, slot⟩⟩) ha).symm

/-- On this graph, everything that can be made can be unmade. -/
structure Undoable (g : Graph) : Prop where
  createNode : ∀ kind init handle id g', g.createNode kind init handle = .ok (id, g') →
    ∃ n, g'.destroyNode id = .ok (n, g)
  cancel : ∀ source e g', g.beginEdge source = .ok (e, g') → g'.cancelEdge e = .ok g
  beginEdge : ∀ source e g', g.beginEdge source = .ok (e, g') →
    ∃ d, g'.destroyEdge e = .ok (d, g)
  /-- As long as no link gives way to the new one. -/
  connect : ∀ source target request e g', g.edgeBetween? source target = none →
    g.connect source target request = .ok (e, g') → ∃ d, g'.destroyEdge e = .ok (d, g)

theorem WellFormed.undoable (hw : g.WellFormed) : g.Undoable where
  createNode _ _ _ _ _ h := destroyNode_created hw h
  cancel _ _ _ h := cancelEdge_begun hw h
  beginEdge _ _ _ h := ⟨_, destroyEdge_begun hw h⟩
  connect _ _ _ _ _ hnew h := destroyEdge_connected hw hnew h

end Graph

def Command.removes : Command → Bool
  | destroyNode _ | cancelLink _ | destroyLink _ => true
  | _ => false

namespace Graph

variable {g h g' : Graph}

theorem node?_core (g : Graph) (id : NodeId) : g.core.node? id = (g.node? id).map Node.core := by
  rw [node?, core, List.find?_map]
  rfl

theorem core_dropEdges (hcore : g.core = h.core) (doomed : Edge → Bool) :
    (g.dropEdges doomed).core = (h.dropEdges doomed).core :=
  congrArg (fun k : Graph => k.dropEdges doomed) hcore

theorem core_destroyed (hcore : g.core = h.core) (id : NodeId) :
    ({ g.dropEdges (·.touches id) with
      nodes := g.nodes.filter (·.id ≠ id), nodeIds := g.nodeIds.release id } : Graph).core =
    ({ h.dropEdges (·.touches id) with
      nodes := h.nodes.filter (·.id ≠ id), nodeIds := h.nodeIds.release id } : Graph).core := by
  have hfilter : ∀ ns : List Node, (ns.filter (·.id ≠ id)).map Node.core =
      (ns.map Node.core).filter (·.id ≠ id) := by
    intro ns
    rw [List.filter_map]
    rfl
  have hnodes : g.nodes.map Node.core = h.nodes.map Node.core := congrArg Graph.nodes hcore
  have hedges := congrArg Graph.edges (core_dropEdges hcore (·.touches id))
  have hpool := congrArg Graph.edgeIds (core_dropEdges hcore (·.touches id))
  simp only [core] at hedges hpool
  simp only [core, hfilter, hnodes, core_nodeIds hcore, hedges, hpool]

/-- What a removal comes to depends on nothing that passes write. -/
theorem removal_of_core (hcore : h.core = g.core) {c : Command} (hc : c.removes = true)
    {handle : Handle} {outcome : Outcome} (ha : g.apply c handle = .ok (outcome, g')) :
    ∃ h', h.apply c handle = .ok (outcome, h') ∧ h'.core = g'.core := by
  have hedge : ∀ e, h.edge? e = g.edge? e := fun e => by rw [edge?, edge?, core_edges hcore]
  cases c with
  | destroyNode id =>
    obtain ⟨⟨n, _⟩, hd, heq⟩ := except_map_eq_ok.mp ha
    cases heq
    obtain ⟨hn, hsink, rfl⟩ := destroyNode_ok_iff.mp hd
    have hfound := congrArg (·.node? id) hcore
    simp only [node?_core, hn, Option.map_some] at hfound
    obtain ⟨m, hm, hmn⟩ := Option.map_eq_some_iff.mp hfound
    have hkind : m.kind = n.kind := (Node.core_eq_iff.mp hmn).2.2.1
    refine ⟨_, except_map_eq_ok.mpr ⟨_, destroyNode_ok_iff.mpr ⟨hm, hkind ▸ hsink, rfl⟩, rfl⟩, ?_⟩
    exact core_destroyed hcore id
  | cancelLink e =>
    obtain ⟨_, hd, heq⟩ := except_map_eq_ok.mp ha
    cases heq
    obtain ⟨⟨d, hpending⟩, rfl⟩ := cancelEdge_ok_iff.mp hd
    obtain ⟨hfound, hp⟩ := pendingEdge_ok_iff.mp hpending
    have hpending' := pendingEdge_ok_iff.mpr ⟨(hedge e).trans hfound, hp⟩
    refine ⟨_, except_map_eq_ok.mpr ⟨_, cancelEdge_ok_iff.mpr ⟨⟨d, hpending'⟩, rfl⟩, rfl⟩, ?_⟩
    exact core_dropEdges hcore _
  | destroyLink e =>
    obtain ⟨⟨d, _⟩, hd, heq⟩ := except_map_eq_ok.mp ha
    cases heq
    obtain ⟨hfound, rfl⟩ := destroyEdge_ok_iff.mp hd
    refine ⟨_, except_map_eq_ok.mpr
      ⟨_, destroyEdge_ok_iff.mpr ⟨(hedge e).trans hfound, rfl⟩, rfl⟩, ?_⟩
    exact core_dropEdges hcore _
  | _ => cases hc

end Graph

namespace Session

variable {s s' : Session}

theorem Reachable.report_eq (hs : s.Reachable) :
    s.report =
      ⟨s.graph.nodes.length, (s.graph.nodes.filter fun n => !n.isValid).map (·.id)⟩ := by
  obtain ⟨g, hg, hpass⟩ := hs.pass
  exact Graph.recompute_report hg.wellFormed (ofGraph_ok hpass).2

/-- A pass over a graph that differs from a session's at most in what passes write gives the session
back. -/
theorem ofGraph_of_core (hs : s.Reachable) (ho : s.order = .topological) {g : Graph}
    (hw : g.WellFormed) (hcore : g.core = s.graph.core) : ofGraph g .topological = .ok s := by
  obtain ⟨g', report, hr, he⟩ := Graph.recompute_topological hw
  have hgraph : g' = s.graph := he.eq_of_core (hw.recompute hr) (hs.evaluated ho)
    ((Graph.core_recompute hr).trans hcore)
  have hreport := Graph.recompute_report hw hr
  rw [hgraph, ← hs.report_eq] at hreport
  simp only [ofGraph, hr, hgraph, hreport]
  rw [← ho]

/-- A removal that takes the graph of a command back takes the session back. -/
theorem apply_removal (hs : s.Reachable) (ho : s.order = .topological) {c u : Command}
    {handle handle' : Handle} {outcome : Outcome} (h : s.apply c handle = .ok (outcome, s'))
    (hu : u.removes = true)
    (hundo : ∀ g, s.graph.apply c handle = .ok (outcome, g) →
      g.apply u handle' = .ok (.updated, s.graph)) :
    s'.apply u handle' = .ok (.updated, s) := by
  obtain ⟨g, hg, hof⟩ := apply_ok h
  obtain ⟨ho', hr⟩ := ofGraph_ok hof
  obtain ⟨g', ha, hcore⟩ := Graph.removal_of_core (Graph.core_recompute hr) hu (hundo g hg)
  have hback := ofGraph_of_core hs ho ((hs.apply h).graph.wellFormed.apply ha) hcore
  simp only [Session.apply, ha, ho', ho, hback]

structure Undoable (s : Session) : Prop where
  createNode : ∀ kind init handle handle' id s',
    s.apply (.createNode kind init) handle = .ok (.node id, s') →
    s'.apply (.destroyNode id) handle' = .ok (.updated, s)
  cancel : ∀ source handle handle' e s',
    s.apply (.beginLink source) handle = .ok (.connection e, s') →
    s'.apply (.cancelLink e) handle' = .ok (.updated, s)
  beginLink : ∀ source handle handle' e s',
    s.apply (.beginLink source) handle = .ok (.connection e, s') →
    s'.apply (.destroyLink e) handle' = .ok (.updated, s)
  /-- As long as no link gives way to the new one. -/
  connect : ∀ source target request handle handle' e s',
    s.graph.edgeBetween? source target = none →
    s.apply (.connect source target request) handle = .ok (.connection e, s') →
    s'.apply (.destroyLink e) handle' = .ok (.updated, s)

theorem Reachable.undoable (hs : s.Reachable) (ho : s.order = .topological) : s.Undoable := by
  have hw := hs.graph.wellFormed
  exact {
    createNode := by
      intro kind init handle handle' id s' h
      refine apply_removal hs ho h rfl fun g hg => ?_
      obtain ⟨_, hmade, heq⟩ := except_map_eq_ok.mp hg
      cases heq
      obtain ⟨n, hundo⟩ := Graph.destroyNode_created hw hmade
      exact except_map_eq_ok.mpr ⟨_, hundo, rfl⟩
    cancel := by
      intro source handle handle' e s' h
      refine apply_removal hs ho h rfl fun g hg => ?_
      obtain ⟨_, hmade, heq⟩ := except_map_eq_ok.mp hg
      cases heq
      exact except_map_eq_ok.mpr ⟨_, Graph.cancelEdge_begun hw hmade, rfl⟩
    beginLink := by
      intro source handle handle' e s' h
      refine apply_removal hs ho h rfl fun g hg => ?_
      obtain ⟨_, hmade, heq⟩ := except_map_eq_ok.mp hg
      cases heq
      exact except_map_eq_ok.mpr ⟨_, Graph.destroyEdge_begun hw hmade, rfl⟩
    connect := by
      intro source target request handle handle' e s' hnew h
      refine apply_removal hs ho h rfl fun g hg => ?_
      obtain ⟨_, hmade, heq⟩ := except_map_eq_ok.mp hg
      cases heq
      obtain ⟨d, hundo⟩ := Graph.destroyEdge_connected hw hnew hmade
      exact except_map_eq_ok.mpr ⟨_, hundo, rfl⟩ }

/-- On any graph and in any session in topological order, making a node, starting an edge or linking
two nodes that were not linked, and then taking away what was made, gives the very graph and session
back. -/
theorem undoing_restores {g : Graph} (hg : g.Reachable) (hs : s.Reachable)
    (ho : s.order = .topological) : g.Undoable ∧ s.Undoable :=
  ⟨hg.wellFormed.undoable, hs.undoable ho⟩

/-- A negation whose number is gone, another number, and an edge under way. The id of a node and
that of an edge are free below others that are in use. -/
def vacated : Session :=
  ((Session.new ⟨0⟩ ⟨1⟩).applyAll Handle.mk
    [.createNode .float .standard, .createNode .negate .standard, .createNode .float .standard,
      .connect 2 3 none, .beginLink 4, .destroyNode 2]).2

def refilled : Session :=
  ((vacated.apply (.connect 4 3 none) ⟨9⟩).toOption.map Prod.snd).getD vacated

/-- The link takes the free id and gives the negation a value; without the link both are gone again.
A node that takes the free id can go as well. -/
theorem refilled_undone :
    vacated.graph.nodeIds = ⟨1024, 5, [2]⟩ ∧ vacated.graph.edgeIds = ⟨4096, 2, [0]⟩ ∧
      vacated.apply (.connect 4 3 none) ⟨9⟩ = .ok (.connection 0, refilled) ∧
      vacated.report = ⟨4, [3]⟩ ∧ refilled.report = ⟨4, []⟩ ∧
      refilled.apply (.destroyLink 0) ⟨9⟩ = .ok (.updated, vacated) ∧
      ∃ g', vacated.graph.createNode .time .standard ⟨9⟩ = .ok (2, g') ∧
        ∃ n, g'.destroyNode 2 = .ok (n, vacated.graph) := by
  have hs : vacated.Reachable := (Reachable.new ⟨0⟩ ⟨1⟩).applyAll Handle.mk _
  have hlink : vacated.apply (.connect 4 3 none) ⟨9⟩ = .ok (.connection 0, refilled) :=
    except_toOption_eq_some.mp (by decide +kernel)
  have hnode : ((vacated.graph.createNode .time .standard ⟨9⟩).toOption.map Prod.fst) = some 2 := by
    decide +kernel
  obtain ⟨⟨_, g'⟩, hnode, rfl⟩ := Option.map_eq_some_iff.mp hnode
  have hnode := except_toOption_eq_some.mp hnode
  obtain ⟨hgraph, hsession⟩ := undoing_restores hs.graph hs (by decide +kernel)
  refine ⟨by decide +kernel, by decide +kernel, hlink, by decide +kernel, by decide +kernel, ?_,
    g', hnode, hgraph.createNode _ _ _ _ _ hnode⟩
  exact hsession.connect 4 3 none ⟨9⟩ ⟨9⟩ 0 refilled (by decide +kernel) hlink

end Session

end ShaderGraph

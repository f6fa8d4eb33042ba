import ShaderGraph.Proofs.Coherence
import ShaderGraph.Proofs.Denotation

namespace ShaderGraph

namespace Graph

variable {g g₁ g₂ : Graph} {source target : NodeId} {request : Option Nat} {slot : Nat}
  {id e : EdgeId}

/-- A link check sees the nodes and the links, and so no pending edge. -/
theorem checkLink_congr (hn : g.nodes = g₁.nodes) (hl : g.links = g₁.links) :
    g.checkLink source target request = g₁.checkLink source target request := by
  simp only [checkLink, node?, output?, inputsOf, hn, hl]

theorem links_dropJoining (g : Graph) (source target : NodeId) :
    (g.dropEdges (·.joins source target)).links =
      g.links.filter (·.ends ≠ (source, target)) := by
  simp only [links, dropEdges, List.filterMap_filter, List.filter_filterMap]
  congr 1
  funext e
  obtain ⟨id, s, t⟩ := e
  cases t with
  | none => simp [Edge.joins, Edge.link?]
  | some p =>
    by_cases hj : s = source ∧ p.node = target
    · simp [Edge.joins, Edge.link?, Link.ends, hj, Option.filter]
    · simp [Edge.joins, Edge.link?, Link.ends, hj, Option.filter]

/-- What either way of linking comes to: the nodes stay, and the new link takes the place of the one
that joined the same two nodes. -/
structure Linked (g : Graph) (source target : NodeId) (slot : Nat) (id : EdgeId) (g' : Graph) :
    Prop where
  nodes : g'.nodes = g.nodes
  edge : g'.edge? id = some ⟨id, source, some ⟨target, slot⟩⟩
  links : g'.links.Perm (g.links.filter (·.ends ≠ (source, target)) ++ [⟨source, target, slot⟩])

theorem linked_of_connect (hw : g.WellFormed)
    (h : g.connect source target request = .ok (id, g₁)) :
    ∃ slot, g.checkLink source target request = .ok slot ∧ g.Linked source target slot id g₁ := by
  have hw₁ := hw.connect h
  obtain ⟨slot, pool, hslot, ha, rfl⟩ := connect_ok_iff.mp h
  refine ⟨slot, hslot, rfl, ?_, ?_⟩
  · exact edge?_of_mem hw₁.edge_once (e := ⟨id, source, some ⟨target, slot⟩⟩) (by simp)
  · rw [← links_dropJoining]
    simp [links, Edge.link?]

theorem linked_of_finishEdge (hw : g.WellFormed)
    (h : g.finishEdge e target request = .ok (slot, g₁)) :
    ∃ d, g.pendingEdge e = .ok d ∧ g.checkLink d.source target request = .ok slot ∧
      g.Linked d.source target slot e g₁ := by
  have hw₁ := hw.finishEdge h
  obtain ⟨d, hd, hslot, rfl⟩ := finishEdge_ok_iff.mp h
  obtain ⟨hm, rfl, hp⟩ := WellFormed.pendingEdge_ok hd
  have hkept : d ∈ (g.dropEdges (·.joins d.source target)).edges :=
    List.mem_filter.mpr ⟨hm, by simp [Edge.joins, hp]⟩
  refine ⟨d, hd, hslot, rfl, ?_, ?_⟩
  · refine edge?_of_mem hw₁.edge_once (e := ⟨d.id, d.source, some ⟨target, slot⟩⟩) ?_
    exact List.mem_map.mpr ⟨d, hkept, by simp⟩
  · rw [← links_dropJoining]
    exact WellFormed.links_land (hw.dropEdges _).edge_once hkept hp ⟨target, slot⟩

theorem inputsOf_of_links (hw : g.WellFormed) (hw₁ : g₁.WellFormed)
    (hl : ∀ l, l ∈ g.links ↔ l ∈ g₁.links) (n : NodeId) : g.inputsOf n = g₁.inputsOf n := by
  apply Slots.ext_at?
  intro slot
  apply Option.ext
  intro source
  rw [input_iff hw, input_iff hw₁, hl]

/-- An edge that is stored under the next free id and dropped again leaves no trace, not even in the
pool of ids. -/
theorem WellFormed.dropEdges_added (hw : g.WellFormed) {e : Edge} {pool : IdPool}
    (ha : g.edgeIds.allocate? = some (e.id, pool)) :
    ({ g with edges := g.edges ++ [e], edgeIds := pool } : Graph).dropEdges (·.id = e.id) = g := by
  have hfresh := (hw.edgePool.allocate ha).1
  have hother : ∀ d ∈ g.edges, d.id ≠ e.id := fun d hd hid =>
    hfresh (hid ▸ List.mem_map_of_mem hd)
  have hgone : (g.edges ++ [e]).filter (·.id = e.id) = [e] := by
    rw [List.filter_append, List.filter_eq_nil_iff.mpr (by simpa using hother)]
    simp
  have hkept : (g.edges ++ [e]).filter (fun d => !decide (d.id = e.id)) = g.edges := by
    rw [List.filter_append, List.filter_eq_self.mpr (by simpa using hother)]
    simp
  simp only [Graph.dropEdges, hgone, hkept, List.foldl_cons, List.foldl_nil,
    hw.edgePool.tidy.release_allocated ha]

section Begun

variable (hw : g.WellFormed) (hb : g.beginEdge source = .ok (e, g₁))
include hw hb

theorem edge?_begun : g₁.edge? e = some ⟨e, source, none⟩ := by
  have hw₁ := hw.beginEdge hb
  obtain ⟨n, pool, _, _, _, rfl⟩ := beginEdge_ok_iff.mp hb
  exact edge?_of_mem hw₁.edge_once (e := ⟨e, source, none⟩) (by simp)

theorem pendingEdge_begun : g₁.pendingEdge e = .ok ⟨e, source, none⟩ :=
  pendingEdge_ok_iff.mpr ⟨edge?_begun hw hb, rfl⟩

omit hw in
theorem begun_same : g₁.nodes = g.nodes ∧ g₁.links = g.links := by
  obtain ⟨n, pool, _, _, _, rfl⟩ := beginEdge_ok_iff.mp hb
  exact ⟨rfl, by simp [links, Edge.link?]⟩

omit hw in
theorem checkLink_begun :
    g₁.checkLink source target request = g.checkLink source target request :=
  checkLink_congr (begun_same hb).1 (begun_same hb).2

/-- Leading a started edge into a node comes to what the link check says of the graph before. -/
theorem finishEdge_begun_ok_iff :
    (∃ g₂, g₁.finishEdge e target request = .ok (slot, g₂)) ↔
      g.checkLink source target request = .ok slot := by
  rw [← checkLink_begun hb]
  constructor
  · rintro ⟨g₂, hf⟩
    obtain ⟨d, hd, hslot, _⟩ := finishEdge_ok_iff.mp hf
    rw [pendingEdge_begun hw hb] at hd
    cases hd
    exact hslot
  · intro hslot
    exact ⟨_, finishEdge_ok_iff.mpr ⟨_, pendingEdge_begun hw hb, hslot, rfl⟩⟩

theorem finishEdge_begun_error {err : GraphError}
    (hf : g₁.finishEdge e target request = .error err) :
    g.connect source target request = .error err := by
  rw [finishEdge, pendingEdge_begun hw hb] at hf
  simp only [checkLink_begun hb] at hf
  cases hc : g.checkLink source target request with
  | ok slot =>
    rw [hc] at hf
    cases hf
  | error cause =>
    rw [hc] at hf
    rw [connect, hc]
    cases hf
    rfl

theorem linked_of_finish_begun (hf : g₁.finishEdge e target request = .ok (slot, g₂)) :
    g.Linked source target slot e g₂ := by
  obtain ⟨hnodes, hlinks⟩ := begun_same hb
  obtain ⟨d, hd, _, hlinked⟩ := linked_of_finishEdge (hw.beginEdge hb) hf
  rw [pendingEdge_begun hw hb] at hd
  cases hd
  exact ⟨hlinked.nodes.trans hnodes, hlinked.edge, hlinks ▸ hlinked.links⟩

/-- Taking a started edge back leaves no trace, not even in the pool of ids. -/
theorem cancelEdge_begun : g₁.cancelEdge e = .ok g := by
  refine cancelEdge_ok_iff.mpr ⟨⟨_, pendingEdge_begun hw hb⟩, ?_⟩
  obtain ⟨n, pool, _, _, ha, rfl⟩ := beginEdge_ok_iff.mp hb
  exact (hw.dropEdges_added (e := ⟨e, source, none⟩) ha).symm

end Begun

theorem beginEdge_of_checkLink (hw : g.WellFormed) (hroom : g.edges.length < maxEdges)
    (hc : g.checkLink source target request = .ok slot) :
    ∃ e g₁, g.beginEdge source = .ok (e, g₁) := by
  obtain ⟨a, _, ha, _, hsink, _⟩ := checkLink_ok_iff.mp hc
  obtain ⟨e, pool, halloc⟩ := hw.edgePool.allocate_of_lt (by simpa using hroom)
  exact ⟨e, _, beginEdge_ok_iff.mpr ⟨a, pool, ha, hsink, halloc, rfl⟩⟩

theorem connect_of_checkLink (hw : g.WellFormed) (hroom : g.edges.length < maxEdges)
    (hc : g.checkLink source target request = .ok slot) :
    ∃ id g₁, g.connect source target request = .ok (id, g₁) := by
  have hle : (g.dropEdges (·.joins source target)).edges.length ≤ g.edges.length :=
    List.length_filter_le _ _
  obtain ⟨id, pool, halloc⟩ :=
    (hw.dropEdges (·.joins source target)).edgePool.allocate_of_lt (by simpa using by omega)
  exact ⟨id, _, connect_ok_iff.mpr ⟨slot, pool, hc, halloc, rfl⟩⟩

/-- On this graph, connecting and starting an edge that is then led into its target are alike. -/
structure LinksAlike (g : Graph) (source target : NodeId) (request : Option Nat) : Prop where
  /-- One goes through just when the other does. -/
  succeeds : (∃ id g', g.connect source target request = .ok (id, g')) ↔
    ∃ e g₁ slot g₂, g.beginEdge source = .ok (e, g₁) ∧
      g₁.finishEdge e target request = .ok (slot, g₂)
  /-- They settle on the same slot and leave the same nodes and links. -/
  agrees : ∀ id g' e g₁ slot g₂, g.connect source target request = .ok (id, g') →
    g.beginEdge source = .ok (e, g₁) → g₁.finishEdge e target request = .ok (slot, g₂) →
    g'.edge? id = some ⟨id, source, some ⟨target, slot⟩⟩ ∧
      g₂.edge? e = some ⟨e, source, some ⟨target, slot⟩⟩ ∧ g'.nodes = g₂.nodes ∧
      (∀ l, l ∈ g'.links ↔ l ∈ g₂.links) ∧ ∀ n, g'.inputsOf n = g₂.inputsOf n
  /-- They are refused for the same reason, and taking the edge back restores the graph. -/
  restores : ∀ e g₁ err, g.beginEdge source = .ok (e, g₁) →
    g₁.finishEdge e target request = .error err →
    g.connect source target request = .error err ∧ g₁.cancelEdge e = .ok g

theorem linksAlike_of_wellFormed (hw : g.WellFormed) (hroom : g.edges.length < maxEdges)
    (source target : NodeId) (request : Option Nat) : g.LinksAlike source target request where
  succeeds := by
    constructor
    · rintro ⟨id, g', hc⟩
      obtain ⟨slot, hslot, _⟩ := linked_of_connect hw hc
      obtain ⟨e, g₁, hb⟩ := beginEdge_of_checkLink hw hroom hslot
      obtain ⟨g₂, hf⟩ := (finishEdge_begun_ok_iff hw hb).mpr hslot
      exact ⟨e, g₁, slot, g₂, hb, hf⟩
    · rintro ⟨e, g₁, slot, g₂, hb, hf⟩
      exact connect_of_checkLink hw hroom ((finishEdge_begun_ok_iff hw hb).mp ⟨g₂, hf⟩)
  agrees := by
    intro id g' e g₁ slot g₂ hc hb hf
    obtain ⟨slot', hslot', hone⟩ := linked_of_connect hw hc
    have htwo := linked_of_finish_begun hw hb hf
    have hslot := (finishEdge_begun_ok_iff hw hb).mp ⟨g₂, hf⟩
    rw [hslot] at hslot'
    cases hslot'
    have hlinks : ∀ l, l ∈ g'.links ↔ l ∈ g₂.links :=
      fun l => (hone.links.trans htwo.links.symm).mem_iff
    exact ⟨hone.edge, htwo.edge, hone.nodes.trans htwo.nodes.symm, hlinks,
      inputsOf_of_links (hw.connect hc) ((hw.beginEdge hb).finishEdge hf) hlinks⟩
  restores := by
    intro e g₁ err hb hf
    exact ⟨finishEdge_begun_error hw hb hf, cancelEdge_begun hw hb⟩

theorem Evaluated.congr (he : g.Evaluated) (hn : g₁.nodes = g.nodes) (hl : g₁.links = g.links) :
    g₁.Evaluated := by
  have houtput : g₁.output? = g.output? := by
    funext id
    rw [output?, output?, node?, node?, hn]
  constructor
  · intro n hm
    rw [he.inputs n (hn ▸ hm), inputsOf, inputsOf, hl]
  · intro n hm
    rw [he.output n (hn ▸ hm), valueIn, valueIn, inputsOf, inputsOf, hl, houtput]

/-- Evaluated graphs of the same circuit show the same values. -/
theorem Evaluated.output?_of_circuit (he : g.Evaluated) (hw : g.WellFormed) (he₁ : g₁.Evaluated)
    (hw₁ : g₁.WellFormed) (hc : g.circuit = g₁.circuit) (id : NodeId) :
    g.output? id = g₁.output? id := by
  apply Option.ext
  intro v
  rw [← he.denotes_iff hw, ← he₁.denotes_iff hw₁, hc]

end Graph

namespace Session

variable {s s' s₁ s₂ : Session}

/-- What a pass finds evaluated it leaves as it is. -/
theorem ofGraph_evaluated {g : Graph} (hw : g.WellFormed) (he : g.Evaluated) :
    ∃ s, ofGraph g .topological = .ok s ∧ s.graph = g := by
  obtain ⟨g', report, hr, he'⟩ := Graph.recompute_topological hw
  refine ⟨⟨g', .topological, report⟩, by simp only [ofGraph, hr], ?_⟩
  exact (he.eq_of_core hw he' (Graph.core_recompute hr).symm).symm

/-- Commands that a graph carries out are carried out. -/
theorem apply_of_graph (hw : s.graph.WellFormed) {c : Command} {handle : Handle} {outcome : Outcome}
    {g : Graph} (ha : s.graph.apply c handle = .ok (outcome, g)) :
    ∃ s', s.apply c handle = .ok (outcome, s') := by
  obtain ⟨g', report, hr⟩ := Graph.recompute_ok (hw.apply ha) s.order
  have ho : ofGraph g s.order = .ok ⟨g', s.order, report⟩ := by simp only [ofGraph, hr]
  exact ⟨⟨g', s.order, report⟩, by simp only [Session.apply, ha, ho]⟩

/-- It is the graph that refuses a command: no pass fails. -/
theorem apply_error_iff (hw : s.graph.WellFormed) {c : Command} {handle : Handle}
    {err : SessionError} :
    s.apply c handle = .error err ↔
      ∃ cause, s.graph.apply c handle = .error cause ∧ err = .graph cause := by
  cases ha : s.graph.apply c handle with
  | error cause => simp [Session.apply, ha, eq_comm]
  | ok r =>
    obtain ⟨s', hs'⟩ := apply_of_graph hw ha
    simp [hs']

structure LinksAlike (s : Session) (source target : NodeId) (request : Option Nat)
    (handle handle' : Handle) : Prop where
  /-- One goes through just when the other does. -/
  succeeds : (∃ id s', s.apply (.connect source target request) handle = .ok (.connection id, s')) ↔
    ∃ e s₁ s₂, s.apply (.beginLink source) handle = .ok (.connection e, s₁) ∧
      s₁.apply (.finishLink e target request) handle' = .ok (.connection e, s₂)
  /-- They settle on the same slot and leave the same links and the same values. -/
  agrees : ∀ id s' e s₁ s₂,
    s.apply (.connect source target request) handle = .ok (.connection id, s') →
    s.apply (.beginLink source) handle = .ok (.connection e, s₁) →
    s₁.apply (.finishLink e target request) handle' = .ok (.connection e, s₂) →
    (∃ slot, s'.graph.edge? id = some ⟨id, source, some ⟨target, slot⟩⟩ ∧
      s₂.graph.edge? e = some ⟨e, source, some ⟨target, slot⟩⟩) ∧
      (∀ l, l ∈ s'.graph.links ↔ l ∈ s₂.graph.links) ∧
      (∀ n, s'.graph.inputsOf n = s₂.graph.inputsOf n) ∧
      ∀ n, s'.graph.output? n = s₂.graph.output? n
  /-- They are refused for the same reason, and taking the edge back restores the session. -/
  restores : ∀ e s₁ err, s.apply (.beginLink source) handle = .ok (.connection e, s₁) →
    s₁.apply (.finishLink e target request) handle' = .error err →
    s.apply (.connect source target request) handle = .error err ∧
      s₁.apply (.cancelLink e) handle' = .ok (.updated, s)

section Commands

variable {source target : NodeId} {request : Option Nat} {slot : Nat} {id e : EdgeId}
  {handle : Handle}

/-- Starting an edge adds it to the graph, and the pass finds nothing to do. -/
theorem apply_beginLink_iff (hs : s.Reachable) (ho : s.order = .topological) :
    s.apply (.beginLink source) handle = .ok (.connection e, s₁) ↔
      s.graph.beginEdge source = .ok (e, s₁.graph) ∧
        ofGraph s₁.graph .topological = .ok s₁ := by
  have hw := hs.graph.wellFormed
  have heval := hs.evaluated ho
  have hpass : ∀ g₁, s.graph.beginEdge source = .ok (e, g₁) →
      ∃ t, ofGraph g₁ .topological = .ok t ∧ t.graph = g₁ := by
    intro g₁ hb
    obtain ⟨hnodes, hlinks⟩ := Graph.begun_same hb
    exact ofGraph_evaluated (hw.beginEdge hb) (heval.congr hnodes hlinks)
  constructor
  · intro h
    obtain ⟨g₁, hg, hof⟩ := apply_ok h
    obtain ⟨⟨_, _⟩, hb, heq⟩ := except_map_eq_ok.mp hg
    cases heq
    obtain ⟨t, ht, htg⟩ := hpass _ hb
    rw [ho, ht] at hof
    cases hof
    exact ⟨htg ▸ hb, htg ▸ ht⟩
  · rintro ⟨hb, hof⟩
    have hg : s.graph.apply (.beginLink source) handle = .ok (.connection e, s₁.graph) :=
      except_map_eq_ok.mpr ⟨_, hb, rfl⟩
    simp only [Session.apply, hg, ho, hof]

theorem apply_connect_ok
    (h : s.apply (.connect source target request) handle = .ok (.connection id, s')) :
    ∃ g', s.graph.connect source target request = .ok (id, g') ∧ ofGraph g' s.order = .ok s' := by
  obtain ⟨g', hg, hof⟩ := apply_ok h
  obtain ⟨⟨_, _⟩, hc, heq⟩ := except_map_eq_ok.mp hg
  cases heq
  exact ⟨g', hc, hof⟩

theorem apply_finishLink_ok {outcome : Outcome}
    (h : s.apply (.finishLink e target request) handle = .ok (outcome, s')) :
    ∃ slot g', s.graph.finishEdge e target request = .ok (slot, g') ∧
      ofGraph g' s.order = .ok s' := by
  obtain ⟨g', hg, hof⟩ := apply_ok h
  obtain ⟨⟨slot, _⟩, hf, heq⟩ := except_map_eq_ok.mp hg
  cases heq
  exact ⟨slot, g', hf, hof⟩

end Commands

/-- Passes over graphs with the same nodes and links leave the same values. -/
theorem output?_of_same {g g₁ : Graph} (hw : g.WellFormed) (hw₁ : g₁.WellFormed)
    (hnodes : g.nodes = g₁.nodes) (hlinks : ∀ l, l ∈ g.links ↔ l ∈ g₁.links)
    (hof : ofGraph g .topological = .ok s) (hof₁ : ofGraph g₁ .topological = .ok s₁) (n : NodeId) :
    s.graph.output? n = s₁.graph.output? n := by
  have hr := (ofGraph_ok hof).2
  have hr₁ := (ofGraph_ok hof₁).2
  have hcircuit : g.circuit = g₁.circuit := by
    apply Circuit.ext
    · rw [Graph.circuit, Graph.circuit, hnodes]
    · exact Set.ext hlinks
  refine (Graph.evaluated_of_recompute hw hr).output?_of_circuit (hw.recompute hr)
    (Graph.evaluated_of_recompute hw₁ hr₁) (hw₁.recompute hr₁) ?_ n
  rw [Graph.circuit_core (Graph.core_recompute hr), hcircuit,
    Graph.circuit_core (Graph.core_recompute hr₁)]

theorem linksAlike_of_reachable (hs : s.Reachable) (ho : s.order = .topological)
    (hroom : s.graph.edges.length < Graph.maxEdges) (source target : NodeId) (request : Option Nat)
    (handle handle' : Handle) : s.LinksAlike source target request handle handle' := by
  have hw := hs.graph.wellFormed
  have halike := Graph.linksAlike_of_wellFormed hw hroom source target request
  exact {
    succeeds := by
      constructor
      · rintro ⟨id, s', h⟩
        obtain ⟨g', hc, _⟩ := apply_connect_ok h
        obtain ⟨e, g₁, slot, g₂, hb, hf⟩ := halike.succeeds.mp ⟨id, g', hc⟩
        obtain ⟨s₁, hs₁⟩ : ∃ s₁, s.apply (.beginLink source) handle = .ok (.connection e, s₁) :=
          apply_of_graph hw (except_map_eq_ok.mpr ⟨_, hb, rfl⟩)
        have hb₁ := ((apply_beginLink_iff hs ho).mp hs₁).1
        rw [hb] at hb₁
        cases hb₁
        obtain ⟨s₂, hs₂⟩ : ∃ s₂, s₁.apply (.finishLink e target request) handle' =
            .ok (.connection e, s₂) :=
          apply_of_graph (hw.beginEdge hb) (except_map_eq_ok.mpr ⟨_, hf, rfl⟩)
        exact ⟨e, s₁, s₂, hs₁, hs₂⟩
      · rintro ⟨e, s₁, s₂, hbegin, hfinish⟩
        obtain ⟨hb, _⟩ := (apply_beginLink_iff hs ho).mp hbegin
        obtain ⟨slot, g₂, hf, _⟩ := apply_finishLink_ok hfinish
        obtain ⟨id, g', hc⟩ := halike.succeeds.mpr ⟨e, _, slot, g₂, hb, hf⟩
        exact ⟨id, apply_of_graph hw (except_map_eq_ok.mpr ⟨_, hc, rfl⟩)⟩
    agrees := by
      intro id s' e s₁ s₂ hconnect hbegin hfinish
      obtain ⟨g', hc, hof'⟩ := apply_connect_ok hconnect
      obtain ⟨hb, hof₁⟩ := (apply_beginLink_iff hs ho).mp hbegin
      obtain ⟨slot, g₂, hf, hof₂⟩ := apply_finishLink_ok hfinish
      obtain ⟨hedge', hedge₂, hnodes, hlinks, hinputs⟩ := halike.agrees id g' e _ slot g₂ hc hb hf
      have hcore' := Graph.core_recompute (ofGraph_ok hof').2
      have hcore₂ := Graph.core_recompute (ofGraph_ok hof₂).2
      refine ⟨⟨slot, ?_, ?_⟩, ?_, ?_, ?_⟩
      · rwa [Graph.edge?, Graph.core_edges hcore']
      · rwa [Graph.edge?, Graph.core_edges hcore₂]
      · rwa [Graph.core_links hcore', Graph.core_links hcore₂]
      · intro n
        rw [Graph.core_inputsOf hcore', Graph.core_inputsOf hcore₂, hinputs]
      · rw [ho] at hof'
        rw [(ofGraph_ok hof₁).1] at hof₂
        exact output?_of_same (hw.connect hc) ((hw.beginEdge hb).finishEdge hf) hnodes hlinks
          hof' hof₂
    restores := by
      intro e s₁ err hbegin hfinish
      obtain ⟨hb, hof₁⟩ := (apply_beginLink_iff hs ho).mp hbegin
      obtain ⟨cause, hf, rfl⟩ := (apply_error_iff (hw.beginEdge hb)).mp hfinish
      obtain ⟨hc, hcancel⟩ := halike.restores e _ cause hb (except_map_eq_error.mp hf)
      refine ⟨(apply_error_iff hw).mpr ⟨cause, except_map_eq_error.mpr hc, rfl⟩, ?_⟩
      have hg : s₁.graph.apply (.cancelLink e) handle' = .ok (.updated, s.graph) :=
        except_map_eq_ok.mpr ⟨_, hcancel, rfl⟩
      -- the pass finds the graph as the last one left it
      have hsettled := hs.settled ho
      rw [Session.recompute, ho] at hsettled
      simp only [Session.apply, hg, (ofGraph_ok hof₁).1, hsettled] }

/-- Linking in one step and in two is the same, on any graph and in any session with room for one
more edge: both ways go through, with one outcome, or both are refused for one reason, and then the
started edge can be taken back as if it had never been. -/
theorem two_phase_linking_agrees {g : Graph} (hg : g.Reachable)
    (hroom : g.edges.length < Graph.maxEdges) (hs : s.Reachable) (ho : s.order = .topological)
    (hsroom : s.graph.edges.length < Graph.maxEdges) (source target : NodeId)
    (request : Option Nat) (handle handle' : Handle) :
    g.LinksAlike source target request ∧ s.LinksAlike source target request handle handle' :=
  ⟨Graph.linksAlike_of_wellFormed hg.wellFormed hroom source target request,
    linksAlike_of_reachable hs ho hsroom source target request handle handle'⟩

/-- Two vectors, the second of them longer, and a dot product that the first is linked to. -/
def dotCommands : List Command :=
  [.createNode .vector3 .standard, .createNode .vector4 .standard, .createNode .dot .standard,
    .connect 2 4 none]

/-- The first vector can be linked again to the other slot, also in two steps. The second does not
fit, and no edge is left over from trying. -/
theorem dot_links_alike :
    (((Session.new ⟨0⟩ ⟨1⟩).applyAll Handle.mk dotCommands).2.apply (.connect 2 4 (some 1))
        ⟨5⟩).toOption.map (fun r => (r.1, r.2.graph.edges)) =
          some (.connection 0, [⟨0, 2, some ⟨4, 1⟩⟩]) ∧
      ((Session.new ⟨0⟩ ⟨1⟩).applyAll Handle.mk dotCommands).2.LinksAlike 2 4 (some 1) ⟨5⟩ ⟨6⟩ ∧
      (((Session.new ⟨0⟩ ⟨1⟩).applyAll Handle.mk dotCommands).2.apply (.connect 3 4 none)
        ⟨5⟩).toOption = none ∧
      ((Session.new ⟨0⟩ ⟨1⟩).applyAll Handle.mk dotCommands).2.graph.LinksAlike 3 4 none := by
  have hs := (Reachable.new ⟨0⟩ ⟨1⟩).applyAll Handle.mk dotCommands
  have ho : ((Session.new ⟨0⟩ ⟨1⟩).applyAll Handle.mk dotCommands).2.order = .topological := by
    decide +kernel
  have hroom : ((Session.new ⟨0⟩ ⟨1⟩).applyAll Handle.mk dotCommands).2.graph.edges.length <
      Graph.maxEdges := by
    decide +kernel
  refine ⟨by decide +kernel, ?_, by decide +kernel, ?_⟩
  · exact (two_phase_linking_agrees hs.graph hroom hs ho hroom 2 4 (some 1) ⟨5⟩ ⟨6⟩).2
  · exact (two_phase_linking_agrees hs.graph hroom hs ho hroom 3 4 none ⟨5⟩ ⟨6⟩).1

end Session

end ShaderGraph

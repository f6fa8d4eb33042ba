import Mathlib.Data.Set.Basic
import ShaderGraph.Proofs.Overflow
import ShaderGraph.Proofs.Reachable

namespace ShaderGraph

/-- All that the values of a graph depend on: its nodes, each with its kind and literal, and its
links. -/
@[ext]
structure Circuit where
  nodes : Set (NodeId × Kind × Value)
  links : Set Link

/-- A node has the value that its kind makes of its literal and of the values of its producers, each
in the slot that its link leads into. -/
inductive Circuit.Denotes (c : Circuit) : NodeId → Value → Prop where
  | intro {id : NodeId} {kind : Kind} {literal : Value} {operands : Slots Value}
      (node : (id, kind, literal) ∈ c.nodes)
      (vacant : ∀ slot, operands.at? slot = none ↔ ∀ source, ⟨source, id, slot⟩ ∉ c.links)
      (fed : ∀ source slot v, ⟨source, id, slot⟩ ∈ c.links → operands.at? slot = some v →
        Denotes c source v) :
      Denotes c id (evaluate kind literal operands)

namespace Graph

def lawOf (n : Node) : NodeId × Kind × Value := (n.id, n.kind, n.literal)

def circuit (g : Graph) : Circuit where
  nodes := { law | law ∈ g.nodes.map lawOf }
  links := { l | l ∈ g.links }

variable {g g' h : Graph} {report : Report}

theorem mem_circuit {id : NodeId} {kind : Kind} {literal : Value} :
    (id, kind, literal) ∈ g.circuit.nodes ↔
      ∃ n ∈ g.nodes, n.id = id ∧ n.kind = kind ∧ n.literal = literal := by
  simp [circuit, lawOf]

theorem circuit_congr (hn : (g.nodes.map lawOf).Perm (h.nodes.map lawOf))
    (hl : g.links.Perm h.links) : g.circuit = h.circuit := by
  apply Circuit.ext
  · ext law
    exact hn.mem_iff
  · ext l
    exact hl.mem_iff

theorem circuit_core (hc : g.core = h.core) : g.circuit = h.circuit := by
  have hnodes : g.nodes.map Node.core = h.nodes.map Node.core := congrArg Graph.nodes hc
  refine circuit_congr (List.Perm.of_eq ?_) (List.Perm.of_eq (core_links hc))
  have := congrArg (List.map lawOf) hnodes
  rw [List.map_map, List.map_map] at this
  exact this

theorem WellFormed.at?_eq_none (hw : g.WellFormed) {id : NodeId} {slot : Nat} :
    (g.inputsOf id).at? slot = none ↔ ∀ source, ⟨source, id, slot⟩ ∉ g.links := by
  rw [Option.eq_none_iff_forall_ne_some]
  exact forall_congr' fun source => not_congr (input_iff hw)

/-- The operands of a denotation are the values that the producers show. -/
theorem Evaluated.output?_of_denotes (he : g.Evaluated) (hw : g.WellFormed) {id : NodeId}
    {v : Value} (hd : g.circuit.Denotes id v) : g.output? id = some v := by
  induction hd with
  | @intro id kind literal operands hnode hvacant _ ih =>
    obtain ⟨n, hn, rfl, rfl, rfl⟩ := mem_circuit.mp hnode
    have hoperands : (g.inputsOf n.id).apply g.output? = operands := by
      apply Slots.ext_at?
      intro slot
      rw [Slots.at?_apply]
      cases hi : (g.inputsOf n.id).at? slot with
      | none => exact ((hvacant slot).mpr (hw.at?_eq_none.mp hi)).symm
      | some source =>
        have hlink := (input_iff hw).mp hi
        cases ho : operands.at? slot with
        | none => exact absurd hlink ((hvacant slot).mp ho source)
        | some v => exact ih source slot v hlink ho
    rw [output?_of_mem hw.id_once hn, he.output n hn, valueIn, hoperands]

/-- Every node denotes the value that it shows. The induction is along an order in which producers
come first. -/
theorem Evaluated.denotes (he : g.Evaluated) (hw : g.WellFormed) {n : Node} (hn : n ∈ g.nodes) :
    g.circuit.Denotes n.id n.output := by
  obtain ⟨order, _, hsorted⟩ := topologicalOrder_ok hw
  induction hk : order.idxOf n.id using Nat.strongRecOn generalizing n with
  | ind k ih =>
    rw [he.output n hn]
    refine .intro (mem_circuit.mpr ⟨n, hn, rfl, rfl, rfl⟩) ?_ ?_
    · intro slot
      refine Iff.trans ?_ hw.at?_eq_none
      rw [Slots.at?_apply]
      cases hi : (g.inputsOf n.id).at? slot with
      | none => simp
      | some source =>
        obtain ⟨p, hp, rfl⟩ := hw.producer hi
        simp [output?_of_mem hw.id_once hp]
    · intro source slot v hlink hv
      rw [Slots.at?_apply, (input_iff hw).mpr hlink, Option.bind_some] at hv
      obtain ⟨p, hp, rfl⟩ := mem_ids.mp (hw.source_mem hlink)
      rw [output?_of_mem hw.id_once hp] at hv
      cases hv
      exact ih _ (hk ▸ hsorted.before _ hlink) hp rfl

/-- A node denotes one value, the one it shows. -/
theorem Evaluated.denotes_iff (he : g.Evaluated) (hw : g.WellFormed) {id : NodeId} {v : Value} :
    g.circuit.Denotes id v ↔ g.output? id = some v := by
  constructor
  · exact he.output?_of_denotes hw
  · intro ho
    obtain ⟨n, hn, rfl⟩ := Option.map_eq_some_iff.mp ho
    obtain ⟨hmem, rfl⟩ := mem_of_node? hn
    exact he.denotes hw hmem

/-- A topological pass strains a build by the values that nodes denote. -/
theorem strains_topological_iff (hr : g.recompute .topological = .ok (g', report)) :
    g.Strains .topological ↔
      ∃ n ∈ g'.nodes, n.kind.AsksTooLow ((g'.inputsOf n.id).apply g'.output?) := by
  have hcore := core_recompute hr
  constructor
  · rintro ⟨_, _, hr', n, hn, hstops⟩
    rw [hr] at hr'
    cases hr'
    obtain ⟨m, hm, hc⟩ := core_node hcore.symm hn
    obtain ⟨hid, _, hkind, _⟩ := Node.core_eq_iff.mp hc
    exact ⟨m, hm, by rwa [hid, hkind, core_inputsOf hcore]⟩
  · rintro ⟨m, hm, hstops⟩
    obtain ⟨n, hn, hc⟩ := core_node hcore hm
    obtain ⟨hid, _, hkind, _⟩ := Node.core_eq_iff.mp hc
    refine ⟨g', report, hr, n, hn, ?_⟩
    rw [hid, hkind, ← core_inputsOf hcore]
    exact hstops

/-- A pass in topological order ends, writes only what nodes show, and makes every node show the one
value it denotes. So graphs of the same circuit come out with the same outputs whatever else they
hold, a second pass finds nothing to do, and the report is about the values the pass leaves. Every
build makes this pass; only one that checks may stop in it, and does where a node is asked for
channels, by what its producers denote, that cannot be told in 32 bits. -/
theorem pass_shows_denotation (hg : g.Reachable) :
    ∃ g' report, g.recompute .topological = .ok (g', report) ∧
      g'.core = g.core ∧
      (∀ n ∈ g'.nodes, ∀ v, g.circuit.Denotes n.id v ↔ v = n.output) ∧
      (∀ h h' : Graph, ∀ report', h.Reachable → h.circuit = g.circuit →
        h.recompute .topological = .ok (h', report') → ∀ id, h'.output? id = g'.output? id) ∧
      g'.recompute .topological = .ok (g', report) ∧
      report.evaluated = g.nodes.length ∧
      report.invalid = (g'.nodes.filter fun n => !n.isValid).map (·.id) ∧
      ∀ o, (g.recomputeIn o .topological = none ∨
          g.recomputeIn o .topological = some (.ok (g', report))) ∧
        (g.recomputeIn o .topological = none ↔ o = .stops ∧
          ∃ n ∈ g'.nodes, n.kind.AsksTooLow ((g'.inputsOf n.id).apply g'.output?)) := by
  have hw := hg.wellFormed
  obtain ⟨g', report, hr, he⟩ := recompute_topological hw
  have hw' := hw.recompute hr
  have hcore := core_recompute hr
  have hcircuit := circuit_core hcore
  have hreport := recompute_report hw hr
  refine ⟨g', report, hr, hcore, ?_, ?_, recompute_again hw hr, ?_, ?_, fun o => ?_⟩
  · intro n hn v
    rw [← hcircuit, he.denotes_iff hw', output?_of_mem hw'.id_once hn, Option.some.injEq, eq_comm]
  · intro h h' report' hh hsame hrh id
    have hwh := hh.wellFormed
    have heh := evaluated_of_recompute hwh hrh
    apply Option.ext
    intro v
    rw [← he.denotes_iff hw', ← heh.denotes_iff (hwh.recompute hrh), hcircuit,
      circuit_core (core_recompute hrh), hsame]
  · rw [hreport, ← List.length_map Node.id, ← List.length_map Node.id]
    exact congrArg List.length (core_ids hcore)
  · rw [hreport]
  · obtain ⟨hstops, hcases⟩ := recomputeIn_spec hw o .topological
    rw [hr] at hcases
    exact ⟨hcases, hstops.trans (and_congr_right fun _ => strains_topological_iff hr)⟩

def directSteps : List Step :=
  [.command (.createNode .float .standard) ⟨2⟩, .command (.createNode .negate .standard) ⟨3⟩,
    .command (.setLiteral 2 [.one]) ⟨4⟩, .command (.connect 2 3 none) ⟨4⟩]

/-- The same nodes and link, but the source was created last, with the id of a node that is gone,
and the link was made after an edge that still leads nowhere. -/
def roundaboutSteps : List Step :=
  [.command (.createNode .time .standard) ⟨2⟩, .command (.createNode .negate .standard) ⟨3⟩,
    .command (.connect 2 3 none) ⟨4⟩, .command (.destroyNode 2) ⟨4⟩, .command (.beginLink 3) ⟨4⟩,
    .command (.createNode .float .standard) ⟨4⟩, .command (.connect 2 3 none) ⟨5⟩,
    .command (.setLiteral 2 [.one]) ⟨5⟩]

theorem roundabout_shows_direct :
    (roundaboutSteps.foldl perform (Graph.new ⟨0⟩ ⟨1⟩)).ids = [0, 1, 3, 2] ∧
      (roundaboutSteps.foldl perform (Graph.new ⟨0⟩ ⟨1⟩)).edges =
        [⟨0, 3, none⟩, ⟨1, 2, some ⟨3, 0⟩⟩] ∧
      ∃ g' report, (directSteps.foldl perform (Graph.new ⟨0⟩ ⟨1⟩)).recompute .topological =
          .ok (g', report) ∧
        report.evaluated = 4 ∧
        ∀ h' report', (roundaboutSteps.foldl perform (Graph.new ⟨0⟩ ⟨1⟩)).recompute .topological =
          .ok (h', report') → ∀ id, h'.output? id = g'.output? id := by
  have hdirect := reachable_foldl (.new ⟨0⟩ ⟨1⟩) directSteps
  have hroundabout := reachable_foldl (.new ⟨0⟩ ⟨1⟩) roundaboutSteps
  have hcircuit : (roundaboutSteps.foldl perform (Graph.new ⟨0⟩ ⟨1⟩)).circuit =
      (directSteps.foldl perform (Graph.new ⟨0⟩ ⟨1⟩)).circuit :=
    circuit_congr (by decide +kernel) (by decide +kernel)
  obtain ⟨g', report, hr, _, _, hsame, _, hcount, _, _⟩ := pass_shows_denotation hdirect
  refine ⟨by decide +kernel, by decide +kernel, g', report, hr, ?_, ?_⟩
  · rw [hcount]
    decide +kernel
  · intro h' report' hr'
    exact hsame _ h' report' hroundabout hcircuit hr'

end Graph

end ShaderGraph

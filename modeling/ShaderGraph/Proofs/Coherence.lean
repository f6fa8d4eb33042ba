import ShaderGraph.Proofs.Atomicity
import ShaderGraph.Proofs.Overflow

namespace ShaderGraph

namespace Graph

variable {g : Graph}

/-- No node has more producers than its limit allows. -/
theorem WellFormed.count_le (h : g.WellFormed) {n : Node} (hn : n ∈ g.nodes) :
    (g.inputsOf n.id).count ≤ n.limit := by
  have hsub : ((List.range 4).filter fun i => ((g.inputsOf n.id).at? i).isSome) ⊆
      List.range n.limit := by
    intro i hi
    obtain ⟨x, hx⟩ := Option.isSome_iff_exists.mp (List.mem_filter.mp hi).2
    obtain ⟨m, hm, hid, hlt⟩ := h.wired.target _ ((input_iff h).mp hx)
    rw [List.inj_on_of_nodup_map h.id_once hm hn hid] at hlt
    exact List.mem_range.mpr hlt
  have hlength := ((List.nodup_range.filter _).subperm hsub).length_le
  rw [List.length_range] at hlength
  rw [Slots.count_eq]
  exact hlength

/-- A pass in either order leaves every node with its producers. -/
theorem inputs_of_recompute {g' : Graph} {order : Order} {report : Report}
    (hr : g.recompute order = .ok (g', report)) :
    ∀ n ∈ g'.nodes, n.inputs = g'.inputsOf n.id := by
  obtain ⟨env, rfl⟩ := recompute_eq hr
  intro n hn
  obtain ⟨m, _, rfl⟩ := List.mem_map.mp hn
  rfl

theorem Evaluated.output_eq_evaluateNode (he : g.Evaluated) (hu : g.ids.Nodup) {n : Node}
    (hn : n ∈ g.nodes) : n.output = g.evaluateNode n.id := by
  rw [evaluateNode, node?_of_mem hu hn]
  simp only
  rw [he.inputs n hn]
  exact he.output n hn

end Graph

namespace Session

open ShaderGraph.Graph.InPlace (run_bind_ok run_bind_error)

/-- The session that a command leaves behind, whether it was carried out or refused. -/
def perform (s : Session) : Command × Handle → Session
  | (c, handle) =>
    match (InPlace.apply c handle).run s with
    | .ok _ s => s
    | .error _ s => s

def performIn (o : Overflow) (s : Session) : Command × Handle → Option Session
  | (c, handle) =>
    match (InPlace.applyIn o c handle).run s with
    | .ok _ s => some s
    | .error (.refused _) s => some s
    | .error .stopped _ => none

/-- The command is carried out, and the pass behind it strains a build that checks. -/
def Strains (s : Session) (step : Command × Handle) : Prop :=
  ∃ outcome g, s.graph.apply step.1 step.2 = .ok (outcome, g) ∧ g.Strains s.order

/-- What a session shows agrees with the graph it is on. -/
structure Coherent (s : Session) : Prop where
  inputs : ∀ n ∈ s.graph.nodes, n.inputs = s.graph.inputsOf n.id
  count : ∀ n ∈ s.graph.nodes, n.inputs.count ≤ n.limit
  evaluated : s.report.evaluated = s.graph.nodes.length
  invalid : s.report.invalid = (s.graph.nodes.filter fun n => !n.isValid).map (·.id)
  output : s.order = .topological → ∀ n ∈ s.graph.nodes, n.output = s.graph.evaluateNode n.id
  settled : s.order = .topological → InPlace.recompute.run s = .ok () s

variable {s : Session}

theorem Reachable.perform (hs : s.Reachable) (step : Command × Handle) :
    (s.perform step).Reachable := by
  obtain ⟨c, handle⟩ := step
  rw [Session.perform, InPlace.run_apply hs.graph.wellFormed]
  cases hc : s.apply c handle with
  | error e => exact hs
  | ok r => exact hs.apply hc

theorem Reachable.foldl_perform (hs : s.Reachable) (steps : List (Command × Handle)) :
    (steps.foldl Session.perform s).Reachable := by
  induction steps generalizing s with
  | nil => exact hs
  | cons step steps ih => exact ih (hs.perform step)

theorem perform_order (s : Session) (hs : s.Reachable) (step : Command × Handle) :
    (s.perform step).order = s.order := by
  obtain ⟨c, handle⟩ := step
  rw [Session.perform, InPlace.run_apply hs.graph.wellFormed]
  cases hc : s.apply c handle with
  | error e => rfl
  | ok r =>
    obtain ⟨_, _, ho⟩ := apply_ok hc
    exact (ofGraph_ok ho).1

/-- A session in topological order is as a pass would leave it. -/
theorem Reachable.settled (hs : s.Reachable) (ho : s.order = .topological) :
    s.recompute = .ok s := by
  rw [Session.recompute, ho, Session.ofGraph, hs.recompute_graph ho, ← ho]

theorem Reachable.coherent (hs : s.Reachable) : s.Coherent := by
  have hw := hs.graph.wellFormed
  obtain ⟨g, hg, hpass⟩ := hs.pass
  have hr := (ofGraph_ok hpass).2
  have hinputs := Graph.inputs_of_recompute hr
  have hreport := Graph.recompute_report hg.wellFormed hr
  exact {
    inputs := hinputs
    count := by
      intro n hn
      rw [hinputs n hn]
      exact hw.count_le hn
    evaluated := by rw [hreport]
    invalid := by rw [hreport]
    output := fun ho n hn => (hs.evaluated ho).output_eq_evaluateNode hw.id_once hn
    settled := by
      intro ho
      obtain ⟨s', hs', hrun⟩ := InPlace.run_recompute hw
      rw [hs.settled ho] at hs'
      cases hs'
      exact hrun }

section Builds

variable {o : Overflow} {c : Command} {handle : Handle}

theorem InPlace.run_applyIn_refused (hw : s.graph.WellFormed) {e : GraphError}
    (ha : s.graph.apply c handle = .error e) :
    (InPlace.applyIn o c handle).run s = .error (.refused (.graph e)) s := by
  have hedit := Graph.InPlace.run_apply hw c handle
  rw [ha] at hedit
  exact run_bind_error (run_onGraph_error hedit) _

theorem InPlace.run_applyIn_carried (hw : s.graph.WellFormed) {outcome : Outcome} {g : Graph}
    (ha : s.graph.apply c handle = .ok (outcome, g)) :
    (g.recomputeIn o s.order = none ∧
        ∃ s', (InPlace.applyIn o c handle).run s = .error .stopped s') ∨
      ∃ g' report, g.recomputeIn o s.order = some (.ok (g', report)) ∧
        (InPlace.applyIn o c handle).run s = .ok outcome ⟨g', s.order, report⟩ := by
  have hedit := Graph.InPlace.run_apply hw c handle
  rw [ha] at hedit
  unfold InPlace.applyIn InPlace.applyWith
  rw [run_bind_ok (run_onGraph_ok hedit)]
  rcases Graph.InPlace.run_recomputeIn (hw.apply ha) o s.order with
    ⟨hnone, g', hrun⟩ | ⟨g', report, hsome, hrun⟩
  · have hpass : (recomputeWith (Halt.map SessionError.cycle) (Graph.InPlace.recomputeIn o)).run
        { s with graph := g } = .error (Halt.map .cycle .stopped) { s with graph := g' } :=
      run_recomputeWith_error hrun
    exact .inl ⟨hnone, _, run_bind_error hpass _⟩
  · exact .inr ⟨g', report, hsome, run_bind_ok (run_recomputeWith_ok hrun) _⟩

/-- A build stops over a command or leaves what any build does. -/
theorem performIn_cases (o : Overflow) (hs : s.Reachable) (step : Command × Handle) :
    ((o = .stops ∧ s.Strains step) ∧ s.performIn o step = none) ∨
      (¬ (o = .stops ∧ s.Strains step) ∧ s.performIn o step = some (s.perform step)) := by
  obtain ⟨c, handle⟩ := step
  have hw := hs.graph.wellFormed
  have hwhole := InPlace.run_apply hw c handle
  unfold Session.apply at hwhole
  unfold performIn Session.perform Strains
  cases ha : s.graph.apply c handle with
  | error e =>
    rw [ha] at hwhole
    simp only [InPlace.run_applyIn_refused hw ha, hwhole]
    exact .inr ⟨by simp, rfl⟩
  | ok r =>
    obtain ⟨outcome, g⟩ := r
    obtain ⟨hstops, hsame⟩ := Graph.recomputeIn_spec (hw.apply ha) o s.order
    rw [ha] at hwhole
    rcases InPlace.run_applyIn_carried (o := o) hw ha with
      ⟨hnone, s', hrun⟩ | ⟨g', report, hsome, hrun⟩
    · simp only [hrun]
      obtain ⟨ho, hstrains⟩ := hstops.mp hnone
      exact .inl ⟨⟨ho, outcome, g, rfl, hstrains⟩, trivial⟩
    · have hpass : g.recompute s.order = .ok (g', report) := by
        simpa [hsome, eq_comm] using hsame
      simp only [ofGraph, hpass] at hwhole
      simp only [hrun, hwhole]
      refine .inr ⟨?_, rfl⟩
      rintro ⟨ho, _, _, hsame, hstrains⟩
      cases hsame
      rw [hstops.mpr ⟨ho, hstrains⟩] at hsome
      cases hsome

end Builds

/-- Whatever commands a session is given, and whether it carries them out or refuses them, it stays
in its order and shows what its graph calls for. Every build comes to this session. Only one that
checks may stop on the way, and does where the pass behind a command strains it. -/
theorem coherent_after_commands (hs : s.Reachable) (steps : List (Command × Handle)) :
    (steps.foldl perform s).order = s.order ∧ (steps.foldl perform s).Coherent ∧
      ∀ o, (steps.foldlM (performIn o) s = none ∨
          steps.foldlM (performIn o) s = some (steps.foldl perform s)) ∧
        (steps.foldlM (performIn o) s = none ↔ o = .stops ∧
          ∃ before step after, steps = before ++ step :: after ∧
            (before.foldl perform s).Strains step) := by
  refine ⟨?_, (hs.foldl_perform steps).coherent, fun o => ?_⟩
  · induction steps generalizing s with
    | nil => rfl
    | cons step steps ih => exact (ih (hs.perform step)).trans (perform_order s hs step)
  · obtain ⟨hnone, hcases⟩ := foldlM_stopping (P := Reachable) (fun _ step hs => hs.perform step)
      (fun _ step hs => performIn_cases o hs step) steps hs
    refine ⟨hcases, hnone.trans ⟨?_, ?_⟩⟩
    · rintro ⟨before, step, after, hsplit, ho, hstrains⟩
      exact ⟨ho, before, step, after, hsplit, hstrains⟩
    · rintro ⟨ho, before, step, after, hsplit, hstrains⟩
      exact ⟨before, step, after, hsplit, ho, hstrains⟩

def stored : Session :=
  ((ofGraph (Graph.new ⟨0⟩ ⟨1⟩) .storage).toOption).getD (Session.new ⟨0⟩ ⟨1⟩)

/-- A chain in which every node is stored before its producer, and whose head is unlinked again. Two
of the commands are refused: a link back and a node that is not there. -/
def laggingSteps : List (Command × Handle) :=
  [(.createNode .negate .standard, ⟨2⟩), (.createNode .negate .standard, ⟨3⟩),
    (.createNode .float .standard, ⟨4⟩), (.connect 4 3 none, ⟨5⟩), (.connect 3 2 none, ⟨5⟩),
    (.connect 2 3 none, ⟨5⟩), (.destroyLink 0, ⟨5⟩), (.destroyNode 9, ⟨5⟩)]

def strainingSteps : List (Command × Handle) :=
  [(.createNode .float (.literal [.nearest true 3000000000 1]), ⟨2⟩),
    (.createNode .vertexColor .standard, ⟨3⟩), (.connect 2 3 none, ⟨4⟩)]

/-- In storage order the end of the chain lags behind. It still has a value, and the report says so,
though by now it should have none. The steps that strain a build stop one that checks. -/
theorem lagging_coherent :
    ofGraph (Graph.new ⟨0⟩ ⟨1⟩) .storage = .ok stored ∧
      (laggingSteps.foldl perform stored).report = ⟨5, [3]⟩ ∧
      (laggingSteps.foldl perform stored).graph.evaluateNode 2 = .empty ∧
      (laggingSteps.foldl perform stored).Coherent ∧
      strainingSteps.foldlM (performIn .stops) stored = none ∧
      strainingSteps.foldlM (performIn .wraps) stored =
        some (strainingSteps.foldl perform stored) := by
  have hopened : ofGraph (Graph.new ⟨0⟩ ⟨1⟩) .storage = .ok stored := by rfl
  have hs : stored.Reachable := .ofGraph (.new ⟨0⟩ ⟨1⟩) hopened
  refine ⟨hopened, by decide +kernel, by decide +kernel,
    (coherent_after_commands hs laggingSteps).2.1, ?_, ?_⟩
  · have hstops : (strainingSteps.foldlM (performIn .stops) stored).isNone = true := by
      decide +kernel
    exact Option.isNone_iff_eq_none.mp hstops
  · obtain ⟨hcases, hnone⟩ := (coherent_after_commands hs strainingSteps).2.2 .wraps
    exact hcases.resolve_left fun h => by cases (hnone.mp h).1

end Session

end ShaderGraph

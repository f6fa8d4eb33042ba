import ShaderGraph.Session
import ShaderGraph.Proofs.Reload

namespace ShaderGraph

namespace Session

/-- A session that is new or took a graph over, after any number of commands. -/
inductive Reachable : Session → Prop where
  | new (vertexHandle fragmentHandle : Handle) : Reachable (Session.new vertexHandle fragmentHandle)
  | ofGraph {g : Graph} {order : Order} {s : Session} (hg : g.Reachable)
      (h : ofGraph g order = .ok s) : Reachable s
  | apply {s s' : Session} {c : Command} {handle : Handle} {outcome : Outcome} (hs : Reachable s)
      (h : s.apply c handle = .ok (outcome, s')) : Reachable s'
  | recompute {s s' : Session} (hs : Reachable s) (h : s.recompute = .ok s') : Reachable s'

theorem ofGraph_ok {g : Graph} {order : Order} {s : Session} (h : ofGraph g order = .ok s) :
    s.order = order ∧ g.recompute order = .ok (s.graph, s.report) := by
  unfold ofGraph at h
  split at h
  · rename_i g' report hr
    cases h
    exact ⟨rfl, hr⟩
  · cases h

theorem apply_ok {s s' : Session} {c : Command} {handle : Handle} {outcome : Outcome}
    (h : s.apply c handle = .ok (outcome, s')) :
    ∃ g, s.graph.apply c handle = .ok (outcome, g) ∧ Session.ofGraph g s.order = .ok s' := by
  unfold Session.apply at h
  split at h
  · cases h
  · rename_i outcome' g ha
    split at h
    · cases h
    · rename_i s₁ ho
      cases h
      exact ⟨g, ha, ho⟩

/-- A session on a new graph is one that took it over. -/
theorem ofGraph_new (vertexHandle fragmentHandle : Handle) :
    Session.ofGraph (Graph.new vertexHandle fragmentHandle) .topological =
      .ok (Session.new vertexHandle fragmentHandle) := by
  obtain ⟨g, report, hr, _⟩ :=
    Graph.recompute_topological (Graph.wellFormed_new vertexHandle fragmentHandle)
  simp only [Session.new, Session.ofGraph, hr]

theorem reachable_ofGraph {g : Graph} {order : Order} {s : Session} (hg : g.Reachable)
    (h : Session.ofGraph g order = .ok s) : s.graph.Reachable := by
  obtain ⟨_, hr⟩ := ofGraph_ok h
  have hstep := hg.step (.recompute order)
  simp only [Graph.perform, hr] at hstep
  exact hstep

/-- Every session comes from a pass over a graph that was reached by editing. -/
theorem Reachable.pass {s : Session} (h : s.Reachable) :
    ∃ g : Graph, g.Reachable ∧ Session.ofGraph g s.order = .ok s := by
  induction h with
  | new vertexHandle fragmentHandle =>
    have ho := ofGraph_new vertexHandle fragmentHandle
    rw [(ofGraph_ok ho).1]
    exact ⟨_, .new _ _, ho⟩
  | ofGraph hg ho =>
    rw [(ofGraph_ok ho).1]
    exact ⟨_, hg, ho⟩
  | @apply s s' c handle outcome _ ha ih =>
    obtain ⟨_, hg, hs⟩ := ih
    obtain ⟨g', happly, ho⟩ := apply_ok ha
    rw [(ofGraph_ok ho).1]
    refine ⟨g', ?_, ho⟩
    have hstep := (reachable_ofGraph hg hs).step (.command c handle)
    simp only [Graph.perform, happly] at hstep
    exact hstep
  | @recompute s s' _ hr ih =>
    obtain ⟨_, hg, hs⟩ := ih
    rw [(ofGraph_ok hr).1]
    exact ⟨s.graph, reachable_ofGraph hg hs, hr⟩

theorem Reachable.graph {s : Session} (h : s.Reachable) : s.graph.Reachable := by
  obtain ⟨_, hg, hs⟩ := h.pass
  exact reachable_ofGraph hg hs

theorem Reachable.evaluated {s : Session} (h : s.Reachable) (ho : s.order = .topological) :
    s.graph.Evaluated := by
  obtain ⟨g, hg, hs⟩ := h.pass
  rw [ho] at hs
  obtain ⟨_, hr⟩ := ofGraph_ok hs
  exact Graph.evaluated_of_recompute hg.wellFormed hr

/-- A pass in topological order finds nothing to change. -/
theorem Reachable.recompute_graph {s : Session} (h : s.Reachable) (ho : s.order = .topological) :
    s.graph.recompute .topological = .ok (s.graph, s.report) := by
  obtain ⟨g, hg, hs⟩ := h.pass
  rw [ho] at hs
  exact Graph.recompute_again hg.wellFormed (ofGraph_ok hs).2

theorem applyAll_cons_ok {s s₁ s₂ : Session} {handles : Nat → Handle} {c : Command}
    {cs : List Command} {outcome : Outcome} {result : Except SessionError (List Outcome)}
    (hc : s.apply c (handles cs.length) = .ok (outcome, s₁))
    (hcs : s₁.applyAll handles cs = (result, s₂)) :
    s.applyAll handles (c :: cs) = (result.map (outcome :: ·), s₂) := by
  rw [Session.applyAll, hc]
  simp only [hcs]

theorem applyAll_cons_error {s : Session} {handles : Nat → Handle} {c : Command}
    {cs : List Command} {e : SessionError} (hc : s.apply c (handles cs.length) = .error e) :
    s.applyAll handles (c :: cs) = (.error e, s) := by
  rw [Session.applyAll, hc]

theorem Reachable.applyAll {s : Session} (h : s.Reachable) (handles : Nat → Handle)
    (commands : List Command) : (s.applyAll handles commands).2.Reachable := by
  induction commands generalizing s with
  | nil => exact h
  | cons c cs ih =>
    unfold Session.applyAll
    split
    · exact h
    · rename_i hc
      exact ih (h.apply hc)

open SavedGraph

/-- A session can be opened again just when none of its links is refused on the way in, and the
first that is refused, in the order of the file, is named by its line. -/
theorem reopens_iff_links_fit {s : Session} (hs : s.Reachable) (ho : s.order = .topological)
    (handles : Nat → Handle) :
    ((∃ g, load handles (save s.graph) = .ok g) ↔
      ∀ l ∈ s.graph.links, s.graph.reloadMisfit? l = none) ∧
    ∀ pre l post e, replayOrder s.graph = pre ++ l :: post →
      (∀ k ∈ pre, s.graph.reloadMisfit? k = none) → s.graph.reloadMisfit? l = some e →
      load handles (save s.graph) =
        .error (.graph (s.graph.nodes.length + 1 + pre.length) (.link e)) := by
  have hw := hs.graph.wellFormed
  have he := hs.evaluated ho
  refine ⟨⟨?_, ?_⟩, ?_⟩
  · intro ⟨g, hload⟩
    exact fitting_of_load hw he hload
  · intro hfit
    obtain ⟨g, hload, _⟩ := load_fitting hw he handles hfit
    exact ⟨g, hload⟩
  · intro pre l post e hsplit hpre hl
    exact load_misfit hw he handles hsplit hpre hl

/-- A chain whose head is unlinked and linked again after all that follows it. -/
def relinkingCommands : List Command :=
  [.createNode .vector3 .standard, .createNode .negate .standard, .createNode .dot .standard,
    .connect 2 3 none, .connect 3 4 none, .connect 2 4 none, .connect 4 1 none, .destroyLink 0,
    .connect 2 3 none]

theorem relinked_reopens :
    ((Session.new ⟨0⟩ ⟨1⟩).applyAll Handle.mk relinkingCommands).2.graph.links =
        [⟨3, 4, 0⟩, ⟨2, 4, 1⟩, ⟨4, 1, 0⟩, ⟨2, 3, 0⟩] ∧
      ∃ g, load Handle.mk
        (save ((Session.new ⟨0⟩ ⟨1⟩).applyAll Handle.mk relinkingCommands).2.graph) = .ok g := by
  have hs := (Reachable.new ⟨0⟩ ⟨1⟩).applyAll Handle.mk relinkingCommands
  refine ⟨by decide +kernel, ?_⟩
  exact (reopens_iff_links_fit hs (by decide +kernel) Handle.mk).1.mpr (by decide +kernel)

/-- A multiplication whose vector is taken away, after a stage output was fed by it, and a matrix
put in its place. -/
def driftingCommands : List Command :=
  [.createNode .vector4 .standard, .createNode .multiply .standard, .connect 2 3 none,
    .connect 3 1 none, .destroyLink 0, .createNode .matrix4 .standard, .connect 4 3 none]

/-- Not every session can be opened again. -/
theorem drifted_never_reopens :
    ((Session.new ⟨0⟩ ⟨1⟩).applyAll Handle.mk driftingCommands).1.toOption =
        some [.node 2, .node 3, .connection 0, .connection 1, .updated, .node 4, .connection 0] ∧
      ((Session.new ⟨0⟩ ⟨1⟩).applyAll Handle.mk driftingCommands).2.order = .topological ∧
      ∀ handles g, load handles
        (save ((Session.new ⟨0⟩ ⟨1⟩).applyAll Handle.mk driftingCommands).2.graph) ≠ .ok g := by
  have hs := (Reachable.new ⟨0⟩ ⟨1⟩).applyAll Handle.mk driftingCommands
  refine ⟨by decide +kernel, by decide +kernel, fun handles g hload => ?_⟩
  -- the stage output holds at most four components, and a matrix feeds it now
  have hfit := fitting_of_load hs.graph.wellFormed (hs.evaluated (by decide +kernel)) hload
    ⟨3, 1, 0⟩ (by decide +kernel)
  revert hfit
  decide +kernel

end Session

end ShaderGraph

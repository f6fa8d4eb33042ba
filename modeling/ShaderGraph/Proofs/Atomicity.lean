import ShaderGraph.Proofs.InPlace
import ShaderGraph.Proofs.Sessions
import ShaderGraph.Session.InPlace

namespace ShaderGraph.Session

open ShaderGraph.Graph.InPlace (run_bind_ok run_bind_error)

namespace InPlace

variable {s : Session}

theorem run_onGraph_ok {ε δ α : Type} {error : ε → δ} {steps : EStateM ε Graph α} {a : α}
    {g : Graph} (h : steps.run s.graph = .ok a g) :
    (onGraph error steps).run s = .ok a { s with graph := g } := by
  rw [onGraph, run_bind_ok (EStateM.run_get s)]
  simp only [h]
  rfl

theorem run_onGraph_error {ε δ α : Type} {error : ε → δ} {steps : EStateM ε Graph α}
    {e : ε} {g : Graph} (h : steps.run s.graph = .error e g) :
    (onGraph error steps).run s = .error (error e) { s with graph := g } := by
  rw [onGraph, run_bind_ok (EStateM.run_get s)]
  simp only [h]
  rfl

theorem run_recomputeWith_ok {ε δ : Type} {error : ε → δ} {pass : Order → EStateM ε Graph Report}
    {report : Report} {g : Graph} (h : (pass s.order).run s.graph = .ok report g) :
    (recomputeWith error pass).run s = .ok () ⟨g, s.order, report⟩ := by
  rw [recomputeWith, run_bind_ok (EStateM.run_get s), run_bind_ok (run_onGraph_ok h)]
  rfl

theorem run_recomputeWith_error {ε δ : Type} {error : ε → δ} {pass : Order → EStateM ε Graph Report}
    {e : ε} {g : Graph} (h : (pass s.order).run s.graph = .error e g) :
    (recomputeWith error pass).run s = .error (error e) { s with graph := g } := by
  rw [recomputeWith, run_bind_ok (EStateM.run_get s), run_bind_error (run_onGraph_error h)]

/-- The pass that follows a command comes to an end. -/
theorem run_recompute (h : s.graph.WellFormed) :
    ∃ s', s.recompute = .ok s' ∧ InPlace.recompute.run s = .ok () s' := by
  obtain ⟨g, report, hr⟩ := Graph.recompute_ok h s.order
  have hpass := Graph.InPlace.run_recompute h.id_once s.order
  rw [hr] at hpass
  exact ⟨⟨g, s.order, report⟩, by simp only [Session.recompute, ofGraph, hr],
    run_recomputeWith_ok hpass⟩

theorem run_apply (h : s.graph.WellFormed) (c : Command) (handle : Handle) :
    (InPlace.apply c handle).run s = atOnce s (s.apply c handle) := by
  have hedit := Graph.InPlace.run_apply h c handle
  unfold InPlace.apply applyWith Session.apply
  cases ha : s.graph.apply c handle with
  | error e =>
    rw [ha] at hedit
    rw [run_bind_error (run_onGraph_error hedit)]
    rfl
  | ok r =>
    obtain ⟨outcome, g⟩ := r
    rw [ha] at hedit
    obtain ⟨s', hs', hpass⟩ := run_recompute (s := { s with graph := g }) (h.apply ha)
    rw [run_bind_ok (run_onGraph_ok hedit), run_bind_ok hpass]
    simp only [show Session.ofGraph g s.order = .ok s' from hs']
    rfl

/-- Commands in a row, each in place. -/
theorem run_applyAll (hs : s.Reachable) (handles : Nat → Handle) (commands : List Command) :
    (InPlace.applyAll handles commands).run s = match s.applyAll handles commands with
      | (.ok outcomes, s') => .ok outcomes s'
      | (.error e, s') => .error e s' := by
  induction commands generalizing s with
  | nil => rfl
  | cons c cs ih =>
    have hfirst := run_apply hs.graph.wellFormed c (handles cs.length)
    unfold InPlace.applyAll
    cases hc : s.apply c (handles cs.length) with
    | error e =>
      rw [hc] at hfirst
      rw [run_bind_error hfirst, applyAll_cons_error hc]
    | ok r =>
      obtain ⟨outcome, s₁⟩ := r
      rw [hc] at hfirst
      have hrest := ih (hs.apply hc)
      rw [run_bind_ok hfirst]
      cases hcs : s₁.applyAll handles cs with
      | mk result s₂ =>
        rw [hcs] at hrest
        rw [applyAll_cons_ok hc hcs]
        cases result with
        | error e =>
          rw [run_bind_error hrest]
          rfl
        | ok outcomes =>
          rw [run_bind_ok hrest]
          rfl

end InPlace

/-- A run that is stopped: the command that was refused, and what those before it came to. -/
theorem applyAll_stopped {s s' : Session} {handles : Nat → Handle} {commands : List Command}
    {e : SessionError} (h : s.applyAll handles commands = (.error e, s')) :
    ∃ before c after outcomes, commands = before ++ c :: after ∧
      s.applyAll (fun n => handles (n + after.length + 1)) before = (.ok outcomes, s') ∧
      s'.apply c (handles after.length) = .error e := by
  induction commands generalizing s with
  | nil => cases h
  | cons c cs ih =>
    cases hc : s.apply c (handles cs.length) with
    | error e' =>
      rw [applyAll_cons_error hc] at h
      cases h
      exact ⟨[], c, cs, [], rfl, rfl, hc⟩
    | ok r =>
      obtain ⟨outcome, s₁⟩ := r
      cases hcs : s₁.applyAll handles cs with
      | mk result s₂ =>
        rw [applyAll_cons_ok hc hcs] at h
        cases result with
        | ok outcomes => cases h
        | error e' =>
          cases h
          obtain ⟨before, d, after, outcomes, rfl, hbefore, hd⟩ := ih hcs
          have hlength : (before ++ d :: after).length = before.length + after.length + 1 := by
            rw [List.length_append, List.length_cons, Nat.add_assoc]
          rw [hlength] at hc
          exact ⟨c :: before, d, after, outcome :: outcomes, rfl, applyAll_cons_ok hc hbefore, hd⟩

/-- An edit in place that fails leaves the graph exactly as it was, and a session that refuses a
command is exactly as before. A text that is no script changes nothing, and a script that is stopped
at a command leaves what the commands before it came to. -/
theorem refused_changes_nothing [Format] {g : Graph} (hg : g.Reachable) {s : Session}
    (hs : s.Reachable) (c : Command) (handle : Handle) (handles : Nat → Handle) (text : String) :
    (∀ e g', (Graph.InPlace.apply c handle).run g = .error e g' →
      g' = g ∧ g.apply c handle = .error e) ∧
    (∀ e s', (InPlace.apply c handle).run s = .error e s' →
      s' = s ∧ s.apply c handle = .error e) ∧
    (Format.script? text = none → (InPlace.applyScript handles text).run s = .error .script s) ∧
    ∀ commands e s', Format.script? text = some commands →
      (InPlace.applyScript handles text).run s = .error e s' →
      ∃ before d after outcomes, commands = before ++ d :: after ∧
        (InPlace.applyAll (fun n => handles (n + after.length + 1)) before).run s =
          .ok outcomes s' ∧
        (InPlace.apply d (handles after.length)).run s' = .error e s' := by
  refine ⟨?_, ?_, ?_, ?_⟩
  · intro e g' hrun
    rw [Graph.InPlace.run_apply hg.wellFormed] at hrun
    exact eq_of_atOnce_error hrun
  · intro e s' hrun
    rw [InPlace.run_apply hs.graph.wellFormed] at hrun
    exact eq_of_atOnce_error hrun
  · intro hnone
    rw [InPlace.applyScript, hnone]
    rfl
  · intro commands e s' hread hrun
    rw [InPlace.applyScript, hread] at hrun
    simp only at hrun
    rw [InPlace.run_applyAll hs] at hrun
    split at hrun
    · cases hrun
    · rename_i hstopped
      cases hrun
      obtain ⟨before, d, after, outcomes, hsplit, hbefore, hd⟩ := applyAll_stopped hstopped
      have hs' := hs.applyAll (fun n => handles (n + after.length + 1)) before
      refine ⟨before, d, after, outcomes, hsplit, ?_, ?_⟩
      · rw [InPlace.run_applyAll hs, hbefore]
      · rw [hbefore] at hs'
        rw [InPlace.run_apply hs'.graph.wellFormed, hd]
        rfl

/-- A graph in whose pool an id waits to be handed out again. -/
def gapped : Graph :=
  [Step.command (.createNode .float .standard) ⟨2⟩, .command (.createNode .float .standard) ⟨3⟩,
    .command (.destroyNode 2) ⟨4⟩].foldl Graph.perform (Graph.new ⟨0⟩ ⟨1⟩)

def stoppedScript : String := "[CreateNode(kind: Float), DestroyNode(node: 7)]"

theorem gapped_refusals :
    gapped.nodeIds = ⟨1024, 4, [2]⟩ ∧
      (∃ e, (Graph.InPlace.apply (.createNode .vector2 (.literal [.one])) ⟨4⟩).run gapped =
        .error e gapped) ∧
      (InPlace.applyScript Handle.mk "[CreateNode(kind: Float)").run (Session.new ⟨0⟩ ⟨1⟩) =
        .error .script (Session.new ⟨0⟩ ⟨1⟩) ∧
      ∃ before d after e s', [Command.createNode .float .standard, .destroyNode 7] =
        before ++ d :: after ∧
        (InPlace.applyScript Handle.mk stoppedScript).run (Session.new ⟨0⟩ ⟨1⟩) = .error e s' ∧
        (InPlace.apply d ⟨after.length⟩).run s' = .error e s' := by
  have hg : gapped.Reachable := Graph.reachable_foldl (.new ⟨0⟩ ⟨1⟩) _
  have hs : (Session.new ⟨0⟩ ⟨1⟩).Reachable := .new _ _
  obtain ⟨hedit, _, hnone, _⟩ := refused_changes_nothing hg hs
    (.createNode .vector2 (.literal [.one])) ⟨4⟩ Handle.mk "[CreateNode(kind: Float)"
  obtain ⟨_, _, _, hstopped⟩ := refused_changes_nothing hg hs (.destroyNode 7) ⟨4⟩ Handle.mk
    stoppedScript
  refine ⟨by decide +kernel, ?_, hnone (by decide +kernel), ?_⟩
  · have hfails : ((Graph.InPlace.apply (.createNode .vector2 (.literal [.one])) ⟨4⟩).run gapped
        matches .error ..) = true := by decide +kernel
    split at hfails
    · rename_i e g' hrun
      exact ⟨e, hrun.trans (congrArg _ (hedit e g' hrun).1)⟩
    · cases hfails
  · have hfails : ((InPlace.applyScript Handle.mk stoppedScript).run (Session.new ⟨0⟩ ⟨1⟩)
        matches .error ..) = true := by decide +kernel
    split at hfails
    · rename_i e s' hrun
      obtain ⟨before, d, after, _, hsplit, _, hd⟩ := hstopped
        [.createNode .float .standard, .destroyNode 7] e s' (by decide +kernel) hrun
      exact ⟨before, d, after, e, s', hsplit, hrun, hd⟩
    · cases hfails

end ShaderGraph.Session

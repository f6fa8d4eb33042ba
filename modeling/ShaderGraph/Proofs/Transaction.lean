import ShaderGraph.Proofs.Machine
import ShaderGraph.Proofs.Sessions

namespace ShaderGraph

/-- All commands are carried out, one after the other. The command with `n` others behind it takes
handle `n`. -/
inductive Session.CarriesOut (handles : Nat → Handle) :
    Session → List Command → Session → Prop where
  | nil {s : Session} : CarriesOut handles s [] s
  | cons {s s₁ s₂ : Session} {c : Command} {cs : List Command} {outcome : Outcome}
      (first : s.apply c (handles cs.length) = .ok (outcome, s₁))
      (rest : CarriesOut handles s₁ cs s₂) : CarriesOut handles s (c :: cs) s₂

theorem Session.applyAll_ok_iff {s s' : Session} {handles : Nat → Handle} {cs : List Command} :
    (∃ outcomes, s.applyAll handles cs = (.ok outcomes, s')) ↔ s.CarriesOut handles cs s' := by
  constructor
  · rintro ⟨outcomes, h⟩
    induction cs generalizing s outcomes with
    | nil =>
      cases h
      exact .nil
    | cons c cs ih =>
      cases hc : s.apply c (handles cs.length) with
      | error e =>
        rw [applyAll_cons_error hc] at h
        cases h
      | ok r =>
        obtain ⟨outcome, s₁⟩ := r
        cases hcs : s₁.applyAll handles cs with
        | mk result s₂ =>
          rw [applyAll_cons_ok hc hcs] at h
          cases result with
          | error e => cases h
          | ok outcomes =>
            cases h
            exact .cons hc (ih outcomes hcs)
  · intro h
    induction h with
    | nil => exact ⟨[], rfl⟩
    | cons hc _ ih =>
      obtain ⟨outcomes, hcs⟩ := ih
      exact ⟨_, applyAll_cons_ok hc hcs⟩

namespace Workspace

open Function (update)

/-- Handles for the nodes that a script creates, apart from those of the nodes that were loaded. -/
def scriptHandles (n : Nat) : Handle := handles (Graph.maxNodes + n)

/-- All that it takes to apply a script: the files hold a script, settings of a known version and a
graph, and the commands of the script are carried out on this graph. -/
structure Application [Format] (m : Machine) (t : FileTree) (script path : String) where
  commands : List Command
  settings : Settings
  stored : Graph
  opened : Session
  final : Session
  script_reads : ∃ text, m.read t script = .ok text ∧ Format.script? text = some commands
  settings_read : ∃ text, m.read t path = .ok text ∧ Format.settings? text = some settings
  version_known : settings.version ≤ Settings.formatVersion
  graph_loads : ∃ text, m.read t (settings.resolved path).graph = .ok text ∧
    SavedGraph.load handles text = .ok stored
  evaluates : Session.ofGraph stored .topological = .ok opened
  carried_out : opened.CarriesOut scriptHandles commands final

namespace Application

variable [Format] {m : Machine} {t t' : FileTree} {script path : String}

def file (a : Application m t script path) : String := (a.settings.resolved path).graph

def text (a : Application m t script path) : String := SavedGraph.save a.final.graph

/-- The graph file has been read, so there is a file in its place. -/
theorem exists_spot (a : Application m t script path) : ∃ l, t.spot? a.file = some l := by
  obtain ⟨_, hread, _⟩ := a.graph_loads
  obtain ⟨l, hl, _⟩ := FileTree.read_eq_ok.mp (Machine.grant_eq_ok.mp hread).2
  exact ⟨l, hl⟩

/-- Writing the graph file changes what is at its place and nothing else. -/
theorem refiled (a : Application m t script path) (hw : m.write t a.file a.text = .ok t') :
    ∃ l, t.spot? a.file = some l ∧ t.Refiled (update t.fileAt? l (some a.text)) t' := by
  obtain ⟨l, hl, rfl⟩ := FileTree.write_eq_ok.mp (Machine.grant_eq_ok.mp hw).2
  exact ⟨l, hl, (FileTree.Refiled.refl t).put hl _⟩

end Application

section Applying

variable [Format] (m : Machine) {t t' : FileTree} {script path : String}

def applied (script path : String) (t : FileTree) : Except WorkspaceError Unit × FileTree :=
  m.run (apply script path) t

/-- A script is read and carried out in memory, whole or not at all. -/
theorem applyScript_ok_iff {s s' : Session} {handles : Nat → Handle} {text : String} :
    (∃ outcomes, s.applyScript handles text = (.ok outcomes, s')) ↔
      ∃ commands, Format.script? text = some commands ∧ s.CarriesOut handles commands s' := by
  unfold Session.applyScript
  cases Format.script? text with
  | none => simp
  | some commands => simp [Session.applyAll_ok_iff]

/-- Nothing is written before the last call. -/
theorem failsClean_apply (script path : String) :
    FailsClean (@apply _ _ m.files _ script path) := by
  refine (readsOnly_read m script _).failsClean_bind fun text => ?_
  refine (readsOnly_openSession m path).failsClean_bind ?_
  rintro ⟨settings, s⟩
  exact (readsOnly_require _ _).failsClean_bind fun _ => failsClean_change _ _

theorem applied_ok_iff : applied m script path t = (.ok (), t') ↔
    ∃ a : Application m t script path, m.write t a.file a.text = .ok t' := by
  unfold applied Machine.run apply
  constructor
  · intro h
    obtain ⟨text, t₁, hcall, h⟩ := outcome_bind_ok.mp h
    obtain ⟨hread, rfl⟩ := (outcome_read_ok m).mp hcall
    obtain ⟨⟨settings, opened⟩, t₂, hopen, h⟩ := outcome_bind_ok.mp h
    obtain ⟨⟨hsettings, hversion, stored, hgraph, hopened⟩, rfl⟩ :=
      (outcome_openSession_ok m).mp hopen
    obtain ⟨outcomes, t₃, hcommands, h⟩ := outcome_bind_ok.mp h
    obtain ⟨hall, rfl⟩ := outcome_require_ok.mp hcommands
    obtain ⟨commands, hcommands, hcarried⟩ := applyScript_ok_iff.mp ⟨outcomes, Prod.ext hall rfl⟩
    exact ⟨⟨commands, settings, stored, opened, _, ⟨text, hread, hcommands⟩, hsettings, hversion,
      hgraph, hopened, hcarried⟩, outcome_change_ok.mp h⟩
  · rintro ⟨a, hwrite⟩
    obtain ⟨text, hread, hcommands⟩ := a.script_reads
    obtain ⟨outcomes, hall⟩ := applyScript_ok_iff.mpr ⟨a.commands, hcommands, a.carried_out⟩
    refine outcome_bind_ok.mpr ⟨text, t, (outcome_read_ok m).mpr ⟨hread, rfl⟩, ?_⟩
    refine outcome_bind_ok.mpr ⟨(a.settings, a.opened), t, (outcome_openSession_ok m).mpr
      ⟨⟨a.settings_read, a.version_known, a.stored, a.graph_loads, a.evaluates⟩, rfl⟩, ?_⟩
    have hscript : a.opened.applyScript (fun n => handles (Graph.maxNodes + n)) text =
      (.ok outcomes, a.final) := hall
    simp only [hscript]
    refine outcome_bind_ok.mpr ⟨outcomes, t, outcome_require_ok.mpr ⟨rfl, rfl⟩, ?_⟩
    exact outcome_change_ok.mpr hwrite

end Applying

/-- Applying a script fails with the files as they were, or changes the graph file alone: it holds
the graph that was in it after all commands of the script. It goes through just when the files can
be read, every command is carried out and the graph file can be written. On a machine that leaves it
to the tree the last cannot fail. -/
theorem apply_transactional [Format] (m : Machine) (t : FileTree) (script path : String) :
    (∀ e t', applied m script path t = (.error e, t') → t' = t) ∧
    (∀ t', applied m script path t = (.ok (), t') ↔
      ∃ a : Application m t script path, m.write t a.file a.text = .ok t') ∧
    (∀ (a : Application m t script path) t', m.write t a.file a.text = .ok t' →
      t'.read a.file = .ok a.text ∧
      ∃ l, t.spot? a.file = some l ∧ t.Refiled (update t.fileAt? l (some a.text)) t') ∧
    outcome (apply script path) t = applied .obliging script path t ∧
    ((∃ t', outcome (apply script path) t = (.ok (), t')) ↔
      Nonempty (Application .obliging t script path)) := by
  refine ⟨failsClean_apply m script path t, fun t' => applied_ok_iff m, ?_, rfl, ?_⟩
  · intro a t' hwrite
    obtain ⟨l, hl, hfiles⟩ := a.refiled hwrite
    refine ⟨FileTree.read_eq_ok.mpr ⟨l, (hfiles.spot?_eq _).trans hl, ?_⟩, l, hl, hfiles⟩
    rw [hfiles.files_eq, Function.update_self]
  · constructor
    · rintro ⟨t', h⟩
      obtain ⟨a, _⟩ := (applied_ok_iff .obliging).mp h
      exact ⟨a⟩
    · rintro ⟨a⟩
      obtain ⟨l, hl⟩ := a.exists_spot
      exact ⟨_, (applied_ok_iff .obliging).mpr ⟨a, FileTree.write_eq_ok.mpr ⟨l, hl, rfl⟩⟩⟩

/-- A workspace with two scripts, the second of which asks for a node that is not there. -/
def scriptedTree : FileTree :=
  .ofEntries
    [(["graph.sg"], .file (SavedGraph.save (Graph.new (handles 0) (handles 1)))),
      (["shadegraph.ron"], .file Settings.default.toText),
      (["link.ron"], .file "[CreateNode(kind: Float), Connect(from: 2, to: 1)]"),
      (["stop.ron"], .file "[CreateNode(kind: Float), DestroyNode(node: 7)]")]

def readOnlyMachine : Machine where
  refuses _
    | .write _ _ => some (.other "Permission denied (os error 13)")
    | _ => none

/-- The first script goes through and changes the graph file. It comes to nothing on a machine that
does not write, and the second script comes to nothing on any. -/
theorem scripted_transactions :
    (∃ (a : Application .obliging scriptedTree "link.ron" "/tmp/shadegraph/shadegraph.ron")
        (t' : FileTree),
      outcome (apply "link.ron" "/tmp/shadegraph/shadegraph.ron") scriptedTree = (.ok (), t') ∧
        t'.read a.file = .ok a.text ∧ t' ≠ scriptedTree) ∧
      (∃ e, applied readOnlyMachine "link.ron" "shadegraph.ron" scriptedTree =
        (.error e, scriptedTree)) ∧
      ∃ e, outcome (apply "stop.ron" "shadegraph.ron") scriptedTree = (.error e, scriptedTree) := by
  have hfailed : ∀ (m : Machine) (script : String),
      (applied m script "shadegraph.ron" scriptedTree).1.toOption = none →
      ∃ e, applied m script "shadegraph.ron" scriptedTree = (.error e, scriptedTree) := by
    intro m script hnone
    rcases hrun : applied m script "shadegraph.ron" scriptedTree with ⟨r, t'⟩
    rw [hrun] at hnone
    cases r with
    | ok u => cases hnone
    | error e =>
      rw [(apply_transactional m scriptedTree script "shadegraph.ron").1 e t' hrun]
      exact ⟨e, rfl⟩
  refine ⟨?_, hfailed _ _ (by decide +kernel), hfailed .obliging _ (by decide +kernel)⟩
  obtain ⟨-, hok, hwritten, hplain, -⟩ :=
    apply_transactional .obliging scriptedTree "link.ron" "/tmp/shadegraph/shadegraph.ron"
  have hnew :
      (applied .obliging "link.ron" "/tmp/shadegraph/shadegraph.ron" scriptedTree).1.toOption =
          some () ∧
        (applied .obliging "link.ron" "/tmp/shadegraph/shadegraph.ron" scriptedTree).2 ≠
          scriptedTree := by
    decide +kernel
  rcases hrun : applied .obliging "link.ron" "/tmp/shadegraph/shadegraph.ron" scriptedTree with
    ⟨r, t'⟩
  rw [hrun] at hnew
  cases except_toOption_eq_some.mp hnew.1
  obtain ⟨a, hwrite⟩ := (hok t').mp hrun
  exact ⟨a, t', hplain.trans hrun, (hwritten a t' hwrite).1, hnew.2⟩

end Workspace

end ShaderGraph

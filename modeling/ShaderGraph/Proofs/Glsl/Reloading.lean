import ShaderGraph.Proofs.Glsl.Subgraph
import ShaderGraph.Proofs.Glsl.Variables
import ShaderGraph.Proofs.RoundTrip

namespace ShaderGraph

open Relation

namespace Glsl

variable {g : Graph} {d : Dialect} {s : Stage} {p : Program}

/-- Numbers that are the same on all nodes behind the root make the same copy. -/
theorem Copies.congr {f k : NodeId → NodeId} {h : Graph} {root : NodeId} (hc : Copies f g h root)
    (hw : g.WellFormed) (hk : ∀ x, ReflTransGen (Feeds g.links) x root → f x = k x) :
    Copies k g h root where
  apart x y hx hy he := hc.apart x y hx hy (by rw [hk x hx, hk y hy, he])
  node n hn hb := by
    rw [← hk n.id hb]
    exact hc.node n hn hb
  inputs x hx := by
    rw [← hk x hx, hc.inputs x hx]
    apply Slots.ext_at?
    intro i
    rw [Slots.at?_apply, Slots.at?_apply]
    cases hi : (g.inputsOf x).at? i with
    | none => rfl
    | some y =>
      have hfeeds : Feeds g.links y x := ⟨_, (Graph.input_iff hw).mp hi, rfl, rfl⟩
      exact congrArg some (hk y (.head hfeeds hx))

end Glsl

namespace SavedGraph

open Glsl (Copies Dialect compileStage)

variable {g h : Graph} {handles : Nat → Handle} {d : Dialect} {s : Glsl.Stage}

/-- The stage outputs stand at the places they are numbered by. -/
theorem place_sink (hw : g.WellFormed) (s : Glsl.Stage) : place g s.sink = s.sink := by
  obtain ⟨v, f, rest, hnodes, hv, -, hf, -, -⟩ := hw.sinks
  have hids : g.ids = Graph.vertexSink :: Graph.fragmentSink :: rest.map Node.id := by
    rw [Graph.ids, hnodes, List.map_cons, List.map_cons, hv, hf]
  rw [place, hids]
  cases s <;> rfl

theorem Reloaded.copies (hh : Reloaded handles g h) (hw : g.WellFormed) (hg : g.Evaluated)
    (hclip : ClipsOpen g) {root : NodeId} (hroot : root ∈ g.ids) : Copies (place g) g h root where
  apart x y hx _ := place_inj (Glsl.live_of_behind hw hroot hx)
  node n hn _ := by
    have hat := node_at_place hw.id_once hn
    obtain ⟨m, hm, hc⟩ := hh.stage.node_at hat
    obtain ⟨hid, -, hkind, -, hliteral, hproperty, halpha, -⟩ := Node.core_eq_iff.mp hc
    simp only [renewed, Node.bare] at hid hkind hliteral hproperty halpha
    refine ⟨m, ?_, ?_⟩
    · rw [← hid]
      exact Graph.node?_of_mem hh.stage.wellFormed.id_once (List.mem_of_getElem? hm)
    · rw [Glsl.ingredients, Glsl.ingredients, hkind, hliteral, hproperty, halpha,
        hclip.filter_eq hn, hh.output_at hw hg hat hm]
  inputs x hx := hh.inputsOf_place hw (Glsl.live_of_behind hw hroot hx)

/-- A stage of the graph that comes back compiles to what it did, under the places for numbers. -/
theorem Reloaded.compileStage_eq (hh : Reloaded handles g h) (hw : g.WellFormed)
    (hg : g.Evaluated) (hclip : ClipsOpen g) {f : NodeId → NodeId}
    (hf : ∀ id ∈ g.ids, place g id = f id) :
    compileStage h d s = Glsl.renumberResult f (compileStage g d s) := by
  obtain ⟨n, hn, hid, -⟩ := Glsl.sink_node hw s
  have hsink : s.sink ∈ g.ids := Graph.mem_ids.mpr ⟨n, hn, hid⟩
  have hinput : (h.inputsOf s.sink).at? 0 = ((g.inputsOf s.sink).at? 0).map (place g) := by
    have hplace := hh.inputsOf_place hw hsink
    rw [place_sink hw s] at hplace
    rw [hplace, Slots.at?_apply]
    cases (g.inputsOf s.sink).at? 0 <;> rfl
  cases hroot : (g.inputsOf s.sink).at? 0 with
  | none =>
    rw [hroot] at hinput
    rw [Glsl.compileStage_vacant hroot, Glsl.compileStage_vacant hinput]
    exact congrArg Except.ok (by
      simp only [Glsl.Program.renumber, List.map_nil, Glsl.renumber_defaultOutput])
  | some root =>
    have hlive : root ∈ g.ids := hw.source_mem ((Graph.input_iff hw).mp hroot)
    have hc : Copies f g h root := (hh.copies hw hg hclip hlive).congr hw fun x hx =>
      hf x (Glsl.live_of_behind hw hlive hx)
    rw [hroot, Option.map_some, hf root hlive] at hinput
    exact hc.compileStage_copy hw hh.stage.wellFormed hroot hinput

end SavedGraph

namespace Session

open Glsl (Dialect Stage compileStage)
open SavedGraph (ClipsOpen load place save)

/-- When the graph of a session comes back from its file, each stage compiles if and only if it did
before, and to the same text with the variable of each node renamed after the place of the node. The
texts are the same if the nodes were numbered by their places already. -/
theorem reloading_keeps_programs {s : Session} (hs : s.Reachable) (ho : s.order = .topological)
    (hclip : ClipsOpen s.graph) {handles : Nat → Handle} {h : Graph}
    (hload : load handles (save s.graph) = .ok h) (d : Dialect) (stage : Stage) :
    (compileStage h d stage).toOption.map Glsl.Program.render =
      (compileStage s.graph d stage).toOption.map
        (fun p => Glsl.renumbered (place s.graph) p.render) ∧
    (∀ id, compileStage s.graph d stage = .error (.unresolved id) →
      compileStage h d stage = .error (.unresolved (place s.graph id))) ∧
    ((∀ id ∈ s.graph.ids, place s.graph id = id) →
      compileStage h d stage = compileStage s.graph d stage) := by
  have hw := hs.graph.wellFormed
  have hg := hs.evaluated ho
  obtain ⟨e, report, hr, he⟩ := Graph.recompute_topological hw
  have hh := SavedGraph.reloaded_of_load hw hr hload
  rw [he.eq_of_core (hw.recompute hr) hg (Graph.core_recompute hr)] at hh
  have hresult : compileStage h d stage =
      Glsl.renumberResult (place s.graph) (compileStage s.graph d stage) :=
    hh.compileStage_eq hw hg hclip fun _ _ => rfl
  refine ⟨?_, fun id hid => ?_, fun hid => ?_⟩
  · rw [hresult]
    cases hp : compileStage s.graph d stage with
    | error e => simp only [Glsl.renumberResult, Except.toOption, Option.map_none]
    | ok p =>
      have htext := Glsl.Program.renumbered_render (f := place s.graph)
        (Glsl.plain_of_compileStage hw hp)
      simp only [Glsl.renumberResult, Except.toOption, Option.map_some, htext]
  · rw [hresult, hid, Glsl.renumberResult, Glsl.CompileError.renumber]
  · rw [hh.compileStage_eq hw hg hclip (f := id) hid, Glsl.renumberResult_id]

/-- A sample with an alpha threshold and its negative at the fragment stage, in a graph with a node
that is gone and an edge that is pending. -/
def gappedSession : Session :=
  ((Session.new ⟨0⟩ ⟨1⟩).applyAll Handle.mk
    [.createNode .time .standard, .createNode .negate .standard,
      .createNode .textureSample .standard, .createNode .float .standard, .connect 5 4 (some 0),
      .connect 4 3 none, .connect 3 1 none, .setAlphaClip 4 (some (.nearest false 1 2)),
      .beginLink 5, .destroyNode 2]).2

theorem gapped_keeps_programs : ∃ h, load Handle.mk (save gappedSession.graph) = .ok h ∧
    gappedSession.graph.ids = [0, 1, 3, 4, 5] ∧
    (compileStage gappedSession.graph .gles100 .fragment).toOption.map
        (fun p => p.body.map Glsl.Statement.render) =
      some ["if (texture2D(texture_0, v_uv).a < 0.5) discard;",
        "vec4 node_4 = texture2D(texture_0, v_uv);", "vec4 node_3 = node_4 * -1.0;"] ∧
    ∀ d stage, (compileStage h d stage).toOption.map Glsl.Program.render =
      (compileStage gappedSession.graph d stage).toOption.map
        (fun p => Glsl.renumbered (place gappedSession.graph) p.render) := by
  have hs : gappedSession.Reachable := (Session.Reachable.new ⟨0⟩ ⟨1⟩).applyAll Handle.mk _
  have ho : gappedSession.order = .topological := by decide +kernel
  have hclip : ClipsOpen gappedSession.graph := by
    have hclips : ∀ n ∈ gappedSession.graph.nodes, ∀ t ∈ n.alphaClip, .zero < t := by
      decide +kernel
    exact hclips
  obtain ⟨h, hload, _⟩ := SavedGraph.load_fitting hs.graph.wellFormed (hs.evaluated ho) Handle.mk
    (by decide +kernel)
  refine ⟨h, hload, by decide +kernel, by decide +kernel, fun d stage => ?_⟩
  exact (reloading_keeps_programs hs ho hclip hload d stage).1

end Session

end ShaderGraph

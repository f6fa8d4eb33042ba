import ShaderGraph.Proofs.Glsl.Renumbering
import ShaderGraph.Proofs.Glsl.Scope

namespace ShaderGraph.Glsl

open Relation

variable {g h : Graph} {f : NodeId → NodeId} {root : NodeId} {d : Dialect} {s : Stage}

/-- What `g` has behind `root`, `h` has under the numbers that `f` gives. -/
structure Copies (f : NodeId → NodeId) (g h : Graph) (root : NodeId) : Prop where
  apart : ∀ x y, ReflTransGen (Feeds g.links) x root → ReflTransGen (Feeds g.links) y root →
    f x = f y → x = y
  node : ∀ n ∈ g.nodes, ReflTransGen (Feeds g.links) n.id root →
    ∃ m, h.node? (f n.id) = some m ∧ ingredients m = ingredients n
  inputs : ∀ x, ReflTransGen (Feeds g.links) x root →
    h.inputsOf (f x) = (g.inputsOf x).apply fun y => some (f y)

structure CopyOf (f : NodeId → NodeId) (g h : Graph) (n m : Node) : Prop where
  id_eq : m.id = f n.id
  same : ingredients m = ingredients n
  operands : operandsOf h h.links m.id = renumberOperands f (operandsOf g g.links n.id)

theorem CopyOf.isValid_eq {n m : Node} (hc : CopyOf f g h n m) : m.isValid = n.isValid :=
  congrArg (fun i : Ingredients => !i.output.isEmpty) hc.same

def AllBehind (g : Graph) (root : NodeId) (ids : List NodeId) : Prop :=
  ∀ id ∈ ids, id ∈ g.ids ∧ ReflTransGen (Feeds g.links) id root

namespace Copies

variable (hc : Copies f g h root) (hw : g.WellFormed)

include hc hw

/-- The operands of a copy are the copies of the operands. -/
theorem operandsOf_copy {x : NodeId} (hx : ReflTransGen (Feeds g.links) x root) :
    operandsOf h h.links (f x) = renumberOperands f (operandsOf g g.links x) := by
  apply Slots.ext_at?
  intro i
  have hinput : (h.inputsOf (f x)).at? i = ((g.inputsOf x).at? i).map f := by
    rw [hc.inputs x hx, Slots.at?_apply]
    cases (g.inputsOf x).at? i <;> rfl
  rw [at?_renumberOperands, operandsOf, operandsOf, Slots.at?_apply, Slots.at?_apply]
  change ((h.inputsOf (f x)).at? i).bind _ = (((g.inputsOf x).at? i).bind _).map _
  rw [hinput]
  cases hi : (g.inputsOf x).at? i with
  | none => rfl
  | some y =>
    have hlink := (Graph.input_iff hw).mp hi
    obtain ⟨n, hn, rfl⟩ := Graph.mem_ids.mp (hw.source_mem hlink)
    have hbehind : ReflTransGen (Feeds g.links) n.id root := .head ⟨_, hlink, rfl, rfl⟩ hx
    obtain ⟨m, hm, hsame⟩ := hc.node n hn hbehind
    have houtput : m.output = n.output := congrArg Ingredients.output hsame
    simp only [Option.map_some, Option.bind_some, Graph.output?, hm,
      Graph.node?_of_mem hw.id_once hn, houtput, Operand.renumber]

theorem copyOf {id : NodeId} (hid : id ∈ g.ids) (hb : ReflTransGen (Feeds g.links) id root) :
    ∃ n m, g.node? id = some n ∧ h.node? (f id) = some m ∧ CopyOf f g h n m := by
  obtain ⟨n, hn, rfl⟩ := Graph.mem_ids.mp hid
  obtain ⟨m, hm, hsame⟩ := hc.node n hn hb
  have hid := (Graph.mem_of_node? hm).2
  refine ⟨n, m, Graph.node?_of_mem hw.id_once hn, hm, hid, hsame, ?_⟩
  rw [hid]
  exact hc.operandsOf_copy hw hb

/-- What the nodes of a list add, one after the other, their copies add too. -/
theorem flatMap_copy {α : Type} {lines lines' : Node → List α} {k : α → α}
    (hk : ∀ n m, CopyOf f g h n m → lines' m = (lines n).map k) {ids : List NodeId}
    (hids : AllBehind g root ids) :
    ((ids.map f).filterMap h.node?).flatMap lines' =
      ((ids.filterMap g.node?).flatMap lines).map k := by
  induction ids with
  | nil => rfl
  | cons id ids ih =>
    obtain ⟨hid, hb⟩ := hids id (by simp)
    obtain ⟨n, m, hn, hm, hcopy⟩ := hc.copyOf hw hid hb
    rw [List.map_cons, List.filterMap_cons_some hn, List.filterMap_cons_some hm,
      List.flatMap_cons, List.flatMap_cons, List.map_append, hk n m hcopy,
      ih fun x hx => hids x (by simp [hx])]

/-- The first node without a value has the first copy without one. -/
theorem find?_copy {ids : List NodeId} (hids : AllBehind g root ids) :
    ((ids.map f).find? fun id => !hasValue h id) =
      (ids.find? fun id => !hasValue g id).map f := by
  induction ids with
  | nil => rfl
  | cons id ids ih =>
    obtain ⟨hid, hb⟩ := hids id (by simp)
    obtain ⟨n, m, hn, hm, hcopy⟩ := hc.copyOf hw hid hb
    rw [List.map_cons, List.find?_cons, List.find?_cons, hasValue, hasValue, hn, hm,
      Option.any_some, Option.any_some, hcopy.isValid_eq, ih fun x hx => hids x (by simp [hx])]
    cases n.isValid <;> rfl

/-- The walks of both graphs come to the same nodes in the same order. -/
theorem walk (hh : h.WellFormed) (hlive : root ∈ g.ids) :
    ∃ w : Walk, Walk.visitAll g.producers g.nodes.length [root] = .ok w ∧
      Walk.visitAll h.producers h.nodes.length [f root] = .ok (w.rename f) ∧
      AllBehind g root w.preorder ∧ AllBehind g root w.postorder := by
  obtain ⟨w, hwalk, hsettled, hperm, hbehind⟩ := exists_walk hw hlive
  have hrenames : Walk.Renames g.producers h.producers w.left f := {
    closed := fun x hx p hp => hsettled.producer hx hp
    apart := fun x hx y hy => hc.apart x y ((hbehind x).mp hx) ((hbehind y).mp hy)
    producers_eq := by
      intro x hx
      rw [Graph.producers, hc.inputs x ((hbehind x).mp hx), Slots.filled_apply]
      exact congrFun List.filterMap_eq_map _ }
  have hrenamed := Walk.visitAll_rename hrenames (by simpa using (hbehind root).mpr .refl) hwalk
  -- the other graph has another number of nodes, so its walk is given other room
  obtain ⟨_, m, _, hm, _⟩ := hc.copyOf hw hlive .refl
  obtain ⟨hm, hid⟩ := Graph.mem_of_node? hm
  obtain ⟨w', hwalk', -⟩ := exists_walk hh (Graph.mem_ids.mpr ⟨m, hm, hid⟩)
  have hall : AllBehind g root w.left := fun id hid =>
    ⟨live_of_behind hw hlive ((hbehind id).mp hid), (hbehind id).mp hid⟩
  refine ⟨w, hwalk, ?_, fun id hid => ?_, fun id hid => hall id (List.mem_reverse.mp hid)⟩
  · rw [hwalk', Walk.visitAll_room hwalk' hrenamed]
  · exact hall id (hperm.mem_iff.mp (List.mem_reverse.mp hid))

end Copies

def renumberResult (f : NodeId → NodeId) : Except CompileError Program → Except CompileError Program
  | .ok p => .ok (p.renumber f)
  | .error e => .error (e.renumber f)

theorem renumberResult_id (r : Except CompileError Program) : renumberResult id r = r := by
  cases r with
  | ok p => rw [renumberResult, p.renumber_id]
  | error e => rw [renumberResult, e.renumber_id]

theorem Declaration.renumber_apart {ids : List NodeId}
    (hf : ∀ x ∈ ids, ∀ y ∈ ids, f x = f y → x = y) {a b : Declaration}
    (ha : ∀ id, a.name = .node id → id ∈ ids) (hb : ∀ id, b.name = .node id → id ∈ ids)
    (h : a.renumber f = b.renumber f) : a = b := by
  cases a <;> cases b <;> simp only [renumber, constant.injEq, uniform.injEq, reduceCtorEq] at h
  case constant.constant x v y w =>
    rw [hf x (ha x rfl) y (hb y rfl) h.1, h.2]
  case uniform.uniform x v y w =>
    rw [hf x (ha x rfl) y (hb y rfl) h.1, h.2]
  case sampler.sampler => exact h

theorem node_of_declaration? {n : Node} {operands : Slots Operand} {x : Declaration}
    (h : declaration? n operands = some x) {id : NodeId} (hid : x.name = .node id) : id = n.id := by
  rcases declaration?_eq_some.mp h with ⟨_, rfl⟩ | ⟨_, rfl⟩
  · rw [name_literalDeclaration] at hid
    exact (Name.node.inj hid).symm
  · cases hid

namespace Copies

variable (hc : Copies f g h root) (hw : g.WellFormed)

include hc hw

theorem declarations_copy {ids : List NodeId} (hids : AllBehind g root ids) :
    (declared h (ids.map f)).eraseDups =
      (declared g ids).eraseDups.map (Declaration.renumber f) := by
  have hall : declared h (ids.map f) = (declared g ids).map (Declaration.renumber f) := by
    unfold declared
    rw [List.filterMap_eq_flatMap_toList fun m => declaration? m (operandsOf h h.links m.id),
      List.filterMap_eq_flatMap_toList fun n => declaration? n (operandsOf g g.links n.id)]
    refine hc.flatMap_copy hw (fun n m hcopy => ?_) hids
    rw [hcopy.operands, renumber_declaration? hcopy.id_eq hcopy.same, Option.toList_map]
  rw [hall]
  have hnode : ∀ x ∈ declared g ids, ∀ id, x.name = .node id → id ∈ ids := by
    intro x hx id hid
    obtain ⟨n, hn, hx⟩ := List.mem_filterMap.mp hx
    obtain ⟨i, hi, hn⟩ := List.mem_filterMap.mp hn
    rwa [node_of_declaration? hx hid, (Graph.mem_of_node? hn).2]
  refine eraseDups_map fun x hx y hy => Declaration.renumber_apart ?_ (hnode x hx) (hnode y hy)
  exact fun i hi j hj => hc.apart i j (hids i hi).2 (hids j hj).2

theorem gathered_copy (hlive : root ∈ g.ids) {w : Walk} (hpre : AllBehind g root w.preorder)
    (hpost : AllBehind g root w.postorder) :
    gathered h d s (f root) (w.rename f) = (gathered g d s root w).renumber f := by
  have hpreorder : (w.rename f).preorder = w.preorder.map f := List.map_reverse.symm
  have hpostorder : (w.rename f).postorder = w.postorder.map f := List.map_reverse.symm
  have hbody : stated h d s (w.postorder.map f) =
      (stated g d s w.postorder).map (Statement.renumber f) := by
    refine hc.flatMap_copy hw (fun n m hcopy => ?_) hpost
    rw [hcopy.operands]
    exact renumber_statements d s hcopy.id_eq hcopy.same
  have houtput : h.output? (f root) = g.output? root := by
    obtain ⟨n, m, hn, hm, hcopy⟩ := hc.copyOf hw hlive .refl
    have hvalue : m.output = n.output := congrArg Ingredients.output hcopy.same
    simp only [Graph.output?, hn, hm, Option.map_some, hvalue]
  simp only [gathered, Program.renumber, hpreorder, hpostorder, hc.declarations_copy hw hpre, hbody,
    houtput, renumber_widenOutput, Expr.renumber]

/-- The copy compiles to the same program under its own numbers, or fails at the copy of the node
that the original fails at. -/
theorem compileStage_copy (hh : h.WellFormed) (hroot : (g.inputsOf s.sink).at? 0 = some root)
    (hroot' : (h.inputsOf s.sink).at? 0 = some (f root)) :
    compileStage h d s = renumberResult f (compileStage g d s) := by
  have hlive : root ∈ g.ids := hw.source_mem ((Graph.input_iff hw).mp hroot)
  obtain ⟨w, hwalk, hwalk', hpre, hpost⟩ := hc.walk hw hh hlive
  have hpreorder : (w.rename f).preorder = w.preorder.map f := List.map_reverse.symm
  rw [compileStage_of_walk hw hroot hwalk, compileStage_of_walk hh hroot' hwalk', hpreorder,
    hc.find?_copy hw hpre]
  cases w.preorder.find? fun id => !hasValue g id with
  | some id => rfl
  | none => exact congrArg Except.ok (hc.gathered_copy hw hlive hpre hpost)

end Copies

/-- Both graphs have the same at a number: a node that reads the same there, or none. -/
structure AgreeAt (g h : Graph) (id : NodeId) : Prop where
  node : (g.node? id).map ingredients = (h.node? id).map ingredients
  inputs : g.inputsOf id = h.inputsOf id

instance (g h : Graph) (id : NodeId) : Decidable (AgreeAt g h id) :=
  decidable_of_iff (_ ∧ _) ⟨fun ⟨hn, hi⟩ => ⟨hn, hi⟩, fun ⟨hn, hi⟩ => ⟨hn, hi⟩⟩

theorem copies_of_agree (hw : g.WellFormed)
    (hagree : ∀ id, ReflTransGen (Feeds g.links) id root → AgreeAt g h id) :
    Copies id g h root where
  apart _ _ _ _ := id
  node n hn hb := by
    have hnode := (hagree n.id hb).node
    rw [Graph.node?_of_mem hw.id_once hn, Option.map_some] at hnode
    exact Option.map_eq_some_iff.mp hnode.symm
  inputs x hx := by
    rw [id, ← (hagree x hx).inputs]
    apply Slots.ext_at?
    intro i
    rw [Slots.at?_apply]
    cases (g.inputsOf x).at? i <;> rfl

/-- Two graphs with the same node at a stage output, or none, that agree on all nodes behind it have
the same program for that stage in every dialect, or fail to have one for the same reason. -/
theorem program_of_subgraph (hg : g.Reachable) (hh : h.Reachable) (d : Dialect) (s : Stage)
    (hroot : (g.inputsOf s.sink).at? 0 = (h.inputsOf s.sink).at? 0)
    (hagree : ∀ root ∈ (g.inputsOf s.sink).at? 0, ∀ id,
      ReflTransGen (Feeds g.links) id root → AgreeAt g h id) :
    compileStage g d s = compileStage h d s := by
  cases hr : (g.inputsOf s.sink).at? 0 with
  | none => rw [compileStage_vacant hr, compileStage_vacant (hroot ▸ hr)]
  | some root =>
    have hc := copies_of_agree hg.wellFormed (hagree root hr)
    rw [hc.compileStage_copy hg.wellFormed hh.wellFormed hr (hroot ▸ hr), renumberResult_id]

def plainSession : Session :=
  ((Session.new ⟨0⟩ ⟨1⟩).applyAll Handle.mk
    [.createNode .float (.literal [.ofNat 3]), .createNode .negate .standard, .connect 2 3 none,
      .connect 3 1 none]).2

/-- The same two nodes, stored and linked the other way round and moved about, beside a node at the
vertex stage and an edge that is pending. -/
def rearrangedSession : Session :=
  ((Session.new ⟨7⟩ ⟨8⟩).applyAll (fun i => ⟨i + 20⟩)
    [.createNode .time .standard, .createNode .negate .standard, .createNode .position .standard,
      .destroyNode 2, .createNode .float (.literal [.ofNat 3]), .connect 4 0 none,
      .connect 3 1 none, .connect 2 3 none, .beginLink 4, .setPosition 3 (.one, .zero)]).2

theorem rearranged_same_program :
    plainSession.graph.ids = [0, 1, 2, 3] ∧ rearrangedSession.graph.ids = [0, 1, 3, 4, 2] ∧
    plainSession.graph.edges.map Edge.id = [0, 1] ∧
    rearrangedSession.graph.edges.map Edge.id = [0, 1, 2, 3] ∧
    ∀ d, compileStage plainSession.graph d .fragment =
      compileStage rearrangedSession.graph d .fragment := by
  have hplain : plainSession.Reachable := (Session.Reachable.new ⟨0⟩ ⟨1⟩).applyAll Handle.mk _
  have hother : rearrangedSession.Reachable :=
    (Session.Reachable.new ⟨7⟩ ⟨8⟩).applyAll (fun i => ⟨i + 20⟩) _
  have hw := hplain.graph.wellFormed
  have hroot : (plainSession.graph.inputsOf Stage.fragment.sink).at? 0 = some 3 := by
    decide +kernel
  have hroot' : (rearrangedSession.graph.inputsOf Stage.fragment.sink).at? 0 = some 3 := by
    decide +kernel
  have hnodes : ∀ id ∈ plainSession.graph.ids, dependsOn plainSession.graph.links 3 id = true →
      AgreeAt plainSession.graph rearrangedSession.graph id := by
    decide +kernel
  refine ⟨by decide +kernel, by decide +kernel, by decide +kernel, by decide +kernel, fun d => ?_⟩
  refine program_of_subgraph hplain.graph hother.graph d .fragment (hroot.trans hroot'.symm)
    fun root hr id hb => ?_
  rw [hroot] at hr
  cases hr
  have hlive := live_of_behind hw (hw.source_mem ((Graph.input_iff hw).mp hroot)) hb
  exact hnodes id hlive ((dependsOn_iff _ _ _).mpr hb)

end ShaderGraph.Glsl

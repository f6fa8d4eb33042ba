import ShaderGraph.Command
import ShaderGraph.Proofs.Passes

namespace ShaderGraph

namespace Node

def unnamed (n : Node) : Node := { n with handle := ⟨0⟩ }

/-- A node apart from its handle and from what passes write into it. -/
def outline (n : Node) : Node := n.unnamed.core

@[simp] theorem outline_outline (n : Node) : n.outline.outline = n.outline := rfl

end Node

/-- Whether a command creates a node or sets something that the node has of its own. -/
def Command.furnishes : Command → Bool
  | .createNode .. | .setLiteral .. | .setProperty .. | .setAlphaClip .. | .setPosition .. => true
  | _ => false

namespace Graph

def unnamed (g : Graph) : Graph := { g with nodes := g.nodes.map Node.unnamed }

def outline (g : Graph) : Graph := { g with nodes := g.nodes.map Node.outline }

variable {g h : Graph}

@[simp] theorem outline_nodeIds (g : Graph) : g.outline.nodeIds = g.nodeIds := rfl

theorem core_unnamed (g : Graph) : g.unnamed.core = g.outline := by
  simp only [core, unnamed, outline, List.map_map]
  rfl

theorem outline_of_core (hc : g.core = h.core) : g.outline = h.outline := by
  have hcore : ∀ k : Graph, k.core.outline = k.outline := by
    intro k
    simp only [core, outline, List.map_map]
    rfl
  rw [← hcore g, hc, hcore]

theorem node?_unnamed (g : Graph) (id : NodeId) :
    g.unnamed.node? id = (g.node? id).map Node.unnamed := by
  rw [node?, unnamed, List.find?_map]
  rfl

theorem node?_outline (g : Graph) (id : NodeId) :
    g.outline.node? id = (g.node? id).map Node.outline := by
  rw [node?, outline, List.find?_map]
  rfl

theorem output?_unnamed (g : Graph) : g.unnamed.output? = g.output? := by
  funext id
  rw [output?, node?_unnamed, Option.map_map]
  rfl

theorem WellFormed.unnamed (hw : g.WellFormed) : g.unnamed.WellFormed := by
  refine hw.mapNodes _ fun n hn => ⟨rfl, rfl, rfl, ?_⟩
  have hf := hw.formed n hn
  exact ⟨hf.literal_shape, hf.literal_empty, hf.limit, hf.property, hf.alphaClip⟩

theorem Evaluated.unnamed (he : g.Evaluated) : g.unnamed.Evaluated where
  inputs m hm := by
    obtain ⟨n, hn, rfl⟩ := List.mem_map.mp hm
    exact he.inputs n hn
  output m hm := by
    obtain ⟨n, hn, rfl⟩ := List.mem_map.mp hm
    rw [output?_unnamed]
    exact he.output n hn

/-- Evaluated graphs with one outline differ in handles only. -/
theorem Evaluated.unnamed_eq (he : g.Evaluated) (hw : g.WellFormed) (hh : h.Evaluated)
    (hgh : g.outline = h.outline) : g.unnamed = h.unnamed := by
  refine he.unnamed.eq_of_core hw.unnamed hh.unnamed ?_
  rw [core_unnamed, core_unnamed, hgh]

def answer (g : Graph) (c : Command) (handle : Handle) : Except GraphError (Outcome × Graph) :=
  (g.apply c handle).map fun (outcome, g) => (outcome, g.outline)

theorem outline_updateNode (id : NodeId) {f f' : Node → Node}
    (hf : ∀ n, (f n).outline = (f' n.outline).outline) :
    (g.updateNode id f).outline = (g.outline.updateNode id f').outline := by
  simp only [updateNode, outline, List.map_map, Graph.mk.injEq, and_true]
  apply List.map_congr_left
  intro n _
  change (if n.id = id then f n else n).outline =
    (if n.id = id then f' n.outline else n.outline).outline
  split
  · exact hf n
  · rfl

theorem create_outline (id : NodeId) (handle : Handle) (kind : Kind) (init : Init) :
    (Node.create id handle kind init).map Node.outline =
      (Node.create id ⟨0⟩ kind init).map Node.outline := by
  cases init with
  | standard => rfl
  | literal xs =>
    simp only [Node.create]
    split <;> rfl
  | arity n =>
    simp only [Node.create]
    split <;> rfl

theorem answer_createNode (g : Graph) (kind : Kind) (init : Init) (handle : Handle) :
    g.answer (.createNode kind init) handle = g.outline.answer (.createNode kind init) ⟨0⟩ := by
  simp only [answer, apply, createNode, outline_nodeIds]
  split
  · rfl
  · cases g.nodeIds.allocate? with
    | none => rfl
    | some r =>
      obtain ⟨id, pool⟩ := r
      obtain ⟨e, hx, hy⟩ | ⟨m, n, hx, hy, hmn⟩ :=
        except_map_eq_map.mp (create_outline id handle kind init)
      · simp only [hx, hy]
      · simp [hx, hy, hmn, Except.map, outline]

theorem setParameter_outline (g : Graph) (id : NodeId) (parameter : Parameter) (has : Kind → Bool)
    {f : Node → Except GraphError Node}
    (hf : ∀ n, (f n).map Node.outline = (f n.outline).map Node.outline) :
    (g.setParameter id parameter has f).map outline =
      (g.outline.setParameter id parameter has f).map outline := by
  rw [setParameter, setParameter, node?_outline]
  cases g.node? id with
  | none => rfl
  | some n =>
    simp only [Option.map_some]
    by_cases hhas : has n.kind = true
    · rw [if_pos hhas, if_pos (show has n.outline.kind = true from hhas)]
      obtain ⟨e, hx, hy⟩ | ⟨m, m', hx, hy, hm⟩ := except_map_eq_map.mp (hf n)
      · simp only [hx, hy]
      · simp only [hx, hy, Except.map, Except.ok.injEq]
        exact outline_updateNode id fun _ => hm
    · rw [if_neg hhas, if_neg (show ¬ has n.outline.kind = true from hhas)]
      rfl

theorem setPosition_outline (g : Graph) (id : NodeId) (position : Scalar × Scalar) :
    (g.setPosition id position).map outline = (g.outline.setPosition id position).map outline := by
  rw [setPosition, setPosition, node?_outline]
  cases g.node? id with
  | none => rfl
  | some n =>
    simp only [Except.map, Option.map_some, Except.ok.injEq]
    exact outline_updateNode id fun _ => rfl

/-- The answer to a command that furnishes a node goes by the outline. -/
theorem answer_outline {c : Command} (hc : c.furnishes = true) (g : Graph) (handle : Handle) :
    g.answer c handle = g.outline.answer c ⟨0⟩ := by
  have hupdate : ∀ x y : Except GraphError Graph, x.map outline = y.map outline →
      (x.map fun g => (Outcome.updated, g)).map (fun (o, g) => (o, g.outline)) =
        (y.map fun g => (Outcome.updated, g)).map fun (o, g) => (o, g.outline) := by
    intro x y hxy
    obtain ⟨e, rfl, rfl⟩ | ⟨a, b, rfl, rfl, hab⟩ := except_map_eq_map.mp hxy
    · rfl
    · simp only [Except.map, hab]
  cases c with
  | createNode kind init => exact answer_createNode g kind init handle
  | setLiteral node value =>
    refine hupdate _ _ (setParameter_outline g node _ _ fun n => ?_)
    have hkind : n.outline.kind.naturalShape.size = n.kind.naturalShape.size := rfl
    by_cases hlength : value.length = n.kind.naturalShape.size
    · rw [dif_pos hlength, dif_pos (hlength.trans hkind.symm)]
      rfl
    · rw [dif_neg hlength, dif_neg fun h => hlength (h.trans hkind)]
      rfl
  | setProperty node property => exact hupdate _ _ (setParameter_outline g node _ _ fun _ => rfl)
  | setAlphaClip node threshold => exact hupdate _ _ (setParameter_outline g node _ _ fun _ => rfl)
  | setPosition node position => exact hupdate _ _ (setPosition_outline g node position)
  | _ => cases hc

theorem checkLink_unnamed (g : Graph) (source target : NodeId) (request : Option Nat) :
    g.unnamed.checkLink source target request = g.checkLink source target request := by
  rw [checkLink, checkLink, node?_unnamed, node?_unnamed, output?_unnamed]
  cases g.node? source with
  | none => rfl
  | some a =>
    cases g.node? target with
    | none => rfl
    | some b => rfl

/-- The answer to a link goes by the graph apart from its handles. -/
theorem answer_connect (g : Graph) (source target : NodeId) (slot : Option Nat) (handle : Handle) :
    g.answer (.connect source target slot) handle =
      g.unnamed.answer (.connect source target slot) ⟨0⟩ := by
  have hdrop : (g.unnamed.dropEdges (·.joins source target)).outline =
      (g.dropEdges (·.joins source target)).outline := by
    simp only [outline, unnamed, dropEdges, List.map_map]
    rfl
  have hstored : ∀ (k : Graph) (e : Edge) (pool : IdPool),
      ({ k with edges := k.edges ++ [e], edgeIds := pool } : Graph).outline =
        { k.outline with edges := k.outline.edges ++ [e], edgeIds := pool } := fun _ _ _ => rfl
  simp only [answer, apply, connect, checkLink_unnamed]
  cases g.checkLink source target slot with
  | error e => rfl
  | ok slot =>
    have hallocate : (g.unnamed.dropEdges (·.joins source target)).allocateEdge =
      (g.dropEdges (·.joins source target)).allocateEdge := rfl
    simp only [hallocate]
    cases (g.dropEdges (·.joins source target)).allocateEdge with
    | error e => rfl
    | ok r => simp only [Except.map, hstored, hdrop]

end Graph

end ShaderGraph

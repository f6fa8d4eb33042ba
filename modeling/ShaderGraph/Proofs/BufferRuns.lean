import ShaderGraph.Proofs.Buffers
import ShaderGraph.Proofs.InPlace
import ShaderGraph.Proofs.Reachable

namespace ShaderGraph

namespace Graph

variable {g g' : Graph}

inductive Edited : Graph → Prop where
  | new (vertexHandle fragmentHandle : Handle) : Edited (Graph.new vertexHandle fragmentHandle)
  | step {g : Graph} (h : Edited g) (s : Step) : Edited (g.perform s)

/-- No file gives a graph that editing does not. -/
theorem Reachable.edited (h : g.Reachable) : g.Edited := by
  induction h with
  | new vertexHandle fragmentHandle => exact .new vertexHandle fragmentHandle
  | loaded h => exact SavedGraph.load_keeps (fun _ s hg => hg.step s) (.new _ _) h
  | step _ s ih => exact ih.step s

theorem Edited.reachable (h : g.Edited) : g.Reachable := by
  induction h with
  | new vertexHandle fragmentHandle => exact .new vertexHandle fragmentHandle
  | step _ s ih => exact ih.step s

end Graph

def Node.cell (n : Node) : Cell := ⟨.ofValue n.output, .ofValue n.literal⟩

namespace Graph

variable {g g' : Graph}

def cells (g : Graph) : Memory := fun id => (g.node? id).map Node.cell

theorem cells_of_nodes (h : g'.nodes = g.nodes) : g'.cells = g.cells := by
  funext id
  rw [cells, cells, node?, node?, h]

theorem cells_append {n : Node} (hfresh : n.id ∉ g.ids) (hnodes : g'.nodes = g.nodes ++ [n]) :
    g'.cells = g.cells.put n.id (some n.cell) := by
  funext id
  rw [cells, node?, hnodes, List.find?_append, Memory.put, cells]
  by_cases hid : id = n.id
  · subst hid
    have hnone := node?_of_notMem hfresh
    rw [node?] at hnone
    simp [hnone]
  · have hne : ¬n.id = id := fun he => hid he.symm
    rw [if_neg hid, node?]
    simp [hne]

theorem cells_filter {id : NodeId} (hnodes : g'.nodes = g.nodes.filter (·.id ≠ id)) :
    g'.cells = g.cells.put id none := by
  funext x
  rw [cells, node?, hnodes, List.find?_filter, Memory.put, cells, node?]
  by_cases hx : x = id
  · rw [if_pos hx, List.find?_eq_none.mpr fun n _ => by simp [hx], Option.map_none]
  · rw [if_neg hx]
    congr 2
    funext n
    by_cases hn : n.id = x
    · simp [hn, hx]
    · simp [hn]

theorem node?_updateNode {id : NodeId} {f : Node → Node} (hid : ∀ n, n.id = id → (f n).id = id)
    (x : NodeId) :
    (g.updateNode id f).node? x = (g.node? x).map fun n => if n.id = id then f n else n := by
  have hsame : (fun n : Node => decide ((if n.id = id then f n else n).id = x)) =
      fun n => decide (n.id = x) := by
    funext n
    by_cases hn : n.id = id
    · rw [if_pos hn, hid n hn, hn]
    · rw [if_neg hn]
  rw [node?, updateNode, List.find?_map]
  exact congrArg _ (congrArg (List.find? · g.nodes) hsame)

theorem cells_updateNode {id : NodeId} {f : Node → Node} (hid : ∀ n, n.id = id → (f n).id = id) :
    (g.updateNode id f).cells = g.cells.put id ((g.node? id).map fun n => (f n).cell) := by
  funext x
  rw [cells, node?_updateNode hid, Memory.put, Option.map_map]
  by_cases hx : x = id
  · subst hx
    rw [if_pos rfl]
    refine Option.map_congr fun n hn => ?_
    simp [(mem_of_node? hn).2]
  · rw [if_neg hx, cells]
    refine Option.map_congr fun n hn => ?_
    have hne : ¬n.id = id := fun he => hx ((mem_of_node? hn).2 ▸ he)
    simp [hne]

/-- A node that is replaced by one with the same buffers. -/
theorem cells_of_kept {id : NodeId} {f : Node → Node} (hid : ∀ n, n.id = id → (f n).id = id)
    (hcell : ∀ n, g.node? id = some n → (f n).cell = n.cell) :
    (g.updateNode id f).cells = g.cells := by
  rw [cells_updateNode hid]
  funext x
  rw [Memory.put]
  split
  · rename_i hx
    rw [hx, cells]
    exact Option.map_congr hcell
  · rfl

theorem cell_bare (id : NodeId) (handle : Handle) (kind : Kind) (literal : Value) (limit : Nat) :
    (Node.bare id handle kind literal limit).cell = .ofLiteral kind (.ofValue literal) := by
  simp only [Node.cell, Node.bare, Kind.firstOutput, Cell.ofLiteral, Buffer.zeroed_eq,
    Buffer.empty_eq]
  cases kind.family <;> rfl

theorem firstLiteral_eq (kind : Kind) :
    Buffer.firstLiteral kind = .ofValue kind.defaultLiteral := by
  simp only [Buffer.firstLiteral, Kind.defaultLiteral, Buffer.zeroed_eq, Buffer.empty_eq,
    Buffer.identity_eq, apply_ite Buffer.ofValue]

/-- A new node has the buffers of its values. -/
theorem cell_create {id : NodeId} {handle : Handle} {kind : Kind} {init : Init} {n : Node}
    (h : Node.create id handle kind init = .ok n) : n.cell = Cell.create kind init := by
  cases init with
  | standard =>
    cases h
    rw [cell_bare, Cell.create, firstLiteral_eq]
    rintro xs ⟨⟩
  | literal xs =>
    simp only [Node.create] at h
    split at h
    · rename_i hx
      cases h
      rw [cell_bare, Cell.create]
      exact congrArg _ (Buffer.ofSlice_components ⟨kind.naturalShape, xs, hx.2⟩).symm
    · cases h
  | arity k =>
    simp only [Node.create] at h
    split at h
    · rename_i hx
      cases h
      have hempty : kind.isVariadic = true → kind.defaultLiteral = .empty := by
        cases kind <;> decide
      rw [cell_bare, Cell.create, firstLiteral_eq, hempty hx.1]
      rintro xs ⟨⟩
    · cases h

theorem cells_refused {c : Command} {handle : Handle} {e : GraphError}
    (ha : g.apply c handle = .error e) : g.cells.apply g c handle = g.cells := by
  cases c with
  | createNode kind init =>
    cases hc : g.createNode kind init handle with
    | ok r => simp [Graph.apply, hc, Except.map] at ha
    | error e => simp only [Memory.apply, hc]
  | destroyNode id =>
    cases hd : g.destroyNode id with
    | ok r => simp [Graph.apply, hd, Except.map] at ha
    | error e => simp only [Memory.apply, hd]
  | setLiteral id xs =>
    simp only [Memory.apply, Buffer.ofSlice?_filter]
    cases hn : g.node? id with
    | none => rfl
    | some n =>
      by_cases hl : n.kind.isLiteral = true
      · by_cases hx : xs.length = n.kind.naturalShape.size
        · simp [Graph.apply, setLiteral, setParameter, hn, hl, hx, Except.map] at ha
        · simp [hl, hx]
      · simp [hl]
  | _ => rfl

theorem cells_setParameter {id : NodeId} {parameter : Parameter}
    {has : Kind → Bool} {f : Node → Except GraphError Node}
    (hf : ∀ n m, f n = .ok m → m.id = n.id ∧ m.output = n.output ∧ m.literal = n.literal)
    (h : g.setParameter id parameter has f = .ok g') : g'.cells = g.cells := by
  obtain ⟨n, m, hn, _, hm, rfl⟩ := setParameter_ok_iff.mp h
  obtain ⟨hid, houtput, hliteral⟩ := hf n m hm
  refine cells_of_kept (fun k hk => ?_) fun k hk => ?_
  · rw [hid, (mem_of_node? hn).2]
  · rw [hn] at hk
    cases hk
    rw [Node.cell, houtput, hliteral, Node.cell]

/-- A command does to the buffers what it does to the values. -/
theorem cells_apply (hw : g.WellFormed) {c : Command} {handle : Handle} {outcome : Outcome}
    (ha : g.apply c handle = .ok (outcome, g')) : g.cells.apply g c handle = g'.cells := by
  have hkept : c.rewires = true → g'.cells = g.cells := fun hc =>
    cells_of_nodes (nodes_of_rewires hc ha)
  cases c <;> obtain ⟨r, hr, he⟩ := except_map_eq_ok.mp ha <;> cases he
  case createNode kind init =>
    obtain ⟨_, n, pool, halloc, hn, hg⟩ := createNode_ok_iff.mp hr
    have hid := (Node.create_ok hn).1
    have hfresh : n.id ∉ g.ids := hid ▸ (hw.nodePool.allocate halloc).1
    have hcells : r.2.cells = _ := cells_append hfresh (by rw [hg])
    simp only [Memory.apply, hr]
    rw [hcells, cell_create hn, hid]
  case destroyNode id =>
    obtain ⟨_, _, hg⟩ := destroyNode_ok_iff.mp hr
    have hcells : r.2.cells = _ := cells_filter (by rw [hg])
    simp only [Memory.apply, hr, hcells]
  case beginLink | finishLink | cancelLink | destroyLink | connect => exact (hkept rfl).symm
  case setLiteral id xs =>
    obtain ⟨n, m, hn, hl, hm, rfl⟩ := setParameter_ok_iff.mp hr
    split at hm
    · rename_i hx
      cases hm
      refine Eq.trans ?_ (cells_updateNode ?_).symm
      case refine_2 => exact fun _ _ => (mem_of_node? hn).2
      simp only [Memory.apply, hn, hl, Buffer.ofSlice?_filter, hx, if_true, dif_pos]
      rfl
    · cases hm
  case setProperty =>
    refine (cells_setParameter (fun n m hm => ?_) hr).symm
    cases hm
    exact ⟨rfl, rfl, rfl⟩
  case setAlphaClip =>
    refine (cells_setParameter (fun n m hm => ?_) hr).symm
    cases hm
    exact ⟨rfl, rfl, rfl⟩
  case setPosition =>
    obtain ⟨_, rfl⟩ := setPosition_ok_iff.mp hr
    refine Eq.symm (cells_of_kept ?_ ?_)
    · exact fun _ hid => hid
    · exact fun _ _ => rfl

theorem settle_shown (env : Valuation) (m : Memory) (id : NodeId) :
    m.settle (g.shown env) id = m.settle g id := by
  unfold Memory.settle
  rw [node?_shown]
  cases g.node? id <;> cases m id <;> rfl

/-- Evaluated on its buffers, a node takes the buffer of its value. -/
theorem cells_settle (hinputs : ∀ n ∈ g.nodes, n.inputs = g.inputsOf n.id) (id : NodeId) :
    g.cells.settle g id = (g.settle id).cells := by
  refine Eq.trans ?_ (cells_updateNode ?_).symm
  case refine_2 => exact fun _ hid => hid
  unfold Memory.settle
  cases hn : g.node? id with
  | none =>
    funext x
    by_cases hx : x = id
    · simp [Memory.put, cells, hx, hn]
    · simp [Memory.put, hx]
  | some n =>
    obtain ⟨hmem, hid⟩ := mem_of_node? hn
    have hcell : g.cells id = some n.cell := by rw [cells, hn, Option.map_some]
    have hoperands : ((g.inputsOf id).apply fun i => (g.cells i).map Cell.output) =
        Buffer.ofSlots ((g.inputsOf id).apply g.output?) := by
      apply Slots.ext_at?
      intro i
      rw [Buffer.at?_ofSlots, Slots.at?_apply, Slots.at?_apply, Option.map_bind]
      congr 1
      funext x
      simp only [cells, output?, Option.map_map, Function.comp_def]
      rfl
    simp only [hcell, hoperands, Option.map_some, evaluateNode, hn, hinputs n hmem, hid]
    rw [Node.cell, Buffer.evaluate_eq]
    rfl

theorem cells_shown (env : Valuation) (h : g.Covered env) (order : List NodeId) :
    order.foldl (Memory.settle g) (g.shown env).cells =
      (g.shown (order.foldl (g.enterValue g.links) env)).cells := by
  induction order generalizing env with
  | nil => rfl
  | cons id order ih =>
    have hinputs : ∀ n ∈ (g.shown env).nodes, n.inputs = (g.shown env).inputsOf n.id := by
      intro n hn
      obtain ⟨m, _, rfl⟩ := List.mem_map.mp hn
      rfl
    rw [List.foldl_cons, List.foldl_cons, ← settle_shown env, cells_settle hinputs, h.settle,
      ih _ (h.enterValue id)]

/-- A pass does to the buffers what it does to the values. -/
theorem cells_recompute (hw : g.WellFormed) {order : Order} {report : Report}
    (hr : g.recompute order = .ok (g', report)) : g.cells.recompute g order = g'.cells := by
  have hshown : (g.shown g.valuation).cells = g.cells := by
    funext id
    rw [cells, node?_shown, Option.map_map, cells]
    refine Option.map_congr fun n hn => ?_
    obtain ⟨hmem, rfl⟩ := mem_of_node? hn
    simp [refresh, Node.cell, lookup_valuation, output?_of_mem hw.id_once hmem]
  obtain ⟨sorted, hsorted, _⟩ := topologicalOrder_ok hw
  simp only [Graph.recompute, hsorted] at hr
  cases hr
  simp only [Memory.recompute, hsorted]
  rw [← hshown]
  cases order with
  | topological => exact cells_shown _ (covered_valuation g) sorted
  | storage => exact cells_shown _ (covered_valuation g) g.ids

end Graph

def Memory.perform (g : Graph) (m : Memory) : Step → Memory
  | .command c handle => m.apply g c handle
  | .recompute order => m.recompute g order

/-- A graph and the buffers of its nodes after any number of steps. -/
inductive Buffered : Graph → Memory → Prop where
  | new (vertexHandle fragmentHandle : Handle) :
    Buffered (Graph.new vertexHandle fragmentHandle) Memory.new
  | step {g : Graph} {m : Memory} (h : Buffered g m) (s : Step) :
    Buffered (g.perform s) (m.perform g s)

namespace Graph

variable {g g' : Graph}

theorem Edited.buffered (h : g.Edited) : ∃ m, Buffered g m := by
  induction h with
  | new vertexHandle fragmentHandle => exact ⟨_, .new vertexHandle fragmentHandle⟩
  | step _ s ih =>
    obtain ⟨m, hm⟩ := ih
    exact ⟨_, hm.step s⟩

theorem cells_new (vertexHandle fragmentHandle : Handle) :
    (Graph.new vertexHandle fragmentHandle).cells = Memory.new := by
  have hvertex : (sink vertexSink .vertexOutput 100 vertexHandle).cell =
      Cell.create .vertexOutput .standard :=
    cell_create (n := .bare vertexSink vertexHandle .vertexOutput .empty 1) rfl
  have hfragment : (sink fragmentSink .fragmentOutput 300 fragmentHandle).cell =
      Cell.create .fragmentOutput .standard :=
    cell_create (n := .bare fragmentSink fragmentHandle .fragmentOutput .empty 1) rfl
  funext id
  rw [cells, node?, Memory.new, ← hvertex, ← hfragment, Memory.put, Memory.put]
  by_cases hf : id = fragmentSink
  · subst hf
    rfl
  · by_cases hv : id = vertexSink
    · subst hv
      rfl
    · have hnone : (Graph.new vertexHandle fragmentHandle).nodes.find? (·.id = id) = none := by
        simp [Graph.new, sink, Node.bare, Ne.symm hf, Ne.symm hv]
      rw [hnone, if_neg hf, if_neg hv, Option.map_none]

theorem cells_perform (hw : g.WellFormed) (s : Step) :
    g.cells.perform g s = (g.perform s).cells := by
  cases s with
  | command c handle =>
    simp only [Memory.perform, perform]
    split
    · rename_i ha
      exact cells_apply hw ha
    · rename_i ha
      exact cells_refused ha
  | recompute order =>
    obtain ⟨g', report, hr⟩ := recompute_ok hw order
    simp only [Memory.perform, perform, hr]
    exact cells_recompute hw hr

end Graph

/-- Along every run the buffers hold the values. -/
theorem Buffered.eq_cells {g : Graph} {m : Memory} (h : Buffered g m) :
    g.Edited ∧ m = g.cells := by
  induction h with
  | new vertexHandle fragmentHandle => exact ⟨.new _ _, (Graph.cells_new _ _).symm⟩
  | step _ s ih =>
    obtain ⟨hedited, rfl⟩ := ih
    exact ⟨hedited.step s, Graph.cells_perform hedited.reachable.wellFormed s⟩

end ShaderGraph

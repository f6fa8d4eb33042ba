import ShaderGraph.Proofs.BufferRuns
import ShaderGraph.Proofs.SteadySources

namespace ShaderGraph

structure Node.Valued (n : Node) : Prop where
  literal : n.kind.isLiteral = true → n.literal.shape = n.kind.naturalShape ∧ n.output = n.literal
  environment : n.kind.family = .environment → n.output = .zero n.kind.naturalShape
  sink : n.kind.isSink = true → n.output.shape = .vec4

theorem Value.shape_widen (v : Value) : v.widen.shape = .vec4 := by
  unfold widen
  split <;> rfl

theorem shape_sinkValue (kind : Kind) (operand : Option Value) :
    (sinkValue kind operand).shape = .vec4 := by
  cases operand with
  | some v => exact v.shape_widen
  | none =>
    simp only [sinkValue]
    split
    · rfl
    · exact Value.shape_widen _

namespace Node

variable {m n : Node}

theorem Valued.congr (h : n.Valued) (hkind : m.kind = n.kind) (hliteral : m.literal = n.literal)
    (houtput : m.output = n.output) : m.Valued := by
  obtain ⟨hlit, henv, hsink⟩ := h
  exact ⟨by rwa [hkind, hliteral, houtput], by rwa [hkind, houtput], by rwa [hkind, houtput]⟩

theorem valued_create {id : NodeId} {handle : Handle} {kind : Kind} {init : Init}
    (h : Node.create id handle kind init = .ok n) : n.Valued := by
  have hformed := (Node.create_ok h).2.2
  have houtput : n.output = n.kind.firstOutput n.literal := by
    cases init with
    | standard =>
      cases h
      rfl
    | literal xs =>
      simp only [Node.create] at h
      split at h <;> cases h
      rfl
    | arity k =>
      simp only [Node.create] at h
      split at h <;> cases h
      rfl
  have hsink : ∀ k : Kind, k.isSink = true → k.naturalShape = .vec4 := by
    rintro ⟨⟩ <;> decide
  refine ⟨fun hk => ⟨hformed.literal_shape hk, ?_⟩, fun hk => ?_, fun hk => ?_⟩
  · have hfamily : n.kind.family = .literal := by simpa [Kind.isLiteral] using hk
    rw [houtput, Kind.firstOutput, hfamily]
  · rw [houtput, Kind.firstOutput, hk]
  · have hfamily : n.kind.family = .sink := by simpa [Kind.isSink] using hk
    rw [houtput, Kind.firstOutput, hfamily]
    exact hsink n.kind hk

/-- A value that evaluation gives is one of those that the kind allows. -/
theorem valued_evaluate {operands : Slots Value} (hf : n.Formed)
    (houtput : n.output = evaluate n.kind n.literal operands) : n.Valued := by
  refine ⟨fun hk => ⟨hf.literal_shape hk, ?_⟩, fun hk => ?_, fun hk => ?_⟩
  · rw [houtput, evaluate_literal hk]
  · rw [houtput, evaluate_environment hk]
  · rw [houtput, evaluate_sink hk, shape_sinkValue]

end Node

namespace Graph

variable {g g' : Graph}

theorem valued_setParameter (hv : ∀ n ∈ g.nodes, n.Valued) {id : NodeId} {parameter : Parameter}
    {has : Kind → Bool} {f : Node → Except GraphError Node}
    (hf : ∀ n m, n.Valued → has n.kind = true → f n = .ok m → m.Valued)
    (h : g.setParameter id parameter has f = .ok g') : ∀ n ∈ g'.nodes, n.Valued := by
  obtain ⟨n, m, hn, hhas, hm, rfl⟩ := setParameter_ok_iff.mp h
  intro k hk
  obtain ⟨j, hj, rfl⟩ := List.mem_map.mp hk
  split
  · exact hf n m (hv n (mem_of_node? hn).1) hhas hm
  · exact hv j hj

theorem valued_apply (hv : ∀ n ∈ g.nodes, n.Valued) {c : Command} {handle : Handle}
    {outcome : Outcome} (ha : g.apply c handle = .ok (outcome, g')) : ∀ n ∈ g'.nodes, n.Valued := by
  have hkept : c.rewires = true → g'.nodes = g.nodes := fun hc => nodes_of_rewires hc ha
  cases c <;> obtain ⟨r, hr, he⟩ := except_map_eq_ok.mp ha <;> cases he
  case createNode kind init =>
    obtain ⟨_, n, pool, _, hn, hg⟩ := createNode_ok_iff.mp hr
    intro m hm
    rw [hg, List.mem_append, List.mem_singleton] at hm
    rcases hm with hm | rfl
    · exact hv m hm
    · exact Node.valued_create hn
  case destroyNode id =>
    obtain ⟨_, _, hg⟩ := destroyNode_ok_iff.mp hr
    intro m hm
    rw [hg] at hm
    exact hv m (List.mem_filter.mp hm).1
  case beginLink | finishLink | cancelLink | destroyLink | connect =>
    rw [hkept rfl]
    exact hv
  case setLiteral id xs =>
    refine valued_setParameter hv (fun n m hn hk hm => ?_) hr
    split at hm <;> cases hm
    have hfamily : n.kind.family = .literal := by simpa [Kind.isLiteral] using hk
    exact ⟨fun _ => ⟨rfl, rfl⟩, fun he => by simp [hfamily] at he,
      fun he => by simp [Kind.isSink, hfamily] at he⟩
  case setProperty =>
    refine valued_setParameter hv (fun n m hn _ hm => ?_) hr
    cases hm
    exact hn.congr rfl rfl rfl
  case setAlphaClip =>
    refine valued_setParameter hv (fun n m hn _ hm => ?_) hr
    cases hm
    exact hn.congr rfl rfl rfl
  case setPosition =>
    obtain ⟨_, rfl⟩ := setPosition_ok_iff.mp hr
    intro k hk
    obtain ⟨j, hj, rfl⟩ := List.mem_map.mp hk
    split
    · exact (hv j hj).congr rfl rfl rfl
    · exact hv j hj

/-- Where a pass has been, it has left a value of evaluation. -/
theorem lookup_visited {n : Node} (hn : g.node? n.id = some n) {order : List NodeId}
    (hmem : n.id ∈ order) (env : Valuation) :
    ∃ operands, (order.foldl (g.enterValue g.links) env).lookup n.id =
      some (evaluate n.kind n.literal operands) := by
  induction order generalizing env with
  | nil => cases hmem
  | cons id order ih =>
    rw [List.foldl_cons]
    by_cases hlater : n.id ∈ order
    · exact ih hlater _
    · obtain rfl : n.id = id := (List.mem_cons.mp hmem).resolve_right hlater
      rw [lookup_foldl_of_notMem g hlater, lookup_enterValue, if_pos rfl, hn]
      exact ⟨_, rfl⟩

/-- A pass in either order visits every node. -/
theorem output_recompute (hw : g.WellFormed) {order : Order} {report : Report}
    (hr : g.recompute order = .ok (g', report)) {n : Node} (hn : n ∈ g'.nodes) :
    ∃ operands, n.output = evaluate n.kind n.literal operands := by
  obtain ⟨sorted, hsorted, hall⟩ := topologicalOrder_ok hw
  simp only [Graph.recompute, hsorted] at hr
  cases hr
  obtain ⟨m, hm, rfl⟩ := List.mem_map.mp hn
  have hmem : m.id ∈ g.ids := mem_ids.mpr ⟨m, hm, rfl⟩
  have hvisited (visited : List NodeId) (hv : m.id ∈ visited) : ∃ operands,
      (refresh g.links (visited.foldl (g.enterValue g.links) g.valuation) m).output =
        evaluate m.kind m.literal operands := by
    obtain ⟨operands, hlookup⟩ := lookup_visited (node?_of_mem hw.id_once hm) hv g.valuation
    exact ⟨operands, by simp only [refresh, hlookup, Option.getD_some]⟩
  cases order with
  | topological => exact hvisited sorted ((hall.mem_iff _).mpr hmem)
  | storage => exact hvisited g.ids hmem

theorem valued_recompute (hw : g.WellFormed) {order : Order} {report : Report}
    (hr : g.recompute order = .ok (g', report)) : ∀ n ∈ g'.nodes, n.Valued := by
  intro n hn
  obtain ⟨operands, houtput⟩ := output_recompute hw hr hn
  exact Node.valued_evaluate ((hw.recompute hr).formed n hn) houtput

theorem valued_new (vertexHandle fragmentHandle : Handle) :
    ∀ n ∈ (Graph.new vertexHandle fragmentHandle).nodes, n.Valued := by
  intro n hn
  simp only [Graph.new, List.mem_cons, List.not_mem_nil, or_false] at hn
  have hbare (id : NodeId) (handle : Handle) (kind : Kind) :=
    Node.valued_create (rfl : Node.create id handle kind .standard = .ok _)
  rcases hn with rfl | rfl
  · exact (hbare vertexSink vertexHandle .vertexOutput).congr rfl rfl rfl
  · exact (hbare fragmentSink fragmentHandle .fragmentOutput).congr rfl rfl rfl

theorem Edited.valued (h : g.Edited) : ∀ n ∈ g.nodes, n.Valued := by
  induction h with
  | new vertexHandle fragmentHandle => exact valued_new vertexHandle fragmentHandle
  | @step g h s ih =>
    cases s with
    | command c handle =>
      simp only [perform]
      split
      · rename_i ha
        exact valued_apply ih ha
      · exact ih
    | recompute order =>
      simp only [perform]
      split
      · rename_i hr
        exact valued_recompute h.reachable.wellFormed hr
      · exact ih

end Graph

/-- A buffer that holds a value: its components are the live ones, and behind them are zeros. -/
structure Buffer.Holds (b : Buffer) (v : Value) : Prop where
  shape : b.shape = v.shape
  live : b.live = v.components
  clean : b.Clean
  /-- These sixteen numbers are the ones that are saved. -/
  places : b.data.toList = v.buffer

theorem Buffer.holds_ofValue (v : Value) : (ofValue v).Holds v where
  shape := rfl
  live := live_ofValue v
  clean := clean_ofValue v
  places := by
    apply List.ext_getElem
    · simp [Value.buffer]
    · intro i hi _
      simp [Value.buffer]

def Memory.Keeps (m : Memory) (b : Buffer) : Prop :=
  ∃ id c, m id = some c ∧ (b = c.output ∨ b = c.literal)

/-- The buffers of the nodes of a graph are padded with zeros: one without a value has nothing else,
and two of them are equal when their live components are. -/
structure Memory.Padded (m : Memory) (g : Graph) : Prop where
  holds : ∀ n ∈ g.nodes,
    ∃ c, m n.id = some c ∧ c.output.Holds n.output ∧ c.literal.Holds n.literal
  zeros : ∀ b, m.Keeps b → b.Clean ∧ (b.isEmpty = true → b.data = Buffer.zeros)
  equal : ∀ a b, m.Keeps a → m.Keeps b →
    (a.live = b.live ↔ a = b) ∧ (a.live == b.live) = a.same b

/-- Whether a pass may leave a node of this kind without a value. -/
def Kind.mayFail (k : Kind) : Prop :=
  k.family = .arithmetic ∨ k.family = .operator ∧ k ≠ .textureSample ∧ k ≠ .vertexColor

theorem Channel.shape_mem (c : Channel) : c.shape ∈ [Shape.vec4, .vec3, .scalar] := by
  cases c <;> simp [shape]

/-- A sample has a value whatever is connected to it. -/
theorem evaluate_sample {k : Kind} (hk : k = .textureSample ∨ k = .vertexColor) (literal : Value)
    (operands : Slots Value) :
    ∃ s ∈ [Shape.vec4, .vec3, .scalar], evaluate k literal operands = .zero s := by
  rcases hk with rfl | rfl
  · exact ⟨_, Channel.shape_mem _, rfl⟩
  · exact ⟨_, Channel.shape_mem _, rfl⟩

namespace Graph

variable {g g' : Graph}

theorem padded_cells (g : Graph) (hu : g.ids.Nodup) : g.cells.Padded g := by
  have hclean : ∀ b, g.cells.Keeps b → b.Clean := by
    rintro b ⟨id, c, hc, hb⟩
    obtain ⟨n, _, rfl⟩ := Option.map_eq_some_iff.mp hc
    rcases hb with rfl | rfl
    · exact Buffer.clean_ofValue _
    · exact Buffer.clean_ofValue _
  refine ⟨fun n hn => ⟨n.cell, ?_, Buffer.holds_ofValue _, Buffer.holds_ofValue _⟩,
    fun b hb => ⟨hclean b hb, (hclean b hb).data_eq_zeros⟩, fun a b ha hb => ?_⟩
  · rw [cells, node?_of_mem hu hn, Option.map_some]
  · exact ⟨(hclean a ha).live_eq_iff (hclean b hb), (hclean a ha).live_beq (hclean b hb)⟩

/-- A node that a pass leaves without a value is a computed one. -/
theorem mayFail_of_invalid (hw : g.WellFormed) {order : Order} {report : Report}
    (hr : g.recompute order = .ok (g', report)) {n : Node} (hn : n ∈ g'.nodes)
    (hinvalid : n.output.isEmpty = true) : n.kind.mayFail := by
  have hvalued := valued_recompute hw hr n hn
  have hshape : n.output.shape = .empty := by simpa [Value.isEmpty] using hinvalid
  have hsource (hk : n.kind.family = .environment ∨ n.kind.family = .literal)
      (hs : n.output.shape = n.kind.naturalShape) : False := by
    have hpos := Kind.naturalShape_pos hk
    rw [← hs, hshape] at hpos
    cases hpos
  unfold Kind.mayFail
  cases hk : n.kind.family with
  | environment =>
    refine (hsource (.inl hk) ?_).elim
    rw [hvalued.environment hk]
    rfl
  | literal =>
    obtain ⟨hliteral, houtput⟩ := hvalued.literal (by simp [Kind.isLiteral, hk])
    exact (hsource (.inr hk) (houtput ▸ hliteral)).elim
  | sink =>
    have hvec := hvalued.sink (by simp [Kind.isSink, hk])
    rw [hshape] at hvec
    cases hvec
  | arithmetic => exact .inl rfl
  | operator =>
    have hsample : ¬(n.kind = .textureSample ∨ n.kind = .vertexColor) := by
      intro hsample
      obtain ⟨operands, houtput⟩ := output_recompute hw hr hn
      obtain ⟨s, hs, hvalue⟩ := evaluate_sample hsample n.literal operands
      rw [houtput, hvalue] at hshape
      obtain rfl : s = .empty := hshape
      simp at hs
    exact .inr ⟨rfl, fun h => hsample (.inl h), fun h => hsample (.inr h)⟩

/-- What holds of the values of a graph: of its buffers as steps from a new graph leave them, of
what its nodes hold by their kind alone, and of what a pass in either order leaves, in any build
that does not stop in it. -/
structure WellValued (g : Graph) : Prop where
  buffered : ∃ m, Buffered g m
  padded : ∀ m, Buffered g m → m.Padded g
  valued : ∀ n ∈ g.nodes, n.Valued
  settled : ∀ order, ∃ g' report, g.recompute order = .ok (g', report) ∧
    (∀ n ∈ g'.nodes, n.kind = .textureSample ∨ n.kind = .vertexColor →
      ∃ s ∈ [Shape.vec4, .vec3, .scalar], n.output = .zero s) ∧
    (∀ id ∈ report.invalid, ∃ n ∈ g'.nodes, n.id = id ∧ n.output.isEmpty = true ∧ n.kind.mayFail) ∧
    ∀ o, (g.recomputeIn o order = none ∨ g.recomputeIn o order = some (.ok (g', report))) ∧
      (g.recomputeIn o order = none ↔ o = .stops ∧ g.Strains order)

/-- The values of every graph that comes about by editing and loading are well-formed. -/
theorem wellValued_of_reachable (hg : g.Reachable) : g.WellValued := by
  have hw := hg.wellFormed
  refine ⟨hg.edited.buffered, fun m hm => ?_, hg.edited.valued, fun order => ?_⟩
  · rw [hm.eq_cells.2]
    exact padded_cells g hw.id_once
  · obtain ⟨g', report, hr⟩ := recompute_ok hw order
    refine ⟨g', report, hr, fun n hn hk => ?_, fun id hid => ?_, fun o => ?_⟩
    · obtain ⟨operands, houtput⟩ := output_recompute hw hr hn
      rw [houtput]
      exact evaluate_sample hk n.literal operands
    · rw [recompute_report hw hr] at hid
      obtain ⟨n, hn, rfl⟩ := List.mem_map.mp hid
      obtain ⟨hn, hinvalid⟩ := List.mem_filter.mp hn
      have hempty : n.output.isEmpty = true := by simpa [Node.isValid] using hinvalid
      exact ⟨n, hn, rfl, hempty, mayFail_of_invalid hw hr hn hempty⟩
    · obtain ⟨hstops, hcases⟩ := recomputeIn_spec hw o order
      exact ⟨hr ▸ hcases, hstops⟩

/-- A color of three components goes to a desaturation and then loses one of them, so the third
place that is written there is none that counts. -/
def fadedSteps : List Step :=
  [.command (.createNode .vector2 (.literal [.one, .zero])) ⟨2⟩,
    .command (.createNode .float (.literal [.one])) ⟨3⟩,
    .command (.createNode .append .standard) ⟨4⟩,
    .command (.createNode .desaturate .standard) ⟨5⟩,
    .command (.createNode .textureSample .standard) ⟨6⟩,
    .command (.createNode .add .standard) ⟨7⟩,
    .command (.connect 2 4 none) ⟨8⟩, .command (.connect 3 4 none) ⟨8⟩, .recompute .topological,
    .command (.connect 4 5 none) ⟨8⟩, .command (.connect 3 5 none) ⟨8⟩, .recompute .topological,
    .command (.destroyLink 1) ⟨8⟩, .recompute .topological, .recompute .storage]

def faded : Graph := fadedSteps.foldl perform (Graph.new ⟨0⟩ ⟨1⟩)

theorem faded_wellValued :
    (faded.node? 5).map (·.output.components) = some [.nearest false 3 10, .nearest false 3 10] ∧
      faded.WellValued :=
  ⟨by decide +kernel, wellValued_of_reachable (reachable_foldl (.new _ _) fadedSteps)⟩

end Graph

end ShaderGraph

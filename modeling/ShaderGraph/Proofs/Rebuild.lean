import ShaderGraph.Proofs.Passes
import ShaderGraph.Proofs.Records
import ShaderGraph.SavedGraph.Load

namespace ShaderGraph.SavedGraph

/-- The node at a position as it is loaded, before any pass. A threshold that clips nothing is not
kept. -/
def renewed (handles : Nat → Handle) (position : Nat) (n : Node) : Node :=
  { Node.bare position (handles position) n.kind n.literal n.limit with
    property := n.property
    alphaClip := n.alphaClip.filter (.zero < ·)
    position := n.position }

def frame (handles : Nat → Handle) (nodes : List Node) : Graph where
  nodes := nodes.mapIdx (renewed handles)
  edges := []
  nodeIds := ⟨Graph.maxNodes, nodes.length, []⟩
  edgeIds := IdPool.new Graph.maxEdges

theorem take_buffer (v : Value) : v.buffer.take v.size = v.components := by
  have hsize : v.shape.size ≤ 16 := by
    cases v.shape <;> decide
  apply List.ext_getElem
  · simp [Value.buffer, hsize, v.length_eq, Value.size]
  · intro i _ hi
    simp [Value.buffer, Value.get, List.getElem?_eq_getElem hi]

theorem create_recordOf {n : Node} (hf : n.Formed) (id : NodeId) (handle : Handle) :
    Node.create id handle n.kind (recordOf n).init =
      .ok (Node.bare id handle n.kind n.literal n.limit) := by
  have hvariadic : n.kind.isLiteral = true → n.kind.isVariadic = false := by
    cases n.kind <;> decide
  have hinit : (recordOf n).init =
      if n.kind.isLiteral then .literal ((dataOf n).take n.kind.naturalShape.size)
      else if n.kind.isVariadic && n.limit ≠ n.kind.inputLimit then .arity n.limit
      else .standard := rfl
  rw [hinit]
  by_cases hlit : n.kind.isLiteral = true
  · have hshape := hf.literal_shape hlit
    have hdata : (dataOf n).take n.kind.naturalShape.size = n.literal.components := by
      rw [dataOf, if_pos hlit, ← hshape]
      exact take_buffer n.literal
    have hlength : n.literal.components.length = n.kind.naturalShape.size := by
      rw [n.literal.length_eq, hshape]
    rw [if_pos hlit, hdata]
    simp only [Node.create]
    rw [dif_pos ⟨hlit, hlength⟩, hf.limit_eq (hvariadic hlit)]
    congr 2
    exact Value.ext' rfl
  · have hempty := hf.literal_empty (by simpa using hlit)
    rw [if_neg hlit]
    split
    · rename_i hv
      simp only [Bool.and_eq_true, decide_eq_true_eq] at hv
      have hrange : 2 ≤ n.limit ∧ n.limit ≤ 4 := by
        rcases hf.limit with h | ⟨_, h⟩
        · exact absurd h hv.2
        · exact h
      simp only [Node.create]
      rw [if_pos ⟨hv.1, hrange⟩, hempty]
    · rename_i hv
      have hsame : n.limit = n.kind.inputLimit := by
        cases hk : n.kind.isVariadic with
        | false => exact hf.limit_eq hk
        | true => simpa [hk] using hv
      have hdefault : n.kind.defaultLiteral = .empty := by
        revert hlit
        cases n.kind <;> decide
      simp only [Node.create]
      rw [hsame, hempty, hdefault]

def grown (g : Graph) (m : Node) (pool : IdPool) : Graph :=
  { g with nodes := g.nodes ++ [m], nodeIds := pool }

section Last

variable {g : Graph} {m : Node} {pool : IdPool}

theorem node?_grown (hm : m.id ∉ g.ids) : (grown g m pool).node? m.id = some m := by
  have hnone : g.nodes.find? (·.id = m.id) = none := Graph.node?_of_notMem hm
  simp [grown, Graph.node?, List.find?_append, hnone]

theorem updateNode_grown (hm : m.id ∉ g.ids) (f : Node → Node) :
    (grown g m pool).updateNode m.id f = grown g (f m) pool := by
  have hkeep : g.nodes.map (fun n => if n.id = m.id then f n else n) = g.nodes := by
    conv_rhs => rw [← List.map_id g.nodes]
    apply List.map_congr_left
    intro n hn
    rw [if_neg fun he => hm (Graph.mem_ids.mpr ⟨n, hn, he⟩)]
    rfl
  simp [grown, Graph.updateNode, hkeep]

theorem setProperty_grown (hm : m.id ∉ g.ids) (hk : m.kind.isLiteral = true) (b : Bool) :
    (grown g m pool).setProperty m.id b = .ok (grown g { m with property := b } pool) := by
  simp only [Graph.setProperty, Graph.setParameter, node?_grown hm, hk, ↓reduceIte]
  rw [updateNode_grown hm]

theorem setAlphaClip_grown (hm : m.id ∉ g.ids) (hk : m.kind = .textureSample)
    (t : Option Scalar) :
    (grown g m pool).setAlphaClip m.id t = .ok (grown g { m with alphaClip := t } pool) := by
  simp only [Graph.setAlphaClip, Graph.setParameter, node?_grown hm, hk, decide_true, ↓reduceIte]
  rw [updateNode_grown hm]

theorem setPosition_grown (hm : m.id ∉ g.ids) (position : Scalar × Scalar) :
    (grown g m pool).setPosition m.id position =
      .ok (grown g { m with position := position } pool) := by
  simp only [Graph.setPosition, node?_grown hm]
  rw [updateNode_grown hm]

end Last

/-- The threshold that the data columns of a sample stand for. -/
theorem headD_dataOf {n : Node} (hk : n.kind = .textureSample) :
    (dataOf n).headD .zero = n.alphaClip.getD .zero := by
  unfold dataOf
  rw [hk]
  cases n.alphaClip <;> rfl

theorem setParameters_grown {g : Graph} {n : Node} (hf : n.Formed) {pool : IdPool} {id : NodeId}
    (hid : id ∉ g.ids) (handle : Handle) :
    setParameters (grown g (Node.bare id handle n.kind n.literal n.limit) pool) id (recordOf n) =
      .ok (grown g { Node.bare id handle n.kind n.literal n.limit with
        property := n.property, alphaClip := n.alphaClip.filter (.zero < ·) } pool) := by
  have hproperty : (if n.kind.isLiteral then
      (grown g (Node.bare id handle n.kind n.literal n.limit) pool).setProperty id n.property
      else pure (grown g (Node.bare id handle n.kind n.literal n.limit) pool)) =
      (.ok (grown g { Node.bare id handle n.kind n.literal n.limit with
        property := n.property } pool) : Except GraphError Graph) := by
    split
    · rename_i hlit
      exact setProperty_grown (m := Node.bare id handle n.kind n.literal n.limit) hid hlit _
    · rename_i hlit
      have : n.property = false := by
        by_contra hp
        exact hlit (hf.property (by simpa using hp))
      rw [this]
      rfl
  refine except_bind_eq_ok.mpr ⟨_, hproperty, ?_⟩
  simp only
  by_cases hk : n.kind = .textureSample
  · have hhead : (recordOf n).data.headD .zero = n.alphaClip.getD .zero := headD_dataOf hk
    rw [hhead]
    cases hclip : n.alphaClip with
    | none =>
      rw [if_neg fun h => absurd h.2 (by decide : ¬ Scalar.zero < Scalar.zero)]
      rfl
    | some t =>
      simp only [Option.getD_some, Option.filter]
      by_cases ht : Scalar.zero < t
      · rw [if_pos ⟨hk, ht⟩, if_pos (by simpa using ht)]
        exact setAlphaClip_grown (m := { Node.bare id handle n.kind n.literal n.limit with
          property := n.property }) hid hk _
      · rw [if_neg fun h => ht h.2, if_neg (by simpa using ht)]
        rfl
  · have hclip : n.alphaClip = none := by
      by_contra hne
      exact hk (hf.alphaClip (Option.isSome_iff_ne_none.mpr hne))
    rw [if_neg fun h => hk h.1, hclip]
    rfl

/-- A record adds its node under the next id. -/
theorem addNode_recordOf {g : Graph} {n : Node} (hf : n.Formed) (hsink : n.kind.isSink = false)
    (hids : g.ids = List.range g.nodes.length)
    (hpool : g.nodeIds = ⟨Graph.maxNodes, g.nodes.length, []⟩)
    (hroom : g.nodes.length < Graph.maxNodes) (handles : Nat → Handle) :
    addNode g (recordOf n) (handles g.nodes.length) = .ok (g.nodes.length,
      grown g (renewed handles g.nodes.length n) ⟨Graph.maxNodes, g.nodes.length + 1, []⟩) := by
  have hid : g.nodes.length ∉ g.ids := by simp [hids]
  have hcreate : g.createNode n.kind (recordOf n).init (handles g.nodes.length) =
      .ok (g.nodes.length, grown g (Node.bare g.nodes.length (handles g.nodes.length) n.kind
        n.literal n.limit) ⟨Graph.maxNodes, g.nodes.length + 1, []⟩) := by
    simp only [Graph.createNode, hsink, hpool, IdPool.allocate?, hroom, create_recordOf hf,
      Bool.false_eq_true, ↓reduceIte]
    rfl
  have hplace : placeNode g (recordOf n) (handles g.nodes.length) = .ok (g.nodes.length,
      grown g { Node.bare g.nodes.length (handles g.nodes.length) n.kind n.literal n.limit with
        property := n.property, alphaClip := n.alphaClip.filter (.zero < ·) }
        ⟨Graph.maxNodes, g.nodes.length + 1, []⟩) := by
    unfold placeNode
    split
    · rename_i hk
      rw [show n.kind = .vertexOutput from hk] at hsink
      cases hsink
    · rename_i hk
      rw [show n.kind = .fragmentOutput from hk] at hsink
      cases hsink
    · exact except_bind_eq_ok.mpr ⟨_, hcreate,
        except_bind_eq_ok.mpr ⟨_, setParameters_grown hf hid _, rfl⟩⟩
  refine except_bind_eq_ok.mpr ⟨_, hplace, except_bind_eq_ok.mpr ⟨_, ?_, rfl⟩⟩
  exact setPosition_grown (m := { Node.bare g.nodes.length (handles g.nodes.length) n.kind n.literal
    n.limit with property := n.property, alphaClip := n.alphaClip.filter (.zero < ·) }) hid _

/-- A node record on a line of its own. -/
theorem addLine_nodeRecord (handles : Nat → Handle) {g h h' : Graph} {n : Node} {id : NodeId}
    (hsize : g.nodes.length ≤ Graph.maxNodes) (hlimit : n.limit ≤ 4)
    (hadd : addNode h (recordOf n) (handles h.nodes.length) = .ok (id, h')) (records : List NodeId)
    (number : Nat) :
    Loading.addLine handles ⟨h, records, false⟩ (nodeRecord g n, number) =
      .ok ⟨h', records ++ [id], false⟩ := by
  have hread := readNode_nodeRecord hsize hlimit
  obtain ⟨c, cs, hrecord, hc, htrim⟩ := nodeRecord_eq_cons g n
  have hmark : c ≠ '?' := by
    rintro rfl
    cases hc
  rw [hrecord] at hread ⊢
  unfold Loading.addLine
  simp only [htrim]
  split
  · rename_i he
    cases he
  · rename_i he
    cases he
    exact absurd rfl hmark
  · simp only [Bool.false_eq_true, ↓reduceIte]
    refine except_bind_eq_ok.mpr ⟨_, except_mapError_eq_ok.mpr hread, ?_⟩
    exact except_bind_eq_ok.mpr ⟨_, except_mapError_eq_ok.mpr hadd, rfl⟩

theorem frame_ids (handles : Nat → Handle) (nodes : List Node) :
    (frame handles nodes).ids = List.range nodes.length := by
  apply List.ext_getElem
  · simp [frame, Graph.ids]
  · intro i hi _
    simp [frame, Graph.ids, renewed, Node.bare]

theorem frame_concat (handles : Nat → Handle) (nodes : List Node) (n : Node) :
    frame handles (nodes ++ [n]) = grown (frame handles nodes) (renewed handles nodes.length n)
      ⟨Graph.maxNodes, nodes.length + 1, []⟩ := by
  simp [frame, grown, List.mapIdx_append]

/-- The records of nodes that are no stage outputs, one line after the other. -/
theorem foldlM_nodeRecords (handles : Nat → Handle) {g : Graph}
    (hsize : g.nodes.length ≤ Graph.maxNodes) (done : List Node) {rest : List Node}
    (hrest : ∀ n ∈ rest, n.Formed ∧ n.kind.isSink = false)
    (hroom : done.length + rest.length ≤ Graph.maxNodes) (number : Nat) :
    ((rest.map (nodeRecord g)).zipIdx number).foldlM (Loading.addLine handles)
      ⟨frame handles done, List.range done.length, false⟩ =
      .ok ⟨frame handles (done ++ rest), List.range (done ++ rest).length, false⟩ := by
  induction rest generalizing done number with
  | nil => simp [pure, Except.pure]
  | cons n rest ih =>
    obtain ⟨hf, hsink⟩ := hrest n (by simp)
    have hlength : (frame handles done).nodes.length = done.length := by simp [frame]
    simp only [List.length_cons] at hroom
    have hadd := addNode_recordOf hf hsink (g := frame handles done)
      (by rw [frame_ids, hlength]) (by rw [hlength]; rfl) (by omega) handles
    rw [hlength, ← frame_concat] at hadd
    have hline := addLine_nodeRecord handles hsize hf.limit_le
      (by rw [hlength]; exact hadd) (List.range done.length) number
    have hrecords : List.range done.length ++ [done.length] = List.range (done ++ [n]).length := by
      simp [List.range_succ]
    rw [hrecords] at hline
    have hfold := ih (done ++ [n]) (fun m hm => hrest m (by simp [hm]))
      (by simp only [List.length_append, List.length_cons, List.length_nil]; omega) (number + 1)
    rw [List.append_assoc, List.singleton_append] at hfold
    rw [List.map_cons, List.zipIdx_cons, List.foldlM_cons, hline]
    exact hfold

/-- A record of a stage output moves the one that is there. -/
theorem addNode_sink {g : Graph} {n : Node} {id : NodeId}
    (hk : n.kind = .vertexOutput ∧ id = Graph.vertexSink ∨
      n.kind = .fragmentOutput ∧ id = Graph.fragmentSink) {m : Node} (hm : g.node? id = some m)
    (handle : Handle) : addNode g (recordOf n) handle =
      .ok (id, g.updateNode id fun m => { m with position := n.position }) := by
  have hplace : placeNode g (recordOf n) handle = .ok (id, g) := by
    unfold placeNode
    have hkind : (recordOf n).kind = n.kind := rfl
    rcases hk with ⟨hk, rfl⟩ | ⟨hk, rfl⟩
    · rw [hkind, hk]
      rfl
    · rw [hkind, hk]
      rfl
  refine except_bind_eq_ok.mpr ⟨_, hplace, except_bind_eq_ok.mpr ⟨_, ?_, rfl⟩⟩
  simp only [Graph.setPosition, hm]
  rfl

theorem renewed_sink {n : Node} (hf : n.Formed) {kind : Kind} (hk : n.kind = kind)
    (hsink : kind.isSink = true) (handles : Nat → Handle) (p y : Nat) :
    { Graph.sink p kind y (handles p) with position := n.position } = renewed handles p n := by
  subst hk
  have hlit : n.kind.isLiteral = false := by
    revert hsink
    cases n.kind <;> decide
  have hliteral := hf.literal_empty hlit
  have hlimit : n.limit = n.kind.inputLimit := hf.limit_eq (by
    revert hsink
    cases n.kind <;> decide)
  have hproperty : n.property = false := by
    by_contra hp
    have := hf.property (by simpa using hp)
    rw [hlit] at this
    cases this
  have hclip : n.alphaClip = none := by
    by_contra hne
    have := hf.alphaClip (Option.isSome_iff_ne_none.mpr hne)
    rw [this] at hsink
    cases hsink
  unfold renewed Graph.sink
  rw [hliteral, hlimit, hproperty, hclip]
  rfl

/-- All node records of a saved graph. -/
theorem foldlM_nodes {g : Graph} (hw : g.WellFormed) (handles : Nat → Handle)
    (hsize : g.nodes.length ≤ Graph.maxNodes) :
    ((g.nodes.map (nodeRecord g)).zipIdx 1).foldlM (Loading.addLine handles)
      ⟨Graph.new (handles 0) (handles 1), [], false⟩ =
      .ok ⟨frame handles g.nodes, List.range g.nodes.length, false⟩ := by
  obtain ⟨v, f, rest, hnodes, _, hvk, _, hfk, hrest⟩ := hw.sinks
  have hv := hw.formed v (by simp [hnodes])
  have hf := hw.formed f (by simp [hnodes])
  have hfirst := addLine_nodeRecord handles hsize hv.limit_le
    (addNode_sink (g := Graph.new (handles 0) (handles 1)) (.inl ⟨hvk, rfl⟩) rfl _) [] 1
  have hsecond := addLine_nodeRecord handles hsize hf.limit_le
    (addNode_sink (g := (Graph.new (handles 0) (handles 1)).updateNode Graph.vertexSink fun m =>
      { m with position := v.position }) (.inr ⟨hfk, rfl⟩) rfl _) [0] 2
  have hframe : ((Graph.new (handles 0) (handles 1)).updateNode Graph.vertexSink fun m =>
      { m with position := v.position }).updateNode Graph.fragmentSink (fun m =>
      { m with position := f.position }) = frame handles [v, f] := by
    have h₀ := renewed_sink hv hvk rfl handles 0 100
    have h₁ := renewed_sink hf hfk rfl handles 1 300
    unfold frame
    simp only [List.mapIdx_cons, List.mapIdx_nil, ← h₀]
    rw [show renewed handles (0 + 1) f = renewed handles 1 f from rfl, ← h₁]
    rfl
  have hothers := foldlM_nodeRecords handles hsize [v, f]
    (fun n hn => ⟨hw.formed n (by simp [hnodes, hn]), hrest n hn⟩)
    (by
      rw [hnodes] at hsize
      simp only [List.length_cons, List.length_nil] at hsize ⊢
      omega) 3
  rw [hframe] at hsecond
  have hall : [v, f] ++ rest = g.nodes := hnodes.symm
  rw [hall] at hothers
  rw [← hall, List.map_append, List.map_cons, List.map_cons, List.map_nil, List.cons_append,
    List.cons_append, List.nil_append, List.zipIdx_cons, List.zipIdx_cons, List.foldlM_cons, hfirst]
  refine except_bind_eq_ok.mpr ⟨_, rfl, ?_⟩
  rw [List.foldlM_cons]
  refine except_bind_eq_ok.mpr ⟨_, hsecond, ?_⟩
  rw [hall]
  exact hothers

end ShaderGraph.SavedGraph

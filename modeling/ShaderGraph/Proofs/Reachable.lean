import ShaderGraph.Proofs.Edits
import ShaderGraph.Proofs.Except
import ShaderGraph.SavedGraph.Load
import ShaderGraph.Session

namespace ShaderGraph

/-- A step on a bare graph: a command, or a pass over the values. -/
inductive Step where
  | command (c : Command) (handle : Handle)
  | recompute (order : Order)

namespace Graph

/-- The graph a step leaves behind. One that is refused leaves it as it was. -/
def perform (g : Graph) : Step → Graph
  | .command c handle =>
    match g.apply c handle with
    | .ok (_, g) => g
    | .error _ => g
  | .recompute order =>
    match g.recompute order with
    | .ok (g, _) => g
    | .error _ => g

/-- A graph that is new or was loaded, after any number of steps. -/
inductive Reachable : Graph → Prop where
  | new (vertexHandle fragmentHandle : Handle) : Reachable (Graph.new vertexHandle fragmentHandle)
  | loaded {handles : Nat → Handle} {text : String} {g : Graph}
      (h : SavedGraph.load handles text = .ok g) : Reachable g
  | step {g : Graph} (h : Reachable g) (s : Step) : Reachable (g.perform s)

theorem wellFormed_new (vertexHandle fragmentHandle : Handle) :
    (Graph.new vertexHandle fragmentHandle).WellFormed where
  id_once := by simp [Graph.new, ids, sink, Node.bare, vertexSink, fragmentSink]
  edge_once := .nil
  sinks := ⟨_, _, [], rfl, rfl, rfl, rfl, rfl, by simp⟩
  formed := by
    intro n hn
    simp only [Graph.new, List.mem_cons, List.not_mem_nil, or_false] at hn
    rcases hn with rfl | rfl
    · refine ⟨?_, fun _ => rfl, .inl rfl, by simp [sink, Node.bare], by simp [sink, Node.bare]⟩
      simp [sink, Node.bare, Kind.isLiteral, Kind.family, Kind.code]
    · refine ⟨?_, fun _ => rfl, .inl rfl, by simp [sink, Node.bare], by simp [sink, Node.bare]⟩
      simp [sink, Node.bare, Kind.isLiteral, Kind.family, Kind.code]
  source := by simp [Graph.new]
  wired := ⟨by simp [Graph.new, links], by simp [Graph.new, links], .nil, .nil, acyclic_nil⟩
  nodePool := by
    refine ⟨⟨.nil, by simp [Graph.new, IdPool.new], Nat.le_of_ble_eq_true rfl⟩, rfl,
      fun id => ?_⟩
    change id < 2 ∧ id ∉ [] ↔ id ∈ [0, 1]
    simp only [List.not_mem_nil, not_false_eq_true, and_true, List.mem_cons, or_false]
    omega
  edgePool := ⟨IdPool.tidy_new _, rfl, by simp [Graph.new, IdPool.new, IdPool.inUse]⟩

theorem WellFormed.perform {g : Graph} (h : g.WellFormed) (s : Step) :
    (g.perform s).WellFormed := by
  cases s with
  | command c handle =>
    simp only [Graph.perform]
    split
    · rename_i ha
      exact h.apply ha
    · exact h
  | recompute order =>
    simp only [Graph.perform]
    split
    · rename_i hr
      exact h.recompute hr
    · exact h

def Stable (P : Graph → Prop) : Prop :=
  ∀ (g : Graph) (s : Step), P g → P (g.perform s)

theorem stable_wellFormed : Stable WellFormed := fun _ s h => h.perform s

section Stable

variable {P : Graph → Prop} {g g' : Graph}

theorem Stable.apply (hP : Stable P) (h : P g) (c : Command) (handle : Handle) {outcome : Outcome}
    (ha : g.apply c handle = .ok (outcome, g')) : P g' := by
  have hstep := hP g (.command c handle) h
  rwa [perform, ha] at hstep

theorem Stable.recompute (hP : Stable P) (h : P g) {order : Order} {report : Report}
    (hr : g.recompute order = .ok (g', report)) : P g' := by
  have hstep := hP g (.recompute order) h
  rwa [perform, hr] at hstep

end Stable

end Graph

namespace SavedGraph

open ShaderGraph.Graph

variable {g g' : Graph} {r : NodeRecord} {handle : Handle} {id : NodeId} {l l' : Loading}
  {handles : Nat → Handle} {line : List Char × Nat}

theorem setParameters_ok (h : setParameters g id r = .ok g') :
    ∃ g₁, (g₁ = g ∨ g.setProperty id r.property = .ok g₁) ∧
      (g' = g₁ ∨ ∃ threshold, g₁.setAlphaClip id threshold = .ok g') := by
  obtain ⟨g₁, hproperty, hclip⟩ := except_bind_eq_ok.mp h
  refine ⟨g₁, ?_, ?_⟩
  · split at hproperty
    · exact .inr hproperty
    · cases hproperty
      exact .inl rfl
  · dsimp only at hclip
    split at hclip
    · exact .inr ⟨_, hclip⟩
    · cases hclip
      exact .inl rfl

/-- The node of a record is there already or is made for it, and moves to its position. -/
theorem addNode_ok (h : addNode g r handle = .ok (id, g')) :
    ∃ g₁, (g₁ = g ∨ ∃ g₂, g.createNode r.kind r.init handle = .ok (id, g₂) ∧
      setParameters g₂ id r = .ok g₁) ∧ g₁.setPosition id r.position = .ok g' := by
  obtain ⟨⟨id₁, g₁⟩, hplace, h⟩ := except_bind_eq_ok.mp h
  obtain ⟨g₂, hposition, he⟩ := except_bind_eq_ok.mp h
  cases he
  refine ⟨g₁, ?_, hposition⟩
  unfold placeNode at hplace
  split at hplace
  · cases hplace
    exact .inl rfl
  · cases hplace
    exact .inl rfl
  · obtain ⟨⟨id₂, g₃⟩, hcreate, hplace⟩ := except_bind_eq_ok.mp hplace
    obtain ⟨g₄, hset, hplace⟩ := except_bind_eq_ok.mp hplace
    cases hplace
    exact .inr ⟨g₃, hcreate, hset⟩

theorem evaluated_ok (h : evaluated g = .ok g') :
    ∃ report, g.recompute .topological = .ok (g', report) := by
  unfold evaluated at h
  split at h
  · rename_i report hr
    cases h
    exact ⟨report, hr⟩
  · cases h

/-- What a line that is accepted adds to a graph on its way in: nothing, a link or a node. -/
inductive Adds (handles : Nat → Handle) (l : Loading) (text : List Char) : Loading → Prop where
  | blank (hline : Text.trim text = []) : Adds handles l text l
  | link {rest : List Char} {r : EdgeRecord} {g₁ g₂ g₃ : Graph} {edge : EdgeId}
      (hline : Text.trim text = '?' :: rest)
      (hfirst : (if l.linking then pure l.graph else evaluated l.graph) = .ok g₁)
      (hread : readEdge l.records.length rest = .ok r)
      (hconnect : g₁.connect (l.records.getD r.source 0) (l.records.getD r.target 0) r.slot =
        .ok (edge, g₂))
      (hlast : evaluated g₂ = .ok g₃) : Adds handles l text { l with graph := g₃, linking := true }
  | node {r : NodeRecord} {id : NodeId} {g : Graph} (hblank : Text.trim text ≠ [])
      (hmark : ∀ rest, Text.trim text ≠ '?' :: rest) (hlinking : l.linking = false)
      (hread : readNode (Text.trim text) = .ok r)
      (hadd : addNode l.graph r (handles l.graph.nodes.length) = .ok (id, g)) :
      Adds handles l text { l with graph := g, records := l.records ++ [id] }

theorem adds_of_addLine (h : l.addLine handles line = .ok l') : Adds handles l line.1 l' := by
  unfold Loading.addLine at h
  simp only at h
  split at h
  · rename_i hline
    cases h
    exact .blank hline
  · rename_i rest hline
    obtain ⟨g₁, hfirst, h⟩ := except_bind_eq_ok.mp h
    obtain ⟨r, hread, h⟩ := except_bind_eq_ok.mp h
    obtain ⟨⟨edge, g₂⟩, hconnect, h⟩ := except_bind_eq_ok.mp h
    obtain ⟨g₃, hlast, h⟩ := except_bind_eq_ok.mp h
    cases h
    exact .link hline hfirst (except_mapError_eq_ok.mp hread) (except_mapError_eq_ok.mp hconnect)
      hlast
  · rename_i hblank hmark
    split at h
    · cases h
    rename_i hlinking
    obtain ⟨r, hread, h⟩ := except_bind_eq_ok.mp h
    obtain ⟨⟨id, g⟩, hadd, h⟩ := except_bind_eq_ok.mp h
    cases h
    exact .node hblank hmark (by simpa using hlinking)
      (except_mapError_eq_ok.mp hread) (except_mapError_eq_ok.mp hadd)

section Stable

variable {P : Graph → Prop} (hP : Stable P)

include hP

theorem setParameters_keeps (h : P g) (hs : setParameters g id r = .ok g') : P g' := by
  obtain ⟨g₁, hproperty, hclip⟩ := setParameters_ok hs
  have h₁ : P g₁ := by
    rcases hproperty with rfl | hproperty
    · exact h
    · exact hP.apply h (.setProperty id r.property) ⟨0⟩
        (except_map_eq_ok.mpr ⟨g₁, hproperty, rfl⟩)
  rcases hclip with rfl | ⟨threshold, hclip⟩
  · exact h₁
  · exact hP.apply h₁ (.setAlphaClip id threshold) ⟨0⟩ (except_map_eq_ok.mpr ⟨g', hclip, rfl⟩)

theorem addNode_keeps (h : P g) (ha : addNode g r handle = .ok (id, g')) : P g' := by
  obtain ⟨g₁, hplace, hposition⟩ := addNode_ok ha
  have h₁ : P g₁ := by
    rcases hplace with rfl | ⟨g₂, hcreate, hset⟩
    · exact h
    · refine setParameters_keeps hP ?_ hset
      exact hP.apply h (.createNode r.kind r.init) handle (except_map_eq_ok.mpr ⟨_, hcreate, rfl⟩)
  exact hP.apply h₁ (.setPosition id r.position) ⟨0⟩ (except_map_eq_ok.mpr ⟨g', hposition, rfl⟩)

theorem evaluated_keeps (h : P g) (he : evaluated g = .ok g') : P g' := by
  obtain ⟨_, hr⟩ := evaluated_ok he
  exact hP.recompute h hr

theorem addLine_keeps (h : P l.graph) (ha : l.addLine handles line = .ok l') : P l'.graph := by
  cases adds_of_addLine ha with
  | blank => exact h
  | @link rest r g₁ g₂ g₃ edge _ hfirst _ hconnect hlast =>
    have h₁ : P g₁ := by
      split at hfirst
      · cases hfirst
        exact h
      · exact evaluated_keeps hP h hfirst
    refine evaluated_keeps hP ?_ hlast
    exact hP.apply h₁ (.connect (l.records.getD r.source 0) (l.records.getD r.target 0) r.slot) ⟨0⟩
      (except_map_eq_ok.mpr ⟨_, hconnect, rfl⟩)
  | node _ _ _ _ hadd => exact addNode_keeps hP h hadd

/-- What a new graph has and no step breaks, a loaded graph has too. -/
theorem load_keeps {text : String} (hnew : P (Graph.new (handles 0) (handles 1)))
    (h : load handles text = .ok g) : P g := by
  obtain ⟨l, hl, h⟩ := except_bind_eq_ok.mp h
  have hlines : P l.graph :=
    foldlM_keeps (P := fun l => P l.graph) (fun _ _ _ hs => addLine_keeps hP hs) hnew hl
  split at h
  · cases h
    exact hlines
  · exact evaluated_keeps hP hlines h

end Stable

theorem load_wellFormed {text : String} (h : load handles text = .ok g) : g.WellFormed :=
  load_keeps stable_wellFormed (wellFormed_new _ _) h

end SavedGraph

namespace Graph

theorem Reachable.wellFormed {g : Graph} (h : g.Reachable) : g.WellFormed := by
  induction h with
  | new vertexHandle fragmentHandle => exact wellFormed_new vertexHandle fragmentHandle
  | loaded h => exact SavedGraph.load_wellFormed h
  | step _ s ih => exact ih.perform s

/-- Every graph that comes about by editing and loading is well-formed: lookups by id find what is
stored, limits leave room for four inputs at most, and no link leads back to its own source. -/
theorem wellFormed_of_reachable {g : Graph} (h : g.Reachable) :
    g.WellFormed ∧ (∀ n ∈ g.nodes, g.node? n.id = some n ∧ n.limit ≤ 4) ∧
      (∀ e ∈ g.edges, g.edge? e.id = some e) ∧ ∀ l ∈ g.links, l.source ≠ l.target := by
  have hw := h.wellFormed
  refine ⟨hw, fun n hn => ⟨node?_of_mem hw.id_once hn, (hw.formed n hn).limit_le⟩, ?_,
    hw.wired.apart⟩
  intro e he
  exact edge?_of_mem hw.edge_once he

/-- Two nodes, a link that is made twice, a pending edge and a freed id. -/
def sampleSteps : List Step :=
  [.command (.createNode .float .standard) ⟨2⟩, .command (.createNode .multiply (.arity 2)) ⟨3⟩,
    .command (.connect 2 3 none) ⟨4⟩, .command (.createNode .time .standard) ⟨4⟩,
    .command (.beginLink 4) ⟨5⟩, .command (.connect 2 3 (some 1)) ⟨5⟩, .recompute .storage,
    .command (.connect 3 2 none) ⟨5⟩, .command (.destroyNode 4) ⟨5⟩]

theorem reachable_foldl {g : Graph} (h : g.Reachable) (steps : List Step) :
    (steps.foldl perform g).Reachable := by
  induction steps generalizing g with
  | nil => exact h
  | cons s steps ih => exact ih (h.step s)

theorem wellFormed_of_sampleSteps :
    (sampleSteps.foldl perform (Graph.new ⟨0⟩ ⟨1⟩)).edges = [⟨0, 2, some ⟨3, 1⟩⟩] ∧
      (sampleSteps.foldl perform (Graph.new ⟨0⟩ ⟨1⟩)).WellFormed :=
  ⟨by decide +kernel, (wellFormed_of_reachable (reachable_foldl (.new _ _) sampleSteps)).1⟩

end Graph

end ShaderGraph

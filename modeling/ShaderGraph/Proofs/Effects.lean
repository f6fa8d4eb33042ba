import ShaderGraph.Command
import ShaderGraph.Proofs.Except

namespace ShaderGraph

def Command.rewires : Command → Bool
  | .beginLink .. | .finishLink .. | .cancelLink .. | .destroyLink .. | .connect .. => true
  | _ => false

namespace Graph

variable {g g' : Graph}

theorem createNode_ok_iff {kind : Kind} {init : Init} {handle : Handle} {id : NodeId} :
    g.createNode kind init handle = .ok (id, g') ↔
      kind.isSink = false ∧ ∃ n pool, g.nodeIds.allocate? = some (id, pool) ∧
        Node.create id handle kind init = .ok n ∧
        g' = { g with nodes := g.nodes ++ [n], nodeIds := pool } := by
  constructor
  · intro h
    unfold createNode at h
    split at h
    · cases h
    rename_i hsink
    split at h
    · cases h
    rename_i id pool ha
    split at h
    · cases h
    rename_i n hn
    cases h
    exact ⟨by simpa using hsink, n, pool, ha, hn, rfl⟩
  · rintro ⟨hsink, n, pool, ha, hn, rfl⟩
    simp [createNode, hsink, ha, hn]

theorem destroyNode_ok_iff {id : NodeId} {n : Node} :
    g.destroyNode id = .ok (n, g') ↔
      g.node? id = some n ∧ n.kind.isSink = false ∧
        g' = { g.dropEdges (·.touches id) with
          nodes := g.nodes.filter (·.id ≠ id), nodeIds := g.nodeIds.release id } := by
  constructor
  · intro h
    unfold destroyNode at h
    split at h
    · cases h
    rename_i n hn
    split at h
    · cases h
    rename_i hsink
    cases h
    exact ⟨hn, by simpa using hsink, rfl⟩
  · rintro ⟨hn, hsink, rfl⟩
    simp [destroyNode, hn, hsink, dropEdges]

theorem allocateEdge_ok_iff {id : EdgeId} {pool : IdPool} :
    g.allocateEdge = .ok (id, pool) ↔ g.edgeIds.allocate? = some (id, pool) := by
  unfold allocateEdge
  cases g.edgeIds.allocate? <;> simp

theorem beginEdge_ok_iff {source : NodeId} {id : EdgeId} :
    g.beginEdge source = .ok (id, g') ↔
      ∃ n pool, g.node? source = some n ∧ n.kind.isSink = false ∧
        g.edgeIds.allocate? = some (id, pool) ∧
        g' = { g with edges := g.edges ++ [⟨id, source, none⟩], edgeIds := pool } := by
  constructor
  · intro h
    unfold beginEdge at h
    split at h
    · cases h
    rename_i n hn
    split at h
    · cases h
    rename_i hsink
    split at h
    · cases h
    rename_i id pool ha
    cases h
    exact ⟨n, pool, hn, by simpa using hsink, allocateEdge_ok_iff.mp ha, rfl⟩
  · rintro ⟨n, pool, hn, hsink, ha, rfl⟩
    simp [beginEdge, hn, hsink, allocateEdge_ok_iff.mpr ha]

theorem pendingEdge_ok_iff {id : EdgeId} {e : Edge} :
    g.pendingEdge id = .ok e ↔ g.edge? id = some e ∧ e.target = none := by
  unfold pendingEdge Edge.isPending
  cases g.edge? id with
  | none => simp
  | some d =>
    simp only [Option.some.injEq, Option.isNone_iff_eq_none]
    split
    · rename_i hp
      rw [Except.ok.injEq]
      exact ⟨fun hd => ⟨hd, hd ▸ hp⟩, And.left⟩
    · rename_i hp
      exact ⟨fun hd => (nomatch hd), fun ⟨hd, ht⟩ => absurd (hd ▸ ht) hp⟩

theorem finishEdge_ok_iff {id : EdgeId} {target : NodeId} {request : Option Nat} {slot : Nat} :
    g.finishEdge id target request = .ok (slot, g') ↔
      ∃ e, g.pendingEdge id = .ok e ∧ g.checkLink e.source target request = .ok slot ∧
        g' = { g.dropEdges (·.joins e.source target) with
          edges := (g.dropEdges (·.joins e.source target)).edges.map fun d =>
            if d.id = id then { d with target := some ⟨target, slot⟩ } else d } := by
  constructor
  · intro h
    unfold finishEdge at h
    split at h
    · cases h
    rename_i e he
    split at h
    · cases h
    rename_i slot hslot
    cases h
    exact ⟨e, he, hslot, rfl⟩
  · rintro ⟨e, he, hslot, rfl⟩
    simp only [finishEdge, he, hslot]

theorem cancelEdge_ok_iff {id : EdgeId} :
    g.cancelEdge id = .ok g' ↔
      (∃ e, g.pendingEdge id = .ok e) ∧ g' = g.dropEdges (·.id = id) := by
  unfold cancelEdge
  cases g.pendingEdge id <;> simp [eq_comm]

theorem destroyEdge_ok_iff {id : EdgeId} {e : Edge} :
    g.destroyEdge id = .ok (e, g') ↔ g.edge? id = some e ∧ g' = g.dropEdges (·.id = id) := by
  unfold destroyEdge
  cases g.edge? id <;> simp [eq_comm]

theorem connect_ok_iff {source target : NodeId} {request : Option Nat} {id : EdgeId} :
    g.connect source target request = .ok (id, g') ↔
      ∃ slot pool, g.checkLink source target request = .ok slot ∧
        (g.dropEdges (·.joins source target)).edgeIds.allocate? = some (id, pool) ∧
        g' = { g.dropEdges (·.joins source target) with
          edges := (g.dropEdges (·.joins source target)).edges ++
            [⟨id, source, some ⟨target, slot⟩⟩]
          edgeIds := pool } := by
  constructor
  · intro h
    unfold connect at h
    split at h
    · cases h
    rename_i slot hslot
    dsimp only at h
    split at h
    · cases h
    rename_i id pool ha
    cases h
    exact ⟨slot, pool, hslot, allocateEdge_ok_iff.mp ha, rfl⟩
  · rintro ⟨slot, pool, hslot, ha, rfl⟩
    simp only [connect, hslot, allocateEdge_ok_iff.mpr ha]

theorem setParameter_ok_iff {id : NodeId} {parameter : Parameter} {has : Kind → Bool}
    {f : Node → Except GraphError Node} :
    g.setParameter id parameter has f = .ok g' ↔
      ∃ n m, g.node? id = some n ∧ has n.kind = true ∧ f n = .ok m ∧
        g' = g.updateNode id fun _ => m := by
  constructor
  · intro h
    unfold setParameter at h
    split at h
    · cases h
    rename_i n hn
    split at h
    · rename_i hhas
      split at h
      · cases h
      rename_i m hm
      cases h
      exact ⟨n, m, hn, hhas, hm, rfl⟩
    · cases h
  · rintro ⟨n, m, hn, hhas, hm, rfl⟩
    simp only [setParameter, hn, hhas, hm, ↓reduceIte]

theorem setPosition_ok_iff {id : NodeId} {position : Scalar × Scalar} :
    g.setPosition id position = .ok g' ↔
      (∃ n, g.node? id = some n) ∧
        g' = g.updateNode id fun n => { n with position := position } := by
  unfold setPosition
  cases g.node? id <;> simp [eq_comm]

/-- A command about edges leaves the nodes as they are. -/
theorem nodes_of_rewires {c : Command} {handle : Handle} {outcome : Outcome}
    (hc : c.rewires = true) (ha : g.apply c handle = .ok (outcome, g')) : g'.nodes = g.nodes := by
  cases c <;> obtain ⟨r, hr, he⟩ := except_map_eq_ok.mp ha <;> cases he
  case beginLink =>
    obtain ⟨_, _, _, _, _, hg⟩ := beginEdge_ok_iff.mp hr
    rw [hg]
  case finishLink =>
    obtain ⟨_, _, _, hg⟩ := finishEdge_ok_iff.mp hr
    rw [hg]
    rfl
  case cancelLink =>
    obtain ⟨_, rfl⟩ := cancelEdge_ok_iff.mp hr
    rfl
  case destroyLink =>
    obtain ⟨_, hg⟩ := destroyEdge_ok_iff.mp hr
    rw [hg]
    rfl
  case connect =>
    obtain ⟨_, _, _, _, hg⟩ := connect_ok_iff.mp hr
    rw [hg]
    rfl
  all_goals cases hc

end Graph

end ShaderGraph

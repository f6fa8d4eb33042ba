import ShaderGraph.Proofs.Reachable

namespace ShaderGraph

def Lowest (ids : List Nat) (id : Nat) : Prop := id ∉ ids ∧ ∀ lower < id, lower ∈ ids

namespace IdPool

variable {p q : IdPool} {capacity id : Nat} {ids : List Nat}

theorem Holds.allocate_lowest (h : p.Holds capacity ids) (ha : p.allocate? = some (id, q)) :
    Lowest ids id := by
  obtain ⟨_, _, _, hfree, hlower, _⟩ := h.tidy.allocate ha
  refine ⟨(h.allocate ha).1, ?_⟩
  intro lower hlt
  exact (h.inUse_iff lower).mp (hlower lower hlt)

theorem Holds.allocate_eq_none_iff (h : p.Holds capacity ids) (hu : ids.Nodup) :
    p.allocate? = none ↔ ids.length = capacity := by
  have hle := h.length_le hu
  cases ha : p.allocate? with
  | none =>
    have hfull : ¬ ids.length < capacity := by
      intro hroom
      obtain ⟨id, q, hsome⟩ := h.allocate_of_lt hroom
      rw [ha] at hsome
      cases hsome
    simp only [true_iff]
    omega
  | some r =>
    -- the new id fits in beside the others, so these had left room
    obtain ⟨hnew, hgrown⟩ := h.allocate ha
    have hgrownLe := hgrown.length_le (List.concat_eq_append ▸ hu.concat hnew)
    rw [List.length_append, List.length_singleton] at hgrownLe
    simp only [reduceCtorEq, false_iff]
    omega

end IdPool

def Init.Fits (kind : Kind) : Init → Prop
  | .standard => True
  | .literal xs => kind.isLiteral = true ∧ xs.length = kind.naturalShape.size
  | .arity n => kind.isVariadic = true ∧ 2 ≤ n ∧ n ≤ 4

theorem Node.create_of_fits {kind : Kind} {init : Init} (h : init.Fits kind) (id : NodeId)
    (handle : Handle) : ∃ n, Node.create id handle kind init = .ok n := by
  cases init with
  | standard => exact ⟨_, rfl⟩
  | literal xs => exact ⟨_, dif_pos h⟩
  | arity n => exact ⟨_, if_pos h⟩

namespace Graph

variable {g g' : Graph} {source target : NodeId} {request : Option Nat} {slot : Nat}

/-- What is given fits, so only the pool has a say. -/
theorem createNode_of_fits {kind : Kind} {init : Init} (hsink : kind.isSink = false)
    (hfits : init.Fits kind) (handle : Handle) :
    (∃ id g', g.createNode kind init handle = .ok (id, g')) ↔ g.nodeIds.allocate? ≠ none := by
  constructor
  · rintro ⟨id, g', h⟩ hnone
    obtain ⟨_, n, pool, ha, _⟩ := createNode_ok_iff.mp h
    rw [hnone] at ha
    cases ha
  · intro hsome
    obtain ⟨⟨id, pool⟩, ha⟩ := Option.ne_none_iff_exists'.mp hsome
    obtain ⟨n, hn⟩ := Node.create_of_fits hfits id handle
    exact ⟨id, _, createNode_ok_iff.mpr ⟨hsink, n, pool, ha, hn, rfl⟩⟩

theorem beginEdge_of_live {n : Node} (hn : g.node? source = some n)
    (hsink : n.kind.isSink = false) :
    (∃ id g', g.beginEdge source = .ok (id, g')) ↔ g.edgeIds.allocate? ≠ none := by
  constructor
  · rintro ⟨id, g', h⟩ hnone
    obtain ⟨_, pool, _, _, ha, _⟩ := beginEdge_ok_iff.mp h
    rw [hnone] at ha
    cases ha
  · intro hsome
    obtain ⟨⟨id, pool⟩, ha⟩ := Option.ne_none_iff_exists'.mp hsome
    exact ⟨id, _, beginEdge_ok_iff.mpr ⟨n, pool, hn, hsink, ha, rfl⟩⟩

theorem WellFormed.allocateNode_eq_none_iff (hw : g.WellFormed) :
    g.nodeIds.allocate? = none ↔ g.nodes.length = maxNodes := by
  rw [hw.nodePool.allocate_eq_none_iff hw.id_once, ids, List.length_map]

theorem WellFormed.allocateEdge_eq_none_iff (hw : g.WellFormed) :
    g.edgeIds.allocate? = none ↔ g.edges.length = maxEdges := by
  rw [hw.edgePool.allocate_eq_none_iff hw.edge_once, List.length_map]

/-- Once the link that gives way is gone, an id is missing only if there was no such link. -/
theorem WellFormed.dropJoining_full_iff (hw : g.WellFormed) :
    (g.dropEdges (·.joins source target)).edges.length = maxEdges ↔
      g.edges.length = maxEdges ∧ ∀ e ∈ g.edges, e.joins source target = false := by
  have hle : g.edges.length ≤ maxEdges := by
    simpa using hw.edgePool.length_le hw.edge_once
  have hless : (g.dropEdges (·.joins source target)).edges.length ≤ g.edges.length :=
    List.length_filter_le _ _
  have hall : (g.dropEdges (·.joins source target)).edges.length = g.edges.length ↔
      ∀ e ∈ g.edges, e.joins source target = false := by
    simp [Graph.dropEdges, List.length_filter_eq_length_iff]
  rw [← hall]
  omega

/-- Connecting what the link check accepts fails for want of an id or not at all. -/
theorem connect_error_iff (hw : g.WellFormed) (hc : g.checkLink source target request = .ok slot)
    {e : GraphError} :
    g.connect source target request = .error e ↔ e = .exhausted .connection maxEdges ∧
      g.edges.length = maxEdges ∧ ∀ d ∈ g.edges, d.joins source target = false := by
  have hdrop := hw.dropEdges (·.joins source target)
  rw [← hw.dropJoining_full_iff, ← hdrop.allocateEdge_eq_none_iff]
  simp only [connect, hc, allocateEdge]
  cases ha : (g.dropEdges (·.joins source target)).edgeIds.allocate? with
  | none => simp [hdrop.edgePool.capacity_eq, eq_comm]
  | some r => simp

/-- New nodes and edges of a reachable graph get the lowest id that is free, and all ids are used
before one is missing. A link that is made again first gives its own id back. -/
theorem ids_lowest_free (hg : g.Reachable) :
    (∀ kind init handle, kind.isSink = false → init.Fits kind →
      ((∃ id g', g.createNode kind init handle = .ok (id, g')) ↔ g.nodes.length < 1024) ∧
      ∀ id g', g.createNode kind init handle = .ok (id, g') → Lowest g.ids id) ∧
    (∀ source n, g.node? source = some n → n.kind.isSink = false →
      ((∃ id g', g.beginEdge source = .ok (id, g')) ↔ g.edges.length < 4096) ∧
      ∀ id g', g.beginEdge source = .ok (id, g') → Lowest (g.edges.map Edge.id) id) ∧
    ∀ source target request slot, g.checkLink source target request = .ok slot →
      (∀ e, g.connect source target request = .error e ↔
        e = .exhausted .connection 4096 ∧ g.edges.length = 4096 ∧
          ∀ d ∈ g.edges, d.joins source target = false) ∧
      ∀ id g', g.connect source target request = .ok (id, g') →
        Lowest ((g.edges.filter (!·.joins source target)).map Edge.id) id := by
  have hw := hg.wellFormed
  have hnodes : g.nodes.length ≤ maxNodes := by
    simpa [ids] using hw.nodePool.length_le hw.id_once
  have hedges : g.edges.length ≤ maxEdges := by
    simpa using hw.edgePool.length_le hw.edge_once
  refine ⟨?_, ?_, ?_⟩
  · intro kind init handle hsink hfits
    rw [createNode_of_fits hsink hfits, ne_eq, hw.allocateNode_eq_none_iff]
    refine ⟨(Nat.lt_iff_le_and_ne.trans (and_iff_right hnodes)).symm, ?_⟩
    intro id g' h
    obtain ⟨_, _, _, ha, _⟩ := createNode_ok_iff.mp h
    exact hw.nodePool.allocate_lowest ha
  · intro source n hn hsink
    rw [beginEdge_of_live hn hsink, ne_eq, hw.allocateEdge_eq_none_iff]
    refine ⟨(Nat.lt_iff_le_and_ne.trans (and_iff_right hedges)).symm, ?_⟩
    intro id g' h
    obtain ⟨_, _, _, _, ha, _⟩ := beginEdge_ok_iff.mp h
    exact hw.edgePool.allocate_lowest ha
  · intro source target request slot hc
    refine ⟨fun e => connect_error_iff hw hc, ?_⟩
    intro id g' h
    obtain ⟨_, _, _, ha, _⟩ := connect_ok_iff.mp h
    exact (hw.dropEdges (·.joins source target)).edgePool.allocate_lowest ha

/-- Four nodes of which the third is gone, and a link and a pending edge from the last one. -/
def recycledSteps : List Step :=
  [.command (.createNode .time .standard) ⟨2⟩, .command (.createNode .multiply .standard) ⟨3⟩,
    .command (.createNode .float .standard) ⟨4⟩, .command (.createNode .float .standard) ⟨5⟩,
    .command (.connect 5 3 none) ⟨6⟩, .command (.connect 4 3 none) ⟨6⟩,
    .command (.beginLink 5) ⟨6⟩, .command (.destroyNode 4) ⟨6⟩]

def recycled : Graph := recycledSteps.foldl perform (Graph.new ⟨0⟩ ⟨1⟩)

theorem recycled_lowest_free :
    recycled.ids = [0, 1, 2, 3, 5] ∧ recycled.edges = [⟨0, 5, some ⟨3, 0⟩⟩, ⟨2, 5, none⟩] ∧
      ((recycled.createNode .append (.arity 3) ⟨6⟩).toOption.map Prod.fst = some 4 ∧
        Lowest recycled.ids 4) ∧
      ((recycled.beginEdge 2).toOption.map Prod.fst = some 1 ∧
        Lowest (recycled.edges.map Edge.id) 1) ∧
      (recycled.connect 5 3 (some 1)).toOption.map Prod.fst = some 0 ∧
        Lowest ((recycled.edges.filter (!·.joins 5 3)).map Edge.id) 0 := by
  obtain ⟨hnode, hedge, hlink⟩ := ids_lowest_free (reachable_foldl (.new ⟨0⟩ ⟨1⟩) recycledSteps)
  have hcreate : (recycled.createNode .append (.arity 3) ⟨6⟩).toOption.map Prod.fst = some 4 := by
    decide +kernel
  have hbegin : (recycled.beginEdge 2).toOption.map Prod.fst = some 1 := by decide +kernel
  have hconnect : (recycled.connect 5 3 (some 1)).toOption.map Prod.fst = some 0 := by
    decide +kernel
  have hcheck : (recycled.checkLink 5 3 (some 1)).toOption = some 1 := by decide +kernel
  have hsource : (recycled.node? 2).map Node.kind = some .time := by decide +kernel
  obtain ⟨n, hn, hk⟩ := Option.map_eq_some_iff.mp hsource
  refine ⟨by decide +kernel, by decide +kernel, ⟨hcreate, ?_⟩, ⟨hbegin, ?_⟩, hconnect, ?_⟩
  · obtain ⟨⟨_, g'⟩, hok, rfl⟩ := Option.map_eq_some_iff.mp hcreate
    exact (hnode .append (.arity 3) ⟨6⟩ rfl ⟨rfl, by decide, by decide⟩).2 _ g'
      (except_toOption_eq_some.mp hok)
  · obtain ⟨⟨_, g'⟩, hok, rfl⟩ := Option.map_eq_some_iff.mp hbegin
    exact (hedge 2 n hn (by rw [hk]; rfl)).2 _ g' (except_toOption_eq_some.mp hok)
  · obtain ⟨⟨_, g'⟩, hok, rfl⟩ := Option.map_eq_some_iff.mp hconnect
    exact (hlink 5 3 (some 1) 1 (except_toOption_eq_some.mp hcheck)).2 _ g'
      (except_toOption_eq_some.mp hok)

end Graph

end ShaderGraph

import ShaderGraph.Graph.InPlace
import ShaderGraph.Proofs.Passes

namespace ShaderGraph

/-- What is left behind by something that happens as a whole or not at all. -/
def atOnce {ε σ α : Type} (s : σ) : Except ε (α × σ) → EStateM.Result ε σ α
  | .ok (a, s') => .ok a s'
  | .error e => .error e s

theorem eq_of_atOnce_error {ε σ α : Type} {s s' : σ} {r : Except ε (α × σ)} {e : ε}
    (h : atOnce s r = .error e s') : s' = s ∧ r = .error e := by
  cases r with
  | ok p => cases h
  | error e =>
    cases h
    exact ⟨rfl, rfl⟩

namespace Graph

theorem filter_foldl_ne {doomed : List Edge} (edges : List Edge) :
    doomed.foldl (fun edges d => edges.filter (·.id ≠ d.id)) edges =
      edges.filter fun e => e.id ∉ doomed.map Edge.id := by
  induction doomed generalizing edges with
  | nil => simp
  | cons d doomed ih =>
    rw [List.foldl_cons, ih, List.filter_filter]
    congr 1
    funext e
    simp only [List.map_cons, List.mem_cons, not_or, Bool.decide_and, Bool.and_comm]

def withoutEdge (g : Graph) (id : EdgeId) : Graph :=
  { g with edges := g.edges.filter (·.id ≠ id), edgeIds := g.edgeIds.release id }

theorem foldl_withoutEdge (g : Graph) (doomed : List Edge) :
    doomed.foldl (fun g d => g.withoutEdge d.id) g = { g with
      edges := g.edges.filter fun e => e.id ∉ doomed.map Edge.id
      edgeIds := doomed.foldl (fun pool d => pool.release d.id) g.edgeIds } := by
  rw [← filter_foldl_ne]
  induction doomed generalizing g with
  | nil => rfl
  | cons d doomed ih =>
    rw [List.foldl_cons, ih]
    rfl

/-- With ids used once, the edges that a test picks may as well go one by one. -/
theorem foldl_withoutEdge_filter {g : Graph} (hu : (g.edges.map Edge.id).Nodup)
    (doomed : Edge → Bool) :
    (g.edges.filter doomed).foldl (fun g d => g.withoutEdge d.id) g = g.dropEdges doomed := by
  rw [foldl_withoutEdge, dropEdges]
  congr 1
  refine List.filter_congr fun e he => ?_
  have hpicked : e.id ∈ (g.edges.filter doomed).map Edge.id ↔ doomed e = true := by
    constructor
    · intro hm
      obtain ⟨d, hd, hid⟩ := List.mem_map.mp hm
      obtain ⟨hd, hdoomed⟩ := List.mem_filter.mp hd
      rwa [List.inj_on_of_nodup_map hu hd he hid] at hdoomed
    · intro hdoomed
      exact List.mem_map_of_mem (List.mem_filter.mpr ⟨he, hdoomed⟩)
  simp [hpicked]

/-- One edge that a test alone picks. -/
theorem withoutEdge_eq {g : Graph} (hu : (g.edges.map Edge.id).Nodup) {doomed : Edge → Bool}
    {e : Edge} (he : g.edges.filter doomed = [e]) : g.withoutEdge e.id = g.dropEdges doomed := by
  rw [← foldl_withoutEdge_filter hu, he]
  rfl

theorem filter_id_eq {g : Graph} (hu : (g.edges.map Edge.id).Nodup) {e : Edge} (he : e ∈ g.edges) :
    g.edges.filter (·.id = e.id) = [e] := by
  have hnodup : (g.edges.filter (·.id = e.id)).Nodup := (List.Nodup.of_map _ hu).filter _
  refine List.perm_singleton.mp ((List.perm_ext_iff_of_nodup hnodup (by simp)).mpr fun d => ?_)
  simp only [List.mem_filter, decide_eq_true_eq, List.mem_singleton]
  constructor
  · intro ⟨hd, hid⟩
    exact List.inj_on_of_nodup_map hu hd he hid
  · rintro rfl
    exact ⟨he, rfl⟩

/-- Of the edges, at most one joins two given nodes. -/
theorem filter_joins {g : Graph} (h : g.WellFormed) (source target : NodeId) :
    g.edges.filter (·.joins source target) = (g.edgeBetween? source target).toList := by
  have hends : ∀ e ∈ g.edges.filter (·.joins source target),
      e.link?.map Link.ends = some (source, target) := by
    intro e he
    have hj := (List.mem_filter.mp he).2
    simp only [Edge.joins, Bool.and_eq_true, decide_eq_true_eq, Option.any_eq_true] at hj
    obtain ⟨hs, p, hp, ht⟩ := hj
    simp [Edge.link?, hp, Link.ends, hs, ht]
  have hsub : ((g.edges.filter (·.joins source target)).filterMap (·.link?.map Link.ends)).Sublist
      (g.links.map Link.ends) := by
    rw [links, List.map_filterMap]
    exact List.filter_sublist.filterMap _
  have hlength := hsub.nodup h.wired.ends_once
  rw [List.filterMap_congr hends, List.filterMap_eq_map', List.map_const',
    List.nodup_replicate] at hlength
  rw [edgeBetween?, ← List.head?_filter]
  generalize g.edges.filter (·.joins source target) = picked at hlength ⊢
  cases picked with
  | nil => rfl
  | cons e rest =>
    have hrest : rest = [] := List.eq_nil_of_length_eq_zero (by simpa using hlength)
    rw [hrest]
    rfl

theorem dropEdges_nil {g : Graph} {doomed : Edge → Bool} (hnone : g.edges.filter doomed = []) :
    g.dropEdges doomed = g := by
  have hkeep : g.edges.filter (fun e => !doomed e) = g.edges :=
    List.filter_eq_self.mpr fun e he => by simpa using List.filter_eq_nil_iff.mp hnone e he
  simp only [dropEdges, hnone, hkeep, List.foldl_nil]

end Graph

namespace Graph.InPlace

variable {g : Graph}

theorem run_bind_ok {ε σ α β : Type} {x : EStateM ε σ α} {s t : σ} {a : α}
    (h : x.run s = .ok a t) (f : α → EStateM ε σ β) : (x >>= f).run s = (f a).run t := by
  rw [EStateM.run_bind, h]

theorem run_bind_error {ε σ α β : Type} {x : EStateM ε σ α} {s t : σ} {e : ε}
    (h : x.run s = .error e t) (f : α → EStateM ε σ β) : (x >>= f).run s = .error e t := by
  rw [EStateM.run_bind, h]

theorem run_read_ok {α : Type} {f : Graph → Except GraphError α} {a : α} (h : f g = .ok a) :
    (read f).run g = .ok a g := by
  rw [read, run_bind_ok (EStateM.run_get g), h]
  rfl

theorem run_read_error {α : Type} {f : Graph → Except GraphError α} {e : GraphError}
    (h : f g = .error e) : (read f).run g = .error e g := by
  rw [read, run_bind_ok (EStateM.run_get g), h]
  rfl

theorem run_node {id : NodeId} {n : Node} (h : g.node? id = some n) :
    (node id).run g = .ok n g :=
  run_read_ok (by rw [h])

theorem run_node_none {id : NodeId} (h : g.node? id = none) :
    (node id).run g = .error (.nodeNotFound id) g :=
  run_read_error (by rw [h])

theorem run_createNode (h : g.WellFormed) (kind : Kind) (init : Init) (handle : Handle) :
    (createNode kind init handle).run g = atOnce g (g.createNode kind init handle) := by
  unfold createNode Graph.createNode
  by_cases hk : kind.isSink = true
  · rw [if_pos hk, if_pos hk]
    rfl
  rw [if_neg hk, if_neg hk]
  cases ha : g.nodeIds.allocate? with
  | none =>
    have htake : takeNodeId.run g = .error (.exhausted .node g.nodeIds.capacity) g :=
      run_bind_error (run_read_error (by rw [ha])) _
    rw [run_bind_error htake]
    rfl
  | some r =>
    obtain ⟨id, pool⟩ := r
    have htake : takeNodeId.run g = .ok id { g with nodeIds := pool } := by
      rw [takeNodeId, run_bind_ok (run_read_ok (by rw [ha]))]
      rfl
    rw [run_bind_ok htake]
    simp only
    cases Node.create id handle kind init with
    | ok n => rfl
    | error e =>
      -- the id goes back to a pool that is then as it was
      change EStateM.Result.error _ { g with nodeIds := pool.release id } = _
      rw [h.nodePool.tidy.release_allocated ha]
      rfl

theorem run_forM_modify {ε σ α : Type} (f : α → σ → σ) (xs : List α) (s : σ) :
    (xs.forM fun x => (modify (f x) : EStateM ε σ PUnit)).run s =
      .ok () (xs.foldl (fun s x => f x s) s) := by
  induction xs generalizing s with
  | nil => rfl
  | cons x xs ih =>
    exact (run_bind_ok (EStateM.run_modify (f x) s) _).trans (ih (f x s))

theorem run_removeEdge (id : EdgeId) (g : Graph) :
    (removeEdge id).run g = .ok () (g.withoutEdge id) :=
  rfl

theorem run_destroyNode (h : g.WellFormed) (id : NodeId) :
    (destroyNode id).run g = atOnce g (g.destroyNode id) := by
  unfold destroyNode Graph.destroyNode
  cases hn : g.node? id with
  | none =>
    rw [run_bind_error (run_node_none hn)]
    rfl
  | some n =>
    rw [run_bind_ok (run_node hn)]
    simp only
    by_cases hk : n.kind.isSink = true
    · rw [if_pos hk, if_pos hk]
      rfl
    rw [if_neg hk, if_neg hk]
    have hedges : ((g.edges.filter (·.touches id)).forM fun e : Edge => removeEdge e.id).run g =
        .ok () (g.dropEdges (·.touches id)) := by
      rw [← foldl_withoutEdge_filter h.edge_once]
      exact run_forM_modify (fun (e : Edge) g => g.withoutEdge e.id) _ g
    have hremove : (removeNode id).run (g.dropEdges (·.touches id)) = .ok n
        { g.dropEdges (·.touches id) with nodes := g.nodes.filter (·.id ≠ id) } := by
      rw [removeNode, run_bind_ok (run_node (g := g.dropEdges _) hn)]
      rfl
    rw [run_bind_ok (EStateM.run_get g), run_bind_ok hedges, run_bind_ok hremove]
    rfl

theorem run_takeEdgeId {id : EdgeId} {pool : IdPool} (h : g.edgeIds.allocate? = some (id, pool)) :
    takeEdgeId.run g = .ok id { g with edgeIds := pool } := by
  rw [takeEdgeId, run_bind_ok (run_read_ok (by rw [allocateEdge, h]))]
  rfl

theorem run_takeEdgeId_none (h : g.edgeIds.allocate? = none) :
    takeEdgeId.run g = .error (.exhausted .connection g.edgeIds.capacity) g :=
  run_bind_error (run_read_error (by rw [allocateEdge, h])) _

theorem run_beginEdge (source : NodeId) :
    (beginEdge source).run g = atOnce g (g.beginEdge source) := by
  unfold beginEdge Graph.beginEdge allocateEdge
  cases hn : g.node? source with
  | none =>
    rw [run_bind_error (run_node_none hn)]
    rfl
  | some n =>
    rw [run_bind_ok (run_node hn)]
    simp only
    by_cases hk : n.kind.isSink = true
    · rw [if_pos hk, if_pos hk]
      rfl
    rw [if_neg hk, if_neg hk]
    cases ha : g.edgeIds.allocate? with
    | none =>
      rw [run_bind_error (run_takeEdgeId_none ha)]
      rfl
    | some r =>
      rw [run_bind_ok (run_takeEdgeId ha)]
      rfl

theorem run_checkLink {source target : NodeId} {request : Option Nat} {slot : Nat}
    (h : g.checkLink source target request = .ok slot) :
    (checkLink source target request).run g = .ok slot g :=
  run_read_ok (by rw [h]; rfl)

theorem run_checkLink_error {source target : NodeId} {request : Option Nat} {e : LinkError}
    (h : g.checkLink source target request = .error e) :
    (checkLink source target request).run g = .error (.link e) g :=
  run_read_error (by rw [h]; rfl)

theorem run_removeLink (h : g.WellFormed) (source target : NodeId) :
    (removeLink source target).run g = .ok () (g.dropEdges (·.joins source target)) := by
  have hpicked := filter_joins h source target
  rw [removeLink, run_bind_ok (EStateM.run_get g)]
  cases hfound : g.edgeBetween? source target with
  | none =>
    rw [hfound] at hpicked
    rw [dropEdges_nil hpicked]
    rfl
  | some e =>
    rw [hfound] at hpicked
    rw [← withoutEdge_eq h.edge_once hpicked]
    rfl

theorem run_finishEdge (h : g.WellFormed) (id : EdgeId) (target : NodeId) (request : Option Nat) :
    (finishEdge id target request).run g = atOnce g (g.finishEdge id target request) := by
  unfold finishEdge Graph.finishEdge
  cases hp : g.pendingEdge id with
  | error e =>
    rw [run_bind_error (run_read_error hp)]
    rfl
  | ok edge =>
    rw [run_bind_ok (run_read_ok hp)]
    simp only
    cases hc : g.checkLink edge.source target request with
    | error e =>
      rw [run_bind_error (run_checkLink_error hc)]
      rfl
    | ok slot =>
      rw [run_bind_ok (run_checkLink hc), run_bind_ok (run_removeLink h _ _)]
      rfl

theorem run_cancelEdge (h : g.WellFormed) (id : EdgeId) :
    (cancelEdge id).run g = atOnce g ((g.cancelEdge id).map fun g => ((), g)) := by
  unfold cancelEdge Graph.cancelEdge
  cases hp : g.pendingEdge id with
  | error e =>
    rw [run_bind_error (run_read_error hp)]
    rfl
  | ok edge =>
    obtain ⟨hm, rfl, _⟩ := WellFormed.pendingEdge_ok hp
    rw [run_bind_ok (run_read_ok hp), run_removeEdge,
      withoutEdge_eq h.edge_once (filter_id_eq h.edge_once hm)]
    rfl

theorem run_destroyEdge (h : g.WellFormed) (id : EdgeId) :
    (destroyEdge id).run g = atOnce g (g.destroyEdge id) := by
  unfold destroyEdge Graph.destroyEdge
  cases he : g.edge? id with
  | none =>
    rw [run_bind_error (run_read_error (by rw [he]))]
    rfl
  | some e =>
    obtain ⟨hm, rfl⟩ := mem_of_edge? he
    rw [run_bind_ok (run_read_ok (by rw [he])), run_bind_ok (run_removeEdge e.id g),
      withoutEdge_eq h.edge_once (filter_id_eq h.edge_once hm)]
    rfl

/-- The ids run out only where no link has given way. -/
theorem dropEdges_of_exhausted (h : g.WellFormed) {source target : NodeId}
    (ha : (g.dropEdges (·.joins source target)).edgeIds.allocate? = none) :
    g.dropEdges (·.joins source target) = g := by
  have hpicked := filter_joins h source target
  cases hfound : g.edgeBetween? source target with
  | none =>
    rw [hfound] at hpicked
    exact dropEdges_nil hpicked
  | some e =>
    have hm := List.mem_of_find?_eq_some hfound
    have hused := (h.edgePool.inUse_iff e.id).mpr (List.mem_map_of_mem hm)
    rw [hfound] at hpicked
    rw [← withoutEdge_eq h.edge_once hpicked] at ha
    exact absurd ha (h.edgePool.tidy.allocate_released hused)

theorem run_connect (h : g.WellFormed) (source target : NodeId) (request : Option Nat) :
    (connect source target request).run g = atOnce g (g.connect source target request) := by
  unfold connect Graph.connect allocateEdge
  cases hc : g.checkLink source target request with
  | error e =>
    rw [run_bind_error (run_checkLink_error hc)]
    rfl
  | ok slot =>
    rw [run_bind_ok (run_checkLink hc), run_bind_ok (run_removeLink h _ _)]
    simp only
    cases ha : (g.dropEdges (·.joins source target)).edgeIds.allocate? with
    | none =>
      rw [run_bind_error (run_takeEdgeId_none ha), dropEdges_of_exhausted h ha]
      rfl
    | some r =>
      rw [run_bind_ok (run_takeEdgeId ha)]
      rfl

/-- A parameter is checked and then written. -/
theorem run_setParameter {id : NodeId} {parameter : Parameter} {has : Kind → Bool}
    {write : Node → Edit Unit} {f : Node → Except GraphError Node}
    (hwrite : ∀ n, (write n).run g =
      atOnce g ((f n).map fun m => ((), g.updateNode id fun _ => m))) :
    (parameterNode id parameter has >>= write).run g =
      atOnce g ((g.setParameter id parameter has f).map fun g => ((), g)) := by
  unfold Graph.setParameter
  cases hn : g.node? id with
  | none =>
    have hmissing : (parameterNode id parameter has).run g = .error (.nodeNotFound id) g :=
      run_bind_error (run_node_none hn) _
    rw [run_bind_error hmissing]
    rfl
  | some n =>
    simp only
    by_cases hk : has n.kind = true
    · have hfound : (parameterNode id parameter has).run g = .ok n g := by
        rw [parameterNode, run_bind_ok (run_node hn), if_pos hk]
        rfl
      rw [run_bind_ok hfound, hwrite, if_pos hk]
      cases f n <;> rfl
    · have hrefused : (parameterNode id parameter has).run g =
          .error (.unsupportedParameter id n.kind parameter) g := by
        rw [parameterNode, run_bind_ok (run_node hn), if_neg hk]
        rfl
      rw [run_bind_error hrefused, if_neg hk]
      rfl

theorem run_setLiteral (id : NodeId) (xs : List Scalar) :
    (setLiteral id xs).run g = atOnce g ((g.setLiteral id xs).map fun g => ((), g)) := by
  refine run_setParameter fun n => ?_
  by_cases hlength : xs.length = n.kind.naturalShape.size
  · rw [dif_pos hlength, dif_pos hlength]
    rfl
  · rw [dif_neg hlength, dif_neg hlength]
    rfl

theorem run_setProperty (id : NodeId) (property : Bool) :
    (setProperty id property).run g = atOnce g ((g.setProperty id property).map fun g => ((), g)) :=
  run_setParameter fun _ => rfl

theorem run_setAlphaClip (id : NodeId) (threshold : Option Scalar) :
    (setAlphaClip id threshold).run g =
      atOnce g ((g.setAlphaClip id threshold).map fun g => ((), g)) :=
  run_setParameter fun _ => rfl

theorem run_setPosition (id : NodeId) (position : Scalar × Scalar) :
    (setPosition id position).run g =
      atOnce g ((g.setPosition id position).map fun g => ((), g)) := by
  unfold setPosition Graph.setPosition
  cases hn : g.node? id with
  | none =>
    rw [run_bind_error (run_node_none hn)]
    rfl
  | some n =>
    rw [run_bind_ok (run_node hn)]
    rfl

/-- A result passed on keeps what is left behind. -/
theorem run_bind_pure {ε σ α β : Type} {x : EStateM ε σ α} {s : σ} {r : Except ε (α × σ)}
    (h : x.run s = atOnce s r) (f : α → β) :
    (x >>= fun a => pure (f a)).run s = atOnce s (r.map fun p => (f p.1, p.2)) := by
  cases r with
  | error e => exact run_bind_error h _
  | ok p => exact run_bind_ok h _

theorem run_bind_updated {ε σ β : Type} {x : EStateM ε σ Unit} {s : σ} {r : Except ε σ}
    (h : x.run s = atOnce s (r.map fun t => ((), t))) (b : β) :
    (x >>= fun _ => pure b).run s = atOnce s (r.map fun t => (b, t)) := by
  cases r with
  | error e => exact run_bind_error h _
  | ok t => exact run_bind_ok h _

/-- Step by step or as a whole, a command comes to the same. -/
theorem run_apply (h : g.WellFormed) (c : Command) (handle : Handle) :
    (apply c handle).run g = atOnce g (g.apply c handle) := by
  cases c with
  | createNode kind init => exact run_bind_pure (run_createNode h kind init handle) _
  | destroyNode node => exact run_bind_pure (run_destroyNode h node) _
  | beginLink source => exact run_bind_pure (run_beginEdge source) _
  | finishLink edge target slot => exact run_bind_pure (run_finishEdge h edge target slot) _
  | cancelLink edge => exact run_bind_updated (run_cancelEdge h edge) _
  | destroyLink edge => exact run_bind_pure (run_destroyEdge h edge) _
  | connect source target slot => exact run_bind_pure (run_connect h source target slot) _
  | setLiteral node value => exact run_bind_updated (run_setLiteral node value) _
  | setProperty node property => exact run_bind_updated (run_setProperty node property) _
  | setAlphaClip node threshold => exact run_bind_updated (run_setAlphaClip node threshold) _
  | setPosition node position => exact run_bind_updated (run_setPosition node position) _

end Graph.InPlace

namespace Graph

variable {g : Graph}

def shown (g : Graph) (env : Valuation) : Graph :=
  { g with nodes := g.nodes.map (refresh g.links env) }

theorem node?_shown (g : Graph) (env : Valuation) (id : NodeId) :
    (g.shown env).node? id = (g.node? id).map (refresh g.links env) := by
  rw [node?, shown, List.find?_map]
  rfl

/-- A valuation with an entry for every node and for nothing else. -/
def Covered (g : Graph) (env : Valuation) : Prop :=
  ∀ id, (env.lookup id).isSome = (g.node? id).isSome

theorem lookup_valuation (g : Graph) (id : NodeId) : g.valuation.lookup id = g.output? id := by
  rw [valuation, output?, node?]
  induction g.nodes with
  | nil => rfl
  | cons n nodes ih =>
    rw [List.map_cons, List.lookup_cons, List.find?_cons]
    by_cases hid : n.id = id
    · simp [hid]
    · have hne : (id == n.id) = false := by simpa using fun he => hid he.symm
      simp only [hne, hid, decide_false]
      exact ih

theorem covered_valuation (g : Graph) : g.Covered g.valuation := by
  intro id
  rw [lookup_valuation, output?, Option.isSome_map]

theorem Covered.enterValue {env : Valuation} (h : g.Covered env) (id : NodeId) :
    g.Covered (g.enterValue g.links env id) := by
  intro x
  rw [lookup_enterValue]
  by_cases hx : x = id
  · rw [if_pos hx, hx]
    cases hn : g.node? id with
    | none => simpa [hn] using h id
    | some n => rfl
  · rw [if_neg hx]
    exact h x

theorem Covered.foldl {env : Valuation} (h : g.Covered env) (visited : List NodeId) :
    g.Covered (visited.foldl (g.enterValue g.links) env) := by
  induction visited generalizing env with
  | nil => exact h
  | cons id visited ih => exact ih (h.enterValue id)

theorem Covered.output?_shown {env : Valuation} (h : g.Covered env) (id : NodeId) :
    (g.shown env).output? id = env.lookup id := by
  have hid := h id
  rw [output?, node?_shown]
  cases hn : g.node? id with
  | none =>
    rw [hn] at hid
    exact (Option.isSome_eq_false_iff.mp hid |> Option.isNone_iff_eq_none.mp).symm
  | some n =>
    rw [hn] at hid
    obtain ⟨v, hv⟩ := Option.isSome_iff_exists.mp hid
    simp [refresh, (mem_of_node? hn).2, hv]

theorem Covered.evaluateNode {env : Valuation} (h : g.Covered env) {id : NodeId} {n : Node}
    (hn : g.node? id = some n) :
    (g.shown env).evaluateNode id = g.valueIn (fun i => env.lookup i) n := by
  have hvalues : (g.shown env).output? = fun i => env.lookup i := funext h.output?_shown
  rw [Graph.evaluateNode, node?_shown, hn, hvalues]
  rfl

/-- A value written into the graph is a value entered. -/
theorem Covered.settle {env : Valuation} (h : g.Covered env) (id : NodeId) :
    (g.shown env).settle id = g.shown (g.enterValue g.links env id) := by
  have hnodes : ∀ n ∈ g.nodes,
      (if n.id = id then { refresh g.links env n with output := (g.shown env).evaluateNode id }
        else refresh g.links env n) = refresh g.links (g.enterValue g.links env id) n := by
    intro n hn
    by_cases hid : n.id = id
    · obtain ⟨m, hm⟩ : ∃ m, g.node? id = some m := by
        rw [← Option.isSome_iff_exists, node?, List.find?_isSome]
        exact ⟨n, hn, by simpa using hid⟩
      rw [if_pos hid, h.evaluateNode hm]
      simp [refresh, lookup_enterValue, hid, hm]
    · rw [if_neg hid]
      simp [refresh, lookup_enterValue, hid]
  unfold Graph.settle updateNode
  rw [shown, shown, List.map_map]
  congr 1
  exact List.map_congr_left hnodes

theorem foldl_settle {env : Valuation} (h : g.Covered env) (order : List NodeId) :
    order.foldl Graph.settle (g.shown env) = g.shown (order.foldl (g.enterValue g.links) env) := by
  induction order generalizing env with
  | nil => rfl
  | cons id order ih => rw [List.foldl_cons, List.foldl_cons, h.settle, ih (h.enterValue id)]

theorem rebuildInputs_eq (hu : g.ids.Nodup) : g.rebuildInputs = g.shown g.valuation := by
  unfold rebuildInputs shown
  congr 1
  refine List.map_congr_left fun n hn => ?_
  simp [refresh, inputsOf, lookup_valuation, output?_of_mem hu hn]

theorem topologicalOrder_shown (g : Graph) (env : Valuation) :
    (g.shown env).topologicalOrder = g.topologicalOrder := by
  have hids : (g.shown env).ids = g.ids := ids_refresh g env
  have hlength : (g.shown env).nodes.length = g.nodes.length := List.length_map ..
  unfold topologicalOrder
  rw [hids, hlength]
  rfl

namespace InPlace

/-- A pass is what settling the nodes in its order makes of the graph with its inputs rebuilt. -/
theorem run_recomputeWith {ε : Type} (refuse : Cycle → ε) (settle : NodeId → EStateM ε Graph Unit)
    (hu : g.ids.Nodup) (order : Order) :
    (recomputeWith refuse settle order).run g = match g.topologicalOrder with
      | .error c => .error (refuse c) g.rebuildInputs.clearOutputs
      | .ok sorted =>
        let visited := order.arrange sorted g.ids
        match (visited.forM settle).run (g.shown g.valuation) with
        | .error e g' => .error e g'
        | .ok _ g' =>
          .ok ⟨visited.length, (g'.nodes.filter fun n => !n.isValid).map (·.id)⟩ g' := by
  have hrebuilt := rebuildInputs_eq hu
  have hsorted : g.rebuildInputs.topologicalOrder = g.topologicalOrder := by
    rw [hrebuilt, topologicalOrder_shown]
  have hids : g.rebuildInputs.ids = g.ids := by
    rw [hrebuilt]
    exact ids_refresh g _
  unfold recomputeWith
  rw [run_bind_ok (EStateM.run_modify rebuildInputs g), run_bind_ok (EStateM.run_get _), hsorted]
  cases g.topologicalOrder with
  | error c => rfl
  | ok sorted =>
    simp only [hids, ← hrebuilt]
    cases hloop : ((order.arrange sorted g.ids).forM settle).run g.rebuildInputs with
    | error e g' => exact run_bind_error hloop _
    | ok u g' => exact run_bind_ok hloop _

/-- Values written one after the other come to what a pass enters; only a cycle costs the graph its
values. -/
theorem run_recompute (hu : g.ids.Nodup) (order : Order) :
    (recompute order).run g = match g.recompute order with
      | .ok (g', report) => .ok report g'
      | .error c => .error c g.rebuildInputs.clearOutputs := by
  unfold recompute
  rw [run_recomputeWith _ _ hu, Graph.recompute]
  cases g.topologicalOrder with
  | error c => rfl
  | ok sorted =>
    have hloop (visited : List NodeId) : (visited.forM fun id =>
        (modify (·.settle id) : EStateM Cycle Graph PUnit)).run (g.shown g.valuation) =
        .ok () (g.shown (visited.foldl (g.enterValue g.links) g.valuation)) := by
      rw [← foldl_settle (covered_valuation g)]
      exact run_forM_modify (fun id (g : Graph) => g.settle id) visited _
    simp only [hloop]
    rfl

end InPlace

end Graph

end ShaderGraph

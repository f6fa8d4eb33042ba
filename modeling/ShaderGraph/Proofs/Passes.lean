import Mathlib.Data.List.Nodup
import ShaderGraph.Proofs.Edits
import ShaderGraph.Proofs.Walks

namespace ShaderGraph

open Relation

theorem evaluate_literal {k : Kind} (h : k.isLiteral = true) (literal : Value)
    (operands : Slots Value) : evaluate k literal operands = literal := by
  cases k <;> first | rfl | cases h

theorem evaluate_sink {k : Kind} (h : k.isSink = true) (literal : Value)
    (operands : Slots Value) : evaluate k literal operands = sinkValue k (operands.at? 0) := by
  cases k <;> first | rfl | cases h

theorem evaluate_environment {k : Kind} (hk : k.family = .environment) {literal : Value}
    {operands : Slots Value} : evaluate k literal operands = .zero k.naturalShape := by
  cases k <;> first | rfl | cases hk

namespace Graph

variable {g : Graph}

def producers (g : Graph) (id : NodeId) : List NodeId := (g.inputsOf id).filled

theorem input_iff (h : g.WellFormed) {id x : NodeId} {i : Nat} :
    (g.inputsOf id).at? i = some x ↔ ⟨x, id, i⟩ ∈ g.links :=
  input_iff_link h.wired.socket_once (h.wired.slot_lt h.formed)

theorem mem_producers (h : g.WellFormed) {a b : NodeId} :
    a ∈ g.producers b ↔ Feeds g.links a b := by
  rw [producers, Slots.mem_filled]
  constructor
  · rintro ⟨i, hi⟩
    exact ⟨_, (input_iff h).mp hi, rfl, rfl⟩
  · rintro ⟨l, hl, rfl, rfl⟩
    exact ⟨l.slot, (input_iff h).mpr hl⟩

theorem WellFormed.source_mem (h : g.WellFormed) {l : Link} (hl : l ∈ g.links) :
    l.source ∈ g.ids := by
  obtain ⟨n, hn, hid, _⟩ := h.wired.source l hl
  exact mem_ids.mpr ⟨n, hn, hid⟩

theorem WellFormed.target_mem (h : g.WellFormed) {l : Link} (hl : l ∈ g.links) :
    l.target ∈ g.ids := by
  obtain ⟨n, hn, hid, _⟩ := h.wired.target l hl
  exact mem_ids.mpr ⟨n, hn, hid⟩

theorem WellFormed.producer (h : g.WellFormed) {id x : NodeId} {i : Nat}
    (hi : (g.inputsOf id).at? i = some x) : ∃ p ∈ g.nodes, p.id = x :=
  mem_ids.mp (h.source_mem ((input_iff h).mp hi))

theorem produces_eq (h : g.WellFormed) : Walk.Produces g.producers = Feeds g.links := by
  funext a b
  exact propext (mem_producers h)

theorem WellFormed.field (h : g.WellFormed) : Walk.Field g.producers g.ids where
  closed x _ p hp := by
    obtain ⟨l, hl, hs, _⟩ := (mem_producers h).mp hp
    exact hs ▸ h.source_mem hl
  acyclic := produces_eq h ▸ h.wired.acyclic

/-- Every node once, after its producers. -/
structure Sorted (g : Graph) (order : List NodeId) : Prop where
  once : order.Nodup
  mem_iff : ∀ id, id ∈ order ↔ id ∈ g.ids
  before : ∀ l ∈ g.links, order.idxOf l.source < order.idxOf l.target

/-- The order exists, and it is one. -/
theorem topologicalOrder_ok (h : g.WellFormed) :
    ∃ order, g.topologicalOrder = .ok order ∧ g.Sorted order := by
  obtain ⟨w, hw, hsettled, _, hmem⟩ := Walk.visitAll_ok h.field (List.Subset.refl g.ids)
    g.nodes.length (by simp [ids])
  have hleft : ∀ id, id ∈ w.left ↔ id ∈ g.ids := by
    intro id
    rw [hmem]
    constructor
    · rintro ⟨x, hx, hc⟩
      induction hc using ReflTransGen.head_induction_on with
      | refl => exact hx
      | head hp _ ih => exact h.field.closed _ ih _ hp
    · intro hid
      exact ⟨id, hid, .refl⟩
  refine ⟨w.postorder, except_map_eq_ok.mpr ⟨w, hw, rfl⟩, ?_⟩
  exact {
    once := List.nodup_reverse.mpr hsettled.nodup
    mem_iff := fun id => List.mem_reverse.trans (hleft id)
    before := by
      intro l hl
      exact hsettled.idxOf_lt ((hleft _).mpr (h.target_mem hl))
        ((mem_producers h).mpr ⟨l, hl, rfl, rfl⟩) }

/-- The order is made of the storage order and the producers alone: where `f` takes these from one
graph to another, it takes the order along. -/
theorem topologicalOrder_rename (h : g.WellFormed) {g' : Graph} {f : NodeId → NodeId}
    (hu : g'.ids.Nodup) (hids : g'.ids = g.ids.map f)
    (hinputs : ∀ id ∈ g.ids, g'.inputsOf (f id) = (g.inputsOf id).apply fun x => some (f x))
    {order : List NodeId} (ho : g.topologicalOrder = .ok order) :
    g'.topologicalOrder = .ok (order.map f) := by
  have hproducers : ∀ id ∈ g.ids, g'.producers (f id) = (g.producers id).map f := by
    intro id hid
    rw [producers, hinputs id hid, Slots.filled_apply, producers]
    exact congrFun List.filterMap_eq_map _
  have hrenames : Walk.Renames g.producers g'.producers g.ids f :=
    ⟨h.field.closed, List.inj_on_of_nodup_map (hids ▸ hu), hproducers⟩
  obtain ⟨w, hwalk, rfl⟩ := except_map_eq_ok.mp ho
  have hrenamed := Walk.visitAll_rename hrenames (List.Subset.refl _) hwalk
  have hlength : g'.nodes.length = g.nodes.length := by
    simpa [ids] using congrArg List.length hids
  refine except_map_eq_ok.mpr ⟨w.rename f, ?_, List.map_reverse.symm⟩
  rw [hids, hlength]
  exact hrenamed

def valueIn (g : Graph) (env : NodeId → Option Value) (n : Node) : Value :=
  evaluate n.kind n.literal ((g.inputsOf n.id).apply env)

theorem lookup_enterValue (g : Graph) (env : Valuation) (id x : NodeId) :
    (g.enterValue g.links env id).lookup x =
      if x = id then ((g.node? id).map (g.valueIn fun i => env.lookup i)).or (env.lookup x)
      else env.lookup x := by
  unfold enterValue
  cases hn : g.node? id with
  | none => simp
  | some n =>
    have hid := (mem_of_node? hn).2
    by_cases hx : x = id
    · simp [hx, valueIn, inputsOf, hid]
    · have : (x == id) = false := by simpa using hx
      simp [List.lookup_cons, this, hx]

theorem lookup_foldl_of_notMem (g : Graph) {order : List NodeId} {x : NodeId} (hx : x ∉ order)
    (env : Valuation) : (order.foldl (g.enterValue g.links) env).lookup x = env.lookup x := by
  induction order generalizing env with
  | nil => rfl
  | cons id order ih =>
    simp only [List.mem_cons, not_or] at hx
    rw [List.foldl_cons, ih hx.2, lookup_enterValue, if_neg hx.1]

/-- Along a sorted order every value is read off the final values of the producers: none of them
changes once it has been entered. -/
theorem lookup_foldl (h : g.WellFormed) {order : List NodeId} (ho : g.Sorted order) {n : Node}
    (hn : n ∈ g.nodes) (env : Valuation) :
    (order.foldl (g.enterValue g.links) env).lookup n.id =
      some (g.valueIn (fun i => (order.foldl (g.enterValue g.links) env).lookup i) n) := by
  have hmem : n.id ∈ order := (ho.mem_iff n.id).mpr (mem_ids.mpr ⟨n, hn, rfl⟩)
  obtain ⟨before, after, hsplit⟩ := List.append_of_mem hmem
  have honce := ho.once
  rw [hsplit, List.nodup_append] at honce
  obtain ⟨_, hafter, hapart⟩ := honce
  have hself : n.id ∉ before := fun hm => hapart _ hm _ (by simp) rfl
  -- a producer stands before the node, so nothing from the node on enters it
  have hproducer : ∀ i x, (g.inputsOf n.id).at? i = some x → x ∉ n.id :: after := by
    intro i x hi hx
    have hlt := ho.before _ ((input_iff h).mp hi)
    have hnot : x ∉ before := fun hm => hapart x hm x hx rfl
    rw [hsplit, List.idxOf_append_of_notMem hnot, List.idxOf_append_of_notMem hself] at hlt
    simp only [List.idxOf_cons_self] at hlt
    omega
  have hvalue : g.valueIn (fun i => (before.foldl (g.enterValue g.links) env).lookup i) n =
      g.valueIn (fun i => (order.foldl (g.enterValue g.links) env).lookup i) n := by
    unfold valueIn
    congr 1
    apply Slots.ext_at?
    intro i
    rw [Slots.at?_apply, Slots.at?_apply]
    cases hi : (g.inputsOf n.id).at? i with
    | none => rfl
    | some x =>
      simp only [Option.bind_some]
      rw [hsplit, List.foldl_append, lookup_foldl_of_notMem g (hproducer i x hi)]
  rw [← hvalue, hsplit, List.foldl_append, List.foldl_cons,
    lookup_foldl_of_notMem g (List.nodup_cons.mp hafter).1, lookup_enterValue, if_pos rfl,
    node?_of_mem h.id_once hn]
  rfl

/-- Every node shows the producers and the value that the links and literals call for. -/
structure Evaluated (g : Graph) : Prop where
  inputs : ∀ n ∈ g.nodes, n.inputs = g.inputsOf n.id
  output : ∀ n ∈ g.nodes, n.output = g.valueIn g.output? n

theorem Evaluated.output_eq_literal (he : g.Evaluated) {n : Node} (hn : n ∈ g.nodes)
    (hl : n.kind.isLiteral = true) : n.output = n.literal := by
  rw [he.output n hn, valueIn, evaluate_literal hl]

/-- A pass changes nothing but the inputs and outputs that nodes show. -/
theorem recompute_eq {g' : Graph} {order : Order} {report : Report}
    (hr : g.recompute order = .ok (g', report)) :
    ∃ env, g' = { g with nodes := g.nodes.map (refresh g.links env) } := by
  unfold recompute at hr
  split at hr
  · cases hr
  · cases hr
    exact ⟨_, rfl⟩

theorem ids_refresh (g : Graph) (env : Valuation) :
    ({ g with nodes := g.nodes.map (refresh g.links env) } : Graph).ids = g.ids := by
  simp [ids, refresh, Function.comp_def]

theorem output?_refresh (h : g.WellFormed) (env : Valuation) {n : Node} (hn : n ∈ g.nodes) :
    ({ g with nodes := g.nodes.map (refresh g.links env) } : Graph).output? n.id =
      some ((env.lookup n.id).getD n.output) := by
  have hu : ({ g with nodes := g.nodes.map (refresh g.links env) } : Graph).ids.Nodup :=
    ids_refresh g env ▸ h.id_once
  exact output?_of_mem hu (List.mem_map_of_mem hn)

/-- Along a sorted order a pass leaves the graph evaluated. -/
theorem Sorted.evaluated (h : g.WellFormed) {order : List NodeId} (ho : g.Sorted order) :
    ({ g with
      nodes := g.nodes.map (refresh g.links (order.foldl (g.enterValue g.links) g.valuation)) } :
        Graph).Evaluated := by
  refine ⟨fun m hm => ?_, fun m hm => ?_⟩
  · obtain ⟨n, _, rfl⟩ := List.mem_map.mp hm
    rfl
  · obtain ⟨n, hn, rfl⟩ := List.mem_map.mp hm
    have hvalue := lookup_foldl h ho hn g.valuation
    have hshown : (refresh g.links (order.foldl (g.enterValue g.links) g.valuation) n).output =
        g.valueIn (fun i => (order.foldl (g.enterValue g.links) g.valuation).lookup i) n := by
      simp only [refresh, hvalue, Option.getD_some]
    rw [hshown]
    change evaluate _ _ _ = evaluate _ _ _
    congr 1
    apply Slots.ext_at?
    intro i
    rw [Slots.at?_apply, Slots.at?_apply]
    change _ = ((g.inputsOf n.id).at? i).bind _
    cases hi : (g.inputsOf n.id).at? i with
    | none => rfl
    | some x =>
      obtain ⟨p, hp, hid⟩ := h.producer hi
      have hx := output?_refresh h (order.foldl (g.enterValue g.links) g.valuation) hp
      rw [lookup_foldl h ho hp, Option.getD_some] at hx
      simp only [Option.bind_some]
      rw [← hid, lookup_foldl h ho hp]
      exact hx.symm

/-- A topological pass succeeds and leaves the graph evaluated. -/
theorem recompute_topological (h : g.WellFormed) :
    ∃ g' report, g.recompute .topological = .ok (g', report) ∧ g'.Evaluated := by
  obtain ⟨order, horder, hsorted⟩ := topologicalOrder_ok h
  unfold recompute
  rw [horder]
  exact ⟨_, _, rfl, hsorted.evaluated h⟩

/-- In either order a pass over a well-formed graph comes to an end. -/
theorem recompute_ok (h : g.WellFormed) (order : Order) :
    ∃ g' report, g.recompute order = .ok (g', report) := by
  obtain ⟨sorted, hsorted, _⟩ := topologicalOrder_ok h
  unfold recompute
  rw [hsorted]
  exact ⟨_, _, rfl⟩

theorem Sorted.length_eq (h : g.WellFormed) {order : List NodeId} (ho : g.Sorted order) :
    order.length = g.nodes.length := by
  have hperm : order.Perm g.ids := (List.perm_ext_iff_of_nodup ho.once h.id_once).mpr ho.mem_iff
  simpa [ids] using hperm.length_eq

/-- The report counts every node and lists those that the pass leaves without a value. -/
theorem recompute_report (h : g.WellFormed) {g' : Graph} {order : Order} {report : Report}
    (hr : g.recompute order = .ok (g', report)) :
    report = ⟨g'.nodes.length, (g'.nodes.filter fun n => !n.isValid).map (·.id)⟩ := by
  obtain ⟨sorted, horder, hsorted⟩ := topologicalOrder_ok h
  unfold recompute at hr
  rw [horder] at hr
  cases hr
  simp only [List.length_map, Report.mk.injEq, and_true]
  cases order with
  | topological => exact hsorted.length_eq h
  | storage => simp [Order.arrange, ids]

theorem evaluated_of_recompute (h : g.WellFormed) {g' : Graph} {report : Report}
    (hr : g.recompute .topological = .ok (g', report)) : g'.Evaluated := by
  obtain ⟨g₁, _, hr₁, he⟩ := recompute_topological h
  rw [hr] at hr₁
  cases hr₁
  exact he

/-- Values are determined: where `f` takes some nodes of one evaluated graph, their producers among
them, to nodes of another with the same kind, literal and producers, it takes each to a node with
the same value. -/
theorem Evaluated.output_eq (he : g.Evaluated) (h : g.WellFormed) {g' : Graph} (he' : g'.Evaluated)
    (hu : g'.ids.Nodup) (f : NodeId → NodeId) {P : NodeId → Prop}
    (hclosed : ∀ l ∈ g.links, P l.target → P l.source)
    (hnode : ∀ n ∈ g.nodes, P n.id → ∃ m ∈ g'.nodes,
      m.id = f n.id ∧ m.kind = n.kind ∧ m.literal = n.literal)
    (hinput : ∀ n ∈ g.nodes, P n.id →
      g'.inputsOf (f n.id) = (g.inputsOf n.id).apply fun x => some (f x))
    {n : Node} (hn : n ∈ g.nodes) (hp : P n.id) : g'.output? (f n.id) = some n.output := by
  obtain ⟨order, _, hsorted⟩ := topologicalOrder_ok h
  -- the producers of a node come before it in the order
  induction hk : order.idxOf n.id using Nat.strongRecOn generalizing n with
  | ind k ih =>
    obtain ⟨m, hm, hid, hkind, hliteral⟩ := hnode n hn hp
    have houtput := output?_of_mem hu hm
    rw [hid] at houtput
    rw [houtput, he'.output m hm, he.output n hn]
    unfold valueIn
    rw [hkind, hliteral, hid, hinput n hn hp]
    congr 2
    apply Slots.ext_at?
    intro i
    simp only [Slots.at?_apply]
    cases hi : (g.inputsOf n.id).at? i with
    | none => rfl
    | some x =>
      have hl := (input_iff h).mp hi
      obtain ⟨q, hq, hqid⟩ := h.producer hi
      have hval := ih (order.idxOf q.id) (by rw [← hk, hqid]; exact hsorted.before _ hl) hq
        (hqid ▸ hclosed _ hl hp) rfl
      simp only [Option.bind_some]
      rw [← hqid, hval, output?_of_mem h.id_once hq]

end Graph

/-- A node apart from what passes write into it. -/
def Node.core (n : Node) : Node := { n with inputs := .vacant, output := .empty }

theorem Node.core_eq_iff {m n : Node} : m.core = n.core ↔
    m.id = n.id ∧ m.handle = n.handle ∧ m.kind = n.kind ∧ m.limit = n.limit ∧
      m.literal = n.literal ∧ m.property = n.property ∧ m.alphaClip = n.alphaClip ∧
      m.position = n.position := by
  simp [Node.core]

theorem Node.eq_of_core {m n : Node} (hc : m.core = n.core) (hi : m.inputs = n.inputs)
    (ho : m.output = n.output) : m = n := by
  obtain ⟨⟩ := m
  obtain ⟨⟩ := n
  simp only [Node.core, Node.mk.injEq] at hc hi ho ⊢
  simp_all

namespace Graph

def core (g : Graph) : Graph := { g with nodes := g.nodes.map Node.core }

variable {g g' : Graph}

theorem core_recompute {order : Order} {report : Report}
    (hr : g.recompute order = .ok (g', report)) : g'.core = g.core := by
  obtain ⟨env, rfl⟩ := recompute_eq hr
  simp [core, refresh, Node.core, Function.comp_def]

theorem core_edges (h : g.core = g'.core) : g.edges = g'.edges := by
  have := congrArg Graph.edges h
  exact this

theorem core_nodeIds (h : g.core = g'.core) : g.nodeIds = g'.nodeIds := by
  have := congrArg Graph.nodeIds h
  exact this

theorem core_links (h : g.core = g'.core) : g.links = g'.links := by
  rw [links, core_edges h, links]

theorem core_ids (h : g.core = g'.core) : g.ids = g'.ids := by
  have hnodes : g.nodes.map Node.core = g'.nodes.map Node.core := congrArg Graph.nodes h
  have := congrArg (List.map Node.id) hnodes
  simpa [ids, Node.core, Function.comp_def] using this

theorem core_length (h : g.core = g'.core) : g.nodes.length = g'.nodes.length := by
  simpa [ids] using congrArg List.length (core_ids h)

theorem core_inputsOf (h : g.core = g'.core) (id : NodeId) : g.inputsOf id = g'.inputsOf id := by
  rw [inputsOf, core_links h, inputsOf]

/-- Every node of one graph has its counterpart in the other. -/
theorem core_node (h : g.core = g'.core) {n : Node} (hn : n ∈ g.nodes) :
    ∃ m ∈ g'.nodes, m.core = n.core := by
  have hnodes : g.nodes.map Node.core = g'.nodes.map Node.core := congrArg Graph.nodes h
  have hm : n.core ∈ g'.nodes.map Node.core := hnodes ▸ List.mem_map_of_mem hn
  exact List.mem_map.mp hm

/-- Two evaluated graphs that differ at most in what passes write do not differ at all. -/
theorem Evaluated.eq_of_core (he : g.Evaluated) (h : g.WellFormed) (he' : g'.Evaluated)
    (hcore : g.core = g'.core) : g = g' := by
  have hu : g'.ids.Nodup := core_ids hcore ▸ h.id_once
  have hinput : ∀ n ∈ g.nodes, g'.inputsOf n.id = (g.inputsOf n.id).apply fun x => some x := by
    intro n _
    rw [← core_inputsOf hcore]
    apply Slots.ext_at?
    intro i
    rw [Slots.at?_apply]
    exact (Option.bind_fun_some _).symm
  have hsame : ∀ n ∈ g.nodes, ∀ m ∈ g'.nodes, m.core = n.core → m = n := by
    intro n hn m hm hc
    have hid : m.id = n.id := (Node.core_eq_iff.mp hc).1
    have hvalue := he.output_eq h he' hu (fun x => x) (P := fun _ => True) (by simp)
      (fun k hk _ => ?_) (fun k hk _ => hinput k hk) hn trivial
    · have hshown := output?_of_mem hu hm
      have houtput : m.output = n.output := by
        rw [hid, hvalue] at hshown
        exact (Option.some.inj hshown).symm
      have hinputs : m.inputs = n.inputs := by
        rw [he'.inputs m hm, he.inputs n hn, hid, core_inputsOf hcore]
      exact Node.eq_of_core hc hinputs houtput
    · obtain ⟨j, hj, hjc⟩ := core_node hcore hk
      obtain ⟨hid, _, hkind, _, hliteral, _⟩ := Node.core_eq_iff.mp hjc
      exact ⟨j, hj, hid, hkind, hliteral⟩
  have hnodes : g.nodes.map Node.core = g'.nodes.map Node.core := congrArg Graph.nodes hcore
  have hequal : g.nodes = g'.nodes := by
    apply List.ext_getElem
    · simpa using congrArg List.length hnodes
    · intro i hi hi'
      refine (hsame _ (List.getElem_mem hi) _ (List.getElem_mem hi') ?_).symm
      have := List.getElem_of_eq hnodes (i := i) (by simpa using hi)
      simpa using this.symm
  cases g
  cases g'
  simp only [core, Graph.mk.injEq] at hcore hequal ⊢
  exact ⟨hequal, hcore.2⟩

/-- A topological pass over what one has left finds nothing to do. -/
theorem recompute_again (h : g.WellFormed) {report : Report}
    (hr : g.recompute .topological = .ok (g', report)) :
    g'.recompute .topological = .ok (g', report) := by
  have h' := h.recompute hr
  obtain ⟨g'', report', hr', he'⟩ := recompute_topological h'
  have hsame : g' = g'' :=
    (evaluated_of_recompute h hr).eq_of_core h' he' (core_recompute hr').symm
  subst hsame
  rw [hr', recompute_report h' hr', recompute_report h hr]

end Graph

end ShaderGraph

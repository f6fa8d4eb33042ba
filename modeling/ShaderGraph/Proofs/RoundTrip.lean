import ShaderGraph.Proofs.Sessions

namespace ShaderGraph.SavedGraph

variable {g h : Graph} {handles : Nat → Handle} {done : List Link}

theorem place_id (hu : g.ids.Nodup) {p : Nat} {n : Node} (hn : g.nodes[p]? = some n) :
    place g n.id = p := by
  obtain ⟨hlt, rfl⟩ := List.getElem?_eq_some_iff.mp hn
  have hlt' : p < g.ids.length := by rwa [length_ids]
  have hid : g.ids[p] = g.nodes[p].id := by simp [Graph.ids]
  rw [place, ← hid]
  exact hu.idxOf_getElem p hlt'

theorem ids_map_place (hu : g.ids.Nodup) : g.ids.map (place g) = List.range g.nodes.length := by
  apply List.ext_getElem
  · simp [Graph.ids]
  · intro p hp _
    simp only [List.length_map, length_ids] at hp
    have := place_id hu (List.getElem?_eq_getElem hp)
    simpa [Graph.ids] using this

theorem Stage.ids_eq (hs : Stage handles g done h) : h.ids = List.range g.nodes.length :=
  (Graph.core_ids hs.core).trans (frame_ids handles g.nodes)

theorem Stage.length_eq (hs : Stage handles g done h) : h.nodes.length = g.nodes.length := by
  rw [← length_ids, hs.ids_eq, List.length_range]

/-- A loaded node stands at the place it is called by. -/
theorem Stage.place_eq (hs : Stage handles g done h) {p : Nat} (hp : p < g.nodes.length) :
    place h p = p := by
  have hlt : p < (List.range g.nodes.length).length := by simpa using hp
  have := List.nodup_range.idxOf_getElem p hlt
  rwa [List.getElem_range, ← hs.ids_eq] at this

theorem Stage.no_pending (hs : Stage handles g done h) : ∀ e ∈ h.edges, e.isPending = false := by
  intro e he
  rw [Graph.core_edges hs.core] at he
  obtain ⟨i, _, rfl⟩ := List.mem_mapIdx.mp he
  rfl

/-- What a graph on its way in comes to does not depend on the values that were saved. -/
theorem Stage.of_core {e : Graph} (hs : Stage handles e (linksInFile e) h)
    (hcore : e.core = g.core) : Stage handles g (linksInFile g) h := by
  refine ⟨hs.wellFormed, ?_⟩
  rw [hs.core, rebuilt, rebuilt, frame_core hcore, linksInFile_core hcore]

theorem Stage.node_at (hs : Stage handles g done h) {p : Nat} {n : Node}
    (hn : g.nodes[p]? = some n) :
    ∃ m, h.nodes[p]? = some m ∧ m.core = (renewed handles p n).core := by
  have hnodes : h.nodes.map Node.core = (g.nodes.mapIdx (renewed handles)).map Node.core :=
    congrArg Graph.nodes hs.core
  have hat := congrArg (·[p]?) hnodes
  simp only [List.getElem?_map, List.getElem?_mapIdx, hn, Option.map_some] at hat
  obtain ⟨m, hm, hc⟩ := Option.map_eq_some_iff.mp hat
  exact ⟨m, hm, hc⟩

theorem idxOf_map {f : NodeId → Nat} {xs : List NodeId} {x : NodeId}
    (hf : ∀ y ∈ xs, f y = f x → y = x) : (xs.map f).idxOf (f x) = xs.idxOf x := by
  induction xs with
  | nil => rfl
  | cons y ys ih =>
    have hsame : (f y == f x) = (y == x) := by
      rw [Bool.eq_iff_iff, beq_iff_eq, beq_iff_eq]
      exact ⟨hf y (by simp), fun h => h ▸ rfl⟩
    rw [List.map_cons, List.idxOf_cons, List.idxOf_cons, hsame, ih fun z hz => hf z (by simp [hz])]

structure Reloaded (handles : Nat → Handle) (g h : Graph) : Prop where
  stage : Stage handles g (linksInFile g) h
  evaluated : h.Evaluated

theorem reloaded_of_load (hw : g.WellFormed) {e : Graph} {report : Report}
    (hr : g.recompute .topological = .ok (e, report)) (hload : load handles (save g) = .ok h) :
    Reloaded handles e h := by
  have hwe := hw.recompute hr
  have hg := Graph.evaluated_of_recompute hw hr
  rw [← load_core hw hwe (Graph.core_recompute hr)] at hload
  obtain ⟨h', hload', hs, he⟩ := load_fitting hwe hg handles (fitting_of_load hwe hg hload)
  rw [hload] at hload'
  cases hload'
  exact ⟨hs, he⟩

/-- Every threshold is one that the file tells from none. -/
def ClipsOpen (g : Graph) : Prop := ∀ n ∈ g.nodes, ∀ t, n.alphaClip = some t → .zero < t

theorem ClipsOpen.filter_eq (hclip : ClipsOpen g) {n : Node} (hn : n ∈ g.nodes) :
    n.alphaClip.filter (.zero < ·) = n.alphaClip := by
  cases ht : n.alphaClip with
  | none => rfl
  | some t =>
    have := hclip n hn t ht
    simp [Option.filter, this]

namespace Reloaded

theorem inputsOf_place (hh : Reloaded handles g h) (hw : g.WellFormed) {id : NodeId}
    (hid : id ∈ g.ids) :
    h.inputsOf (place g id) = (g.inputsOf id).apply fun x => some (place g x) := by
  have hperm := replayOrder_perm g
  apply Slots.ext_at?
  intro i
  rw [hh.stage.at?_inputsOf hw hperm.subset hid, Slots.at?_apply]
  cases hi : (g.inputsOf id).at? i with
  | none => rfl
  | some x =>
    have hlink := hperm.mem_iff.mpr ((Graph.input_iff hw).mp hi)
    simp [hlink]

theorem output?_place (hh : Reloaded handles g h) (hw : g.WellFormed) (hg : g.Evaluated) {n : Node}
    (hn : n ∈ g.nodes) : h.output? (place g n.id) = some n.output := by
  refine hg.output_eq hw hh.evaluated hh.stage.wellFormed.id_once (place g) (P := fun _ => True)
    (fun _ _ _ => trivial) ?_ ?_ hn trivial
  · intro m hm _
    obtain ⟨m', hfound, hkind, hliteral⟩ := hh.stage.node hw hm
    obtain ⟨hm', hid⟩ := Graph.mem_of_node? hfound
    exact ⟨m', hm', hid, hkind, hliteral⟩
  · intro m hm _
    exact hh.inputsOf_place hw (Graph.mem_ids.mpr ⟨m, hm, rfl⟩)

theorem output_at (hh : Reloaded handles g h) (hw : g.WellFormed) (hg : g.Evaluated) {p : Nat}
    {n m : Node} (hn : g.nodes[p]? = some n) (hm : h.nodes[p]? = some m) : m.output = n.output := by
  obtain ⟨m', hm', hc⟩ := hh.stage.node_at hn
  rw [hm] at hm'
  cases hm'
  have hid : m.id = place g n.id := by
    rw [(Node.core_eq_iff.mp hc).1, place_id hw.id_once hn]
    rfl
  have hvalue := hh.output?_place hw hg (List.mem_of_getElem? hn)
  rw [← hid, Graph.output?_of_mem hh.stage.wellFormed.id_once (List.mem_of_getElem? hm)] at hvalue
  exact Option.some.inj hvalue

theorem outputs_eq (hh : Reloaded handles g h) (hw : g.WellFormed) (hg : g.Evaluated) :
    h.nodes.map Node.output = g.nodes.map Node.output := by
  apply List.ext_getElem
  · simp [hh.stage.length_eq]
  · intro p hp hp'
    rw [List.length_map] at hp hp'
    rw [List.getElem_map, List.getElem_map]
    exact hh.output_at hw hg (List.getElem?_eq_getElem hp') (List.getElem?_eq_getElem hp)

theorem producers_place (hh : Reloaded handles g h) (hw : g.WellFormed) {id : NodeId}
    (hid : id ∈ g.ids) : h.producers (place g id) = (g.producers id).map (place g) := by
  rw [Graph.producers, hh.inputsOf_place hw hid, Slots.filled_apply, Graph.producers]
  exact congrFun List.filterMap_eq_map _

/-- A pass comes to the nodes in the same order. -/
theorem rank_place (hh : Reloaded handles g h) (hw : g.WellFormed) (id : NodeId) :
    rank h (place g id) = rank g id := by
  obtain ⟨order, ho, hsorted⟩ := Graph.topologicalOrder_ok hw
  have ho' : h.topologicalOrder = .ok (order.map (place g)) :=
    Graph.topologicalOrder_rename hw hh.stage.wellFormed.id_once
      (by rw [hh.stage.ids_eq, ids_map_place hw.id_once]) (fun _ hid => hh.inputsOf_place hw hid) ho
  simp only [rank, ho, ho']
  exact idxOf_map fun y hy => place_inj ((hsorted.mem_iff y).mp hy)

theorem links_eq (hh : Reloaded handles g h) : h.links = linksInFile g := hh.stage.links

/-- The links are in order already. -/
theorem replayOrder_eq (hh : Reloaded handles g h) (hw : g.WellFormed) :
    replayOrder h = linksInFile g := by
  have hsorted : (linksInFile g).Pairwise (Precedes h) := by
    refine List.pairwise_map.mpr ?_
    refine (replayOrder_sorted g).imp fun {k l} hkl => ?_
    unfold Precedes moved
    rw [hh.rank_place hw, hh.rank_place hw]
    exact hkl
  unfold replayOrder
  rw [hh.links_eq]
  refine List.mergeSort_of_pairwise (hsorted.imp fun {k l} hkl => ?_)
  simp only [Bool.or_eq_true, Bool.and_eq_true, decide_eq_true_eq]
  exact hkl

theorem position?_place (hh : Reloaded handles g h) {id : NodeId} (hid : id ∈ g.ids) :
    position? h (place g id) = position? g id := by
  have hlt := place_lt hid
  rw [position?_eq hid, position?_eq (hh.stage.ids_eq ▸ List.mem_range.mpr hlt),
    hh.stage.place_eq hlt]

theorem linkLine_moved (hh : Reloaded handles g h) (hw : g.WellFormed) {l : Link}
    (hl : l ∈ g.links) : linkLine h (moved g l) = linkLine g l := by
  unfold linkLine moved
  rw [hh.position?_place (hw.source_mem hl), hh.position?_place (hw.target_mem hl)]

theorem inputFields_eq (hh : Reloaded handles g h) (hw : g.WellFormed) {id : NodeId}
    (hid : id ∈ g.ids) :
    (h.inputsOf (place g id)).toList.map (inputField h) =
      (g.inputsOf id).toList.map (inputField g) := by
  have hfield : ∀ i, inputField h ((g.inputsOf id).at? i |>.bind fun x => some (place g x)) =
      inputField g ((g.inputsOf id).at? i) := by
    intro i
    cases hi : (g.inputsOf id).at? i with
    | none => rfl
    | some x =>
      have hx := hw.source_mem ((Graph.input_iff hw).mp hi)
      simp only [inputField, Option.bind_some, hh.position?_place hx]
  rw [hh.inputsOf_place hw hid, Slots.toList_eq, Slots.toList_eq, List.map_map, List.map_map]
  refine List.map_congr_left fun i _ => ?_
  rw [Function.comp_apply, Slots.at?_apply]
  exact hfield i

theorem nodeLine_eq (hh : Reloaded handles g h) (hw : g.WellFormed) (hg : g.Evaluated)
    (hclip : ClipsOpen g) {p : Nat} {n m : Node} (hn : g.nodes[p]? = some n)
    (hm : h.nodes[p]? = some m) : nodeLine h m = nodeLine g n := by
  have hmem := List.mem_of_getElem? hn
  obtain ⟨m', hm', hc⟩ := hh.stage.node_at hn
  rw [hm] at hm'
  cases hm'
  obtain ⟨hid, _, hkind, hlimit, hliteral, hproperty, halpha, hposition⟩ := Node.core_eq_iff.mp hc
  simp only [renewed, Node.bare] at hid hkind hlimit hliteral hproperty halpha hposition
  have hplace : m.id = place g n.id := by rw [hid, place_id hw.id_once hn]
  have hkept := hclip.filter_eq hmem
  have houtput := hh.output_at hw hg hn hm
  have hids : n.id ∈ g.ids := Graph.mem_ids.mpr ⟨n, hmem, rfl⟩
  have hcount : (h.inputsOf m.id).count = (g.inputsOf n.id).count := by
    have := congrArg List.length (hh.producers_place hw hids)
    rw [List.length_map, ← hplace] at this
    exact this
  have hdata : dataOf m = dataOf n := by
    rw [dataOf, dataOf, hkind, hliteral, halpha, hkept]
  have hfields := hh.inputFields_eq hw hids
  rw [← hplace] at hfields
  simp only [nodeLine, nodeFields, hkind, hproperty, hfields, hcount, hlimit, houtput, hdata,
    hposition]

theorem save_eq (hh : Reloaded handles g h) (hw : g.WellFormed) (hg : g.Evaluated)
    (hclip : ClipsOpen g) : save h = save g := by
  have hnodes : h.nodes.map (nodeLine h) = g.nodes.map (nodeLine g) := by
    apply List.ext_getElem?
    intro p
    rw [List.getElem?_map, List.getElem?_map]
    cases hn : g.nodes[p]? with
    | none =>
      have hlength := hh.stage.length_eq
      rw [List.getElem?_eq_none_iff] at hn
      rw [List.getElem?_eq_none (by omega), Option.map_none, Option.map_none]
    | some n =>
      obtain ⟨m, hm, _⟩ := hh.stage.node_at hn
      rw [hm, Option.map_some, Option.map_some, hh.nodeLine_eq hw hg hclip hn hm]
  have hlinks : (replayOrder h).map (linkLine h) = (replayOrder g).map (linkLine g) := by
    rw [hh.replayOrder_eq hw, linksInFile, List.map_map]
    refine List.map_congr_left fun l hl => ?_
    exact hh.linkLine_moved hw ((replayOrder_perm g).mem_iff.mp hl)
  rw [save, save, hnodes, hlinks]

end Reloaded

/-- A graph that comes back from its file has the nodes of the graph that was saved, each called by
its place, its links and no pending edge, and the values of a pass over it. If these were its
values already, and no threshold is lost, its file is the same again. -/
theorem roundTrip_faithful (hg : g.Reachable) (hload : load handles (save g) = .ok h) :
    h.nodes.length = g.nodes.length ∧
    (∀ (p : Nat) (n : Node), g.nodes[p]? = some n → ∃ m : Node, h.nodes[p]? = some m ∧ m.id = p ∧
      m.kind = n.kind ∧ m.limit = n.limit ∧ m.property = n.property ∧ m.position = n.position ∧
      m.literal = n.literal ∧ m.alphaClip = n.alphaClip.filter (.zero < ·)) ∧
    h.links.Perm (g.links.map (moved g)) ∧ (∀ e ∈ h.edges, e.isPending = false) ∧
    (∃ e report, g.recompute .topological = .ok (e, report) ∧
      h.nodes.map Node.output = e.nodes.map Node.output) ∧
    ((∃ (g₀ : Graph) (report : Report), g₀.Reachable ∧
      g₀.recompute .topological = .ok (g, report)) → ClipsOpen g → save h = save g) := by
  have hw := hg.wellFormed
  obtain ⟨e, report, hr, he⟩ := Graph.recompute_topological hw
  have hcore := Graph.core_recompute hr
  have hwe := hw.recompute hr
  have hh := reloaded_of_load hw hr hload
  have hs : Stage handles g (linksInFile g) h := hh.stage.of_core hcore
  refine ⟨hs.length_eq, ?_, ?_, ?_, ⟨e, report, hr, ?_⟩, ?_⟩
  · intro p n hn
    obtain ⟨m, hm, hc⟩ := hs.node_at hn
    obtain ⟨hid, _, hkind, hlimit, hliteral, hproperty, halpha, hposition⟩ :=
      Node.core_eq_iff.mp hc
    exact ⟨m, hm, hid, hkind, hlimit, hproperty, hposition, hliteral, halpha⟩
  · rw [hs.links]
    exact (replayOrder_perm g).map _
  · exact hs.no_pending
  · exact hh.outputs_eq hwe he
  · intro ⟨g₀, report₀, hg₀, hr₀⟩ hclip
    have hev := Graph.evaluated_of_recompute hg₀.wellFormed hr₀
    have : e = g := he.eq_of_core hwe hev hcore
    subst this
    exact hh.save_eq hw he hclip

/-- A node that is gone, an edge that is pending, and a link that is older than its source's. -/
def sparseSteps : List Step :=
  [.command (.createNode .time .standard) ⟨2⟩, .command (.createNode .negate .standard) ⟨3⟩,
    .command (.createNode .textureSample .standard) ⟨4⟩,
    .command (.createNode .float .standard) ⟨5⟩,
    .command (.connect 3 1 none) ⟨6⟩, .command (.connect 5 3 none) ⟨6⟩,
    .command (.setAlphaClip 4 (some .one)) ⟨6⟩, .command (.beginLink 5) ⟨6⟩,
    .command (.destroyNode 2) ⟨6⟩]

theorem sparse_roundTrip : ∃ (g h : Graph) (report : Report),
    (sparseSteps.foldl Graph.perform (Graph.new ⟨0⟩ ⟨1⟩)).recompute .topological = .ok (g, report) ∧
    g.ids = [0, 1, 3, 4, 5] ∧ g.links = [⟨3, 1, 0⟩, ⟨5, 3, 0⟩] ∧
    load Handle.mk (save g) = .ok h ∧ h.links.Perm [⟨2, 1, 0⟩, ⟨4, 2, 0⟩] ∧ save h = save g := by
  have hg₀ := Graph.reachable_foldl (.new ⟨0⟩ ⟨1⟩) sparseSteps
  obtain ⟨g, report, hr, he⟩ := Graph.recompute_topological hg₀.wellFormed
  have hg : g = Graph.perform (sparseSteps.foldl Graph.perform (Graph.new ⟨0⟩ ⟨1⟩))
      (.recompute .topological) := by
    simp only [Graph.perform, hr]
  have hreach : g.Reachable := hg ▸ hg₀.step (.recompute .topological)
  have hids : g.ids = [0, 1, 3, 4, 5] := by
    rw [hg]
    decide +kernel
  have hlinks : g.links = [⟨3, 1, 0⟩, ⟨5, 3, 0⟩] := by
    rw [hg]
    decide +kernel
  obtain ⟨h, hload, _⟩ := load_fitting hreach.wellFormed he Handle.mk (by
    rw [hg]
    decide +kernel)
  obtain ⟨_, _, hperm, _, _, hsave⟩ := roundTrip_faithful hreach hload
  refine ⟨g, h, report, hr, hids, hlinks, hload, ?_, hsave ⟨_, report, hg₀, hr⟩ ?_⟩
  · simpa [hlinks, moved, place, hids] using hperm
  · have hclips : ∀ n ∈ g.nodes, ∀ t ∈ n.alphaClip, .zero < t := by
      rw [hg]
      decide +kernel
    exact hclips

end ShaderGraph.SavedGraph

import ShaderGraph.Proofs.Reachable
import ShaderGraph.Proofs.Rebuild

namespace ShaderGraph

open Relation

def shapeError? (p : Prospect) (size : Nat) : Option LinkError :=
  (p.refusal? size).map (.shapeMismatch p.kind p.slot size)

namespace Graph

variable {g : Graph}

/-- What the shape rules have against a link, as the values are now. -/
def misfit? (g : Graph) (l : Link) : Option LinkError :=
  match g.node? l.source, g.node? l.target with
  | some a, some b =>
    shapeError? ⟨b.kind, l.slot, b.output.size, ((g.inputsOf l.target).without l.source).apply
      fun id => (g.output? id).map Value.size⟩ a.output.size
  | _, _ => none

/-- A free slot leaves the others fewer than the limit. -/
theorem count_lt {held : Slots NodeId} {limit slot : Nat} (hslot : slot < limit)
    (hfree : held.at? slot = none) (hlimit : ∀ i x, held.at? i = some x → i < limit) :
    held.count < limit := by
  have hsub : (slot :: (List.range 4).filter fun i => (held.at? i).isSome) ⊆ List.range limit := by
    intro i hi
    rcases List.mem_cons.mp hi with rfl | hi
    · exact List.mem_range.mpr hslot
    · obtain ⟨x, hx⟩ := Option.isSome_iff_exists.mp (List.mem_filter.mp hi).2
      exact List.mem_range.mpr (hlimit i x hx)
  have hnodup : (slot :: (List.range 4).filter fun i => (held.at? i).isSome).Nodup := by
    refine List.nodup_cons.mpr ⟨?_, List.nodup_range.filter _⟩
    intro hm
    have := (List.mem_filter.mp hm).2
    rw [hfree] at this
    cases this
  have hlength := (hnodup.subperm hsub).length_le
  rw [List.length_cons, List.length_range] at hlength
  rw [Slots.count_eq]
  exact hlength

/-- A link that fits in with the others is refused for its shape or not at all. -/
theorem checkLink_of_wired (h : g.WellFormed) {l : Link} (hl : Wired g.nodes (g.links ++ [l])) :
    g.checkLink l.source l.target (some l.slot) =
      match g.misfit? l with
      | some e => .error e
      | none => .ok l.slot := by
  obtain ⟨a, ha, haid, hsink⟩ := hl.source l (by simp)
  obtain ⟨b, hb, hbid, hslot⟩ := hl.target l (by simp)
  have hna : g.node? l.source = some a := haid ▸ node?_of_mem h.id_once ha
  have hnb : g.node? l.target = some b := hbid ▸ node?_of_mem h.id_once hb
  have hself : l.source ≠ l.target := hl.apart l (by simp)
  have hsockets := hl.socket_once
  rw [List.map_append, List.nodup_append] at hsockets
  have hfree : (g.inputsOf l.target).at? l.slot = none := by
    cases hi : (g.inputsOf l.target).at? l.slot with
    | none => rfl
    | some x =>
      have hm := List.mem_map_of_mem (f := Link.socket) (link_of_input hi)
      exact absurd rfl (hsockets.2.2 _ hm _ (by simp [Link.socket]))
  have hheld : ((g.inputsOf l.target).without l.source).at? l.slot = none := by
    rw [Slots.at?_without, hfree]
    rfl
  have hlimit : ∀ i x, ((g.inputsOf l.target).without l.source).at? i = some x → i < b.limit := by
    intro i x hi
    rw [Slots.at?_without] at hi
    obtain ⟨y, hy, _⟩ := Option.bind_eq_some_iff.mp hi
    obtain ⟨c, hc, hcid, hclt⟩ := h.wired.target _ (link_of_input hy)
    exact eq_of_node? h.id_once hnb hc hcid ▸ hclt
  have hcount := count_lt hslot hheld hlimit
  have hresolve : resolveSlot l.target b.limit ((g.inputsOf l.target).without l.source)
      (some l.slot) = .ok l.slot := by
    simp only [resolveSlot, hheld]
    rw [if_neg (by omega), if_neg (by omega)]
  have hcycle : dependsOn g.links l.source l.target = false := by
    cases hd : dependsOn g.links l.source l.target with
    | false => rfl
    | true =>
      have hchain := (dependsOn_iff _ _ _).mp hd
      have hmono : Feeds g.links ≤ Feeds (g.links ++ [l]) :=
        Feeds.mono (List.subset_append_left _ _)
      exact absurd (TransGen.tail' (ReflTransGen.mono hmono _ _ hchain) ⟨l, by simp, rfl, rfl⟩)
        (hl.acyclic l.target)
  simp only [checkLink, hna, hnb, hsink, hself, hresolve, hcycle, Bool.false_eq_true, ↓reduceIte,
    misfit?, shapeError?]
  cases Prospect.refusal? _ a.output.size <;> rfl

/-- Such a link takes the next edge id. -/
theorem connect_of_wired (h : g.WellFormed) {l : Link} (hl : Wired g.nodes (g.links ++ [l]))
    {k : Nat} (hpool : g.edgeIds = ⟨maxEdges, k, []⟩) (hk : k < maxEdges) :
    g.connect l.source l.target (some l.slot) =
      match g.misfit? l with
      | some e => .error (.link e)
      | none => .ok (k, { g with
        edges := g.edges ++ [⟨k, l.source, some l.socket⟩],
        edgeIds := ⟨maxEdges, k + 1, []⟩ }) := by
  have hnew : ∀ e ∈ g.edges, e.joins l.source l.target = false := by
    intro e he
    by_contra hj
    simp only [Edge.joins, Bool.not_eq_false, Bool.and_eq_true, decide_eq_true_eq,
      Option.any_eq_true] at hj
    obtain ⟨hs, p, hp, ht⟩ := hj
    have hm : (⟨e.source, p.node, p.slot⟩ : Link) ∈ g.links := mem_links.mpr ⟨e, he, rfl, hp⟩
    have hends := hl.ends_once
    rw [List.map_append, List.nodup_append] at hends
    exact absurd rfl (hends.2.2 _ (List.mem_map_of_mem hm) _ (by simp [Link.ends, hs, ht]))
  have hdrop : g.dropEdges (·.joins l.source l.target) = g := by
    have hkeep : g.edges.filter (fun e => !e.joins l.source l.target) = g.edges :=
      List.filter_eq_self.mpr fun e he => by simp [hnew e he]
    have hgone : g.edges.filter (·.joins l.source l.target) = [] :=
      List.filter_eq_nil_iff.mpr fun e he => by simp [hnew e he]
    simp only [dropEdges, hkeep, hgone, List.foldl_nil]
  unfold connect
  rw [checkLink_of_wired h hl, hdrop]
  cases g.misfit? l with
  | some e => rfl
  | none =>
    simp only [allocateEdge, hpool, IdPool.allocate?, hk, ↓reduceIte]
    rfl

end Graph

namespace SavedGraph

variable {g : Graph}

def place (g : Graph) (id : NodeId) : Nat := g.ids.idxOf id

def moved (g : Graph) (l : Link) : Link := ⟨place g l.source, place g l.target, l.slot⟩

theorem position?_eq {id : NodeId} (h : id ∈ g.ids) : position? g id = some (place g id) := by
  unfold position? place
  generalize g.ids = ids at h
  induction ids with
  | nil => cases h
  | cons x xs ih =>
    rw [List.idxOf?_cons, List.idxOf_cons]
    cases hx : x == id with
    | true => rfl
    | false =>
      have hne : id ≠ x := fun he => by simp [he] at hx
      rw [ih ((List.mem_cons.mp h).resolve_left hne)]
      rfl

theorem length_ids : g.ids.length = g.nodes.length := by simp [Graph.ids]

theorem place_lt {id : NodeId} (h : id ∈ g.ids) : place g id < g.nodes.length :=
  length_ids ▸ List.idxOf_lt_length_of_mem h

theorem place_inj {x y : NodeId} (hx : x ∈ g.ids) (h : place g x = place g y) : x = y := by
  exact (List.idxOf_inj hx).mp h

/-- The node whose record stands at a place. -/
theorem node_at_place (hu : g.ids.Nodup) {n : Node} (hn : n ∈ g.nodes) :
    g.nodes[place g n.id]? = some n := by
  obtain ⟨i, hi, rfl⟩ := List.getElem_of_mem hn
  have hid : g.ids[i]? = some g.nodes[i].id := by simp [Graph.ids, hi]
  have hplace : place g g.nodes[i].id = i := by
    have hlt : i < g.ids.length := by simpa [Graph.ids] using hi
    rw [List.getElem?_eq_getElem hlt, Option.some_inj] at hid
    rw [place, ← hid]
    exact hu.idxOf_getElem i hlt
  rw [hplace, List.getElem?_eq_getElem hi]

def rebuilt (handles : Nat → Handle) (nodes : List Node) (links : List Link) : Graph :=
  { frame handles nodes with
    edges := links.mapIdx fun i l => ⟨i, l.source, some l.socket⟩
    edgeIds := ⟨Graph.maxEdges, links.length, []⟩ }

theorem rebuilt_links (handles : Nat → Handle) (nodes : List Node) (links : List Link) :
    (rebuilt handles nodes links).links = links := by
  change (links.mapIdx fun i l => (⟨i, l.source, some l.socket⟩ : Edge)).filterMap Edge.link? = _
  rw [List.mapIdx_eq_zipIdx_map, List.filterMap_map]
  conv_rhs => rw [← List.zipIdx_map_fst 0 links, ← List.filterMap_eq_map]
  rfl

theorem mem_rebuilt (handles : Nat → Handle) (hu : g.ids.Nodup) {n : Node} (hn : n ∈ g.nodes)
    (links : List Link) :
    renewed handles (place g n.id) n ∈ (rebuilt handles g.nodes links).nodes := by
  have hat := node_at_place hu hn
  obtain ⟨hlt, hget⟩ := List.getElem?_eq_some_iff.mp hat
  change _ ∈ g.nodes.mapIdx (renewed handles)
  rw [List.mem_mapIdx]
  exact ⟨_, hlt, by rw [hget]⟩

theorem feeds_moved {a b : Nat} :
    Feeds (g.links.map (moved g)) a b ↔
      ∃ x y, Feeds g.links x y ∧ a = place g x ∧ b = place g y := by
  constructor
  · rintro ⟨l', hl', rfl, rfl⟩
    obtain ⟨l, hl, rfl⟩ := List.mem_map.mp hl'
    exact ⟨l.source, l.target, ⟨l, hl, rfl, rfl⟩, rfl, rfl⟩
  · rintro ⟨x, y, ⟨l, hl, rfl, rfl⟩, rfl, rfl⟩
    exact ⟨moved g l, List.mem_map_of_mem hl, rfl, rfl⟩

/-- A chain of moved links goes by the links themselves. -/
theorem chain_moved (hw : g.WellFormed) {a b : Nat}
    (h : TransGen (Feeds (g.links.map (moved g))) a b) :
    ∃ x y, TransGen (Feeds g.links) x y ∧ y ∈ g.ids ∧ a = place g x ∧ b = place g y := by
  induction h with
  | single hf =>
    obtain ⟨x, y, hxy, ha, hb⟩ := feeds_moved.mp hf
    obtain ⟨l, hl, _, rfl⟩ := id hxy
    exact ⟨x, _, .single hxy, hw.target_mem hl, ha, hb⟩
  | tail _ hf ih =>
    obtain ⟨x, y, hxy, hy, ha, hb⟩ := ih
    obtain ⟨y', z, hyz, hb', hc⟩ := feeds_moved.mp hf
    have : y = y' := place_inj hy (hb.symm.trans hb')
    subst this
    obtain ⟨l, hl, _, rfl⟩ := id hyz
    exact ⟨x, _, hxy.tail hyz, hw.target_mem hl, ha, hc⟩

/-- The moved links fit in between the nodes built again. -/
theorem wired_moved (hw : g.WellFormed) (handles : Nat → Handle) :
    Wired (frame handles g.nodes).nodes (g.links.map (moved g)) where
  source l' hl' := by
    obtain ⟨l, hl, rfl⟩ := List.mem_map.mp hl'
    obtain ⟨n, hn, hid, hsink⟩ := hw.wired.source l hl
    exact ⟨_, mem_rebuilt handles hw.id_once hn [], by rw [hid]; rfl, hsink⟩
  target l' hl' := by
    obtain ⟨l, hl, rfl⟩ := List.mem_map.mp hl'
    obtain ⟨n, hn, hid, hslot⟩ := hw.wired.target l hl
    exact ⟨_, mem_rebuilt handles hw.id_once hn [], by rw [hid]; rfl, hslot⟩
  ends_once := by
    rw [List.map_map]
    refine List.Nodup.map_on ?_ (List.Nodup.of_map _ hw.wired.ends_once)
    intro l hl k hk he
    have hs := place_inj (hw.source_mem hl) (congrArg Prod.fst he)
    have ht := place_inj (hw.target_mem hl) (congrArg Prod.snd he)
    exact List.inj_on_of_nodup_map hw.wired.ends_once hl hk (by simp [Link.ends, hs, ht])
  socket_once := by
    rw [List.map_map]
    refine List.Nodup.map_on ?_ (List.Nodup.of_map _ hw.wired.socket_once)
    intro l hl k hk he
    have ht := place_inj (hw.target_mem hl) (congrArg Socket.node he)
    have hs : l.slot = k.slot := congrArg Socket.slot he
    exact List.inj_on_of_nodup_map hw.wired.socket_once hl hk (by simp [Link.socket, hs, ht])
  acyclic p hp := by
    obtain ⟨x, y, hxy, hy, hx, hpy⟩ := chain_moved hw hp
    have : y = x := place_inj hy (hpy.symm.trans hx)
    subst this
    exact hw.wired.acyclic y hxy

/-- A graph on its way in, with these links made. -/
structure Stage (handles : Nat → Handle) (g : Graph) (done : List Link) (h : Graph) : Prop where
  wellFormed : h.WellFormed
  core : h.core = (rebuilt handles g.nodes done).core

variable {handles : Nat → Handle} {done : List Link} {h : Graph}

theorem Stage.evaluated (hs : Stage handles g done h) :
    ∃ h₁, SavedGraph.evaluated h = .ok h₁ ∧ Stage handles g done h₁ ∧ h₁.Evaluated := by
  obtain ⟨h₁, report, hr, he⟩ := Graph.recompute_topological hs.wellFormed
  refine ⟨h₁, by rw [SavedGraph.evaluated, hr], ⟨hs.wellFormed.recompute hr, ?_⟩, he⟩
  rw [Graph.core_recompute hr, hs.core]

theorem Stage.links (hs : Stage handles g done h) : h.links = done :=
  (Graph.core_links hs.core).trans (rebuilt_links handles g.nodes done)

/-- A link fits in with those made so far if it does between the nodes built again. -/
theorem Stage.wired (hs : Stage handles g done h) {l : Link}
    (hl : Wired (frame handles g.nodes).nodes (done ++ [l])) : Wired h.nodes (h.links ++ [l]) := by
  rw [hs.links]
  refine hl.onNodes fun n hn _ => ?_
  obtain ⟨m, hm, hc⟩ := Graph.core_node hs.core.symm hn
  obtain ⟨hid, _, hkind, hlimit, _⟩ := Node.core_eq_iff.mp hc
  exact ⟨m, hm, hid, hkind, hlimit⟩

theorem Stage.edgeIds (hs : Stage handles g done h) :
    h.edgeIds = ⟨Graph.maxEdges, done.length, []⟩ := by
  have := congrArg Graph.edgeIds hs.core
  exact this

/-- One more link, made without replacing any. -/
theorem Stage.concat (hs : Stage handles g done h) {l : Link} {h' : Graph} {id : EdgeId}
    (hc : h.connect l.source l.target (some l.slot) = .ok (id, h'))
    (he : h' = { h with
      edges := h.edges ++ [⟨done.length, l.source, some l.socket⟩],
      edgeIds := ⟨Graph.maxEdges, done.length + 1, []⟩ }) :
    Stage handles g (done ++ [l]) h' := by
  refine ⟨hs.wellFormed.connect hc, ?_⟩
  have hnodes := congrArg Graph.nodes hs.core
  have hnodeIds := congrArg Graph.nodeIds hs.core
  have hedges := Graph.core_edges hs.core
  subst he
  simp only [Graph.core, rebuilt, frame] at hnodes hnodeIds hedges ⊢
  rw [hnodes, hnodeIds, hedges, List.mapIdx_append]
  simp

def linkRecord (l : Link) : List Char := '?' :: edgeFields l.source l.target l.slot

theorem Stage.known (hs : Stage handles g done h) {id : NodeId} (hid : id ∈ h.ids) :
    id < g.nodes.length := by
  have hids : h.ids = List.range g.nodes.length :=
    (Graph.core_ids hs.core).trans (frame_ids handles g.nodes)
  exact List.mem_range.mp (hids ▸ hid)

/-- A line with a link connects its ends, and the graph is evaluated after it. -/
theorem addLine_linkRecord {known : Nat} (hknown : known ≤ Graph.maxNodes) {l : Link}
    (hsource : l.source < known) (htarget : l.target < known) (hslot : l.slot ≤ 4) (h : Graph)
    (number : Nat) :
    Loading.addLine handles ⟨h, List.range known, true⟩ (linkRecord l, number) = (do
      let made ← (h.connect l.source l.target (some l.slot)).mapError (.graph number)
      let g' ← SavedGraph.evaluated made.2
      return ⟨g', List.range known, true⟩) := by
  have hmax : Graph.maxNodes = 1024 := rfl
  have hread : readEdge (List.range known).length (edgeFields l.source l.target l.slot) =
      .ok ⟨l.source, l.target, some l.slot⟩ := by
    rw [List.length_range]
    exact readEdge_edgeFields hsource htarget (by omega) (by omega)
  have hat : ∀ p < known, (List.range known).getD p 0 = p := by
    intro p hp
    rw [List.getD_eq_getElem?_getD, List.getElem?_range hp, Option.getD_some]
  simp only [Loading.addLine, linkRecord, trim_edgeFields, ↓reduceIte, hread]
  change (do
    let made ← (h.connect ((List.range known).getD l.source 0)
      ((List.range known).getD l.target 0) (some l.slot)).mapError (LoadError.graph number)
    let g' ← SavedGraph.evaluated made.2
    return (⟨g', List.range known, true⟩ : Loading)) = _
  rw [hat _ hsource, hat _ htarget]

/-- The link is made when its shape fits, and refused otherwise. -/
theorem addLine_link (hs : Stage handles g done h) {l : Link}
    (hl : Wired (frame handles g.nodes).nodes (done ++ [l]))
    (hroom : done.length < Graph.maxEdges) (hsize : g.nodes.length ≤ Graph.maxNodes)
    (number : Nat) :
    match h.misfit? l with
    | some e =>
      Loading.addLine handles ⟨h, List.range g.nodes.length, true⟩ (linkRecord l, number) =
        .error (.graph number (.link e))
    | none => ∃ h', Stage handles g (done ++ [l]) h' ∧ h'.Evaluated ∧
      Loading.addLine handles ⟨h, List.range g.nodes.length, true⟩ (linkRecord l, number) =
        .ok ⟨h', List.range g.nodes.length, true⟩ := by
  have hfit := hs.wired hl
  obtain ⟨a, ha, haid, _⟩ := hfit.source l (by simp)
  obtain ⟨b, hb, hbid, hslot⟩ := hfit.target l (by simp)
  have hsource : l.source < g.nodes.length := hs.known (haid ▸ List.mem_map_of_mem ha)
  have htarget : l.target < g.nodes.length := hs.known (hbid ▸ List.mem_map_of_mem hb)
  have hlimit := (hs.wellFormed.formed b hb).limit_le
  have hconnect := Graph.connect_of_wired hs.wellFormed hfit hs.edgeIds hroom
  rw [addLine_linkRecord hsize hsource htarget (by omega)]
  cases hm : h.misfit? l with
  | some e =>
    simp only [hm] at hconnect
    rw [hconnect]
    rfl
  | none =>
    simp only [hm] at hconnect
    have hnext := hs.concat hconnect rfl
    obtain ⟨h', hr, hs', he'⟩ := hnext.evaluated
    refine ⟨h', hs', he', ?_⟩
    rw [hconnect]
    simp only [Except.mapError, bind, Except.bind, hr]
    rfl

/-- The first line with a link finds the graph evaluated. -/
theorem addLine_unlinked {g₁ : Graph} (he : SavedGraph.evaluated g = .ok g₁) (records : List NodeId)
    (l : Link) (number : Nat) :
    Loading.addLine handles ⟨g, records, false⟩ (linkRecord l, number) =
      Loading.addLine handles ⟨g₁, records, true⟩ (linkRecord l, number) := by
  simp only [Loading.addLine, linkRecord, trim_edgeFields, Bool.false_eq_true, ↓reduceIte, he]
  rfl

/-- A run of lines whose links all fit. -/
theorem foldlM_links (hs : Stage handles g [] h) (he : h.Evaluated)
    (hsize : g.nodes.length ≤ Graph.maxNodes) (number : Nat) (links : List Link)
    (hl : Wired (frame handles g.nodes).nodes links) (hroom : links.length ≤ Graph.maxEdges)
    (hfit : ∀ pre l post, links = pre ++ l :: post →
      ∀ h', Stage handles g pre h' → h'.Evaluated → h'.misfit? l = none) :
    ∃ h', Stage handles g links h' ∧ h'.Evaluated ∧
      ((links.map linkRecord).zipIdx number).foldlM (Loading.addLine handles)
        ⟨h, List.range g.nodes.length, true⟩ = .ok ⟨h', List.range g.nodes.length, true⟩ := by
  induction links using List.reverseRecOn with
  | nil => exact ⟨h, hs, he, rfl⟩
  | append_singleton links l ih =>
    rw [List.length_append, List.length_singleton] at hroom
    obtain ⟨h', hs', he', hrun⟩ := ih (hl.sublist (List.sublist_append_left _ _)) (by omega)
      fun pre l' post hsplit => hfit pre l' (post ++ [l]) (by rw [hsplit]; simp)
    have hnone := hfit links l [] rfl h' hs' he'
    have hlast := addLine_link hs' hl (by omega) hsize (number + links.length)
    simp only [hnone] at hlast
    obtain ⟨h₂, hs₂, he₂, hline⟩ := hlast
    refine ⟨h₂, hs₂, he₂, ?_⟩
    rw [List.map_append, List.zipIdx_append, List.foldlM_append, hrun]
    simp only [List.map_cons, List.map_nil, List.zipIdx_cons, List.zipIdx_nil, List.length_map,
      List.foldlM_cons, List.foldlM_nil]
    change (Loading.addLine _ _ _ >>= fun s => pure s) = _
    rw [hline]
    rfl

end SavedGraph

end ShaderGraph

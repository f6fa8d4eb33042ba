import ShaderGraph.Proofs.Effects
import ShaderGraph.Proofs.WellFormed

namespace ShaderGraph

open Relation

/-- A settled slot is within the limit, free, and the one asked for. -/
theorem resolveSlot_ok {id limit slot : Nat} {held : Slots NodeId} {request : Option Nat}
    (h : resolveSlot id limit held request = .ok slot) :
    held.count < limit ∧ slot < limit ∧ held.at? slot = none ∧
      ∀ r, request = some r → slot = r := by
  unfold resolveSlot at h
  split at h
  · cases h
  · rename_i hcount
    refine ⟨by omega, ?_⟩
    cases request with
    | some r =>
      simp only at h
      split at h
      · cases h
      · rename_i hlt
        split at h
        · cases h
        · rename_i hfree
          cases h
          exact ⟨by omega, hfree, by simp⟩
    | none =>
      simp only at h
      split at h
      · rename_i s hs
        cases h
        refine ⟨List.mem_range.mp (List.mem_of_find?_eq_some hs), ?_, by simp⟩
        simpa using List.find?_some hs
      · cases h

namespace Graph

/-- What a link check that passes has found, and all it looks at. -/
theorem checkLink_ok_iff {g : Graph} {source target : NodeId} {request : Option Nat} {slot : Nat} :
    g.checkLink source target request = .ok slot ↔
      ∃ a b, g.node? source = some a ∧ g.node? target = some b ∧ a.kind.isSink = false ∧
        source ≠ target ∧
        resolveSlot target b.limit ((g.inputsOf target).without source) request = .ok slot ∧
        dependsOn g.links source target = false ∧
        (Prospect.mk b.kind slot b.output.size (((g.inputsOf target).without source).apply
          fun id => (g.output? id).map Value.size)).refusal? a.output.size = none := by
  constructor
  · intro h
    unfold checkLink at h
    split at h
    · cases h
    · cases h
    · rename_i a b ha hb
      split at h
      · cases h
      rename_i hsink
      split at h
      · cases h
      rename_i hself
      dsimp only at h
      split at h
      · cases h
      rename_i s hs
      split at h
      · cases h
      rename_i hcycle
      split at h
      · cases h
      rename_i hfits
      cases h
      exact ⟨a, b, ha, hb, by simpa using hsink, hself, hs, by simpa using hcycle, hfits⟩
  · rintro ⟨a, b, ha, hb, hsink, hself, hs, hcycle, hfits⟩
    simp only [checkLink, ha, hb, hsink, hself, hs, hcycle, hfits, Bool.false_eq_true, ↓reduceIte]

theorem dropEdges_links_sublist (g : Graph) (doomed : Edge → Bool) :
    (g.dropEdges doomed).links.Sublist g.links :=
  List.filter_sublist.filterMap _

namespace WellFormed

variable {g : Graph}

/-- Nodes change in place and keep their id, their kind and their limit. -/
theorem mapNodes (h : g.WellFormed) (f : Node → Node)
    (hf : ∀ n ∈ g.nodes, (f n).id = n.id ∧ (f n).kind = n.kind ∧ (f n).limit = n.limit ∧
      (f n).Formed) : WellFormed { g with nodes := g.nodes.map f } := by
  have hids : ({ g with nodes := g.nodes.map f } : Graph).ids = g.ids := by
    rw [ids, List.map_map]
    exact List.map_congr_left fun n hn => (hf n hn).1
  have hsource : ∀ {id}, (∃ n ∈ g.nodes, n.id = id ∧ n.kind.isSink = false) →
      ∃ n ∈ g.nodes.map f, n.id = id ∧ n.kind.isSink = false := by
    rintro id ⟨n, hn, hid, hk⟩
    obtain ⟨hfid, hfk, _⟩ := hf n hn
    exact ⟨f n, List.mem_map_of_mem hn, hfid.trans hid, hfk ▸ hk⟩
  exact {
    id_once := hids ▸ h.id_once
    edge_once := h.edge_once
    sinks := by
      obtain ⟨v, s, rest, he, hvid, hvk, hsid, hsk, hrest⟩ := h.sinks
      obtain ⟨hv, hvk', _⟩ := hf v (by simp [he])
      obtain ⟨hs, hsk', _⟩ := hf s (by simp [he])
      refine ⟨f v, f s, rest.map f, by simp [he], hv.trans hvid, hvk'.trans hvk, hs.trans hsid,
        hsk'.trans hsk, ?_⟩
      intro m hm
      obtain ⟨n, hn, rfl⟩ := List.mem_map.mp hm
      rw [(hf n (by simp [he, hn])).2.1]
      exact hrest n hn
    formed := by
      intro m hm
      obtain ⟨n, hn, rfl⟩ := List.mem_map.mp hm
      exact (hf n hn).2.2.2
    source := fun e he => hsource (h.source e he)
    wired := h.wired.onNodes fun n hn _ =>
      ⟨f n, List.mem_map_of_mem hn, (hf n hn).1, (hf n hn).2.1, (hf n hn).2.2.1⟩
    nodePool := hids ▸ h.nodePool
    edgePool := h.edgePool }

theorem dropEdges (h : g.WellFormed) (doomed : Edge → Bool) : (g.dropEdges doomed).WellFormed where
  id_once := h.id_once
  edge_once := (List.filter_sublist.map _).nodup h.edge_once
  sinks := h.sinks
  formed := h.formed
  source e he := h.source e (List.mem_of_mem_filter he)
  wired := h.wired.sublist (dropEdges_links_sublist g doomed)
  nodePool := h.nodePool
  edgePool := by
    have hfold := h.edgePool.releaseAll ((g.edges.filter doomed).map Edge.id)
      ((g.dropEdges doomed).edges.map Edge.id) ?_
    · rwa [List.foldl_map] at hfold
    · intro id
      simp only [Graph.dropEdges, List.mem_map, List.mem_filter, Bool.not_eq_eq_eq_not,
        Bool.not_true]
      constructor
      · rintro ⟨e, ⟨he, hkeep⟩, rfl⟩
        refine ⟨⟨e, he, rfl⟩, ?_⟩
        rintro ⟨d, ⟨hd, hgone⟩, hid⟩
        have := List.inj_on_of_nodup_map h.edge_once hd he hid
        rw [this, hkeep] at hgone
        cases hgone
      · rintro ⟨⟨e, he, rfl⟩, hkeep⟩
        refine ⟨e, ⟨he, ?_⟩, rfl⟩
        by_contra hgone
        exact hkeep ⟨e, ⟨he, by simpa using hgone⟩, rfl⟩

theorem addNode (h : g.WellFormed) {n : Node} {pool : IdPool}
    (ha : g.nodeIds.allocate? = some (n.id, pool)) (hf : n.Formed) (hk : n.kind.isSink = false) :
    WellFormed { g with nodes := g.nodes ++ [n], nodeIds := pool } := by
  obtain ⟨hfresh, hpool⟩ := h.nodePool.allocate ha
  have hids : (g.nodes ++ [n]).map (·.id) = g.ids ++ [n.id] := by simp [ids]
  exact {
    id_once := by
      change ((g.nodes ++ [n]).map (·.id)).Nodup
      rw [hids, List.nodup_append]
      refine ⟨h.id_once, by simp, ?_⟩
      rintro id hid _ hn rfl
      rw [List.mem_singleton] at hn
      exact hfresh (hn ▸ hid)
    edge_once := h.edge_once
    sinks := by
      obtain ⟨v, s, rest, he, hvid, hvk, hsid, hsk, hrest⟩ := h.sinks
      refine ⟨v, s, rest ++ [n], by simp [he], hvid, hvk, hsid, hsk, ?_⟩
      intro m hm
      rcases List.mem_append.mp hm with hm | hm
      · exact hrest m hm
      · rw [List.mem_singleton] at hm
        exact hm ▸ hk
    formed := by
      intro m hm
      rcases List.mem_append.mp hm with hm | hm
      · exact h.formed m hm
      · rw [List.mem_singleton] at hm
        exact hm ▸ hf
    source := by
      intro e he
      obtain ⟨m, hm, hid⟩ := h.source e he
      exact ⟨m, List.mem_append_left _ hm, hid⟩
    wired := h.wired.onNodes fun m hm _ => ⟨m, List.mem_append_left _ hm, rfl, rfl, rfl⟩
    nodePool := by
      change pool.Holds maxNodes ((g.nodes ++ [n]).map (·.id))
      rw [hids]
      exact hpool
    edgePool := h.edgePool }

/-- A node that no edge touches may go, unless it is a stage output. -/
theorem dropNode (h : g.WellFormed) {id : NodeId}
    (hk : ∀ n ∈ g.nodes, n.id = id → n.kind.isSink = false)
    (hclear : ∀ e ∈ g.edges, e.touches id = false) :
    WellFormed { g with
      nodes := g.nodes.filter (·.id ≠ id), nodeIds := g.nodeIds.release id } := by
  have hids : (g.nodes.filter (·.id ≠ id)).map (·.id) = g.ids.filter (· ≠ id) := by
    rw [ids, List.filter_map]
    rfl
  have hkeep : ∀ e ∈ g.edges, e.source ≠ id ∧ ∀ p, e.target = some p → p.node ≠ id := by
    intro e he
    have := hclear e he
    simp only [Edge.touches, Bool.or_eq_false_iff, decide_eq_false_iff_not] at this
    refine ⟨this.1, fun p hp => ?_⟩
    simpa [hp] using this.2
  exact {
    id_once := by
      change ((g.nodes.filter (·.id ≠ id)).map (·.id)).Nodup
      exact (List.filter_sublist.map _).nodup h.id_once
    edge_once := h.edge_once
    sinks := by
      obtain ⟨v, s, rest, he, hvid, hvk, hsid, hsk, hrest⟩ := h.sinks
      have hv : v.id ≠ id := by
        intro hid
        have := hk v (by simp [he]) hid
        rw [hvk] at this
        cases this
      have hs : s.id ≠ id := by
        intro hid
        have := hk s (by simp [he]) hid
        rw [hsk] at this
        cases this
      refine ⟨v, s, rest.filter (·.id ≠ id), by simp [he, hv, hs], hvid, hvk, hsid, hsk, ?_⟩
      intro m hm
      exact hrest m (List.mem_of_mem_filter hm)
    formed := fun m hm => h.formed m (List.mem_of_mem_filter hm)
    source := by
      intro e he
      obtain ⟨m, hm, hid, hms⟩ := h.source e he
      refine ⟨m, List.mem_filter.mpr ⟨hm, ?_⟩, hid, hms⟩
      simpa [hid] using (hkeep e he).1
    wired := h.wired.onNodes fun n hn hl => by
      obtain ⟨l, hl, hend⟩ := hl
      obtain ⟨e, he, hs, ht⟩ := mem_links.mp hl
      refine ⟨n, List.mem_filter.mpr ⟨hn, ?_⟩, rfl, rfl, rfl⟩
      rcases hend with hend | hend
      · simpa [← hend, ← hs] using (hkeep e he).1
      · simpa [← hend, Link.socket] using (hkeep e he).2 _ ht
    nodePool := by
      change (g.nodeIds.release id).Holds maxNodes ((g.nodes.filter (·.id ≠ id)).map (·.id))
      rw [hids]
      exact h.nodePool.releaseAll [id] _ (by simp)
    edgePool := h.edgePool }

theorem addEdge (h : g.WellFormed) {e : Edge} {pool : IdPool}
    (ha : g.edgeIds.allocate? = some (e.id, pool))
    (hs : ∃ n ∈ g.nodes, n.id = e.source ∧ n.kind.isSink = false)
    (hw : Wired g.nodes (g.links ++ e.link?.toList)) :
    WellFormed { g with edges := g.edges ++ [e], edgeIds := pool } := by
  obtain ⟨hfresh, hpool⟩ := h.edgePool.allocate ha
  exact {
    id_once := h.id_once
    edge_once := by
      rw [List.map_append, List.nodup_append]
      refine ⟨h.edge_once, by simp, ?_⟩
      rintro id hid _ he rfl
      simp only [List.map_cons, List.map_nil, List.mem_singleton] at he
      exact hfresh (he ▸ hid)
    sinks := h.sinks
    formed := h.formed
    source := by
      intro d hd
      rcases List.mem_append.mp hd with hd | hd
      · exact h.source d hd
      · rw [List.mem_singleton] at hd
        exact hd ▸ hs
    wired := by
      have : (g.edges ++ [e]).filterMap Edge.link? = g.links ++ e.link?.toList := by
        rw [List.filterMap_append]
        cases he : e.link? <;> simp [he, links]
      change Wired g.nodes ((g.edges ++ [e]).filterMap Edge.link?)
      rw [this]
      exact hw
    nodePool := h.nodePool
    edgePool := by simpa using hpool }

/-- A link that passes the checks fits in with the links it does not replace. -/
theorem wire (h : g.WellFormed) {source target : NodeId} {request : Option Nat} {slot : Nat}
    (hc : g.checkLink source target request = .ok slot) :
    Wired g.nodes ((g.dropEdges (·.joins source target)).links ++ [⟨source, target, slot⟩]) := by
  obtain ⟨a, b, ha, hb, hsink, _, hslot, hcycle, _⟩ := checkLink_ok_iff.mp hc
  obtain ⟨_, hlt, hfree, _⟩ := resolveSlot_ok hslot
  obtain ⟨ham, haid⟩ := mem_of_node? ha
  obtain ⟨hbm, hbid⟩ := mem_of_node? hb
  have hsub := dropEdges_links_sublist g (·.joins source target)
  have hold := h.wired.sublist hsub
  have hother : ∀ l ∈ (g.dropEdges (·.joins source target)).links,
      l.source = source → l.target ≠ target := by
    intro l hl hs ht
    obtain ⟨e, he, hes, het⟩ := mem_links.mp hl
    have := (List.mem_filter.mp he).2
    simp [Edge.joins, hes, hs, het, Link.socket, ht] at this
  refine ⟨?_, ?_, ?_, ?_, ?_⟩
  · intro l hl
    rcases List.mem_append.mp hl with hl | hl
    · exact hold.source l hl
    · rw [List.mem_singleton] at hl
      exact ⟨a, ham, hl ▸ haid, hsink⟩
  · intro l hl
    rcases List.mem_append.mp hl with hl | hl
    · exact hold.target l hl
    · rw [List.mem_singleton] at hl
      exact ⟨b, hbm, hl ▸ hbid, hl ▸ hlt⟩
  · rw [List.map_append, List.nodup_append]
    refine ⟨hold.ends_once, by simp, ?_⟩
    intro x hx y hy he
    obtain ⟨l, hl, rfl⟩ := List.mem_map.mp hx
    simp only [List.map_cons, List.map_nil, List.mem_singleton] at hy
    rw [hy] at he
    exact hother l hl (congrArg Prod.fst he) (congrArg Prod.snd he)
  · rw [List.map_append, List.nodup_append]
    refine ⟨hold.socket_once, by simp, ?_⟩
    intro x hx y hy he
    obtain ⟨l, hl, rfl⟩ := List.mem_map.mp hx
    simp only [List.map_cons, List.map_nil, List.mem_singleton] at hy
    rw [hy] at he
    have ht : l.target = target := congrArg Socket.node he
    have hs : l.slot = slot := congrArg Socket.slot he
    -- a link of another source in this slot would have been seen by the check
    have hin := input_of_link h.wired.socket_once (hsub.subset hl)
      (h.wired.slot_lt h.formed l (hsub.subset hl))
    rw [ht, hs] at hin
    rw [Slots.at?_without, inputsOf, hin] at hfree
    have hne : l.source ≠ source := fun hsame => hother l hl hsame ht
    simp [hne] at hfree
  · refine hold.acyclic.add ⟨source, target, slot⟩ ?_ ?_
    · intro hchain
      have := (dependsOn_iff g.links source target).mpr
        (ReflTransGen.mono (Feeds.mono hsub.subset) _ _ hchain)
      rw [hcycle] at this
      cases this
    · intro l hl
      rcases List.mem_append.mp hl with hl | hl
      · exact .inl hl
      · exact .inr (List.mem_singleton.mp hl)

end WellFormed

end Graph

theorem Node.create_ok {id : NodeId} {handle : Handle} {kind : Kind} {init : Init} {n : Node}
    (h : Node.create id handle kind init = .ok n) : n.id = id ∧ n.kind = kind ∧ n.Formed := by
  cases init with
  | standard =>
    cases h
    refine ⟨rfl, rfl, ?_, ?_, .inl rfl, by simp [bare], by simp [bare]⟩
    · simp only [bare]
      cases kind <;> simp [Kind.isLiteral, Kind.family, Kind.code, Kind.defaultLiteral] <;> rfl
    · simp only [bare]
      cases kind <;> simp [Kind.isLiteral, Kind.family, Kind.code, Kind.defaultLiteral]
  | literal xs =>
    simp only [create] at h
    split at h
    · rename_i hx
      cases h
      refine ⟨rfl, rfl, fun _ => rfl, ?_, .inl rfl, by simp [bare], by simp [bare]⟩
      intro hk
      rw [show (bare id handle kind _ kind.inputLimit).kind = kind from rfl, hx.1] at hk
      cases hk
    · cases h
  | arity k =>
    simp only [create] at h
    split at h
    · rename_i hx
      cases h
      refine ⟨rfl, rfl, ?_, fun _ => rfl, .inr hx, by simp [bare], by simp [bare]⟩
      have hv := hx.1
      simp only [bare]
      intro hk
      cases kind <;> simp_all [Kind.isVariadic, Kind.isLiteral, Kind.family, Kind.code]
    · cases h

namespace Graph.WellFormed

variable {g g' : Graph}

theorem createNode (h : g.WellFormed) {kind : Kind} {init : Init} {handle : Handle} {id : NodeId}
    (hc : g.createNode kind init handle = .ok (id, g')) : g'.WellFormed := by
  obtain ⟨hsink, n, pool, ha, hn, rfl⟩ := createNode_ok_iff.mp hc
  obtain ⟨rfl, rfl, hf⟩ := Node.create_ok hn
  exact h.addNode ha hf hsink

theorem destroyNode (h : g.WellFormed) {id : NodeId} {n : Node}
    (hd : g.destroyNode id = .ok (n, g')) : g'.WellFormed := by
  obtain ⟨hn, hsink, rfl⟩ := destroyNode_ok_iff.mp hd
  refine (h.dropEdges (·.touches id)).dropNode ?_ ?_
  · intro m hm hid
    exact eq_of_node? h.id_once hn hm hid ▸ hsink
  · intro e he
    simpa using (List.mem_filter.mp he).2

theorem beginEdge (h : g.WellFormed) {source : NodeId} {id : EdgeId}
    (hb : g.beginEdge source = .ok (id, g')) : g'.WellFormed := by
  obtain ⟨n, pool, hn, hsink, ha, rfl⟩ := beginEdge_ok_iff.mp hb
  obtain ⟨hm, hid⟩ := mem_of_node? hn
  refine h.addEdge ha ⟨n, hm, hid, hsink⟩ ?_
  simpa [Edge.link?] using h.wired

theorem connect (h : g.WellFormed) {source target : NodeId} {request : Option Nat} {id : EdgeId}
    (hc : g.connect source target request = .ok (id, g')) : g'.WellFormed := by
  obtain ⟨slot, pool, hslot, ha, rfl⟩ := connect_ok_iff.mp hc
  have hw := h.wire hslot
  refine (h.dropEdges _).addEdge ha ?_ ?_
  · exact hw.source ⟨source, target, slot⟩ (by simp)
  · exact hw

theorem pendingEdge_ok {id : EdgeId} {e : Edge} (h : g.pendingEdge id = .ok e) :
    e ∈ g.edges ∧ e.id = id ∧ e.target = none := by
  obtain ⟨he, hp⟩ := pendingEdge_ok_iff.mp h
  obtain ⟨hm, hid⟩ := mem_of_edge? he
  exact ⟨hm, hid, hp⟩

/-- The links after a pending edge landed are the old ones and its own. -/
theorem links_land {edges : List Edge} (hu : (edges.map Edge.id).Nodup) {e : Edge} (he : e ∈ edges)
    (hp : e.target = none) (p : Socket) :
    ((edges.map fun d => if d.id = e.id then { d with target := some p } else d).filterMap
      Edge.link?).Perm (edges.filterMap Edge.link? ++ [⟨e.source, p.node, p.slot⟩]) := by
  obtain ⟨before, after, rfl⟩ := List.append_of_mem he
  simp only [List.map_append, List.map_cons, List.nodup_append, List.nodup_cons] at hu
  obtain ⟨-, ⟨hafter, -⟩, hbefore⟩ := hu
  have hkeep : ∀ ds : List Edge, e.id ∉ ds.map Edge.id →
      (ds.map fun d => if d.id = e.id then { d with target := some p } else d) = ds := by
    intro ds hds
    refine (List.map_congr_left fun d hd => ?_).trans (List.map_id ds)
    have : d.id ≠ e.id := fun hid => hds (hid ▸ List.mem_map_of_mem hd)
    simp [this]
  rw [List.map_append, List.map_cons, hkeep before fun hm => hbefore _ hm _ (by simp) rfl,
    hkeep after hafter]
  simp only [List.filterMap_append, List.filterMap_cons, Edge.link?, hp, Option.map_none,
    ↓reduceIte, Option.map_some, List.append_assoc]
  exact (List.perm_append_singleton _ _).symm.append_left _

theorem finishEdge (h : g.WellFormed) {id : EdgeId} {target : NodeId} {request : Option Nat}
    {slot : Nat} (hf : g.finishEdge id target request = .ok (slot, g')) : g'.WellFormed := by
  obtain ⟨e, he, hslot, rfl⟩ := finishEdge_ok_iff.mp hf
  obtain ⟨hm, rfl, hp⟩ := pendingEdge_ok he
  have hw : Wired (g.dropEdges (·.joins e.source target)).nodes _ := h.wire hslot
  have hd := h.dropEdges (·.joins e.source target)
  have hkept : e ∈ (g.dropEdges (·.joins e.source target)).edges :=
    List.mem_filter.mpr ⟨hm, by simp [Edge.joins, hp]⟩
  generalize g.dropEdges (·.joins e.source target) = g₁ at hw hd hkept ⊢
  have hids : (g₁.edges.map fun d =>
      if d.id = e.id then { d with target := some ⟨target, slot⟩ } else d).map Edge.id =
      g₁.edges.map Edge.id := by
    rw [List.map_map]
    refine List.map_congr_left fun d _ => ?_
    simp only [Function.comp_apply]
    split <;> rfl
  exact {
    id_once := hd.id_once
    edge_once := hids ▸ hd.edge_once
    sinks := hd.sinks
    formed := hd.formed
    source := by
      intro c hc
      obtain ⟨d, hd', rfl⟩ := List.mem_map.mp hc
      have := hd.source d hd'
      split <;> exact this
    wired := hw.perm (links_land hd.edge_once hkept hp ⟨target, slot⟩).symm
    nodePool := hd.nodePool
    edgePool := hids ▸ hd.edgePool }

theorem cancelEdge (h : g.WellFormed) {id : EdgeId} (hc : g.cancelEdge id = .ok g') :
    g'.WellFormed := by
  obtain ⟨_, rfl⟩ := cancelEdge_ok_iff.mp hc
  exact h.dropEdges _

theorem destroyEdge (h : g.WellFormed) {id : EdgeId} {e : Edge}
    (hd : g.destroyEdge id = .ok (e, g')) : g'.WellFormed := by
  obtain ⟨_, rfl⟩ := destroyEdge_ok_iff.mp hd
  exact h.dropEdges _

/-- A node is replaced by one with the same id, kind and limit. -/
theorem updateNode (h : g.WellFormed) {id : NodeId} {n : Node} (hn : g.node? id = some n)
    {f : Node → Node} (hid : (f n).id = n.id) (hk : (f n).kind = n.kind)
    (hl : (f n).limit = n.limit) (hf : (f n).Formed) : (g.updateNode id f).WellFormed := by
  refine h.mapNodes _ fun m hm => ?_
  split
  · rename_i he
    cases eq_of_node? h.id_once hn hm he
    exact ⟨hid, hk, hl, hf⟩
  · exact ⟨rfl, rfl, rfl, h.formed m hm⟩

theorem setParameter (h : g.WellFormed) {id : NodeId} {parameter : Parameter} {has : Kind → Bool}
    {f : Node → Except GraphError Node}
    (hf : ∀ n m, n.Formed → has n.kind = true → f n = .ok m →
      m.id = n.id ∧ m.kind = n.kind ∧ m.limit = n.limit ∧ m.Formed)
    (hs : g.setParameter id parameter has f = .ok g') : g'.WellFormed := by
  obtain ⟨n, m, hn, hhas, hm, rfl⟩ := setParameter_ok_iff.mp hs
  obtain ⟨hid, hk, hl, hformed⟩ := hf n m (h.formed n (mem_of_node? hn).1) hhas hm
  exact h.updateNode hn hid hk hl hformed

theorem setLiteral (h : g.WellFormed) {id : NodeId} {xs : List Scalar}
    (hs : g.setLiteral id xs = .ok g') : g'.WellFormed := by
  refine h.setParameter (fun n m hn hlit hm => ?_) hs
  split at hm
  · cases hm
    refine ⟨rfl, rfl, rfl, fun _ => rfl, fun hk => ?_, hn.limit, hn.property, hn.alphaClip⟩
    rw [hlit] at hk
    cases hk
  · cases hm

theorem setProperty (h : g.WellFormed) {id : NodeId} {property : Bool}
    (hs : g.setProperty id property = .ok g') : g'.WellFormed := by
  refine h.setParameter (fun n m hn hlit hm => ?_) hs
  cases hm
  exact ⟨rfl, rfl, rfl, hn.literal_shape, hn.literal_empty, hn.limit, fun _ => hlit, hn.alphaClip⟩

theorem setAlphaClip (h : g.WellFormed) {id : NodeId} {threshold : Option Scalar}
    (hs : g.setAlphaClip id threshold = .ok g') : g'.WellFormed := by
  refine h.setParameter (fun n m hn hk hm => ?_) hs
  cases hm
  exact ⟨rfl, rfl, rfl, hn.literal_shape, hn.literal_empty, hn.limit, hn.property,
    fun _ => by simpa using hk⟩

theorem setPosition (h : g.WellFormed) {id : NodeId} {position : Scalar × Scalar}
    (hs : g.setPosition id position = .ok g') : g'.WellFormed := by
  obtain ⟨⟨n, hn⟩, rfl⟩ := setPosition_ok_iff.mp hs
  have hf := h.formed n (mem_of_node? hn).1
  exact h.updateNode hn rfl rfl rfl
    ⟨hf.literal_shape, hf.literal_empty, hf.limit, hf.property, hf.alphaClip⟩

theorem recompute (h : g.WellFormed) {order : Order} {report : Report}
    (hr : g.recompute order = .ok (g', report)) : g'.WellFormed := by
  unfold Graph.recompute at hr
  split at hr
  · cases hr
  cases hr
  refine h.mapNodes _ fun n hn => ⟨rfl, rfl, rfl, ?_⟩
  have hf := h.formed n hn
  exact ⟨hf.literal_shape, hf.literal_empty, hf.limit, hf.property, hf.alphaClip⟩

end Graph.WellFormed

/-- No command that is carried out breaks a well-formed graph. -/
theorem Graph.WellFormed.apply {g g' : Graph} (h : g.WellFormed) {c : Command} {handle : Handle}
    {outcome : Outcome} (ha : g.apply c handle = .ok (outcome, g')) : g'.WellFormed := by
  cases c <;> obtain ⟨r, hr, he⟩ := except_map_eq_ok.mp ha <;> cases he
  case createNode => exact h.createNode hr
  case destroyNode => exact h.destroyNode hr
  case beginLink => exact h.beginEdge hr
  case finishLink => exact h.finishEdge hr
  case cancelLink => exact h.cancelEdge hr
  case destroyLink => exact h.destroyEdge hr
  case connect => exact h.connect hr
  case setLiteral => exact h.setLiteral hr
  case setProperty => exact h.setProperty hr
  case setAlphaClip => exact h.setAlphaClip hr
  case setPosition => exact h.setPosition hr

end ShaderGraph

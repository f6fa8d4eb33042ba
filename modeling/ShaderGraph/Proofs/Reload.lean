import ShaderGraph.Proofs.Replay

namespace ShaderGraph

namespace Graph

def operandsBelow (g : Graph) (id : NodeId) (slot : Nat) : Slots Value :=
  Vector.ofFn fun i => if i.val < slot then ((g.inputsOf id).at? i).bind g.output? else none

/-- What the shape rules have against a link that comes after those into lower slots. -/
def reloadMisfit? (g : Graph) (l : Link) : Option LinkError :=
  match g.node? l.source, g.node? l.target with
  | some a, some b =>
    let below := g.operandsBelow l.target l.slot
    shapeError? ⟨b.kind, l.slot, (evaluate b.kind b.literal below).size,
      below.apply fun v => some v.size⟩ a.output.size
  | _, _ => none

theorem at?_operandsBelow (g : Graph) (id : NodeId) (slot i : Nat) :
    (g.operandsBelow id slot).at? i =
      if i < slot then ((g.inputsOf id).at? i).bind g.output? else none := by
  by_cases hi : i < 4
  · rw [Slots.at?_of_lt hi]
    simp [operandsBelow]
  · rw [Slots.at?_eq_none (by omega), Slots.at?_eq_none (by omega)]
    simp

end Graph

namespace SavedGraph

variable {g : Graph}

def rank (g : Graph) (id : NodeId) : Nat :=
  (match g.topologicalOrder with
    | .ok order => order
    | .error _ => []).idxOf id

theorem rank_lt (hw : g.WellFormed) {l : Link} (hl : l ∈ g.links) :
    rank g l.source < rank g l.target := by
  obtain ⟨order, ho, hsorted⟩ := Graph.topologicalOrder_ok hw
  simp only [rank, ho]
  exact hsorted.before l hl

theorem rank_inj (hw : g.WellFormed) {x y : NodeId} (hx : x ∈ g.ids) (h : rank g x = rank g y) :
    x = y := by
  obtain ⟨order, ho, hsorted⟩ := Graph.topologicalOrder_ok hw
  simp only [rank, ho] at h
  exact (List.idxOf_inj ((hsorted.mem_iff x).mpr hx)).mp h

def Precedes (g : Graph) (k l : Link) : Prop :=
  rank g k.target < rank g l.target ∨ rank g k.target = rank g l.target ∧ k.slot ≤ l.slot

theorem replayOrder_perm (g : Graph) : (replayOrder g).Perm g.links := List.mergeSort_perm _ _

theorem replayOrder_sorted (g : Graph) : (replayOrder g).Pairwise (Precedes g) := by
  unfold replayOrder
  refine (List.pairwise_mergeSort (fun a b c hab hbc => ?_) (fun a b => ?_) g.links).imp
    fun {a b} h => ?_
  · simp only [Bool.or_eq_true, Bool.and_eq_true, decide_eq_true_eq] at hab hbc ⊢
    omega
  · simp only [Bool.or_eq_true, Bool.and_eq_true, decide_eq_true_eq]
    omega
  · simp only [Bool.or_eq_true, Bool.and_eq_true, decide_eq_true_eq] at h
    exact h

section Split

variable {pre post : List Link} {l : Link}

/-- Two links that precede each other go into one slot of one node. -/
theorem precedes_antisymm (hw : g.WellFormed) {k : Link} (hk : k ∈ g.links) (hl : l ∈ g.links)
    (hkl : Precedes g k l) (hlk : Precedes g l k) : k = l := by
  unfold Precedes at hkl hlk
  have ht : k.target = l.target := rank_inj hw (hw.target_mem hk) (by omega)
  have hs : k.slot = l.slot := by omega
  exact List.inj_on_of_nodup_map hw.wired.socket_once hk hl (by simp [Link.socket, ht, hs])

theorem mem_before (hw : g.WellFormed) (hsplit : replayOrder g = pre ++ l :: post) {k : Link} :
    k ∈ pre ↔ k ∈ g.links ∧ Precedes g k l ∧ k ≠ l := by
  have hmem : ∀ k, k ∈ g.links ↔ k ∈ pre ++ l :: post := fun k =>
    hsplit ▸ (replayOrder_perm g).mem_iff.symm
  have hsorted := replayOrder_sorted g
  have honce := (replayOrder_perm g).nodup_iff.mpr (List.Nodup.of_map _ hw.wired.socket_once)
  rw [hsplit] at hsorted honce
  obtain ⟨_, hpost, hpre⟩ := List.pairwise_append.mp hsorted
  obtain ⟨_, _, hapart⟩ := List.nodup_append.mp honce
  constructor
  · intro hk
    exact ⟨(hmem k).mpr (by simp [hk]), hpre k hk l (by simp), hapart k hk l (by simp)⟩
  · rintro ⟨hk, hkl, hne⟩
    rcases List.mem_append.mp ((hmem k).mp hk) with hk' | hk'
    · exact hk'
    · have hafter : k ∈ post := (List.mem_cons.mp hk').resolve_left hne
      have hlk := (List.pairwise_cons.mp hpost).1 k hafter
      exact absurd (precedes_antisymm hw hk ((hmem l).mpr (by simp)) hkl hlk) hne

variable {handles : Nat → Handle} {h : Graph}

/-- The producers linked so far, at their places. -/
theorem Stage.at?_inputsOf (hs : Stage handles g (pre.map (moved g)) h) (hw : g.WellFormed)
    (hpre : pre ⊆ g.links) {id : NodeId} (hid : id ∈ g.ids) (i : Nat) :
    (h.inputsOf (place g id)).at? i =
      ((g.inputsOf id).at? i).bind fun x =>
        if ⟨x, id, i⟩ ∈ pre then some (place g x) else none := by
  apply Option.ext
  intro x
  rw [Graph.input_iff hs.wellFormed, hs.links, Option.bind_eq_some_iff]
  constructor
  · intro hx
    obtain ⟨k, hk, he⟩ := List.mem_map.mp hx
    have ht : k.target = id := place_inj (hw.target_mem (hpre hk)) (congrArg Link.target he)
    have hslot : k.slot = i := congrArg Link.slot he
    have hsource : place g k.source = x := congrArg Link.source he
    subst ht hslot hsource
    exact ⟨k.source, (Graph.input_iff hw).mpr (hpre hk), by simp [hk]⟩
  · rintro ⟨y, _, hx⟩
    by_cases hy : (⟨y, id, i⟩ : Link) ∈ pre
    · rw [if_pos hy, Option.some_inj] at hx
      subst hx
      exact List.mem_map_of_mem (f := moved g) hy
    · rw [if_neg hy] at hx
      cases hx

/-- The node loaded for another is found at its place. -/
theorem Stage.node {done : List Link} (hs : Stage handles g done h) (hw : g.WellFormed) {n : Node}
    (hn : n ∈ g.nodes) :
    ∃ m, h.node? (place g n.id) = some m ∧ m.kind = n.kind ∧ m.literal = n.literal := by
  obtain ⟨m, hm, hc⟩ := Graph.core_node hs.core.symm (mem_rebuilt handles hw.id_once hn done)
  obtain ⟨hid, _, hkind, _, hliteral, _⟩ := Node.core_eq_iff.mp hc
  have hfound := Graph.node?_of_mem hs.wellFormed.id_once hm
  rw [hid] at hfound
  exact ⟨m, hfound, hkind, hliteral⟩

/-- Nodes that the links have passed have their values again. -/
theorem Stage.output?_eq (hs : Stage handles g (pre.map (moved g)) h) (he : h.Evaluated)
    (hw : g.WellFormed) (hg : g.Evaluated) (hsplit : replayOrder g = pre ++ l :: post) {n : Node}
    (hn : n ∈ g.nodes) (hrank : rank g n.id < rank g l.target) :
    h.output? (place g n.id) = some n.output := by
  have hpre : pre ⊆ g.links := fun k hk => ((mem_before hw hsplit).mp hk).1
  refine hg.output_eq hw he hs.wellFormed.id_once (place g)
    (P := fun x => rank g x < rank g l.target) ?_ ?_ ?_ hn hrank
  · intro k hk hlt
    exact (rank_lt hw hk).trans hlt
  · intro m hm _
    obtain ⟨m', hfound, hkind, hliteral⟩ := hs.node hw hm
    obtain ⟨hm', hid⟩ := Graph.mem_of_node? hfound
    exact ⟨m', hm', hid, hkind, hliteral⟩
  · intro m hm hlt
    apply Slots.ext_at?
    intro i
    rw [hs.at?_inputsOf hw hpre (Graph.mem_ids.mpr ⟨m, hm, rfl⟩), Slots.at?_apply]
    cases hi : (g.inputsOf m.id).at? i with
    | none => rfl
    | some x =>
      have hlink := (Graph.input_iff hw).mp hi
      have hbefore : (⟨x, m.id, i⟩ : Link) ∈ pre := by
        refine (mem_before hw hsplit).mpr ⟨hlink, .inl hlt, fun hc => ?_⟩
        rw [← hc] at hlt
        exact absurd hlt (Nat.lt_irrefl _)
      simp [hbefore]

theorem mem_of_split (hsplit : replayOrder g = pre ++ l :: post) : l ∈ g.links :=
  (replayOrder_perm g).mem_iff.mp (by simp [hsplit])

/-- The operands linked before are those in lower slots. -/
theorem Stage.operands_eq (hs : Stage handles g (pre.map (moved g)) h) (he : h.Evaluated)
    (hw : g.WellFormed) (hg : g.Evaluated) (hsplit : replayOrder g = pre ++ l :: post) :
    (h.inputsOf (place g l.target)).apply h.output? = g.operandsBelow l.target l.slot := by
  have hpre : pre ⊆ g.links := fun k hk => ((mem_before hw hsplit).mp hk).1
  have hl := mem_of_split hsplit
  apply Slots.ext_at?
  intro i
  rw [Slots.at?_apply, hs.at?_inputsOf hw hpre (hw.target_mem hl), Graph.at?_operandsBelow]
  cases hi : (g.inputsOf l.target).at? i with
  | none => simp
  | some x =>
    have hlink := (Graph.input_iff hw).mp hi
    have hbefore : (⟨x, l.target, i⟩ : Link) ∈ pre ↔ i < l.slot := by
      rw [mem_before hw hsplit]
      constructor
      · rintro ⟨_, hprec, hne⟩
        rcases hprec with hlt | ⟨_, hle⟩
        · exact absurd hlt (Nat.lt_irrefl _)
        · refine Nat.lt_of_le_of_ne hle fun hi' => hne ?_
          exact List.inj_on_of_nodup_map hw.wired.socket_once hlink hl
            (by simpa [Link.socket] using hi')
      · intro hlt
        refine ⟨hlink, .inr ⟨rfl, Nat.le_of_lt hlt⟩, fun hc => ?_⟩
        have : i = l.slot := congrArg Link.slot hc
        omega
    by_cases hlt : i < l.slot
    · obtain ⟨p, hp, hid⟩ := hw.producer hi
      have hvalue := hs.output?_eq he hw hg hsplit hp (hid ▸ rank_lt hw hlink)
      simp only [hbefore, hlt, ↓reduceIte, Option.bind_some]
      rw [← hid, hvalue, Graph.output?_of_mem hw.id_once hp]
    · simp only [hbefore, hlt, ↓reduceIte, Option.bind_some, Option.bind_none]

/-- The source of a link is not linked to its target before. -/
theorem Stage.without_source (hs : Stage handles g (pre.map (moved g)) h) (hw : g.WellFormed)
    (hsplit : replayOrder g = pre ++ l :: post) :
    (h.inputsOf (place g l.target)).without (place g l.source) =
      h.inputsOf (place g l.target) := by
  have hpre : pre ⊆ g.links := fun k hk => ((mem_before hw hsplit).mp hk).1
  have hl := mem_of_split hsplit
  apply Slots.ext_at?
  intro i
  rw [Slots.at?_without, hs.at?_inputsOf hw hpre (hw.target_mem hl)]
  cases hi : (g.inputsOf l.target).at? i with
  | none => rfl
  | some x =>
    by_cases hbefore : (⟨x, l.target, i⟩ : Link) ∈ pre
    · obtain ⟨hlink, _, hne⟩ := (mem_before hw hsplit).mp hbefore
      have hother : place g x ≠ place g l.source := by
        intro hsame
        have hx : x = l.source := place_inj (hw.source_mem hlink) hsame
        refine hne (List.inj_on_of_nodup_map hw.wired.ends_once hlink hl ?_)
        simp [Link.ends, hx]
      simp [hbefore, hother]
    · simp [hbefore]

/-- A link finds on loading just what the saved graph says it will. -/
theorem Stage.misfit?_eq (hs : Stage handles g (pre.map (moved g)) h) (he : h.Evaluated)
    (hw : g.WellFormed) (hg : g.Evaluated) (hsplit : replayOrder g = pre ++ l :: post) :
    h.misfit? (moved g l) = g.reloadMisfit? l := by
  have hl := mem_of_split hsplit
  obtain ⟨a, ha, haid, _⟩ := hw.wired.source l hl
  obtain ⟨b, hb, hbid, _⟩ := hw.wired.target l hl
  obtain ⟨a', hsource, _⟩ := hs.node hw ha
  obtain ⟨b', htarget, hkind, hliteral⟩ := hs.node hw hb
  rw [haid] at hsource
  rw [hbid] at htarget
  obtain ⟨hb', hbid'⟩ := Graph.mem_of_node? htarget
  have houtput : a'.output = a.output := by
    have := hs.output?_eq he hw hg hsplit ha (by rw [haid]; exact rank_lt hw hl)
    rw [haid, Graph.output?, hsource] at this
    exact Option.some.inj this
  have hbelow := hs.operands_eq he hw hg hsplit
  have hvalue : b'.output = evaluate b.kind b.literal (g.operandsBelow l.target l.slot) := by
    rw [he.output b' hb', Graph.valueIn, hkind, hliteral, hbid', hbelow]
  have hsizes : ((h.inputsOf (place g l.target)).without (place g l.source)).apply
      (fun id => (h.output? id).map Value.size) =
      (g.operandsBelow l.target l.slot).apply fun v => some v.size := by
    rw [hs.without_source hw hsplit, ← hbelow]
    apply Slots.ext_at?
    intro i
    simp only [Slots.at?_apply, Option.bind_assoc, Option.map_eq_bind]
    rfl
  have hownSource : g.node? l.source = some a := haid ▸ Graph.node?_of_mem hw.id_once ha
  have hownTarget : g.node? l.target = some b := hbid ▸ Graph.node?_of_mem hw.id_once hb
  simp only [Graph.misfit?, Graph.reloadMisfit?, moved, hsource, htarget, hownSource, hownTarget,
    houtput, hvalue, hsizes, hkind]

end Split

theorem nodes_room (hw : g.WellFormed) : g.nodes.length ≤ Graph.maxNodes :=
  length_ids ▸ hw.nodePool.length_le hw.id_once

theorem linkLine_moved (hw : g.WellFormed) {l : Link} (hl : l ∈ g.links) :
    (linkLine g l).toList = linkRecord (moved g l) ++ ['\n'] :=
  linkLine_toList (position?_eq (hw.source_mem hl)) (position?_eq (hw.target_mem hl))

/-- The links of a saved graph between their places, as the file has them. -/
def linksInFile (g : Graph) : List Link := (replayOrder g).map (moved g)

theorem save_toList (hw : g.WellFormed) :
    (save g).toList = (g.nodes.map (nodeRecord g) ++ (linksInFile g).map linkRecord).flatMap
      (· ++ ['\n']) := by
  have hlinks : ∀ l ∈ replayOrder g,
      (linkLine g l).toList = linkRecord (moved g l) ++ ['\n'] := fun l hl =>
    linkLine_moved hw ((replayOrder_perm g).mem_iff.mp hl)
  simp only [save, linksInFile, String.toList_append, String.toList_join, List.flatMap_map,
    List.flatMap_append, List.map_map, nodeLine_toList]
  congr 1
  exact List.flatMap_congr hlinks

theorem newline_notMem_nodeRecord (g : Graph) (n : Node) : '\n' ∉ nodeRecord g n := by
  intro hm
  obtain ⟨field, hfield, hc⟩ := List.mem_flatMap.mp hm
  rcases List.mem_append.mp hc with hc | hc
  · exact not_mem_of_solid (fieldsOf_solid g n field hfield) (by decide) hc
  · exact absurd (List.mem_singleton.mp hc) (by decide)

theorem newline_notMem_linkRecord (l : Link) : '\n' ∉ linkRecord l := by
  intro hm
  have := edgeFields_not_blank l.source l.target l.slot _ hm
  exact absurd this (by decide)

theorem lines_save (hw : g.WellFormed) :
    Text.splitOn '\n' (save g).toList =
      g.nodes.map (nodeRecord g) ++ (linksInFile g).map linkRecord ++ [[]] := by
  rw [save_toList hw, ← List.append_nil (List.flatMap _ _)]
  refine Text.splitOn_joined _ (fun p hp => ?_) (by simp)
  simp only [List.mem_append, List.mem_map] at hp
  rcases hp with ⟨n, _, rfl⟩ | ⟨l, _, rfl⟩
  · exact newline_notMem_nodeRecord g n
  · exact newline_notMem_linkRecord l

/-- Links stay in sight. -/
theorem addLine_linking {handles : Nat → Handle} {l l' : Loading} {line : List Char × Nat}
    (h : l.addLine handles line = .ok l') (hl : l.linking = true) : l'.linking = true := by
  cases adds_of_addLine h with
  | blank => exact hl
  | link => rfl
  | node => exact hl

def finish (l : Loading) : Except LoadError Graph :=
  if l.linking then pure l.graph else evaluated l.graph

/-- It makes no difference whether the graph is evaluated before the links or with the first. -/
theorem foldlM_unlinked {handles : Nat → Handle} {h : Graph} (he : evaluated g = .ok h)
    (records : List NodeId) (links : List Link) (number : Nat) :
    (((links.map linkRecord).zipIdx number).foldlM (Loading.addLine handles) ⟨g, records, false⟩ >>=
      finish) =
    (((links.map linkRecord).zipIdx number).foldlM (Loading.addLine handles)
      ⟨h, records, true⟩).map Loading.graph := by
  cases links with
  | nil => exact he
  | cons l links =>
    simp only [List.map_cons, List.zipIdx_cons, List.foldlM_cons, addLine_unlinked he]
    rw [← List.foldlM_cons]
    cases hrun : List.foldlM (Loading.addLine handles) ⟨h, records, true⟩
      ((linkRecord l, number) :: (links.map linkRecord).zipIdx (number + 1)) with
    | error e => rfl
    | ok last =>
      have hlinking : last.linking = true :=
        foldlM_keeps (P := fun l => l.linking = true) (fun _ _ _ hs hl => addLine_linking hl hs) rfl
          hrun
      change finish last = .ok last.graph
      rw [finish, hlinking]
      rfl

def loadLines (handles : Nat → Handle) (lines : List (List Char)) : Except LoadError Loading :=
  (lines.zipIdx 1).foldlM (Loading.addLine handles) ⟨Graph.new (handles 0) (handles 1), [], false⟩

theorem load_eq_loadLines (handles : Nat → Handle) (text : String) :
    load handles text = loadLines handles (Text.splitOn '\n' text.toList) >>= finish := rfl

/-- Loading is building the nodes, then making the links. -/
theorem load_eq (hw : g.WellFormed) (handles : Nat → Handle) {h : Graph}
    (he : evaluated (frame handles g.nodes) = .ok h) :
    load handles (save g) =
      ((((linksInFile g).map linkRecord).zipIdx (g.nodes.length + 1)).foldlM
        (Loading.addLine handles) ⟨h, List.range g.nodes.length, true⟩).map Loading.graph := by
  rw [load_eq_loadLines, lines_save hw, ← foldlM_unlinked he]
  simp only [loadLines, List.zipIdx_append, List.foldlM_append,
    foldlM_nodes hw handles (nodes_room hw), List.length_map, Nat.add_comm 1]
  change ((((linksInFile g).map linkRecord).zipIdx (g.nodes.length + 1)).foldlM
    (Loading.addLine handles) ⟨frame handles g.nodes, List.range g.nodes.length, false⟩ >>= _) >>=
    finish = _
  -- the text ends with a line break, and the empty line after it changes nothing
  cases List.foldlM (Loading.addLine handles) _ _ <;> rfl

theorem linksInFile_wired (hw : g.WellFormed) (handles : Nat → Handle) :
    Wired (frame handles g.nodes).nodes (linksInFile g) :=
  (wired_moved hw handles).perm ((replayOrder_perm g).map _).symm

theorem linksInFile_room (hw : g.WellFormed) : (linksInFile g).length ≤ Graph.maxEdges := by
  have hlength : (linksInFile g).length = g.links.length := by
    rw [linksInFile, List.length_map, (replayOrder_perm g).length_eq]
  have hedges := hw.edgePool.length_le hw.edge_once
  have hlinks : g.links.length ≤ g.edges.length := List.length_filterMap_le _ _
  rw [List.length_map] at hedges
  omega

theorem taken_sublist {pre post : List Link} (hsplit : replayOrder g = pre ++ post) :
    (pre.map (moved g)).Sublist (linksInFile g) := by
  rw [linksInFile, hsplit, List.map_append]
  exact List.sublist_append_left _ _

theorem stage_frame (hw : g.WellFormed) (handles : Nat → Handle) :
    Stage handles g [] (frame handles g.nodes) := by
  refine ⟨?_, rfl⟩
  exact foldlM_keeps (P := fun l => l.graph.WellFormed)
    (fun _ _ _ hs => addLine_keeps Graph.stable_wellFormed hs)
    (Graph.wellFormed_new _ _) (foldlM_nodes hw handles (nodes_room hw))

/-- The lines up to a link, when none of them is refused. -/
theorem foldlM_fitting (hw : g.WellFormed) (hg : g.Evaluated) {handles : Nat → Handle} {h : Graph}
    (hs : Stage handles g [] h) (he : h.Evaluated) {pre post : List Link}
    (hsplit : replayOrder g = pre ++ post) (hfit : ∀ l ∈ pre, g.reloadMisfit? l = none)
    (number : Nat) :
    ∃ h', Stage handles g (pre.map (moved g)) h' ∧ h'.Evaluated ∧
      (((pre.map (moved g)).map linkRecord).zipIdx number).foldlM (Loading.addLine handles)
        ⟨h, List.range g.nodes.length, true⟩ = .ok ⟨h', List.range g.nodes.length, true⟩ := by
  have hsub := taken_sublist hsplit
  have hroom := hsub.length_le.trans (linksInFile_room hw)
  refine foldlM_links hs he (nodes_room hw) number _
    ((linksInFile_wired hw handles).sublist hsub) hroom fun before l after hpre h' hs' he' => ?_
  obtain ⟨before', rest, rfl, rfl, hrest⟩ := List.map_eq_append_iff.mp hpre
  obtain ⟨l', after', rfl, rfl, _⟩ := List.map_eq_cons_iff.mp hrest
  have hlater : replayOrder g = before' ++ l' :: (after' ++ post) := by
    rw [hsplit]
    simp
  rw [hs'.misfit?_eq he' hw hg hlater]
  exact hfit l' (by simp)

/-- A graph none of whose links is refused comes back. -/
theorem load_fitting (hw : g.WellFormed) (hg : g.Evaluated) (handles : Nat → Handle)
    (hfit : ∀ l ∈ g.links, g.reloadMisfit? l = none) :
    ∃ h, load handles (save g) = .ok h ∧ Stage handles g (linksInFile g) h ∧ h.Evaluated := by
  obtain ⟨h₀, hr, hs, he⟩ := (stage_frame hw handles).evaluated
  obtain ⟨h, hs', he', hrun⟩ := foldlM_fitting hw hg hs he (List.append_nil (replayOrder g)).symm
    (fun l hl => hfit l ((replayOrder_perm g).mem_iff.mp hl)) (g.nodes.length + 1)
  refine ⟨h, ?_, hs', he'⟩
  rw [load_eq hw handles hr, linksInFile, hrun]
  rfl

/-- The first link that is refused ends the loading at its line. -/
theorem load_misfit (hw : g.WellFormed) (hg : g.Evaluated) (handles : Nat → Handle)
    {pre post : List Link} {l : Link} {e : LinkError} (hsplit : replayOrder g = pre ++ l :: post)
    (hfit : ∀ k ∈ pre, g.reloadMisfit? k = none) (hl : g.reloadMisfit? l = some e) :
    load handles (save g) = .error (.graph (g.nodes.length + 1 + pre.length) (.link e)) := by
  obtain ⟨h₀, hr, hs, he⟩ := (stage_frame hw handles).evaluated
  obtain ⟨h, hs', he', hrun⟩ := foldlM_fitting hw hg hs he hsplit hfit (g.nodes.length + 1)
  have hroom := linksInFile_room hw
  have hwired := linksInFile_wired hw handles
  simp only [linksInFile, hsplit, List.map_append, List.map_cons, List.length_append,
    List.length_map, List.length_cons] at hroom hwired
  have hline := addLine_link hs' (l := moved g l)
    (hwired.sublist (List.Sublist.append_left (List.sublist_append_left [_] _) _))
    (by rw [List.length_map]; omega) (nodes_room hw)
    (g.nodes.length + 1 + pre.length)
  simp only [hs'.misfit?_eq he' hw hg hsplit, hl] at hline
  rw [load_eq hw handles hr, linksInFile, hsplit]
  simp only [List.map_append, List.zipIdx_append, List.foldlM_append, hrun, List.map_cons,
    List.zipIdx_cons, List.foldlM_cons, List.length_map]
  change Except.map _ (Loading.addLine _ _ _ >>= _) = _
  rw [hline]
  rfl

theorem load_refused (hw : g.WellFormed) (hg : g.Evaluated) (handles : Nat → Handle) {l : Link}
    (hl : l ∈ g.links) (hm : g.reloadMisfit? l ≠ none) :
    ∃ line e, load handles (save g) = .error (.graph line (.link e)) := by
  have hsome : ((replayOrder g).findSome? g.reloadMisfit?).isSome := by
    rw [List.findSome?_isSome_iff]
    exact ⟨l, (replayOrder_perm g).mem_iff.mpr hl, Option.isSome_iff_ne_none.mpr hm⟩
  obtain ⟨e, hfind⟩ := Option.isSome_iff_exists.mp hsome
  obtain ⟨pre, k, post, hsplit, hk, hpre⟩ := List.findSome?_eq_some_iff.mp hfind
  exact ⟨_, e, load_misfit hw hg handles hsplit hpre hk⟩

/-- Only a graph none of whose links is refused comes back. -/
theorem fitting_of_load (hw : g.WellFormed) (hg : g.Evaluated) {handles : Nat → Handle} {h : Graph}
    (hload : load handles (save g) = .ok h) : ∀ l ∈ g.links, g.reloadMisfit? l = none := by
  intro l hl
  by_contra hm
  obtain ⟨_, _, he⟩ := load_refused hw hg handles hl hm
  rw [hload] at he
  cases he

theorem place_core {e : Graph} (hcore : e.core = g.core) : place e = place g := by
  funext id
  rw [place, Graph.core_ids hcore, place]

theorem linksInFile_core {e : Graph} (hcore : e.core = g.core) : linksInFile e = linksInFile g := by
  have hids := Graph.core_ids hcore
  have hlinks := Graph.core_links hcore
  have hmoved : moved e = moved g := by
    funext l
    simp only [moved, place_core hcore]
  have horder : e.topologicalOrder = g.topologicalOrder := by
    simp only [Graph.topologicalOrder, hlinks, hids, Graph.core_length hcore]
  rw [linksInFile, linksInFile, hmoved, replayOrder, replayOrder, horder, hlinks]

theorem frame_core {e : Graph} (hcore : e.core = g.core) (handles : Nat → Handle) :
    frame handles e.nodes = frame handles g.nodes := by
  have hnodes : e.nodes.map Node.core = g.nodes.map Node.core := congrArg Graph.nodes hcore
  have hrenewed : ∀ nodes : List Node,
      frame handles nodes = frame handles (nodes.map Node.core) := by
    intro nodes
    simp only [frame, List.length_map, List.mapIdx_eq_zipIdx_map, List.zipIdx_map, List.map_map]
    rfl
  rw [hrenewed, hnodes, ← hrenewed]

/-- Two graphs that differ in values alone are loaded alike. -/
theorem load_core {e : Graph} (hw : g.WellFormed) (hwe : e.WellFormed) (hcore : e.core = g.core)
    (handles : Nat → Handle) : load handles (save e) = load handles (save g) := by
  obtain ⟨h, hr, _⟩ := (stage_frame hw handles).evaluated
  rw [load_eq hw handles hr, load_eq hwe handles ((frame_core hcore handles).symm ▸ hr),
    linksInFile_core hcore, Graph.core_length hcore]

end SavedGraph

end ShaderGraph

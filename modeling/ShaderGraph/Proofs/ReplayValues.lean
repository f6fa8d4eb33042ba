import ShaderGraph.Proofs.Sessions

namespace ShaderGraph.SavedGraph

variable {g : Graph} {handles : Nat → Handle}

/-- A list splits within its middle part at what is in neither of the outer ones. -/
theorem split_middle {α : Type} {front middle back before after : List α} {x : α}
    (h : front ++ middle ++ back = before ++ x :: after) (hfront : x ∉ front) (hback : x ∉ back) :
    ∃ pre post, before = front ++ pre ∧ middle = pre ++ x :: post := by
  induction front generalizing before with
  | nil =>
    rcases List.append_eq_append_iff.mp h with ⟨rest, rfl, hrest⟩ | ⟨rest, hm, hrest⟩
    · exact absurd (by simp [hrest]) hback
    · cases rest with
      | nil => exact absurd (by simp [← hrest.trans (List.nil_append _)]) hback
      | cons y rest =>
        obtain ⟨rfl, _⟩ := List.cons.inj hrest
        exact ⟨before, rest, rfl, hm⟩
  | cons a front ih =>
    obtain ⟨ha, hfront⟩ := not_or.mp (List.mem_cons.not.mp hfront)
    cases before with
    | nil => exact absurd (List.cons.inj h).1.symm ha
    | cons b before =>
      obtain ⟨rfl, htail⟩ := List.cons.inj h
      obtain ⟨pre, post, rfl, hm⟩ := ih htail hfront
      exact ⟨pre, post, rfl, hm⟩

/-- No node has the mark of a link. -/
theorem notMem_nodeRecords (g : Graph) {line : List Char} (hmark : line.head? = some '?') :
    line ∉ g.nodes.map (nodeRecord g) := by
  intro hm
  obtain ⟨n, _, rfl⟩ := List.mem_map.mp hm
  obtain ⟨c, cs, hrecord, hc, _⟩ := nodeRecord_eq_cons g n
  rw [hrecord, List.head?_cons, Option.some_inj] at hmark
  subst hmark
  cases hc

/-- A line with the mark of a link is a link's, and the lines before it are those of the nodes and
of the links before that one. -/
theorem split_at_link (hw : g.WellFormed) {before after : List (List Char)} {line : List Char}
    (h : Text.splitOn '\n' (save g).toList = before ++ line :: after)
    (hmark : line.head? = some '?') :
    ∃ pre l post, replayOrder g = pre ++ l :: post ∧ line = linkRecord (moved g l) ∧
      before = g.nodes.map (nodeRecord g) ++ (pre.map (moved g)).map linkRecord := by
  rw [lines_save hw] at h
  have hlast : line ∉ [([] : List Char)] := by
    intro hm
    rw [List.mem_singleton.mp hm] at hmark
    cases hmark
  obtain ⟨records, _, hbefore, hlinks⟩ := split_middle h (notMem_nodeRecords g hmark) hlast
  obtain ⟨places, rest, hfile, rfl, hrest⟩ := List.map_eq_append_iff.mp hlinks
  obtain ⟨_, _, rfl, rfl, _⟩ := List.map_eq_cons_iff.mp hrest
  obtain ⟨pre, rest, horder, rfl, hrest⟩ := List.map_eq_append_iff.mp hfile
  obtain ⟨l, post, rfl, rfl, _⟩ := List.map_eq_cons_iff.mp hrest
  exact ⟨pre, l, post, horder, rfl, hbefore⟩

/-- No two links have the same record. -/
theorem record_inj (hw : g.WellFormed) {k l : Link} (hk : k ∈ g.links) (hl : l ∈ g.links)
    (h : linkRecord (moved g k) = linkRecord (moved g l)) : k = l := by
  have hmax : Graph.maxNodes = 1024 := rfl
  have hroom := nodes_room hw
  have hread : ∀ l ∈ g.links, readEdge g.nodes.length (edgeFields (place g l.source)
      (place g l.target) l.slot) = .ok ⟨place g l.source, place g l.target, some l.slot⟩ := by
    intro l hl
    have hslot := hw.wired.slot_lt hw.formed l hl
    exact readEdge_edgeFields (place_lt (hw.source_mem hl)) (place_lt (hw.target_mem hl))
      (by omega) (by omega)
  have hsame := (hread k hk).symm.trans ((congrArg (readEdge _) (List.cons.inj h).2).trans
    (hread l hl))
  simp only [Except.ok.injEq, EdgeRecord.mk.injEq, Option.some_inj] at hsame
  obtain ⟨_, htarget, hslot⟩ := hsame
  have htarget : k.target = l.target := place_inj (hw.target_mem hk) htarget
  exact List.inj_on_of_nodup_map hw.wired.socket_once hk hl (by simp [Link.socket, htarget, hslot])

theorem records_once (hw : g.WellFormed) : ((linksInFile g).map linkRecord).Nodup := by
  rw [linksInFile, List.map_map]
  refine List.Nodup.map_on ?_ ((replayOrder_perm g).nodup_iff.mpr
    (List.Nodup.of_map _ hw.wired.socket_once))
  intro k hk l hl
  exact record_inj hw ((replayOrder_perm g).mem_iff.mp hk) ((replayOrder_perm g).mem_iff.mp hl)

/-- The record of a link comes after those of the nodes and of the links before it. -/
theorem idxOf_record (hw : g.WellFormed) {pre post : List Link} {l : Link}
    (hsplit : replayOrder g = pre ++ l :: post) :
    (Text.splitOn '\n' (save g).toList).idxOf (linkRecord (moved g l)) =
      g.nodes.length + pre.length := by
  have honce := records_once hw
  rw [lines_save hw, linksInFile, hsplit]
  simp only [linksInFile, hsplit, List.map_append, List.map_cons] at honce ⊢
  have hpre : linkRecord (moved g l) ∉ (pre.map (moved g)).map linkRecord := fun hm =>
    (List.nodup_append.mp honce).2.2 _ hm _ List.mem_cons_self rfl
  rw [List.append_assoc, List.idxOf_append_of_notMem (notMem_nodeRecords g rfl), List.append_assoc,
    List.idxOf_append_of_notMem hpre, List.cons_append, List.idxOf_cons_self]
  simp

theorem count_record (hw : g.WellFormed) {l : Link} (hl : l ∈ g.links) :
    (Text.splitOn '\n' (save g).toList).count (linkRecord (moved g l)) = 1 := by
  have hlink : linkRecord (moved g l) ∈ (linksInFile g).map linkRecord :=
    List.mem_map_of_mem (List.mem_map_of_mem ((replayOrder_perm g).mem_iff.mpr hl))
  rw [lines_save hw, List.count_append, List.count_append,
    List.count_eq_zero_of_not_mem (notMem_nodeRecords g rfl),
    List.count_eq_one_of_mem (records_once hw) hlink,
    List.count_eq_zero_of_not_mem (by simp [linkRecord])]

/-- A link that precedes another has its record before it. -/
theorem idxOf_record_lt (hw : g.WellFormed) {k l : Link} (hk : k ∈ g.links) (hl : l ∈ g.links)
    (hprec : Precedes g k l) (hne : k ≠ l) :
    (Text.splitOn '\n' (save g).toList).idxOf (linkRecord (moved g k)) <
      (Text.splitOn '\n' (save g).toList).idxOf (linkRecord (moved g l)) := by
  obtain ⟨pre, post, hsplit⟩ := List.append_of_mem ((replayOrder_perm g).mem_iff.mpr hl)
  obtain ⟨first, rest, rfl⟩ := List.append_of_mem ((mem_before hw hsplit).mpr ⟨hk, hprec, hne⟩)
  have hearlier : replayOrder g = first ++ k :: (rest ++ l :: post) := by
    rw [hsplit, List.append_assoc, List.cons_append]
  rw [idxOf_record hw hsplit, idxOf_record hw hearlier]
  simp

/-- There is but one way to list the links so that each stands after all that precede it. -/
theorem replayOrder_eq (hw : g.WellFormed) {links : List Link} (hperm : links.Perm g.links)
    (hsorted : links.Pairwise (Precedes g)) : replayOrder g = links := by
  have hmem := fun l => (replayOrder_perm g).mem_iff (a := l)
  refine List.Perm.eq_of_pairwise (fun k l hk hl => ?_) (replayOrder_sorted g) hsorted
    ((replayOrder_perm g).trans hperm.symm)
  exact precedes_antisymm hw ((hmem k).mp hk) (hperm.mem_iff.mp hl)

instance decidablePrecedes (g : Graph) (k l : Link) : Decidable (Precedes g k l) :=
  inferInstanceAs (Decidable (_ ∨ _))

theorem loadLines_concat (lines : List (List Char)) (line : List Char) :
    loadLines handles (lines ++ [line]) = loadLines handles lines >>= fun loading =>
      loading.addLine handles (line, lines.length + 1) := by
  simp only [loadLines, List.zipIdx_append, List.foldlM_append, List.zipIdx_singleton,
    List.foldlM_cons, List.foldlM_nil, bind_pure, Nat.add_comm 1]

/-- Loading after some of the links, none of which was refused: the graph in which the next link is
looked at has just these and is evaluated. -/
structure Replayed (handles : Nat → Handle) (g : Graph) (done : List Link) (loading : Loading)
    (h : Graph) : Prop where
  stage : Stage handles g done h
  evaluated : h.Evaluated
  finish : finish loading = .ok h
  next : ∀ l number, loading.addLine handles (linkRecord l, number) =
    Loading.addLine handles ⟨h, List.range g.nodes.length, true⟩ (linkRecord l, number)

/-- Before the first link the graph is evaluated. -/
theorem replayed_nil (hw : g.WellFormed) (handles : Nat → Handle) :
    ∃ loading h, loadLines handles (g.nodes.map (nodeRecord g)) = .ok loading ∧
      Replayed handles g [] loading h := by
  obtain ⟨h, hr, hs, he⟩ := (stage_frame hw handles).evaluated
  exact ⟨_, h, foldlM_nodes hw handles (nodes_room hw), hs, he, hr, addLine_unlinked hr _⟩

/-- A link that is made, is made in an evaluated graph and leaves one. -/
theorem Replayed.concat {done : List Link} {loading loading' : Loading} {h : Graph} {l : Link}
    {number : Nat} (hr : Replayed handles g done loading h) (hw : g.WellFormed)
    (hl : Wired (frame handles g.nodes).nodes (done ++ [l])) (hroom : done.length < Graph.maxEdges)
    (hline : loading.addLine handles (linkRecord l, number) = .ok loading') :
    ∃ h', Replayed handles g (done ++ [l]) loading' h' := by
  have hmade := addLine_link hr.stage hl hroom (nodes_room hw) number
  rw [← hr.next, hline] at hmade
  cases hm : h.misfit? l with
  | some e =>
    simp only [hm] at hmade
    cases hmade
  | none =>
    simp only [hm] at hmade
    obtain ⟨h', hs, he, hmade⟩ := hmade
    cases hmade
    exact ⟨h', hs, he, rfl, fun _ _ => rfl⟩

/-- Whatever links have been taken in, they are all made. -/
theorem replayed_of_loadLines (hw : g.WellFormed) {pre post : List Link}
    (hsplit : replayOrder g = pre ++ post) {loading : Loading}
    (hrun : loadLines handles (g.nodes.map (nodeRecord g) ++ (pre.map (moved g)).map linkRecord) =
      .ok loading) :
    ∃ h, Replayed handles g (pre.map (moved g)) loading h := by
  induction pre using List.reverseRecOn generalizing post loading with
  | nil =>
    obtain ⟨loading', h, hnodes, hr⟩ := replayed_nil hw handles
    rw [List.map_nil, List.map_nil, List.append_nil, hnodes] at hrun
    cases hrun
    exact ⟨h, hr⟩
  | append_singleton pre l ih =>
    have hsub := taken_sublist hsplit
    have hlength := hsub.length_le.trans (linksInFile_room hw)
    rw [List.append_assoc] at hsplit
    simp only [List.map_append, List.map_cons, List.map_nil] at hrun hsub hlength ⊢
    rw [← List.append_assoc, loadLines_concat] at hrun
    obtain ⟨before, hbefore, hline⟩ := except_bind_eq_ok.mp hrun
    obtain ⟨h, hr⟩ := ih hsplit hbefore
    rw [List.length_append, List.length_singleton] at hlength
    exact hr.concat hw ((linksInFile_wired hw handles).sublist hsub) (by omega) hline

/-- A link between the nodes of a saved graph finds in another, where each stands at its place, the
values it has at home. -/
structure FindsValues (g h : Graph) (l : Link) : Prop where
  source : ∃ v, g.output? l.source = some v ∧ h.output? (place g l.source) = some v
  operand : ∀ i x, (h.inputsOf (place g l.target)).at? i = some x →
    ∃ y v, (g.inputsOf l.target).at? i = some y ∧ x = place g y ∧
      g.output? y = some v ∧ h.output? x = some v

theorem Stage.findsValues {pre post : List Link} {l : Link} {h : Graph}
    (hs : Stage handles g (pre.map (moved g)) h) (he : h.Evaluated) (hw : g.WellFormed)
    (hg : g.Evaluated) (hsplit : replayOrder g = pre ++ l :: post) : FindsValues g h l := by
  have hpre : pre ⊆ g.links := fun k hk => ((mem_before hw hsplit).mp hk).1
  have hl := mem_of_split hsplit
  -- whatever feeds the target in the saved graph is evaluated by now
  have hproducer : ∀ k ∈ g.links, k.target = l.target →
      ∃ v, g.output? k.source = some v ∧ h.output? (place g k.source) = some v := by
    intro k hk ht
    obtain ⟨n, hn, hid⟩ := Graph.mem_ids.mp (hw.source_mem hk)
    have hrank : rank g n.id < rank g l.target := by
      rw [hid, ← ht]
      exact rank_lt hw hk
    rw [← hid]
    exact ⟨n.output, Graph.output?_of_mem hw.id_once hn, hs.output?_eq he hw hg hsplit hn hrank⟩
  refine ⟨hproducer l hl rfl, ?_⟩
  intro i x hx
  rw [hs.at?_inputsOf hw hpre (hw.target_mem hl), Option.bind_eq_some_iff] at hx
  obtain ⟨y, hy, hx⟩ := hx
  obtain ⟨hbefore, hplace⟩ := Option.ite_none_right_eq_some.mp hx
  obtain rfl := Option.some.inj hplace
  obtain ⟨v, hv, hv'⟩ := hproducer _ (hpre hbefore) rfl
  exact ⟨y, v, hy, rfl, hv, hv'⟩

/-- A session in topological order shows a graph that a pass does not change. In the text of such a
graph every link has its record, after those of the links into its source and of the links into
lower slots of its target. Loading, whenever it comes to a record, makes the link in a graph where
the source and the operands of the target have the values they were saved with. -/
theorem links_find_values :
    (∀ s : Session, s.Reachable → s.order = .topological → s.graph.Reachable ∧
      s.graph.recompute .topological = .ok (s.graph, s.report)) ∧
    ∀ g : Graph, g.Reachable → ∀ report, g.recompute .topological = .ok (g, report) →
      let lines := Text.splitOn '\n' (save g).toList
      (∀ l ∈ g.links, lines.count (linkRecord (moved g l)) = 1) ∧
      (∀ k ∈ g.links, ∀ l ∈ g.links, k.target = l.source ∨ k.target = l.target ∧ k.slot < l.slot →
        lines.idxOf (linkRecord (moved g k)) < lines.idxOf (linkRecord (moved g l))) ∧
      ∀ before line after, lines = before ++ line :: after → line.head? = some '?' →
        ∃ l ∈ g.links, line = linkRecord (moved g l) ∧
          ∀ handles loading, loadLines handles before = .ok loading →
            ∃ h, finish loading = .ok h ∧ FindsValues g h l ∧
              loading.addLine handles (line, before.length + 1) = (do
                let made ← (h.connect (place g l.source) (place g l.target)
                  (some l.slot)).mapError (.graph (before.length + 1))
                let h' ← evaluated made.2
                return ⟨h', List.range g.nodes.length, true⟩) := by
  refine ⟨fun s hs ho => ⟨hs.graph, hs.recompute_graph ho⟩, ?_⟩
  intro g hg report hfix
  have hw := hg.wellFormed
  have he := Graph.evaluated_of_recompute hw hfix
  refine ⟨fun l hl => count_record hw hl, ?_, ?_⟩
  · rintro k hk l hl (ht | ⟨ht, hslot⟩)
    · have hrank : rank g k.target < rank g l.target := ht ▸ rank_lt hw hl
      exact idxOf_record_lt hw hk hl (.inl hrank) fun hkl => by simp [hkl] at hrank
    · refine idxOf_record_lt hw hk hl (.inr ⟨by rw [ht], Nat.le_of_lt hslot⟩) fun hkl => ?_
      simp [hkl] at hslot
  · intro before line after hlines hmark
    obtain ⟨pre, l, post, hsplit, rfl, rfl⟩ := split_at_link hw hlines hmark
    have hl := mem_of_split hsplit
    refine ⟨l, hl, rfl, fun handles loading hrun => ?_⟩
    obtain ⟨h, hr⟩ := replayed_of_loadLines hw hsplit hrun
    refine ⟨h, hr.finish, hr.stage.findsValues hr.evaluated hw he hsplit, ?_⟩
    rw [hr.next]
    exact addLine_linkRecord (l := moved g l) (nodes_room hw) (place_lt (hw.source_mem hl))
      (place_lt (hw.target_mem hl)) (Nat.le_of_lt (hw.wired.slot_lt hw.formed l hl)) h _

/-- A matrix has come to feed a multiplication after the link that leaves it was made. -/
def drifted : Graph :=
  ((Session.new ⟨0⟩ ⟨1⟩).applyAll Handle.mk Session.driftingCommands).2.graph

/-- The older link comes last in the text and, though it is refused then, it finds the matrix. -/
theorem drifted_finds_matrix :
    drifted.links = [⟨3, 1, 0⟩, ⟨4, 3, 0⟩] ∧ (drifted.output? 3).map Value.size = some 16 ∧
      (Text.splitOn '\n' (save drifted).toList).idxOf "?4?3?0".toList <
        (Text.splitOn '\n' (save drifted).toList).idxOf "?3?1?0".toList ∧
      ∃ loading h, loadLines Handle.mk
          (drifted.nodes.map (nodeRecord drifted) ++ ["?4?3?0".toList]) = .ok loading ∧
        finish loading = .ok h ∧ FindsValues drifted h ⟨3, 1, 0⟩ := by
  have hs := (Session.Reachable.new ⟨0⟩ ⟨1⟩).applyAll Handle.mk Session.driftingCommands
  obtain ⟨hg, hfix⟩ := links_find_values.1 _ hs (by decide +kernel)
  have hw : drifted.WellFormed := hg.wellFormed
  obtain ⟨_, hbefore, hreplay⟩ := links_find_values.2 drifted hg _ hfix
  have hnew : linkRecord (moved drifted ⟨4, 3, 0⟩) = "?4?3?0".toList := by decide +kernel
  have hold : linkRecord (moved drifted ⟨3, 1, 0⟩) = "?3?1?0".toList := by decide +kernel
  have horder : replayOrder drifted = [⟨4, 3, 0⟩, ⟨3, 1, 0⟩] :=
    replayOrder_eq hw (by decide +kernel) (by decide +kernel)
  refine ⟨by decide +kernel, by decide +kernel, ?_, ?_⟩
  · rw [← hnew, ← hold]
    exact hbefore ⟨4, 3, 0⟩ (by decide +kernel) ⟨3, 1, 0⟩ (by decide +kernel) (.inl rfl)
  · have hlines : Text.splitOn '\n' (save drifted).toList =
        (drifted.nodes.map (nodeRecord drifted) ++ ["?4?3?0".toList]) ++
          "?3?1?0".toList :: [[]] := by
      rw [lines_save hw, linksInFile, horder]
      simp only [List.map_cons, List.map_nil, hnew, hold, List.append_assoc, List.cons_append,
        List.nil_append]
    obtain ⟨l, hl, hline, hfound⟩ := hreplay _ _ _ hlines rfl
    obtain rfl : ⟨3, 1, 0⟩ = l := record_inj hw (by decide +kernel) hl (hold.trans hline)
    have htaken : (loadLines Handle.mk (drifted.nodes.map (nodeRecord drifted) ++
        ["?4?3?0".toList])).toOption.isSome = true := by decide +kernel
    obtain ⟨loading, hrun⟩ := Option.isSome_iff_exists.mp htaken
    obtain ⟨h, hfinish, hvalues, _⟩ := hfound Handle.mk loading (except_toOption_eq_some.mp hrun)
    exact ⟨loading, h, except_toOption_eq_some.mp hrun, hfinish, hvalues⟩

end ShaderGraph.SavedGraph

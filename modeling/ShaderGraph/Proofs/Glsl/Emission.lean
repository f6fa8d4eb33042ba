import ShaderGraph.Proofs.Glsl.TwoWalks

namespace ShaderGraph.Glsl

open Relation

variable {g : Graph}

theorem not_isEmpty_of_isValid {n : Node} (h : n.isValid = true) : n.output.isEmpty = false := by
  simpa [Node.isValid] using h

theorem values_operandsOf (g : Graph) (id : NodeId) :
    ((operandsOf g g.links id).apply fun x => some x.value) =
      (g.inputsOf id).apply g.output? := by
  apply Slots.ext_at?
  intro i
  rw [operandsOf, Slots.at?_apply, Slots.at?_apply, Slots.at?_apply]
  change (((g.inputsOf id).at? i).bind _).bind _ = _
  cases (g.inputsOf id).at? i with
  | none => rfl
  | some x => cases h : g.output? x <;> simp [h]

theorem map_id_found {order : List NodeId} (hlive : ∀ id ∈ order, id ∈ g.ids)
    (hu : g.ids.Nodup) : (order.filterMap g.node?).map Node.id = order := by
  induction order with
  | nil => rfl
  | cons id order ih =>
    obtain ⟨n, hn, rfl⟩ := Graph.mem_ids.mp (hlive id (by simp))
    rw [List.filterMap_cons_some (Graph.node?_of_mem hu hn), List.map_cons,
      ih fun id hid => hlive id (by simp [hid])]

/-- How a program with an input at its stage output comes from the walk behind that input. -/
structure Emitted (g : Graph) (d : Dialect) (s : Stage) (root : NodeId) (p : Program) (w : Walk) :
    Prop where
  settled : Walk.Settled g.producers w.left
  entered : w.entered.Perm w.left
  behind : ∀ id, id ∈ w.left ↔ ReflTransGen (Feeds g.links) id root
  live : ∀ id ∈ w.left, id ∈ g.ids
  valid : ∀ n ∈ g.nodes, n.id ∈ w.left → n.isValid = true
  declarations : p.declarations = (declared g w.preorder).eraseDups
  body : p.body = stated g d s w.postorder
  output : p.output = widenOutput (.node root) (((g.output? root).map Value.size).getD 0)
  dialect : p.dialect = d
  stage : p.stage = s

/-- The node of a stage output. -/
theorem sink_node (hw : g.WellFormed) (s : Stage) :
    ∃ n ∈ g.nodes, n.id = s.sink ∧ n.kind.isSink = true := by
  obtain ⟨v, f, rest, hnodes, hv, hvkind, hf, hfkind, -⟩ := hw.sinks
  cases s with
  | vertex => exact ⟨v, by simp [hnodes], hv, by rw [hvkind]; rfl⟩
  | fragment => exact ⟨f, by simp [hnodes], hf, by rw [hfkind]; rfl⟩

theorem live_of_behind (hw : g.WellFormed) {root id : NodeId} (hroot : root ∈ g.ids)
    (h : ReflTransGen (Feeds g.links) id root) : id ∈ g.ids := by
  rcases ReflTransGen.cases_head h with rfl | ⟨_, ⟨l, hl, rfl, _⟩, _⟩
  · exact hroot
  · exact hw.source_mem hl

section

variable {d : Dialect} {s : Stage} {root : NodeId} {p : Program}

/-- A walk from a node comes to the nodes behind it. -/
theorem exists_walk (hw : g.WellFormed) (hlive : root ∈ g.ids) :
    ∃ w : Walk, Walk.visitAll g.producers g.nodes.length [root] = .ok w ∧
      Walk.Settled g.producers w.left ∧ w.entered.Perm w.left ∧
      ∀ id, id ∈ w.left ↔ ReflTransGen (Feeds g.links) id root := by
  have hsub : [root] ⊆ g.ids := by simpa using hlive
  obtain ⟨w, hwalk, hsettled, hperm, hleft⟩ := Walk.visitAll_ok hw.field hsub g.nodes.length
    (by simp [Graph.ids])
  refine ⟨w, hwalk, hsettled, hperm, fun id => ?_⟩
  rw [hleft, Graph.produces_eq hw]
  simp

def gathered (g : Graph) (d : Dialect) (s : Stage) (root : NodeId) (w : Walk) : Program where
  dialect := d
  stage := s
  declarations := (declared g w.preorder).eraseDups
  body := stated g d s w.postorder
  output := widenOutput (.node root) (((g.output? root).map Value.size).getD 0)

/-- Both walks of the compiler come to the one behind `root`. -/
theorem compileStage_of_walk (hw : g.WellFormed) (hroot : (g.inputsOf s.sink).at? 0 = some root)
    {w : Walk} (hwalk : Walk.visitAll g.producers g.nodes.length [root] = .ok w) :
    compileStage g d s =
      match w.preorder.find? fun id => !hasValue g id with
      | some id => .error (.unresolved id)
      | none => .ok (gathered g d s root w) := by
  have hlive : root ∈ g.ids := hw.source_mem ((Graph.input_iff hw).mp hroot)
  have hvisit := Walk.visit_of_visitAll hwalk
  have hhoist : hoist g g.links g.nodes.length .start root = .ok (.along g w) :=
    hoist_along hw _ Walk.tracked_start hlive hvisit
  obtain ⟨new, hnew, hemit⟩ := emit_along (d := d) (s := s) g.nodes.length hvisit
  have hemit : emit (plainly d s) g g.links g.nodes.length .start root =
      settled g new (.along g d s [] w) := hemit
  have hpreorder : w.preorder = new.reverse := by simp [Walk.preorder, hnew, Walk.start]
  have hroot : (inputsFrom g.links s.sink).at? 0 = some root := hroot
  change compileStageWith (plainly d s) g d s = _
  unfold compileStageWith
  simp only [hroot, hhoist, hemit, hpreorder, settled]
  cases new.reverse.find? fun id => !hasValue g id with
  | some id => rfl
  | none => rfl

theorem compileStage_vacant (hroot : (g.inputsOf s.sink).at? 0 = none) :
    compileStage g d s = .ok ⟨d, s, [], [], defaultOutput s⟩ := by
  have hroot : (inputsFrom g.links s.sink).at? 0 = none := hroot
  unfold compileStage compileStageWith
  simp only [hroot]
  rfl

theorem emitted_of_compileStage (hw : g.WellFormed)
    (hroot : (g.inputsOf s.sink).at? 0 = some root) (hp : compileStage g d s = .ok p) :
    ∃ w, Emitted g d s root p w := by
  have hlive : root ∈ g.ids := hw.source_mem ((Graph.input_iff hw).mp hroot)
  obtain ⟨w, hwalk, hsettled, hperm, hbehind⟩ := exists_walk hw hlive
  rw [compileStage_of_walk hw hroot hwalk] at hp
  split at hp
  · cases hp
  · rename_i hfind
    cases hp
    refine ⟨w, hsettled, hperm, hbehind, fun id hid => ?_, fun n hn hid => ?_, rfl, rfl, rfl,
      rfl, rfl⟩
    · exact live_of_behind hw hlive ((hbehind id).mp hid)
    · have hmem : n.id ∈ w.preorder := List.mem_reverse.mpr (hperm.mem_iff.mpr hid)
      have hfound := List.find?_eq_none.mp hfind n.id hmem
      simpa [hasValue, Graph.node?_of_mem hw.id_once hn] using hfound

namespace Emitted

variable {w : Walk}

theorem mem_preorder (h : Emitted g d s root p w) {id : NodeId} : id ∈ w.preorder ↔ id ∈ w.left :=
  List.mem_reverse.trans h.entered.mem_iff

theorem mem_nodes (h : Emitted g d s root p w) {n : Node}
    (hn : n ∈ w.preorder.filterMap g.node?) : n ∈ g.nodes ∧ n.id ∈ w.left := by
  obtain ⟨id, hid, hfound⟩ := List.mem_filterMap.mp hn
  obtain ⟨hmem, rfl⟩ := Graph.mem_of_node? hfound
  exact ⟨hmem, h.mem_preorder.mp hid⟩

theorem ids_once (h : Emitted g d s root p w) (hw : g.WellFormed) :
    ((w.preorder.filterMap g.node?).map Node.id).Nodup := by
  rw [map_id_found (fun id hid => h.live id (h.mem_preorder.mp hid)) hw.id_once]
  exact List.nodup_reverse.mpr (h.entered.nodup_iff.mpr h.settled.nodup)

end Emitted

end

end ShaderGraph.Glsl

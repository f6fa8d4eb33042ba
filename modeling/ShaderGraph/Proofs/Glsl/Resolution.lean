import ShaderGraph.Proofs.Glsl.Emission
import ShaderGraph.Proofs.Overflow
import ShaderGraph.Proofs.Preorder
import ShaderGraph.Proofs.Reachable

namespace ShaderGraph.Glsl

open Relation

variable {g : Graph} {d : Dialect} {s : Stage} {root : NodeId}

/-- A stage output has one slot. -/
theorem sink_vacant_iff (hw : g.WellFormed) :
    (g.inputsOf s.sink).at? 0 = none ↔ ∀ l ∈ g.links, l.target ≠ s.sink := by
  constructor
  · intro hnone l hl ht
    obtain ⟨n, hn, hid, hslot⟩ := hw.wired.target l hl
    obtain ⟨m, hm, hmid, hsink⟩ := sink_node hw s
    have hsame : n = m := List.inj_on_of_nodup_map hw.id_once hn hm (by rw [hid, ht, hmid])
    have hone : m.kind.inputLimit = 1 := by
      revert hsink
      cases m.kind <;> decide
    have hle := (hw.formed n hn).limit_le_inputLimit
    rw [hsame, hone] at hle
    have hzero : l.slot = 0 := by
      rw [hsame] at hslot
      omega
    have hinput := (Graph.input_iff hw).mpr hl
    rw [hzero, ht, hnone] at hinput
    cases hinput
  · intro hnone
    cases hi : (g.inputsOf s.sink).at? 0 with
    | none => rfl
    | some x => exact absurd rfl (hnone _ ((Graph.input_iff hw).mp hi))

section Rooted

variable (hw : g.WellFormed) (hroot : (g.inputsOf s.sink).at? 0 = some root)

include hw hroot

/-- The walk behind the output decides, and it comes to an end. -/
theorem compileStage_rooted (d : Dialect) :
    ∃ w : Walk, Walk.visitAll g.producers g.nodes.length [root] = .ok w ∧
      (∀ id, id ∈ w.preorder ↔ ReflTransGen (Feeds g.links) id root) ∧
      compileStage g d s = match w.preorder.find? fun id => !hasValue g id with
        | some id => .error (.unresolved id)
        | none => .ok (gathered g d s root w) := by
  obtain ⟨w, hwalk, -, hperm, hbehind⟩ :=
    exists_walk hw (hw.source_mem ((Graph.input_iff hw).mp hroot))
  refine ⟨w, hwalk, fun id => ?_, compileStage_of_walk hw hroot hwalk⟩
  rw [Walk.preorder, List.mem_reverse, hperm.mem_iff, hbehind]

theorem compileStage_ok_iff :
    (∃ p, compileStage g d s = .ok p) ↔
      ∀ id, ReflTransGen (Feeds g.links) id root → hasValue g id = true := by
  obtain ⟨w, -, hmem, hcompile⟩ := compileStage_rooted hw hroot d
  rw [hcompile]
  cases hfind : w.preorder.find? fun id => !hasValue g id with
  | none =>
    refine ⟨fun _ id hid => ?_, fun _ => ⟨_, rfl⟩⟩
    simpa using List.find?_eq_none.mp hfind id ((hmem id).mpr hid)
  | some id =>
    refine ⟨fun ⟨p, hp⟩ => (nomatch hp), fun hall => ?_⟩
    have hlacks := List.find?_some hfind
    rw [hall id ((hmem id).mp (List.mem_of_find?_eq_some hfind))] at hlacks
    cases hlacks

theorem compileStage_unresolved_iff {id : NodeId} :
    compileStage g d s = .error (.unresolved id) ↔
      Walk.FirstBelow g.inputsOf (fun id => !hasValue g id) root id := by
  obtain ⟨w, hwalk, -, hcompile⟩ := compileStage_rooted hw hroot d
  rw [hcompile, ← Walk.preorder_find? hwalk]
  cases w.preorder.find? fun id => !hasValue g id <;> simp

theorem compileStage_ne_cycle {c : Cycle} : compileStage g d s ≠ .error (.cycle c) := by
  obtain ⟨w, -, -, hcompile⟩ := compileStage_rooted hw hroot d
  rw [hcompile]
  cases w.preorder.find? fun id => !hasValue g id <;> simp

end Rooted

section Builds

variable {o : Overflow}

/-- The way of writing a node of a build that may stop over its channels. -/
def cautiously (o : Overflow) (d : Dialect) (s : Stage) (n : Node) (operands : Slots Operand) :
    ExceptT CompileError Option (List Statement) :=
  if n.kind.stops o (operands.apply fun x => some x.value) then ExceptT.mk none
  else pure (statements d s n operands)

theorem run_bind_stopped {ε α β : Type} {x : ExceptT ε Option α} (h : x.run = none)
    (f : α → ExceptT ε Option β) : (x >>= f).run = none := by
  rw [ExceptT.run_bind, h]
  rfl

theorem run_bind_refused {ε α β : Type} {x : ExceptT ε Option α} {e : ε}
    (h : x.run = some (.error e)) (f : α → ExceptT ε Option β) :
    (x >>= f).run = some (.error e) := by
  rw [ExceptT.run_bind, h]
  rfl

theorem run_bind_returned {ε α β : Type} {x : ExceptT ε Option α} {a : α}
    (h : x.run = some (.ok a)) (f : α → ExceptT ε Option β) : (x >>= f).run = (f a).run := by
  rw [ExceptT.run_bind, h]
  rfl

/-- What becomes of the statements in a build: it stops over one of the nodes behind `ids`, or comes
to what any build does and has not stopped over any node that is done. -/
def Proceeds (o : Overflow) (g : Graph) (ids : List NodeId) (e : Emission)
    (cautious : ExceptT CompileError Option Emission) (plain : Except CompileError Emission) :
    Prop :=
  (cautious.run = none ∧ ∃ id ∈ ids, ∃ x, ReflTransGen (Feeds g.links) x id ∧
      g.StopsAt o g.output? x) ∨
    cautious.run = some plain ∧
      ∀ e', plain = .ok e' → ∀ x ∈ e'.emitted, x ∈ e.emitted ∨ ¬ g.StopsAt o g.output? x

theorem proceeds_foldlM {room : Nat} {ids : List NodeId}
    (hemit : ∀ id ∈ ids, ∀ e, Proceeds o g [id] e (emit (cautiously o d s) g g.links room e id)
      (emit (plainly d s) g g.links room e id)) (e : Emission) :
    Proceeds o g ids e (ids.foldlM (emit (cautiously o d s) g g.links room) e)
      (ids.foldlM (emit (plainly d s) g g.links room) e) := by
  induction ids generalizing e with
  | nil =>
    refine .inr ⟨rfl, fun e' he x hx => ?_⟩
    cases he
    exact .inl hx
  | cons id ids ih =>
    have hrest := ih fun x hx => hemit x (by simp [hx])
    rw [List.foldlM_cons, List.foldlM_cons]
    rcases hemit id (by simp) e with ⟨hnone, _, hid, x, hx, hstops⟩ | ⟨hsome, hdone⟩
    · refine .inl ⟨run_bind_stopped hnone _, id, by simp, x, ?_, hstops⟩
      exact List.mem_singleton.mp hid ▸ hx
    · cases hfirst : emit (plainly d s) g g.links room e id with
      | error error =>
        rw [hfirst] at hsome
        exact .inr ⟨run_bind_refused hsome _, fun e' he => by cases he⟩
      | ok e₁ =>
        rw [hfirst] at hsome
        unfold Proceeds
        rw [run_bind_returned hsome]
        rcases hrest e₁ with ⟨hnone, y, hy, x, hx, hstops⟩ | ⟨hsome', hdone'⟩
        · exact .inl ⟨hnone, y, by simp [hy], x, hx, hstops⟩
        · refine .inr ⟨hsome', fun e' he x hx => ?_⟩
          rcases hdone' e' he x hx with hx | hgoes
          · exact hdone e₁ hfirst x hx
          · exact .inr hgoes

/-- How a node is found. -/
theorem emit_cases (e : Emission) (id : NodeId) : id ∈ e.emitted ∨
    (id ∉ e.emitted ∧ id ∈ e.inProgress) ∨
    (id ∉ e.emitted ∧ id ∉ e.inProgress ∧ hasValue g id = false) ∨
    (id ∉ e.emitted ∧ id ∉ e.inProgress ∧ hasValue g id = true) := by
  cases hasValue g id <;> by_cases he : id ∈ e.emitted <;> by_cases hp : id ∈ e.inProgress <;>
    simp [he, hp]

theorem proceeds_pure {id : NodeId} {e : Emission} : Proceeds o g [id] e (pure e) (pure e) := by
  refine .inr ⟨rfl, fun e' he x hx => ?_⟩
  cases he
  exact .inl hx

theorem proceeds_throw {id : NodeId} {e : Emission} (error : CompileError) :
    Proceeds o g [id] e (throw error) (throw error) :=
  .inr ⟨rfl, fun e' he => by cases he⟩

/-- A node is written where its build does not stop over it. -/
theorem proceeds_write {id : NodeId} {n : Node} (hn : g.node? id = some n) {e e₁ : Emission}
    (hbelow : ∀ x ∈ e₁.emitted, x ∈ e.emitted ∨ ¬ g.StopsAt o g.output? x) :
    Proceeds o g [id] e
      (do
        let lines ← cautiously o d s n (operandsOf g g.links id)
        return ⟨id :: e₁.emitted, e₁.inProgress.erase id, e₁.lines ++ lines⟩)
      (do
        let lines ← plainly d s n (operandsOf g g.links id)
        return ⟨id :: e₁.emitted, e₁.inProgress.erase id, e₁.lines ++ lines⟩) := by
  have hhere : g.StopsAt o g.output? id ↔
      n.kind.stops o ((operandsOf g g.links id).apply fun x => some x.value) = true := by
    rw [Graph.stopsAt_iff hn, values_operandsOf]
  unfold cautiously
  split
  · rename_i hstops
    exact .inl ⟨rfl, id, by simp, id, .refl, hhere.mpr hstops⟩
  · rename_i hgoes
    refine .inr ⟨rfl, fun e' he x hx => ?_⟩
    cases he
    rcases List.mem_cons.mp hx with rfl | hx
    · exact .inr fun hstops => hgoes (hhere.mp hstops)
    · exact hbelow x hx

/-- A build that may stop goes the way of the others as far as it gets. -/
theorem proceeds_emit (hw : g.WellFormed) (room : Nat) (e : Emission) (id : NodeId) :
    Proceeds o g [id] e (emit (cautiously o d s) g g.links room e id)
      (emit (plainly d s) g g.links room e id) := by
  induction room generalizing e id with
  | zero =>
    rcases emit_cases e id with he | ⟨he, hp⟩ | ⟨he, hp, hvalue⟩ | ⟨he, hp, hvalue⟩
    · rw [emit_emitted he, emit_emitted he]
      exact proceeds_pure
    · rw [emit_inProgress he hp, emit_inProgress he hp]
      exact proceeds_throw _
    · rw [emit_lacking he hp hvalue, emit_lacking he hp hvalue]
      exact proceeds_throw _
    · rw [emit_crowded he hp hvalue, emit_crowded he hp hvalue]
      exact proceeds_throw _
  | succ room ih =>
    rcases emit_cases e id with he | ⟨he, hp⟩ | ⟨he, hp, hvalue⟩ | ⟨he, hp, hvalue⟩
    · rw [emit_emitted he, emit_emitted he]
      exact proceeds_pure
    · rw [emit_inProgress he hp, emit_inProgress he hp]
      exact proceeds_throw _
    · rw [emit_lacking he hp hvalue, emit_lacking he hp hvalue]
      exact proceeds_throw _
    · obtain ⟨n, hn, hv⟩ := hasValue_eq_true.mp hvalue
      rw [emit_valid he hp hn hv, emit_valid he hp hn hv]
      rcases proceeds_foldlM (fun p _ e => ih e p) { e with inProgress := id :: e.inProgress } with
        ⟨hnone, p, hp, x, hx, hstops⟩ | ⟨hsome, hdone⟩
      · refine .inl ⟨run_bind_stopped hnone _, id, by simp, x, ?_, hstops⟩
        exact hx.tail ((Graph.mem_producers hw).mp hp)
      · cases hbelow : (g.producers id).foldlM (emit (plainly d s) g g.links room)
            { e with inProgress := id :: e.inProgress } with
        | error error =>
          rw [hbelow] at hsome
          exact .inr ⟨run_bind_refused hsome _, fun e' he => by cases he⟩
        | ok e₁ =>
          rw [hbelow] at hsome
          unfold Proceeds
          rw [run_bind_returned hsome]
          exact proceeds_write hn (hdone e₁ hbelow)

/-- Both walks of a rooted stage, one for the declarations and one for the statements. -/
theorem compileStageWith_rooted (hw : g.WellFormed)
    (hroot : (g.inputsOf s.sink).at? 0 = some root) :
    ∃ lines : List Declaration, ∀ {m : Type → Type} [Monad m] [LawfulMonad m]
      [MonadExceptOf CompileError m] (write : Node → Slots Operand → m (List Statement)),
      compileStageWith write g d s = do
        let e ← emit write g g.links g.nodes.length .start root
        return ⟨d, s, lines, e.lines,
          widenOutput (.node root) (((g.output? root).map Value.size).getD 0)⟩ := by
  have hlive : root ∈ g.ids := hw.source_mem ((Graph.input_iff hw).mp hroot)
  obtain ⟨w, hwalk, -, -, -⟩ := exists_walk hw hlive
  have hhoist : hoist g g.links g.nodes.length .start root = .ok (.along g w) :=
    hoist_along hw _ Walk.tracked_start hlive (Walk.visit_of_visitAll hwalk)
  refine ⟨(Hoisted.along g w).lines, fun write => ?_⟩
  have hroot : (inputsFrom g.links s.sink).at? 0 = some root := hroot
  unfold compileStageWith
  simp only [hroot, hhoist, pure_bind]

/-- The statements are done with when all nodes behind the output are. -/
theorem mem_emitted (hw : g.WellFormed) (hlive : root ∈ g.ids) {e : Emission}
    (he : emit (plainly d s) g g.links g.nodes.length .start root = .ok e) (id : NodeId) :
    id ∈ e.emitted ↔ ReflTransGen (Feeds g.links) id root := by
  obtain ⟨w, hwalk, -, -, hbehind⟩ := exists_walk hw hlive
  obtain ⟨new, -, hemit⟩ :=
    emit_along (d := d) (s := s) g.nodes.length (Walk.visit_of_visitAll hwalk)
  have hemit : emit (plainly d s) g g.links g.nodes.length .start root =
      settled g new (.along g d s [] w) := hemit
  rw [hemit] at he
  rw [settled_ok he]
  exact hbehind id

/-- Every build comes to the same, except that one may stop over a node behind the output. -/
theorem run_compileStageIn (hw : g.WellFormed) (hroot : (g.inputsOf s.sink).at? 0 = some root)
    (o : Overflow) (d : Dialect) :
    ((compileStageIn o g d s).run = none ∧
        ∃ x, ReflTransGen (Feeds g.links) x root ∧ g.StopsAt o g.output? x) ∨
      ((compileStageIn o g d s).run = some (compileStage g d s) ∧
        ∀ p, compileStage g d s = .ok p →
          ∀ x, ReflTransGen (Feeds g.links) x root → ¬ g.StopsAt o g.output? x) := by
  have hlive : root ∈ g.ids := hw.source_mem ((Graph.input_iff hw).mp hroot)
  obtain ⟨lines, hwith⟩ := compileStageWith_rooted (d := d) hw hroot
  have hcautious : compileStageIn o g d s = _ := hwith (cautiously o d s)
  have hplain : compileStage g d s = _ := hwith (plainly d s)
  rw [hcautious, hplain]
  rcases proceeds_emit (o := o) (d := d) (s := s) hw g.nodes.length .start root with
    ⟨hnone, y, hy, x, hx, hstops⟩ | ⟨hsome, hdone⟩
  · exact .inl ⟨run_bind_stopped hnone _, x, List.mem_singleton.mp hy ▸ hx, hstops⟩
  · refine .inr ?_
    cases hemit : emit (plainly d s) g g.links g.nodes.length .start root with
    | error e =>
      rw [hemit] at hsome
      exact ⟨run_bind_refused hsome _, fun p hp => by cases hp⟩
    | ok e =>
      rw [hemit] at hsome
      refine ⟨run_bind_returned hsome _, fun p _ x hx => ?_⟩
      have hx := (mem_emitted hw hlive hemit x).mpr hx
      exact (hdone e hemit x hx).resolve_left (List.not_mem_nil)

theorem run_compileStageIn_ok_iff (hw : g.WellFormed)
    (hroot : (g.inputsOf s.sink).at? 0 = some root) :
    (∃ p, (compileStageIn o g d s).run = some (.ok p)) ↔
      ∀ id, ReflTransGen (Feeds g.links) id root →
        hasValue g id = true ∧ ¬ g.StopsAt o g.output? id := by
  have hresolved := compileStage_ok_iff (d := d) hw hroot
  rcases run_compileStageIn hw hroot o d with ⟨hnone, x, hx, hstops⟩ | ⟨hsome, hgoes⟩
  · rw [hnone]
    refine ⟨fun ⟨p, hp⟩ => ?_, fun hall => absurd hstops (hall x hx).2⟩
    cases hp
  · rw [hsome]
    constructor
    · rintro ⟨p, hp⟩ id hid
      have hp := Option.some.inj hp
      exact ⟨hresolved.mp ⟨p, hp⟩ id hid, hgoes p hp id hid⟩
    · intro hall
      obtain ⟨p, hp⟩ := hresolved.mpr fun id hid => (hall id hid).1
      exact ⟨p, by rw [hp]⟩

theorem run_compileStageIn_vacant (hroot : (g.inputsOf s.sink).at? 0 = none) (o : Overflow)
    (d : Dialect) : (compileStageIn o g d s).run = some (compileStage g d s) := by
  have hsink : (inputsFrom g.links s.sink).at? 0 = none := hroot
  rw [compileStage_vacant hroot]
  unfold compileStageIn compileStageWith
  simp only [hsink]
  rfl

end Builds

/-- A stage compiles exactly when nothing leads into its output, or every node behind the one that
does has a value. Otherwise the first node below it without a value is reported, taking inputs by
ascending slot, and never a cycle. A build may stop over the channels of a node behind the output if
it checks. Where it does not, it gives the answer of any other. -/
theorem compiles_iff_resolved (hg : g.Reachable) (d : Dialect) (s : Stage) :
    ((∃ p, compileStage g d s = .ok p) ↔
      (∀ l ∈ g.links, l.target ≠ s.sink) ∨
        ∃ root, ⟨root, s.sink, 0⟩ ∈ g.links ∧
          ∀ id, ReflTransGen (Feeds g.links) id root → hasValue g id = true) ∧
      (∀ id, compileStage g d s = .error (.unresolved id) ↔
        ∃ root, ⟨root, s.sink, 0⟩ ∈ g.links ∧
          Walk.FirstBelow g.inputsOf (fun id => !hasValue g id) root id) ∧
      (∀ c, compileStage g d s ≠ .error (.cycle c)) ∧
      ∀ o, ((compileStageIn o g d s).run = some (compileStage g d s) ∨
          (compileStageIn o g d s).run = none ∧ o = .stops ∧
            ∃ root, ⟨root, s.sink, 0⟩ ∈ g.links ∧
              ∃ id, ReflTransGen (Feeds g.links) id root ∧ g.StopsAt o g.output? id) ∧
        ((∃ p, (compileStageIn o g d s).run = some (.ok p)) ↔
          (∀ l ∈ g.links, l.target ≠ s.sink) ∨
            ∃ root, ⟨root, s.sink, 0⟩ ∈ g.links ∧
              ∀ id, ReflTransGen (Feeds g.links) id root →
                hasValue g id = true ∧ ¬ g.StopsAt o g.output? id) := by
  have hw := hg.wellFormed
  cases hroot : (g.inputsOf s.sink).at? 0 with
  | none =>
    have hvacant := (sink_vacant_iff hw).mp hroot
    have hbuilds := run_compileStageIn_vacant hroot (d := d)
    rw [compileStage_vacant hroot] at hbuilds ⊢
    refine ⟨⟨fun _ => .inl hvacant, fun _ => ⟨_, rfl⟩⟩, fun id => ⟨?_, ?_⟩, fun c => (by simp),
      fun o => ⟨.inl (hbuilds o), fun _ => .inl hvacant, fun _ => ⟨_, hbuilds o⟩⟩⟩
    · intro h
      cases h
    · rintro ⟨root, hl, _⟩
      exact absurd rfl (hvacant _ hl)
  | some root =>
    have hl := (Graph.input_iff hw).mp hroot
    have honly : ∀ x, ⟨x, s.sink, 0⟩ ∈ g.links → x = root := by
      intro x hx
      have hinput := (Graph.input_iff hw).mpr hx
      rw [hroot] at hinput
      exact (Option.some.inj hinput).symm
    -- The stage is not vacant, and what leads into it is the root.
    have hrooted : ∀ P : NodeId → Prop, P root ↔
        (∀ l ∈ g.links, l.target ≠ s.sink) ∨ ∃ x, ⟨x, s.sink, 0⟩ ∈ g.links ∧ P x := by
      intro P
      refine ⟨fun h => .inr ⟨root, hl, h⟩, ?_⟩
      rintro (hvacant | ⟨x, hx, h⟩)
      · exact absurd rfl (hvacant _ hl)
      · exact honly x hx ▸ h
    refine ⟨?_, fun id => ?_, fun c => compileStage_ne_cycle hw hroot, fun o => ⟨?_, ?_⟩⟩
    · rw [compileStage_ok_iff hw hroot]
      exact hrooted fun x => ∀ id, ReflTransGen (Feeds g.links) id x → hasValue g id = true
    · rw [compileStage_unresolved_iff hw hroot]
      refine ⟨fun hfirst => ⟨root, hl, hfirst⟩, ?_⟩
      rintro ⟨x, hx, hfirst⟩
      exact honly x hx ▸ hfirst
    · rcases run_compileStageIn hw hroot o d with ⟨hnone, id, hid, hstops⟩ | ⟨hsome, -⟩
      · exact .inr ⟨hnone, hstops.1, root, hl, id, hid, hstops⟩
      · exact .inl hsome
    · rw [← hrooted fun x => ∀ id, ReflTransGen (Feeds g.links) id x →
        hasValue g id = true ∧ ¬ g.StopsAt o g.output? id, run_compileStageIn_ok_iff hw hroot]

/-- A texture sample at the fragment stage whose unit and mode both come, one through the other,
from a number that is gone. -/
def orphaned : Graph :=
  [.command (.createNode .float .standard) ⟨2⟩, .command (.createNode .negate .standard) ⟨3⟩,
    .command (.createNode .negate .standard) ⟨4⟩,
    .command (.createNode .textureSample .standard) ⟨5⟩, .command (.connect 2 3 none) ⟨6⟩,
    .recompute .topological, .command (.connect 3 4 none) ⟨6⟩, .recompute .topological,
    .command (.connect 4 5 (some 0)) ⟨6⟩, .command (.connect 3 5 (some 1)) ⟨6⟩,
    .command (.connect 5 1 none) ⟨6⟩, .command (.destroyNode 2) ⟨6⟩,
    .recompute .topological].foldl Graph.perform (.new ⟨0⟩ ⟨1⟩)

/-- A texture sample at the fragment stage that has been given a mode far too low since the last
pass. -/
def strained : Graph :=
  [.command (.createNode .float (.literal [.nearest true 3000000000 1])) ⟨2⟩,
    .command (.createNode .textureSample .standard) ⟨3⟩, .recompute .topological,
    .command (.connect 2 3 (some 1)) ⟨4⟩, .command (.connect 3 1 none) ⟨4⟩].foldl
      Graph.perform (.new ⟨0⟩ ⟨1⟩)

/-- The sample itself has a value. Of the two nodes below it without one it is fed by the younger at
the lower slot, which in turn is fed by the other. The mode that is too low stops a build that
checks. -/
theorem orphaned_unresolved :
    orphaned.links = [⟨3, 4, 0⟩, ⟨4, 5, 0⟩, ⟨3, 5, 1⟩, ⟨5, 1, 0⟩] ∧ hasValue orphaned 5 = true ∧
      (∀ d, compileStage orphaned d .fragment = .error (.unresolved 4) ∧
        ∃ p, compileStage orphaned d .vertex = .ok p) ∧
      ∀ d, (compileStageIn .stops strained d .fragment).run = none ∧
        ∃ p, (compileStageIn .stops strained d .vertex).run = some (.ok p) := by
  have hg : orphaned.Reachable := Graph.reachable_foldl (.new ⟨0⟩ ⟨1⟩) _
  have hlinks : orphaned.links = [⟨3, 4, 0⟩, ⟨4, 5, 0⟩, ⟨3, 5, 1⟩, ⟨5, 1, 0⟩] := by decide +kernel
  have hsample : hasValue orphaned 5 = true := by decide +kernel
  have hfirst : Walk.FirstBelow orphaned.inputsOf (fun id => !hasValue orphaned id) 5 4 := by
    refine ⟨by decide +kernel, [0], by decide +kernel, fun other y hother hy => ?_⟩
    cases other with
    | nil =>
      cases hother
      simp [hsample] at hy
    | cons slot rest =>
      cases slot with
      | zero => exact List.cons_le_cons 0 (not_lt.mp (List.not_lt_nil rest))
      | succ slot => exact le_of_lt (.rel (Nat.succ_pos slot))
  refine ⟨hlinks, hsample, fun d => ⟨?_, ?_⟩, fun d => ⟨?_, ?_⟩⟩
  · exact ((compiles_iff_resolved hg d .fragment).2.1 4).mpr ⟨5, by rw [hlinks]; decide, hfirst⟩
  · exact (compiles_iff_resolved hg d .vertex).1.mpr (.inl (by rw [hlinks]; decide))
  · have hstops : (compileStageIn .stops strained d .fragment).run.isNone = true := by
      cases d <;> decide +kernel
    exact Option.isNone_iff_eq_none.mp hstops
  · have hs : strained.Reachable := Graph.reachable_foldl (.new ⟨0⟩ ⟨1⟩) _
    have hvacant : ∀ l ∈ strained.links, l.target ≠ Stage.vertex.sink := by decide +kernel
    exact ((compiles_iff_resolved hs d .vertex).2.2.2 .stops).2.mpr (.inl hvacant)

end ShaderGraph.Glsl

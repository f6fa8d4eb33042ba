import ShaderGraph.Proofs.Glsl.Fitting
import ShaderGraph.Proofs.Glsl.Preservation
import ShaderGraph.Proofs.Glsl.Scope

namespace ShaderGraph

open Relation

namespace Glsl

section Lines

variable {c : Scope}

theorem components?_numbers (xs : List Scalar) :
    components? (xs.map fun _ => .float) = some xs.length := by
  induction xs with
  | nil => rfl
  | cons x xs ih =>
    have hgeneric : Shape.scalar ∈ Shape.generic := by decide
    rw [List.map_cons, components?, if_pos hgeneric, ih]
    exact congrArg some (Nat.add_comm 1 xs.length)

theorem literalExpr_type {v : Value} (hv : v.shape ≠ .empty) :
    (literalExpr v).type? c = some (.value v.shape) := by
  have hlength := v.length_eq
  unfold literalExpr
  split
  · rename_i x hx
    rw [hx] at hlength
    rw [← Shape.size_injective (s := .scalar) hlength]
    rfl
  · rename_i hmany
    have hscalar : v.shape ≠ .scalar := by
      intro hs
      rw [hs] at hlength
      obtain ⟨x, hx⟩ := List.length_eq_one_iff.mp hlength
      exact hmany x hx
    have hargs : components? (v.components.map fun _ => .float) = some v.shape.size :=
      (components?_numbers _).trans (congrArg some hlength)
    have htypes : Expr.types? c (v.components.map .number) =
        some (v.components.map fun _ => .float) := types?_map fun _ _ => rfl
    rw [Expr.type?, htypes, Option.bind_some]
    unfold constructor
    split
    · rename_i hs
      rw [hs] at hargs ⊢
      exact if_pos (.inr hargs)
    · rename_i hs
      refine type?_vector ?_ hargs
      revert hv hscalar hs
      cases v.shape <;> decide

/-- The statements of a node are well typed when its kind takes its operands, and only then. -/
theorem statement_wellTyped_iff {n : Node} {operands : Slots Operand}
    (ho : ∀ o ∈ operands.filled, o.Typed c)
    (hlimit : ∀ i, n.kind.inputLimit ≤ i → operands.at? i = none)
    (hunit : n.kind = .textureSample →
      textureUnit ((operands.at? 0).map Operand.value) ∈ c.samplers)
    (houtput : evaluate n.kind n.literal (operandValues operands) = n.output)
    (hvalid : n.isValid = true) {st : Statement}
    (hst : st ∈ statements c.dialect c.stage n operands) :
    st.WellTyped c ↔ n.kind.takes (operandShapes operands) = true := by
  have heq : ∀ {α : Type} {b : Bool} {x : α}, (if b then some x else none) = some x ↔ b = true := by
    intro α b x
    cases b <;> simp
  unfold statements at hst
  split at hst
  · cases hst
  rename_i hplain
  simp only [Bool.or_eq_true, not_or, Bool.not_eq_true] at hplain
  rcases List.mem_append.mp hst with hguard | hdefine
  · split at hguard
    · split at hguard
      · rename_i hsample
        rw [List.mem_singleton] at hguard
        subst hguard
        have htype := sample_type ho (hunit hsample.1)
        rw [Statement.WellTyped, type?_field rfl, htype, hsample.1]
        cases Kind.textureSample.takes (operandShapes operands)
        · simp
        · exact iff_of_true rfl rfl
      · cases hguard
    · cases hguard
  · rw [List.mem_singleton] at hdefine
    subst hdefine
    have hne := not_isEmpty_of_isValid hvalid
    have htype := expression_type ho hplain.1 hplain.2 hlimit hunit (houtput ▸ hne) n.id
    rw [houtput] at htype
    rw [Statement.WellTyped, htype]
    exact heq

theorem widenOutput_type {e : Expr} {s : Shape} (he : e.type? c = some (.value s))
    (hs : s ≠ .empty) : (widenOutput e s.size).type? c = some .vec4 ↔ s ≠ .mat4 := by
  have htype : (widenOutput e s.size).type? c = some (if s = .mat4 then .mat4 else .vec4) := by
    cases s with
    | empty => exact absurd rfl hs
    | scalar =>
      change (Expr.call2 (.vec 4) (.call1 (.vec 3) e) .one).type? c = _
      rw [type?_call2, type?_call1, he]
      rfl
    | vec2 =>
      change (Expr.call (.vec 4) [e, .zero, .one]).type? c = _
      rw [type?_call3, he]
      rfl
    | vec3 =>
      change (Expr.call2 (.vec 4) e .one).type? c = _
      rw [type?_call2, he]
      rfl
    | vec4 => exact he
    | mat4 => exact he
  rw [htype]
  cases s <;> decide

theorem defaultOutput_type : (defaultOutput c.stage).type? c = some .vec4 := by
  cases hs : c.stage with
  | vertex =>
    have hread := read_type (c := c) .position
    rw [hs] at hread
    have hmatrix : (Expr.ident "u_mvp").type? c = some .mat4 :=
      uniform_type (by intro s; cases s <;> rfl)
    have hposition : (Expr.call2 (.vec 4) (Attribute.position.read .vertex) .one).type? c =
        some .vec4 := by
      rw [type?_call2, hread]
      rfl
    rw [defaultOutput, type?_binary .mul (by decide) (by decide), hmatrix, hposition]
    rfl
  | fragment => rfl

end Lines

/-- Variables that are bound as a function says are looked up as it says. -/
theorem lookup_eq (shape? : NodeId → Option Shape) {bindings : List (NodeId × Shape)}
    (hall : ∀ x ∈ bindings, shape? x.1 = some x.2) {id : NodeId}
    (hid : id ∈ bindings.map Prod.fst) : bindings.lookup id = shape? id := by
  induction bindings with
  | nil => cases hid
  | cons x bindings ih =>
    rw [List.lookup_cons]
    by_cases hx : id = x.1
    · subst hx
      simp [hall x (by simp)]
    · have hne : (id == x.1) = false := by simpa using hx
      rw [hne]
      refine ih (fun y hy => hall y (by simp [hy])) ?_
      rcases List.mem_cons.mp hid with h | h
      · exact absurd h hx
      · exact h

theorem defines?_eq (st : Statement) : st.defines? = st.binding?.map Prod.fst := by
  cases st <;> rfl

theorem binding_of_name {x : Declaration} {id : NodeId} (h : x.name = .node id) :
    ∃ s, x.binding? = some (id, s) := by
  cases x <;> cases h <;> exact ⟨_, rfl⟩

/-- Whatever was introduced has a binding. -/
theorem mem_scope {p : Program} {before : List Statement} {id : NodeId}
    (h : .node id ∈ p.declarations.map Declaration.name ∨
      id ∈ before.filterMap Statement.defines?) :
    id ∈ (p.scope before).nodes.map Prod.fst := by
  simp only [Program.scope, List.map_append, List.mem_append]
  refine h.imp (fun h => ?_) (fun h => ?_)
  · obtain ⟨x, hx, hname⟩ := List.mem_map.mp h
    obtain ⟨s, hs⟩ := binding_of_name hname
    exact List.mem_map.mpr ⟨(id, s), List.mem_filterMap.mpr ⟨x, hx, hs⟩, rfl⟩
  · obtain ⟨st, hst, hid⟩ := List.mem_filterMap.mp h
    rw [defines?_eq, Option.map_eq_some_iff] at hid
    obtain ⟨b, hb, rfl⟩ := hid
    exact List.mem_map.mpr ⟨b, List.mem_filterMap.mpr ⟨st, hst, hb⟩, rfl⟩

theorem binding_of_statement {d : Dialect} {s : Stage} {n : Node} {operands : Slots Operand}
    {st : Statement} (hst : st ∈ statements d s n operands) {x : NodeId × Shape}
    (hx : st.binding? = some x) : x = (n.id, n.output.shape) := by
  unfold statements at hst
  split at hst
  · cases hst
  rcases List.mem_append.mp hst with hguard | hdefine
  · split at hguard
    · split at hguard
      · rw [List.mem_singleton] at hguard
        subst hguard
        cases hx
      · cases hguard
    · cases hguard
  · rw [List.mem_singleton] at hdefine
    subst hdefine
    exact (Option.some.inj hx).symm

section Emission

variable {g : Graph} {d : Dialect} {s : Stage} {root : NodeId} {p : Program} {w : Walk}

namespace Emitted

/-- Every variable in scope has the shape of the value of its node. -/
theorem scope_shapes (h : Emitted g d s root p w) (hw : g.WellFormed) (he : g.Evaluated)
    {before after : List Statement} (hsplit : p.body = before ++ after) :
    ∀ x ∈ (p.scope before).nodes, (g.output? x.1).map Value.shape = some x.2 := by
  intro x hx
  rcases List.mem_append.mp hx with hx | hx
  · obtain ⟨y, hy, hbinding⟩ := List.mem_filterMap.mp hx
    obtain ⟨n, hn, -, hdeclares⟩ := (h.mem_declarations hw).mp hy
    rcases declaration?_eq_some.mp hdeclares with ⟨hl, rfl⟩ | ⟨-, rfl⟩
    · have hx : x = (n.id, n.output.shape) := by
        rw [he.output_eq_literal hn hl]
        rcases literalDeclaration_cases n with hline | hline <;> rw [hline] at hbinding <;>
          exact (Option.some.inj hbinding).symm
      rw [hx, Graph.output?_of_mem hw.id_once hn]
      rfl
    · cases hbinding
  · obtain ⟨st, hst, hbinding⟩ := List.mem_filterMap.mp hx
    have hbody : st ∈ p.body := hsplit ▸ List.mem_append_left _ hst
    rw [h.body] at hbody
    obtain ⟨n, hn, hst⟩ := List.mem_flatMap.mp hbody
    rw [binding_of_statement hst hbinding,
      Graph.output?_of_mem hw.id_once ((h.mem_postorder hw).mp hn).1]
    rfl

/-- A node behind the stage output that was introduced has a variable of its shape. -/
theorem typed_of_introduced (h : Emitted g d s root p w) (hw : g.WellFormed) (he : g.Evaluated)
    {before after : List Statement} (hsplit : p.body = before ++ after) {id : NodeId} {v : Value}
    (hv : g.output? id = some v) (hbehind : ReflTransGen (Feeds g.links) id root)
    (hintroduced : .node id ∈ p.declarations.map Declaration.name ∨
      id ∈ before.filterMap Statement.defines?) : (Operand.mk id v).Typed (p.scope before) := by
  have hlookup := lookup_eq (fun id => (g.output? id).map Value.shape)
    (h.scope_shapes hw he hsplit) (mem_scope hintroduced)
  obtain ⟨n, hn, rfl⟩ := Graph.mem_ids.mp (h.live id ((h.behind id).mpr hbehind))
  have hvalid := h.valid n hn ((h.behind n.id).mpr hbehind)
  refine ⟨hlookup.trans (by rw [hv]; rfl), ?_⟩
  rw [Graph.output?_of_mem hw.id_once hn] at hv
  cases hv
  simpa [Value.isEmpty] using not_isEmpty_of_isValid hvalid

theorem declaration_wellTyped (h : Emitted g d s root p w) (hw : g.WellFormed) (he : g.Evaluated)
    {x : Declaration} (hx : x ∈ p.declarations) (c : Scope) : x.WellTyped c := by
  obtain ⟨n, hn, hbehind, hdeclares⟩ := (h.mem_declarations hw).mp hx
  rcases declaration?_eq_some.mp hdeclares with ⟨hl, rfl⟩ | ⟨-, rfl⟩
  · have hvalid := not_isEmpty_of_isValid (h.valid n hn ((h.behind n.id).mpr hbehind))
    have hempty : n.literal.shape ≠ .empty := by
      rw [← he.output_eq_literal hn hl]
      simpa [Value.isEmpty] using hvalid
    rcases literalDeclaration_cases n with hline | hline <;> rw [hline]
    · exact hempty
    · exact literalExpr_type hempty
  · trivial

/-- A line belongs to a node behind the stage output, and is well typed where it stands just when
the kind of the node takes the shapes in its slots. -/
theorem line_wellTyped_iff (h : Emitted g d s root p w) (hw : g.WellFormed) (he : g.Evaluated)
    (hroot : (g.inputsOf s.sink).at? 0 = some root) {before after : List Statement} {st : Statement}
    (hsplit : p.body = before ++ st :: after) :
    ∃ n ∈ g.nodes, ReflTransGen (Feeds g.links) n.id root ∧
      st ∈ statements d s n (operandsOf g g.links n.id) ∧
      (st.WellTyped (p.scope before) ↔ n.kind.takes (g.inputShapes n.id) = true) := by
  have hbody := hsplit
  rw [h.body] at hbody
  obtain ⟨earlier, n, later, pre, post, hnodes, hst, hbefore⟩ := flatMap_eq_append_cons hbody
  have hmember : st ∈ statements d s n (operandsOf g g.links n.id) :=
    hst ▸ List.mem_append_right pre List.mem_cons_self
  have hwalked : n ∈ w.postorder.filterMap g.node? := by simp [hnodes]
  obtain ⟨hn, hbehind⟩ := (h.mem_postorder hw).mp hwalked
  refine ⟨n, hn, hbehind, hmember, ?_⟩
  have htyped : ∀ o ∈ (operandsOf g g.links n.id).filled, o.Typed (p.scope before) := by
    intro o ho
    obtain ⟨i, hi⟩ := Slots.mem_filled.mp ho
    obtain ⟨hinput, hvalue⟩ := input_of_operand hi
    obtain ⟨hbehind, hintroduced⟩ := h.introduced_before hw hroot hnodes
      (Slots.mem_filled.mpr ⟨i, hinput⟩)
    refine h.typed_of_introduced hw he hsplit hvalue hbehind (hintroduced.imp_right fun hid => ?_)
    rw [hbefore, List.filterMap_append]
    exact List.mem_append_left _ hid
  have hunit : n.kind = .textureSample →
      textureUnit (((operandsOf g g.links n.id).at? 0).map Operand.value) ∈
        p.declarations.filterMap Declaration.unit? := fun hk =>
    List.mem_filterMap.mpr ⟨_, (h.mem_declarations hw).mpr
      ⟨n, hn, hbehind, declaration?_eq_some.mpr (.inr ⟨hk, rfl⟩)⟩, rfl⟩
  have houtput : evaluate n.kind n.literal (operandValues (operandsOf g g.links n.id)) =
      n.output := by
    rw [operandValues, values_operandsOf, he.output n hn, Graph.valueIn]
  rw [← operandShapes_operandsOf]
  refine statement_wellTyped_iff htyped (fun i hi => operand_past_limit hw hn hi) hunit houtput
    (h.valid n hn ((h.behind n.id).mpr hbehind)) ?_
  rw [← h.dialect, ← h.stage] at hmember
  exact hmember

theorem output_wellTyped_iff (h : Emitted g d s root p w) (hw : g.WellFormed) (he : g.Evaluated)
    (hroot : (g.inputsOf s.sink).at? 0 = some root) {n : Node} (hn : n ∈ g.nodes)
    (hid : n.id = root) :
    p.output.type? (p.scope p.body) = some .vec4 ↔ n.output.shape ≠ .mat4 := by
  subst hid
  have houtput := Graph.output?_of_mem hw.id_once hn
  have htyped := h.typed_of_introduced hw he (List.append_nil p.body).symm houtput .refl
    (h.program_scoped hw hroot).root_introduced
  rw [h.output, houtput]
  exact widenOutput_type htyped.expr htyped.nonempty

theorem wellTyped_iff (h : Emitted g d s root p w) (hw : g.WellFormed) (he : g.Evaluated)
    (hroot : (g.inputsOf s.sink).at? 0 = some root) :
    p.WellTyped ↔ (∀ n ∈ g.nodes, ReflTransGen (Feeds g.links) n.id root →
        n.kind.takes (g.inputShapes n.id) = true) ∧
      ∀ n ∈ g.nodes, n.id = root → n.output.shape ≠ .mat4 := by
  constructor
  · intro hp
    refine ⟨fun n hn hbehind => ?_, fun n hn hid =>
      (h.output_wellTyped_iff hw he hroot hn hid).mp hp.output⟩
    by_cases hl : n.kind.isLiteral = true
    · have hzero : n.kind.inputLimit = 0 := by
        revert hl
        cases n.kind <;> decide
      rw [← operandShapes_operandsOf]
      exact takes_vacant hzero fun i hi => operand_past_limit hw hn hi
    · have hsink := not_isSink_of_behind hw hroot hn hbehind
      have hdefine : Statement.define n.output.shape n.id
          (expression d s n.kind n.id (operandsOf g g.links n.id)) ∈ p.body := by
        rw [h.body]
        refine List.mem_flatMap.mpr ⟨n, (h.mem_postorder hw).mpr ⟨hn, hbehind⟩, ?_⟩
        simp [statements, hl, hsink]
      obtain ⟨before, after, hsplit⟩ := List.append_of_mem hdefine
      obtain ⟨m, hm, -, hst, hiff⟩ := h.line_wellTyped_iff hw he hroot hsplit
      have hid := congrArg Prod.fst (binding_of_statement hst rfl)
      rw [List.inj_on_of_nodup_map hw.id_once hn hm hid]
      exact hiff.mp (hp.body before _ after hsplit)
  · rintro ⟨hnodes, hout⟩
    refine ⟨fun x hx => h.declaration_wellTyped hw he hx _, fun before st after hsplit => ?_, ?_⟩
    · obtain ⟨n, hn, hbehind, -, hiff⟩ := h.line_wellTyped_iff hw he hroot hsplit
      exact hiff.mpr (hnodes n hn hbehind)
    · obtain ⟨n, hn, hid⟩ := Graph.mem_ids.mp (h.live root ((h.behind root).mpr .refl))
      exact (h.output_wellTyped_iff hw he hroot hn hid).mpr (hout n hn hid)

end Emitted

/-- What is behind a stage output is the output itself, or behind its one input. -/
theorem behind_sink_iff (hw : g.WellFormed) {id : NodeId} :
    ReflTransGen (Feeds g.links) id s.sink ↔ id = s.sink ∨
      ∃ root, (g.inputsOf s.sink).at? 0 = some root ∧ ReflTransGen (Feeds g.links) id root := by
  constructor
  · intro h
    rcases ReflTransGen.cases_tail h with hsame | ⟨root, hroot, l, hl, rfl, hsink⟩
    · exact .inl hsame.symm
    · obtain ⟨m, hm, hid, hlt⟩ := hw.wired.target l hl
      obtain ⟨n, hn, hnid, hkind⟩ := sink_node hw s
      have hmn : m = n :=
        List.inj_on_of_nodup_map hw.id_once hm hn (hid.trans (hsink.trans hnid.symm))
      have hone : m.kind.inputLimit = 1 := by
        rw [hmn]
        revert hkind
        cases n.kind <;> decide
      have hzero : l.slot = 0 := by
        have := (hw.formed m hm).limit_le_inputLimit
        omega
      refine .inr ⟨l.source, (Graph.input_iff hw).mpr ?_, hroot⟩
      rw [← hsink, ← hzero]
      exact hl
  · rintro (rfl | ⟨root, hroot, h⟩)
    · exact .refl
    · exact h.tail ⟨_, (Graph.input_iff hw).mp hroot, rfl, rfl⟩

theorem sink_takes_iff (hw : g.WellFormed) {n : Node} (hn : n ∈ g.nodes)
    (hk : n.kind.isSink = true) :
    n.kind.takes (g.inputShapes n.id) = true ↔ (g.inputShapes n.id).at? 0 ≠ some .mat4 := by
  have htakes : n.kind.takes (g.inputShapes n.id) =
      decide (.mat4 ∉ (g.inputShapes n.id).filled) := by
    revert hk
    cases n.kind <;> first | exact fun _ => rfl | exact fun h => nomatch h
  rw [htakes, decide_eq_true_eq, Slots.mem_filled]
  refine not_congr ⟨?_, fun h => ⟨0, h⟩⟩
  rintro ⟨i, hi⟩
  have hlimit : n.kind.inputLimit = 1 := by
    revert hk
    cases n.kind <;> decide
  cases i with
  | zero => exact hi
  | succ i =>
    rw [← operandShapes_operandsOf, at?_operandShapes, operand_past_limit hw hn (by omega)] at hi
    cases hi

theorem program_of_vacant (hroot : (g.inputsOf s.sink).at? 0 = none)
    (hp : compileStage g d s = .ok p) : p = ⟨d, s, [], [], defaultOutput s⟩ := by
  rw [compileStage_vacant hroot] at hp
  exact (Except.ok.inj hp).symm

/-- A program with a body has an input at its stage output. -/
theorem input_of_body (hp : compileStage g d s = .ok p) (hbody : p.body ≠ []) :
    ∃ root, (g.inputsOf s.sink).at? 0 = some root := by
  cases hroot : (g.inputsOf s.sink).at? 0 with
  | some root => exact ⟨root, rfl⟩
  | none =>
    rw [program_of_vacant hroot hp] at hbody
    exact absurd rfl hbody

theorem wellTyped_of_vacant (hroot : (g.inputsOf s.sink).at? 0 = none)
    (hp : compileStage g d s = .ok p) : p.WellTyped := by
  rw [program_of_vacant hroot hp]
  refine ⟨fun x hx => (nomatch hx), fun before st after hsplit => ?_, defaultOutput_type⟩
  simp at hsplit

/-- A program that compiles is well typed just when every node behind the stage output takes the
shapes in its slots. -/
theorem wellTyped_iff_takes (hw : g.WellFormed) (he : g.Evaluated)
    (hp : compileStage g d s = .ok p) :
    p.WellTyped ↔ ∀ n ∈ g.nodes, ReflTransGen (Feeds g.links) n.id s.sink →
      n.kind.takes (g.inputShapes n.id) = true := by
  obtain ⟨sink, hsink, hid, hkind⟩ := sink_node hw s
  have hunique : ∀ n ∈ g.nodes, n.id = s.sink → n = sink := fun n hn h =>
    List.inj_on_of_nodup_map hw.id_once hn hsink (h.trans hid.symm)
  have htakes := sink_takes_iff hw hsink hkind
  rw [Graph.at?_inputShapes, hid] at htakes
  cases hroot : (g.inputsOf s.sink).at? 0 with
  | none =>
    refine iff_of_true (wellTyped_of_vacant hroot hp) fun n hn hbehind => ?_
    rcases (behind_sink_iff hw).mp hbehind with hn' | ⟨root, hroot', -⟩
    · rw [hunique n hn hn', hid, htakes, hroot]
      simp
    · rw [hroot] at hroot'
      cases hroot'
  | some root =>
    obtain ⟨w, h⟩ := emitted_of_compileStage hw hroot hp
    obtain ⟨m, hm, rfl⟩ := Graph.mem_ids.mp (h.live root ((h.behind root).mpr .refl))
    have hshape : (g.output? m.id).map Value.shape = some m.output.shape := by
      rw [Graph.output?_of_mem hw.id_once hm]
      rfl
    rw [hroot, Option.bind_some, hshape, Ne, Option.some_inj] at htakes
    rw [h.wellTyped_iff hw he hroot]
    constructor
    · rintro ⟨hnodes, hout⟩ n hn hbehind
      rcases (behind_sink_iff hw).mp hbehind with hn' | ⟨root, hroot', hbehind⟩
      · rw [hunique n hn hn', hid, htakes]
        exact hout m hm rfl
      · rw [hroot, Option.some_inj] at hroot'
        exact hnodes n hn (hroot' ▸ hbehind)
    · intro hnodes
      refine ⟨fun n hn hbehind => hnodes n hn ((behind_sink_iff hw).mpr (.inr ⟨_, hroot, hbehind⟩)),
        fun n hn hn' => ?_⟩
      rw [List.inj_on_of_nodup_map hw.id_once hn hm hn']
      have hall := hnodes sink hsink ((behind_sink_iff hw).mpr (.inl hid))
      rw [hid] at hall
      exact htakes.mp hall

/-- Nodes behind the stage output of a program that compiles have what they need. -/
theorem isMet_of_behind (hw : g.WellFormed) (he : g.Evaluated) (hp : compileStage g d s = .ok p)
    {n : Node} (hn : n ∈ g.nodes) (hbehind : ReflTransGen (Feeds g.links) n.id s.sink) :
    n.kind.requirement.isMet (operandValues (operandsOf g g.links n.id)) = true := by
  rcases (behind_sink_iff hw).mp hbehind with hsink | ⟨root, hroot, hbehind⟩
  · obtain ⟨sink, hmem, hid, hkind⟩ := sink_node hw s
    rw [List.inj_on_of_nodup_map hw.id_once hn hmem (hsink.trans hid.symm)]
    have hneeds : sink.kind.requirement = .nothing := by
      revert hkind
      cases sink.kind <;> decide
    rw [hneeds]
    rfl
  · obtain ⟨w, h⟩ := emitted_of_compileStage hw hroot hp
    have hvalid := not_isEmpty_of_isValid (h.valid n hn ((h.behind n.id).mpr hbehind))
    rw [he.output n hn, Graph.valueIn, ← values_operandsOf] at hvalid
    exact isMet_of_evaluate hvalid

end Emission

end Glsl

namespace Session

open Glsl

/-- A program that compiles is well typed just when every node behind the stage output takes the
shapes in its slots, and each definition in it just when its own node does. As long as the links
behind the stage output fit, they all do. The text is that of the lines that are typed. -/
theorem programs_well_typed_iff {s : Session} (hs : s.Reachable) (ho : s.order = .topological)
    {d : Dialect} {stage : Stage} {p : Program} (hp : compileStage s.graph d stage = .ok p) :
    (p.WellTyped ↔ ∀ n ∈ s.graph.nodes, ReflTransGen (Feeds s.graph.links) n.id stage.sink →
      n.kind.takes (s.graph.inputShapes n.id) = true) ∧
    (∀ before shape id e after, p.body = before ++ .define shape id e :: after →
      ∃ n ∈ s.graph.nodes, n.id = id ∧ n.output.shape = shape ∧
        (e.type? (p.scope before) = some (.value shape) ↔
          n.kind.takes (s.graph.inputShapes id) = true)) ∧
    ((∀ l ∈ s.graph.links, ReflTransGen (Feeds s.graph.links) l.target stage.sink →
      s.graph.Fits l) → p.WellTyped) ∧
    Text.splitOn '\n' p.render.toList = p.lines.map String.toList ++ [[]] := by
  have hw := hs.graph.wellFormed
  have he := hs.evaluated ho
  have hiff := wellTyped_iff_takes hw he hp
  refine ⟨hiff, fun before shape id e after hsplit => ?_, fun hfits => ?_,
    Program.splitOn_render (plain_of_compileStage hw hp)⟩
  · obtain ⟨root, hroot⟩ := input_of_body hp (by simp [hsplit])
    obtain ⟨w, h⟩ := emitted_of_compileStage hw hroot hp
    obtain ⟨n, hn, -, hst, hline⟩ := h.line_wellTyped_iff hw he hroot hsplit
    obtain ⟨rfl, rfl⟩ := Prod.mk.inj (binding_of_statement hst rfl)
    exact ⟨n, hn, rfl, rfl, hline⟩
  · refine hiff.mpr fun n hn hbehind => ?_
    refine takes_of_fits hw hn (isMet_of_behind hw he hp hn hbehind) fun l hl htarget => ?_
    exact hfits l hl (htarget ▸ hbehind)

/-- A sample with an alpha threshold, toward gray, in the light that comes from the eye. -/
def litSession : Session :=
  ((Session.new ⟨0⟩ ⟨1⟩).applyAll Handle.mk
    [.createNode .textureSample .standard, .createNode .float .standard,
      .createNode .desaturate .standard, .createNode .normal .standard,
      .createNode .viewDirection .standard, .createNode .dot .standard,
      .createNode .multiply .standard, .setAlphaClip 2 (some (.nearest false 1 2)),
      .connect 2 4 (some 0), .connect 3 4 (some 1), .connect 5 7 none, .connect 6 7 none,
      .connect 4 8 none, .connect 7 8 none, .connect 8 1 none]).2

theorem lit_well_typed :
    ∃ p, compileStage litSession.graph .gles100 .fragment = .ok p ∧
      p.body.map Statement.render =
        ["if (texture2D(texture_0, v_uv).a < 0.5) discard;",
          "vec4 node_2 = texture2D(texture_0, v_uv);",
          "vec4 node_4 = vec4(mix(node_2.rgb, vec3(dot(node_2.rgb, vec3(0.3, 0.6, 0.1))), " ++
            "node_3), node_2.a);",
          "vec3 node_5 = normalize(v_normal);",
          "vec3 node_6 = normalize(u_camera_position - v_position);",
          "float node_7 = dot(node_5, node_6);", "vec4 node_8 = node_4 * node_7;"] ∧
      p.WellTyped := by
  have hs : litSession.Reachable := (Reachable.new ⟨0⟩ ⟨1⟩).applyAll Handle.mk _
  have hbody : (compileStage litSession.graph .gles100 .fragment).toOption.map
      (fun p => p.body.map Statement.render) =
        some ["if (texture2D(texture_0, v_uv).a < 0.5) discard;",
          "vec4 node_2 = texture2D(texture_0, v_uv);",
          "vec4 node_4 = vec4(mix(node_2.rgb, vec3(dot(node_2.rgb, vec3(0.3, 0.6, 0.1))), " ++
            "node_3), node_2.a);",
          "vec3 node_5 = normalize(v_normal);",
          "vec3 node_6 = normalize(u_camera_position - v_position);",
          "float node_7 = dot(node_5, node_6);", "vec4 node_8 = node_4 * node_7;"] := by
    decide +kernel
  have hrules : ∀ l ∈ litSession.graph.links, litSession.graph.misfit? l = none ∧
      (litSession.graph.output? l.source).map Value.shape ≠ some .mat4 := by
    decide +kernel
  obtain ⟨p, hp, hbody⟩ := Option.map_eq_some_iff.mp hbody
  have hp := except_toOption_eq_some.mp hp
  refine ⟨p, hp, hbody, (programs_well_typed_iff hs (by decide +kernel) hp).2.2.1 fun l hl _ => ?_⟩
  exact ⟨(hrules l hl).1, fun hmatrix => absurd hmatrix (hrules l hl).2⟩

def matrixSession : Session :=
  ((Session.new ⟨0⟩ ⟨1⟩).applyAll Handle.mk
    [.createNode .matrix4 .standard, .createNode .abs .standard, .createNode .vector4 .standard,
      .createNode .multiply .standard, .connect 2 3 none, .connect 3 5 none, .connect 4 5 none,
      .connect 5 1 none]).2

/-- The greater of two numbers, the second of which becomes a vector when another part is appended
to it. -/
def unevenSession : Session :=
  ((Session.new ⟨0⟩ ⟨1⟩).applyAll Handle.mk
    [.createNode .float .standard, .createNode .append .standard, .createNode .max .standard,
      .createNode .vector2 .standard, .connect 2 3 none, .connect 2 4 none, .connect 3 4 none,
      .connect 5 3 none, .connect 4 1 none]).2

/-- A node behind the stage output that does not take its shapes spoils the program. -/
theorem ill_typed_of_takes {s : Session} (hs : s.Reachable) (ho : s.order = .topological)
    {d : Dialect} {stage : Stage} {p : Program} (hp : compileStage s.graph d stage = .ok p)
    (hnode : ∃ n ∈ s.graph.nodes, dependsOn s.graph.links stage.sink n.id = true ∧
      n.kind.takes (s.graph.inputShapes n.id) = false) : ¬p.WellTyped := by
  intro htyped
  obtain ⟨n, hn, hbehind, hfalse⟩ := hnode
  have htakes := (wellTyped_iff_takes hs.graph.wellFormed (hs.evaluated ho) hp).mp htyped n hn
    ((dependsOn_iff _ _ _).mp hbehind)
  rw [hfalse] at htakes
  cases htakes

/-- A program may compile and not be well typed. All links may pass their shape rules, but there is
no absolute value of a matrix, and a number in front of a vector is not widened. -/
theorem matrix_ill_typed :
    (matrixSession.Reachable ∧ matrixSession.order = .topological ∧
      (∀ l ∈ matrixSession.graph.links, matrixSession.graph.misfit? l = none) ∧
      ∃ p, compileStage matrixSession.graph .glsl330 .fragment = .ok p ∧
        p.body.map Statement.render =
          ["mat4 node_3 = abs(node_2);", "vec4 node_5 = node_3 * node_4;"] ∧
        (Expr.call1 .abs (.node 2)).type? (p.scope []) = none ∧ ¬p.WellTyped) ∧
    unevenSession.Reachable ∧ unevenSession.order = .topological ∧
      ∃ p, compileStage unevenSession.graph .glsl330 .fragment = .ok p ∧
        p.body.map Statement.render =
          ["vec3 node_3 = vec3(node_2, node_5);", "vec3 node_4 = max(node_2, node_3);"] ∧
        (Expr.call2 .max (.node 2) (.node 3)).type? (p.scope p.body) = none ∧ ¬p.WellTyped := by
  have hmatrix : matrixSession.Reachable := (Reachable.new ⟨0⟩ ⟨1⟩).applyAll Handle.mk _
  have huneven : unevenSession.Reachable := (Reachable.new ⟨0⟩ ⟨1⟩).applyAll Handle.mk _
  have horder : matrixSession.order = .topological ∧ unevenSession.order = .topological := by
    decide +kernel
  have habs : (compileStage matrixSession.graph .glsl330 .fragment).toOption.map
      (fun p => (p.body.map Statement.render,
        (Expr.call1 .abs (.node 2)).type? (p.scope []))) =
      some (["mat4 node_3 = abs(node_2);", "vec4 node_5 = node_3 * node_4;"], none) := by
    decide +kernel
  have hmax : (compileStage unevenSession.graph .glsl330 .fragment).toOption.map
      (fun p => (p.body.map Statement.render,
        (Expr.call2 .max (.node 2) (.node 3)).type? (p.scope p.body))) =
      some
        (["vec3 node_3 = vec3(node_2, node_5);", "vec3 node_4 = max(node_2, node_3);"], none) := by
    decide +kernel
  refine ⟨⟨hmatrix, horder.1, by decide +kernel, ?_⟩, huneven, horder.2, ?_⟩
  · obtain ⟨p, hp, hprogram⟩ := Option.map_eq_some_iff.mp habs
    obtain ⟨hbody, htype⟩ := Prod.mk.inj hprogram
    have hp := except_toOption_eq_some.mp hp
    exact ⟨p, hp, hbody, htype, ill_typed_of_takes hmatrix horder.1 hp (by decide +kernel)⟩
  · obtain ⟨p, hp, hprogram⟩ := Option.map_eq_some_iff.mp hmax
    obtain ⟨hbody, htype⟩ := Prod.mk.inj hprogram
    have hp := except_toOption_eq_some.mp hp
    exact ⟨p, hp, hbody, htype, ill_typed_of_takes huneven horder.2 hp (by decide +kernel)⟩

end Session

end ShaderGraph

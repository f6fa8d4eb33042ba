import ShaderGraph.Proofs.Glsl.Emission
import ShaderGraph.Proofs.Glsl.Meaning
import ShaderGraph.Proofs.Glsl.Names

namespace ShaderGraph.Glsl

def Statement.Over (V : Name → Prop) : Statement → Prop
  | define _ _ e => e.Over V
  | discardBelow sample _ => sample.Over V

section Expressions

variable {V : Name → Prop}

theorem over_literalExpr (v : Value) : (literalExpr v).Over V := by
  unfold literalExpr
  split
  · trivial
  · refine over_call _ fun e he => ?_
    obtain ⟨x, _, rfl⟩ := List.mem_map.mp he
    trivial

theorem over_widenOutput {e : Expr} (he : e.Over V) (n : Nat) : (widenOutput e n).Over V := by
  unfold widenOutput
  split
  · exact over_call2 (.vec 4) (over_call1 (.vec 3) he) trivial
  · exact over_call3 (.vec 4) he trivial trivial
  · exact over_call2 (.vec 4) he trivial
  · exact he

theorem over_defaultOutput (s : Stage) : (defaultOutput s).Over V := by
  cases s with
  | vertex =>
    exact over_binary .mul (foreign_of_stems (by decide))
      (over_call2 (.vec 4) (over_read .position .vertex) trivial)
  | fragment => exact over_call1 (.vec 4) trivial

end Expressions

section Statements

variable {d : Dialect} {s : Stage} {n : Node} {operands : Slots Operand}

theorem discardBelow_toList (e : Expr) (threshold : Scalar) :
    (Statement.discardBelow e threshold).render.toList =
      "if".toList ++ ' ' :: '(' :: ((Expr.field e "a").render.toList ++ ' ' :: '<' :: ' ' ::
        ((numberText threshold).toList ++ ')' :: ' ' :: ("discard".toList ++ ';' :: []))) := by
  have hopen : ("if (" : String).toList = "if".toList ++ [' ', '('] := rfl
  have hless : (" < " : String).toList = [' ', '<', ' '] := rfl
  have hclose : (") discard;" : String).toList = ')' :: ' ' :: ("discard".toList ++ [';']) := rfl
  change ("if (" ++ (Expr.field e "a").render ++ " < " ++ numberText threshold ++
    ") discard;").toList = _
  simp only [String.toList_append, hopen, hless, hclose, List.append_assoc, List.cons_append,
    List.nil_append]

/-- The statements of a node read its operands and, for a texture sample, its sampler. -/
theorem statements_over {V : Name → Prop} (h : ∀ o ∈ operands.filled, V (.node o.id))
    (hunit : n.kind = .textureSample →
      V (.sampler (textureUnit ((operands.at? 0).map Operand.value))))
    {st : Statement} (hst : st ∈ statements d s n operands) : st.Over V := by
  unfold statements at hst
  split at hst
  · cases hst
  rename_i hplain
  simp only [Bool.or_eq_true, not_or, Bool.not_eq_true] at hplain
  rcases List.mem_append.mp hst with hguard | hdefine
  · split at hguard
    · split at hguard
      · rename_i hsample
        rw [List.mem_singleton] at hguard
        subst hguard
        exact over_sample d s h (hunit hsample.1)
      · cases hguard
    · cases hguard
  · rw [List.mem_singleton] at hdefine
    subst hdefine
    exact expression_over d s hplain.1 n.id h hunit

end Statements

theorem foreign_keyword (s : Shape) : Foreign s.keyword.toList := by
  cases s <;> exact foreign_of_stems (by decide)

theorem one_line_nodeName (id : NodeId) : '\n' ∉ (nodeName id).toList :=
  newline_notMem_name (Name.node id).text_isName

theorem one_line_declaration (x : Declaration) : '\n' ∉ x.render.toList := by
  cases x with
  | constant id v =>
    have hvalue := one_line_render _ (over_literalExpr (V := fun _ => True) v)
    simp [render_constant, (foreign_keyword v.shape).one_line, one_line_nodeName, hvalue]
  | uniform id shape =>
    change '\n' ∉ ("uniform " ++ shape.keyword ++ " " ++ nodeName id ++ ";").toList
    simp [(foreign_keyword shape).one_line, one_line_nodeName]
  | sampler unit =>
    have hname : '\n' ∉ (samplerName unit).toList :=
      newline_notMem_name (Name.sampler unit).text_isName
    change '\n' ∉ ("uniform sampler2D " ++ samplerName unit ++ ";").toList
    simp [hname]

theorem one_line_statement {V : Name → Prop} {st : Statement} (h : st.Over V) :
    '\n' ∉ st.render.toList := by
  cases st with
  | define shape id e =>
    simp [render_define, (foreign_keyword shape).one_line, one_line_nodeName, one_line_render e h]
  | discardBelow sample threshold =>
    rw [discardBelow_toList, field_toList]
    simp [one_line_render sample h, (foreign_numberText threshold).one_line]

theorem foreign_lines {lines : List String}
    (h : lines.all (fun line => hasNoStem line.toList) = true) :
    ∀ line ∈ lines, Foreign line.toList :=
  fun line hline => foreign_of_stems (List.all_eq_true.mp h line hline)

namespace Program

/-- Only the nodes and samplers of a program have names like theirs. -/
structure Plain (p : Program) : Prop where
  body : ∀ st ∈ p.body, st.Over fun _ => True
  output : p.output.Over fun _ => True

theorem foreign_header (p : Program) : ∀ line ∈ p.header, Foreign line.toList := by
  obtain ⟨d, s, declarations, body, output⟩ := p
  change ∀ line ∈ header ⟨d, s, [], [], .blank⟩, Foreign line.toList
  refine foreign_lines ?_
  cases d <;> cases s <;> decide

theorem foreign_target (d : Dialect) (s : Stage) : Foreign (s.target d).toList := by
  cases d <;> cases s <;> exact foreign_of_stems (by decide)

theorem foreign_passed (s : Stage) : ∀ line ∈ (if s = .vertex then
    Attribute.all.map fun a => s!"{a.passed} = {a.source};" else []), Foreign line.toList := by
  refine foreign_lines ?_
  cases s <;> decide

theorem one_line_entry {p : Program} (h : p.Plain) : ∀ line ∈ p.entry, '\n' ∉ line.toList := by
  intro line hline
  rcases List.mem_append.mp hline with hline | hline
  · rcases List.mem_append.mp hline with hline | hline
    · exact (foreign_passed p.stage line hline).one_line
    · obtain ⟨st, hst, rfl⟩ := List.mem_map.mp hline
      exact one_line_statement (h.body st hst)
  · cases List.mem_singleton.mp hline
    change '\n' ∉ (p.stage.target p.dialect ++ " = " ++ p.output.render ++ ";").toList
    simp [(foreign_target p.dialect p.stage).one_line, one_line_render _ h.output]

theorem one_line_lines {p : Program} (h : p.Plain) : ∀ line ∈ p.lines, '\n' ∉ line.toList := by
  have huniforms : ∀ line ∈ uniforms, Foreign line.toList := foreign_lines (by decide)
  have hopen : ∀ line ∈ ["", "void main() \x7b"], Foreign line.toList := foreign_lines (by decide)
  have hclose : ∀ line ∈ ["\x7d"], Foreign line.toList := foreign_lines (by decide)
  intro line hline
  simp only [lines, List.mem_append] at hline
  rcases hline with ((((hline | hline) | hline) | hline) | hline) | hline
  · exact (p.foreign_header line hline).one_line
  · exact (huniforms line hline).one_line
  · obtain ⟨x, -, rfl⟩ := List.mem_map.mp hline
    exact one_line_declaration x
  · exact (hopen line hline).one_line
  · obtain ⟨line, hmem, rfl⟩ := List.mem_map.mp hline
    simp [one_line_entry h line hmem]
  · exact (hclose line hline).one_line

/-- The text of a program falls apart into its lines. -/
theorem splitOn_render {p : Program} (h : p.Plain) :
    Text.splitOn '\n' p.render.toList = p.lines.map String.toList ++ [[]] := by
  have hbreak : ("\n" : String).toList = ['\n'] := rfl
  have htext : p.render.toList = (p.lines.map String.toList).flatMap (· ++ ['\n']) ++ [] := by
    simp [render, String.toList_join, List.flatMap_map, hbreak]
  rw [htext]
  refine Text.splitOn_joined _ (fun line hline => ?_) List.not_mem_nil
  obtain ⟨line, hmem, rfl⟩ := List.mem_map.mp hline
  exact one_line_lines h line hmem

end Program

section

variable {g : Graph} {d : Dialect} {s : Stage} {p : Program}

/-- Nothing in a compiled program is called like a node but a node. -/
theorem plain_of_compileStage (hw : g.WellFormed) (hp : compileStage g d s = .ok p) : p.Plain := by
  cases hroot : (g.inputsOf s.sink).at? 0 with
  | none =>
    rw [compileStage_vacant hroot] at hp
    cases hp
    exact ⟨by simp, over_defaultOutput s⟩
  | some root =>
    obtain ⟨w, h⟩ := emitted_of_compileStage hw hroot hp
    refine ⟨fun st hst => ?_, ?_⟩
    · rw [h.body] at hst
      obtain ⟨n, _, hst⟩ := List.mem_flatMap.mp hst
      exact statements_over (fun _ _ => trivial) (fun _ => trivial) hst
    · rw [h.output]
      exact over_widenOutput (V := fun _ => True) (e := .node root) trivial _

end

end ShaderGraph.Glsl

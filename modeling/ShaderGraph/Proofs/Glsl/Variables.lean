import Mathlib.Data.List.SplitBy
import ShaderGraph.Proofs.Glsl.Renumbering
import ShaderGraph.Proofs.Glsl.Scope

namespace ShaderGraph.Glsl

variable (f : NodeId → NodeId)

def nodeOf? (w : List Char) : Option NodeId :=
  (Text.digits? (w.drop (Name.node 0).stem.length)).filter fun id => (nodeName id).toList = w

def renumberWord (w : List Char) : List Char :=
  match nodeOf? w with
  | some id => (nodeName (f id)).toList
  | none => w

/-- A text with the variable of every node renamed; what is no word of letters, digits and
underscores stays. -/
def renumberText (cs : List Char) : List Char :=
  (cs.splitBy fun a b => isNameChar a && isNameChar b).flatMap (renumberWord f)

def renumbered (text : String) : String := String.ofList (renumberText f text.toList)

theorem nodeOf?_eq_some {w : List Char} {id : NodeId} :
    nodeOf? w = some id ↔ (nodeName id).toList = w := by
  rw [nodeOf?, Option.filter_eq_some_iff, decide_eq_true_eq]
  constructor
  · exact And.right
  · rintro rfl
    refine ⟨?_, rfl⟩
    rw [nodeName_toList]
    exact Text.digits?_toDigits id

section Words

variable {f}

theorem renumberText_nil : renumberText f [] = [] := rfl

theorem renumberText_append {c : Char} (hc : isNameChar c = false) (xs ys : List Char) :
    renumberText f (xs ++ c :: ys) = renumberText f xs ++ c :: renumberText f ys := by
  have hword : nodeOf? [c] = none := by
    cases hw : nodeOf? [c] with
    | none => rfl
    | some id =>
      have hname := Name.text_isName (.node id) c (by
        rw [Name.text, nodeOf?_eq_some.mp hw]
        exact List.mem_singleton_self c)
      rw [hc] at hname
      cases hname
  have hstep : ([c] ++ ys).splitBy (fun a b => isNameChar a && isNameChar b) =
      [[c]] ++ ys.splitBy fun a b => isNameChar a && isNameChar b :=
    List.splitBy_append (by simp [hc])
  rw [renumberText, List.splitBy_append_cons _ (by simp [hc]), List.flatMap_append,
    ← List.singleton_append, hstep]
  simp [renumberText, renumberWord, hword]

theorem renumberText_cons {c : Char} (hc : isNameChar c = false) (cs : List Char) :
    renumberText f (c :: cs) = c :: renumberText f cs :=
  renumberText_append hc [] cs

theorem renumberText_run {w : List Char} (hw : ∀ c ∈ w, isNameChar c = true) :
    renumberText f w = renumberWord f w := by
  by_cases hn : w = []
  · subst hn
    rfl
  · have hchain : w.IsChain fun a b => (isNameChar a && isNameChar b) = true := by
      refine List.Pairwise.isChain (List.pairwise_of_forall_mem_list fun a ha b hb => ?_)
      rw [hw a ha, hw b hb, Bool.and_self]
    rw [renumberText, List.splitBy_of_isChain hn hchain, List.flatMap_singleton]

theorem renumberText_nodeName (id : NodeId) :
    renumberText f (nodeName id).toList = (nodeName (f id)).toList := by
  have hname : ∀ c ∈ (nodeName id).toList, isNameChar c = true := Name.text_isName (.node id)
  rw [renumberText_run hname, renumberWord, nodeOf?_eq_some.mpr rfl]

/-- A word that is no node's variable stays. -/
theorem renumberWord_plain {w : List Char} (h : ∀ id, ¬ Mentions w (.node id)) :
    renumberWord f w = w := by
  rw [renumberWord]
  split
  · rename_i id hid
    have hmentions : Mentions (nodeName id).toList (.node id) :=
      mentions_text (w := .node id).mpr rfl
    rw [nodeOf?_eq_some.mp hid] at hmentions
    exact absurd hmentions (h id)
  · rfl

/-- Where no node is mentioned, nothing is renamed. The text is taken apart at the first character
that is in no word. -/
theorem renumberText_plain {cs : List Char} (h : ∀ id, ¬ Mentions cs (.node id)) :
    renumberText f cs = cs := by
  induction hn : cs.length using Nat.strong_induction_on generalizing cs with
  | _ n ih =>
    have hsplit : cs.takeWhile isNameChar ++ cs.dropWhile isNameChar = cs :=
      List.takeWhile_append_dropWhile
    have hword : ∀ c ∈ cs.takeWhile isNameChar, isNameChar c = true := fun c hc =>
      List.mem_takeWhile_imp hc
    cases hrest : cs.dropWhile isNameChar with
    | nil =>
      rw [hrest, List.append_nil] at hsplit
      rw [hsplit] at hword
      rw [renumberText_run hword, renumberWord_plain h]
    | cons c ys =>
      have hc : isNameChar c = false := by
        have := List.head?_dropWhile_not isNameChar cs
        simpa [hrest] using this
      rw [hrest] at hsplit
      have hlength : ys.length < n := by
        rw [← hn, ← hsplit]
        simp only [List.length_append, List.length_cons]
        omega
      have hboth : ∀ id, ¬ Mentions (cs.takeWhile isNameChar) (.node id) ∧
          ¬ Mentions ys (.node id) := by
        intro id
        rw [← not_or, ← mentions_append hc, hsplit]
        exact h id
      rw [← hsplit, renumberText_append hc, renumberText_run hword,
        renumberWord_plain fun id => (hboth id).1,
        ih ys.length hlength (fun id => (hboth id).2) rfl]

theorem renumberText_foreign {cs : List Char} (h : Foreign cs) : renumberText f cs = cs :=
  renumberText_plain fun id => h.not_mentions (.node id)

end Words

section Expressions

variable {f} {V : Name → Prop}

mutual

/-- To rename in the text of an expression is to renumber its nodes. -/
theorem renumberText_render : ∀ e : Expr, e.Over V →
    renumberText f e.render.toList = (e.renumber f).render.toList
  | .node id, _ => renumberText_nodeName id
  | .ident _, h => renumberText_foreign h
  | .sampler unit, _ => renumberText_plain fun id hid => by
    cases mentions_text (w := .sampler unit).mp hid
  | .number x, _ => renumberText_foreign (foreign_numberText x)
  | .call g args, h => by
    rw [Expr.renumber, call_toList, call_toList, renumberText_append (by decide),
      renumberText_append (by decide), renumberText_foreign (foreign_funcName g),
      renumberText_arguments args h, renumberText_nil]
  | .binary op a b, ⟨ha, hb⟩ => by
    obtain ⟨c, hc, htext⟩ := binary_toList op
    rw [Expr.renumber, htext, htext, renumberText_append (by decide), renumberText_cons hc,
      renumberText_cons (by decide), renumberText_render a ha, renumberText_render b hb]
  | .bracket e, h => by
    rw [Expr.renumber, bracket_toList, bracket_toList, renumberText_cons (by decide),
      renumberText_append (by decide), renumberText_render e h, renumberText_nil]
  | .field e letters, ⟨he, hl⟩ => by
    rw [Expr.renumber, field_toList, field_toList, renumberText_append (by decide),
      renumberText_render e he, renumberText_foreign hl]
  | .element m column row, h => by
    rw [Expr.renumber, element_toList, element_toList, renumberText_append (by decide),
      renumberText_append (by decide), renumberText_cons (by decide),
      renumberText_append (by decide), renumberText_render m h,
      renumberText_foreign (foreign_toDigits column), renumberText_foreign (foreign_toDigits row),
      renumberText_nil]
  | .blank, _ => renumberText_nil

theorem renumberText_arguments : ∀ args : List Expr, Expr.AllOver V args →
    renumberText f (String.intercalate ", " (Expr.renderAll args)).toList =
      (String.intercalate ", " (Expr.renderAll (Expr.renumberAll f args))).toList
  | [], _ => renumberText_nil
  | [e], ⟨he, _⟩ => by
    rw [show Expr.renderAll [e] = [e.render] from rfl,
      show Expr.renderAll (Expr.renumberAll f [e]) = [(e.renumber f).render] from rfl,
      String.intercalate_singleton, String.intercalate_singleton, renumberText_render e he]
  | e :: e' :: es, ⟨he, hes⟩ => by
    rw [Expr.renumberAll, Expr.renumberAll, arguments_toList, arguments_toList,
      renumberText_append (by decide), renumberText_cons (by decide), renumberText_render e he,
      renumberText_arguments (e' :: es) hes, Expr.renumberAll]

end

theorem renumber_literalExpr (v : Value) : (literalExpr v).renumber f = literalExpr v := by
  unfold literalExpr
  split
  · rfl
  · rw [renumber_call, List.map_map]
    rfl

end Expressions

theorem renumbered_eq {f : NodeId → NodeId} {text text' : String}
    (h : renumberText f text.toList = text'.toList) : renumbered f text = text' := by
  rw [renumbered, h, String.ofList_toList]

section Lines

variable {f} {V : Name → Prop}

/-- The definition of a node's variable, as both declarations and statements write it. -/
theorem renumberText_definition {start : List Char} (hstart : Foreign start) (id : NodeId)
    {e : Expr}
    (he : e.Over V) :
    renumberText f (start ++ ' ' :: ((nodeName id).toList ++ ' ' :: '=' :: ' ' ::
        (e.render.toList ++ [';']))) =
      start ++ ' ' :: ((nodeName (f id)).toList ++ ' ' :: '=' :: ' ' ::
        ((e.renumber f).render.toList ++ [';'])) := by
  rw [renumberText_append (by decide), renumberText_append (by decide),
    renumberText_cons (by decide), renumberText_cons (by decide), renumberText_append (by decide),
    renumberText_foreign hstart, renumberText_nodeName, renumberText_render e he, renumberText_nil]

theorem renumbered_declaration (x : Declaration) :
    renumbered f x.render = (x.renumber f).render := by
  refine renumbered_eq ?_
  cases x with
  | constant id v =>
    have htext : ∀ i, (Declaration.constant i v).render.toList =
        ("const".toList ++ ' ' :: v.shape.keyword.toList) ++ ' ' :: ((nodeName i).toList ++
          ' ' :: '=' :: ' ' :: ((literalExpr v).render.toList ++ [';'])) := by
      intro i
      simp [render_constant]
    have hstart : Foreign ("const".toList ++ ' ' :: v.shape.keyword.toList) :=
      (foreign_of_stems (by decide)).append (by decide) (by decide) (foreign_keyword v.shape)
    rw [htext, renumberText_definition hstart id (over_literalExpr (V := fun _ => True) v),
      renumber_literalExpr, Declaration.renumber, htext]
  | uniform id shape =>
    have htext : ∀ i, (Declaration.uniform i shape).render.toList = "uniform".toList ++ ' ' ::
        (shape.keyword.toList ++ ' ' :: ((nodeName i).toList ++ [';'])) := by
      intro i
      change ("uniform " ++ shape.keyword ++ " " ++ nodeName i ++ ";").toList = _
      simp
    rw [htext, renumberText_append (by decide), renumberText_append (by decide),
      renumberText_append (by decide), renumberText_foreign (foreign_of_stems (by decide)),
      renumberText_foreign (foreign_keyword shape), renumberText_nodeName, renumberText_nil,
      Declaration.renumber, htext]
  | sampler unit =>
    have htext : (Declaration.sampler unit).render.toList =
        "uniform sampler2D".toList ++ ' ' :: ((Expr.sampler unit).render.toList ++ [';']) := by
      change ("uniform sampler2D " ++ samplerName unit ++ ";").toList = _
      simp [Expr.render]
    rw [Declaration.renumber, htext, renumberText_append (by decide),
      renumberText_append (by decide), renumberText_foreign (foreign_of_stems (by decide)),
      renumberText_render (V := fun _ => True) (.sampler unit) trivial, renumberText_nil]
    rfl

theorem renumbered_statement {st : Statement} (h : st.Over V) :
    renumbered f st.render = (st.renumber f).render := by
  refine renumbered_eq ?_
  cases st with
  | define shape id e =>
    have htext : ∀ i (e : Expr), (Statement.define shape i e).render.toList =
        shape.keyword.toList ++ ' ' :: ((nodeName i).toList ++ ' ' :: '=' :: ' ' ::
          (e.render.toList ++ [';'])) := by
      intro i e
      simp [render_define]
    rw [htext, renumberText_definition (foreign_keyword shape) id h, Statement.renumber, htext]
  | discardBelow sample threshold =>
    have halpha : (Expr.field sample "a").Over V := ⟨h, foreign_of_stems (by decide)⟩
    rw [Statement.renumber, discardBelow_toList, discardBelow_toList,
      renumberText_append (by decide), renumberText_cons (by decide),
      renumberText_append (by decide), renumberText_cons (by decide),
      renumberText_cons (by decide), renumberText_append (by decide),
      renumberText_cons (by decide), renumberText_append (by decide),
      renumberText_foreign (foreign_of_stems (by decide)), renumberText_render _ halpha,
      renumberText_foreign (foreign_numberText threshold),
      renumberText_foreign (foreign_of_stems (by decide)), renumberText_nil, Expr.renumber]

theorem renumbered_indented (line : String) :
    renumbered f ("    " ++ line) = "    " ++ renumbered f line := by
  refine renumbered_eq ?_
  have hblank : isNameChar ' ' = false := by decide
  simp only [String.toList_append, renumbered, String.toList_ofList]
  change renumberText f (' ' :: ' ' :: ' ' :: ' ' :: line.toList) = _
  simp only [renumberText_cons hblank]
  rfl

theorem map_renumbered_foreign {lines : List String} (h : ∀ line ∈ lines, Foreign line.toList) :
    lines.map (renumbered f) = lines := by
  rw [List.map_congr_left fun line hline => renumbered_eq (renumberText_foreign (h line hline)),
    List.map_id']

/-- The lines of a text are renamed one by one. -/
theorem renumbered_join (lines : List String) :
    renumbered f (String.join (lines.map (· ++ "\n"))) =
      String.join ((lines.map (renumbered f)).map (· ++ "\n")) := by
  have hbreak : ("\n" : String).toList = ['\n'] := rfl
  refine renumbered_eq ?_
  simp only [String.toList_join, List.flatMap_map, String.toList_append, hbreak]
  induction lines with
  | nil => rfl
  | cons line lines ih =>
    rw [List.flatMap_cons, List.flatMap_cons, List.append_assoc, List.singleton_append,
      renumberText_append (by decide), ih, renumbered, String.toList_ofList, List.append_assoc,
      List.singleton_append]

end Lines

namespace Program

variable {f}

theorem renumbered_output {p : Program} (h : p.Plain) :
    renumbered f s!"{p.stage.target p.dialect} = {p.output.render};" =
      s!"{p.stage.target p.dialect} = {(p.output.renumber f).render};" := by
  have htext : ∀ e : Expr, (s!"{p.stage.target p.dialect} = {e.render};").toList =
      (p.stage.target p.dialect).toList ++ ' ' :: '=' :: ' ' :: (e.render.toList ++ [';']) := by
    intro e
    change (p.stage.target p.dialect ++ " = " ++ e.render ++ ";").toList = _
    simp
  refine renumbered_eq ?_
  rw [htext, htext, renumberText_append (by decide), renumberText_cons (by decide),
    renumberText_cons (by decide), renumberText_append (by decide),
    renumberText_foreign (foreign_target p.dialect p.stage), renumberText_render _ h.output,
    renumberText_nil]

theorem renumbered_entry {p : Program} (h : p.Plain) :
    p.entry.map (renumbered f) = (p.renumber f).entry := by
  have hbody : (p.body.map Statement.render).map (renumbered f) =
      (p.body.map (Statement.renumber f)).map Statement.render := by
    rw [List.map_map, List.map_map]
    exact List.map_congr_left fun st hst => renumbered_statement (h.body st hst)
  rw [entry, List.map_append, List.map_append, map_renumbered_foreign (foreign_passed p.stage),
    hbody, List.map_cons, List.map_nil, renumbered_output h]
  rfl

theorem renumbered_lines {p : Program} (h : p.Plain) :
    p.lines.map (renumbered f) = (p.renumber f).lines := by
  have hdeclarations : (p.declarations.map Declaration.render).map (renumbered f) =
      (p.declarations.map (Declaration.renumber f)).map Declaration.render := by
    rw [List.map_map, List.map_map]
    exact List.map_congr_left fun x _ => renumbered_declaration x
  have hentry : (p.entry.map ("    " ++ ·)).map (renumbered f) =
      (p.renumber f).entry.map ("    " ++ ·) := by
    rw [← renumbered_entry h, List.map_map, List.map_map]
    exact List.map_congr_left fun line _ => renumbered_indented line
  have huniforms : ∀ line ∈ uniforms, Foreign line.toList := foreign_lines (by decide)
  have hopen : ∀ line ∈ ["", "void main() \x7b"], Foreign line.toList := foreign_lines (by decide)
  have hclose : ∀ line ∈ ["\x7d"], Foreign line.toList := foreign_lines (by decide)
  simp only [lines, List.map_append, map_renumbered_foreign p.foreign_header,
    map_renumbered_foreign huniforms, hdeclarations, map_renumbered_foreign hopen, hentry,
    map_renumbered_foreign hclose]
  rfl

/-- To rename in the text of a program is to renumber its nodes. -/
theorem renumbered_render {p : Program} (h : p.Plain) :
    renumbered f p.render = (p.renumber f).render := by
  rw [render, renumbered_join, renumbered_lines h, render]

end Program

end ShaderGraph.Glsl

import ShaderGraph.Proofs.Sessions
import ShaderGraph.Proofs.Glsl.Lines

namespace ShaderGraph.Glsl

open Relation

def Declaration.name : Declaration → Name
  | constant id _ | uniform id _ => .node id
  | sampler unit => .sampler unit

theorem name_literalDeclaration (n : Node) : (literalDeclaration n).name = .node n.id := by
  rcases literalDeclaration_cases n with h | h <;> rw [h] <;> rfl

def Statement.defines? : Statement → Option NodeId
  | define _ id _ => some id
  | discardBelow .. => none

/-- The part of a statement that mentions names: all of it, but for the variable it introduces. -/
def Statement.reading : Statement → List Char
  | define _ _ e => e.render.toList
  | discardBelow sample threshold => (discardBelow sample threshold).render.toList

/-- An entry of a joined list comes from one of its parts, behind all that the parts before give. -/
theorem flatMap_eq_append_cons {α β : Type} {f : α → List β} {xs : List α} {before after : List β}
    {y : β} (h : xs.flatMap f = before ++ y :: after) :
    ∃ xs₁ x xs₂ pre post, xs = xs₁ ++ x :: xs₂ ∧ f x = pre ++ y :: post ∧
      before = xs₁.flatMap f ++ pre := by
  induction xs generalizing before with
  | nil => simp at h
  | cons x xs ih =>
    rw [List.flatMap_cons, List.append_eq_append_iff] at h
    rcases h with ⟨rest, rfl, hrest⟩ | ⟨part, hpart, hrest⟩
    · obtain ⟨xs₁, z, xs₂, pre, post, rfl, hz, rfl⟩ := ih hrest
      exact ⟨x :: xs₁, z, xs₂, pre, post, rfl, hz, by simp⟩
    · cases part with
      | nil =>
        have hnext : xs.flatMap f = [] ++ y :: after := hrest.symm
        obtain ⟨xs₁, z, xs₂, pre, post, rfl, hz, hpre⟩ := ih hnext
        refine ⟨x :: xs₁, z, xs₂, pre, post, rfl, hz, ?_⟩
        rw [List.flatMap_cons, List.append_assoc, ← hpre, hpart]
        simp
      | cons z part =>
        obtain ⟨rfl, hafter⟩ := List.cons.inj hrest
        exact ⟨[], x, xs, before, part, rfl, hpart, by simp⟩

section Statements

variable {d : Dialect} {s : Stage} {n : Node} {operands : Slots Operand}

theorem statements_defines :
    (statements d s n operands).filterMap Statement.defines? =
      if n.kind.isLiteral || n.kind.isSink then [] else [n.id] := by
  unfold statements
  split
  · rfl
  · rw [List.filterMap_append]
    cases n.alphaClip with
    | none => rfl
    | some threshold =>
      simp only
      split <;> rfl

/-- A guard mentions what the sample it looks at mentions. -/
theorem mentions_of_discardBelow {e : Expr} {threshold : Scalar} {v : Name}
    (hv : Mentions (Statement.discardBelow e threshold).reading v) :
    Mentions (Expr.field e "a").render.toList v := by
  rw [Statement.reading, discardBelow_toList, mentions_append (by decide),
    mentions_cons (by decide), mentions_append (by decide), mentions_cons (by decide),
    mentions_cons (by decide), mentions_append (by decide), mentions_cons (by decide),
    mentions_append (by decide)] at hv
  rcases hv with hv | hv | hv | hv | hv
  · exact absurd hv ((foreign_of_stems (by decide)).not_mentions v)
  · exact hv
  · exact absurd hv ((foreign_numberText threshold).not_mentions v)
  · exact absurd hv ((foreign_of_stems (by decide)).not_mentions v)
  · exact absurd hv (not_mentions_nil v)

theorem over_of_reading {V : Name → Prop} {st : Statement} (h : st.Over V) {v : Name}
    (hv : Mentions st.reading v) : V v := by
  cases st with
  | define shape id e => exact over_of_mentions e h hv
  | discardBelow sample threshold =>
    have halpha : (Expr.field sample "a").Over V := ⟨h, foreign_of_stems (by decide)⟩
    exact over_of_mentions _ halpha (mentions_of_discardBelow hv)

end Statements

/-- What the program for the nodes behind `root` declares, defines and mentions. -/
structure Program.Scoped (g : Graph) (root : NodeId) (p : Program) : Prop where
  declared_once : (p.declarations.map Declaration.name).Nodup
  /-- Literals are declared, each as a uniform or a constant, and the samplers of samples. -/
  declared : ∀ d, d ∈ p.declarations ↔
    ∃ n ∈ g.nodes, ReflTransGen (Feeds g.links) n.id root ∧
      ((n.kind.isLiteral = true ∧ d =
          if n.property then .uniform n.id n.literal.shape else .constant n.id n.literal) ∨
        (n.kind = .textureSample ∧
          d = .sampler (textureUnit (((g.inputsOf n.id).at? 0).bind g.output?))))
  defined_once : (p.body.filterMap Statement.defines?).Nodup
  /-- All other nodes are defined. -/
  defined : ∀ id, id ∈ p.body.filterMap Statement.defines? ↔
    ∃ n ∈ g.nodes, n.id = id ∧ ReflTransGen (Feeds g.links) id root ∧ n.kind.isLiteral = false
  /-- Nodes are mentioned only behind the lines that introduce them. -/
  node_before : ∀ before st after, p.body = before ++ st :: after →
    ∀ id, Mentions st.reading (.node id) → ReflTransGen (Feeds g.links) id root ∧
      (.node id ∈ p.declarations.map Declaration.name ∨
        id ∈ before.filterMap Statement.defines?)
  sampler_declared : ∀ st ∈ p.body, ∀ unit, Mentions st.reading (.sampler unit) →
    .sampler unit ∈ p.declarations
  output : ∀ v, Mentions p.output.render.toList v ↔ v = .node root
  root_introduced : .node root ∈ p.declarations.map Declaration.name ∨
    root ∈ p.body.filterMap Statement.defines?

/-- The expression of the stage output mentions the node at it. -/
theorem mentions_widenOutput {root : NodeId} {n : Nat} {v : Name} :
    Mentions (widenOutput (.node root) n).render.toList v ↔ v = .node root := by
  have hover : (widenOutput (.node root) n).Over (· = .node root) := by
    unfold widenOutput
    split
    · exact over_call2 (.vec 4) (over_call1 (.vec 3) rfl) trivial
    · exact over_call3 (.vec 4) rfl trivial trivial
    · exact over_call2 (.vec 4) rfl trivial
    · rfl
  refine ⟨over_of_mentions _ hover, ?_⟩
  rintro rfl
  have hroot : Mentions (Expr.node root).render.toList (.node root) :=
    mentions_text (w := .node root).mpr rfl
  unfold widenOutput
  split
  · exact mentions_call (.vec 4) (mentions_call (.vec 3) hroot []) _
  · exact mentions_call (.vec 4) hroot _
  · exact mentions_call (.vec 4) hroot _
  · exact hroot

section Emission

variable {g : Graph} {d : Dialect} {s : Stage} {root : NodeId} {p : Program} {w : Walk}

theorem unit_operandsOf (g : Graph) (id : NodeId) :
    ((operandsOf g g.links id).at? 0).map Operand.value =
      ((g.inputsOf id).at? 0).bind g.output? := by
  rw [operandsOf, Slots.at?_apply]
  change (((g.inputsOf id).at? 0).bind _).map _ = _
  cases (g.inputsOf id).at? 0 with
  | none => rfl
  | some x => cases hx : g.output? x <;> simp [hx]

/-- No stage output is behind another node. -/
theorem not_isSink_of_behind (hw : g.WellFormed) (hroot : (g.inputsOf s.sink).at? 0 = some root)
    {n : Node} (hn : n ∈ g.nodes) (h : ReflTransGen (Feeds g.links) n.id root) :
    n.kind.isSink = false := by
  have hsource : ∃ l ∈ g.links, l.source = n.id := by
    rcases ReflTransGen.cases_head h with hsame | ⟨_, ⟨l, hl, hs, _⟩, _⟩
    · exact ⟨_, (Graph.input_iff hw).mp hroot, hsame.symm⟩
    · exact ⟨l, hl, hs⟩
  obtain ⟨l, hl, hs⟩ := hsource
  obtain ⟨m, hm, hid, hsink⟩ := hw.wired.source l hl
  rwa [List.inj_on_of_nodup_map hw.id_once hm hn (hid.trans hs)] at hsink

namespace Emitted

theorem mem_postorder (h : Emitted g d s root p w) (hw : g.WellFormed) {n : Node} :
    n ∈ w.postorder.filterMap g.node? ↔
      n ∈ g.nodes ∧ ReflTransGen (Feeds g.links) n.id root := by
  rw [List.mem_filterMap, ← h.behind]
  constructor
  · rintro ⟨id, hid, hfound⟩
    obtain ⟨hn, rfl⟩ := Graph.mem_of_node? hfound
    exact ⟨hn, List.mem_reverse.mp hid⟩
  · rintro ⟨hn, hid⟩
    exact ⟨n.id, List.mem_reverse.mpr hid, Graph.node?_of_mem hw.id_once hn⟩

theorem postorder_ids (h : Emitted g d s root p w) (hw : g.WellFormed) :
    (w.postorder.filterMap g.node?).map Node.id = w.postorder :=
  map_id_found (fun id hid => h.live id (List.mem_reverse.mp hid)) hw.id_once

theorem mem_declarations (h : Emitted g d s root p w) (hw : g.WellFormed) {x : Declaration} :
    x ∈ p.declarations ↔ ∃ n ∈ g.nodes, ReflTransGen (Feeds g.links) n.id root ∧
      declaration? n (operandsOf g g.links n.id) = some x := by
  rw [h.declarations, List.mem_eraseDups, declared, List.mem_filterMap]
  constructor
  · rintro ⟨n, hn, hx⟩
    obtain ⟨hmem, hleft⟩ := h.mem_nodes hn
    exact ⟨n, hmem, (h.behind n.id).mp hleft, hx⟩
  · rintro ⟨n, hn, hbehind, hx⟩
    refine ⟨n, List.mem_filterMap.mpr ⟨n.id, ?_, Graph.node?_of_mem hw.id_once hn⟩, hx⟩
    exact h.mem_preorder.mpr ((h.behind n.id).mpr hbehind)

/-- Two declarations of one name are the same declaration. -/
theorem declaration_of_name (h : Emitted g d s root p w) (hw : g.WellFormed) {x y : Declaration}
    (hx : x ∈ p.declarations) (hy : y ∈ p.declarations) (hname : x.name = y.name) : x = y := by
  obtain ⟨n, hn, _, hx⟩ := (h.mem_declarations hw).mp hx
  obtain ⟨m, hm, _, hy⟩ := (h.mem_declarations hw).mp hy
  rcases declaration?_eq_some.mp hx with ⟨hnl, rfl⟩ | ⟨_, rfl⟩ <;>
    rcases declaration?_eq_some.mp hy with ⟨hml, rfl⟩ | ⟨_, rfl⟩
  · rw [name_literalDeclaration, name_literalDeclaration] at hname
    rw [List.inj_on_of_nodup_map hw.id_once hn hm (Name.node.inj hname)]
  · rw [name_literalDeclaration] at hname
    cases hname
  · rw [name_literalDeclaration] at hname
    cases hname
  · exact congrArg Declaration.sampler (Name.sampler.inj hname)

/-- The nodes that the body defines, in order. -/
theorem body_defines (h : Emitted g d s root p w) :
    p.body.filterMap Statement.defines? =
      ((w.postorder.filterMap g.node?).filter fun n =>
        !(n.kind.isLiteral || n.kind.isSink)).map Node.id := by
  rw [h.body, stated, List.filterMap_flatMap]
  generalize w.postorder.filterMap g.node? = nodes
  induction nodes with
  | nil => rfl
  | cons n nodes ih =>
    rw [List.flatMap_cons, ih, statements_defines, List.filter_cons]
    cases n.kind.isLiteral || n.kind.isSink <;> simp

theorem literal_declared (h : Emitted g d s root p w) (hw : g.WellFormed) {n : Node}
    (hn : n ∈ g.nodes) (hbehind : ReflTransGen (Feeds g.links) n.id root)
    (hl : n.kind.isLiteral = true) : .node n.id ∈ p.declarations.map Declaration.name := by
  have hdeclared := (h.mem_declarations hw).mpr
    ⟨n, hn, hbehind, declaration?_eq_some.mpr (.inl ⟨hl, rfl⟩)⟩
  exact List.mem_map.mpr ⟨_, hdeclared, name_literalDeclaration n⟩

/-- The producers of a node that the walk leaves were left before. -/
theorem producers_before (h : Emitted g d s root p w) (hw : g.WellFormed)
    {earlier later : List Node} {n : Node}
    (hsplit : w.postorder.filterMap g.node? = earlier ++ n :: later) :
    ∀ id ∈ g.producers n.id, ∃ m ∈ earlier, m.id = id := by
  have hids := h.postorder_ids hw
  rw [hsplit, List.map_append, List.map_cons] at hids
  have hleft : w.left = (later.map Node.id).reverse ++ n.id :: (earlier.map Node.id).reverse := by
    rw [← List.reverse_reverse w.left]
    change w.postorder.reverse = _
    rw [← hids]
    simp
  have hsettled := h.settled
  rw [hleft] at hsettled
  intro id hid
  have hmem := hsettled.of_append.2.1 id hid
  exact List.mem_map.mp (List.mem_reverse.mp hmem)

/-- The producers of a node are introduced before its own statements. -/
theorem introduced_before (h : Emitted g d s root p w) (hw : g.WellFormed)
    (hroot : (g.inputsOf s.sink).at? 0 = some root) {earlier later : List Node} {n : Node}
    (hsplit : w.postorder.filterMap g.node? = earlier ++ n :: later) {id : NodeId}
    (hid : id ∈ g.producers n.id) :
    ReflTransGen (Feeds g.links) id root ∧
      (.node id ∈ p.declarations.map Declaration.name ∨
        id ∈ (earlier.flatMap fun n => statements d s n
          (operandsOf g g.links n.id)).filterMap Statement.defines?) := by
  obtain ⟨m, hm, rfl⟩ := h.producers_before hw hsplit id hid
  obtain ⟨hmem, hbehind⟩ := (h.mem_postorder hw).mp (hsplit ▸ List.mem_append_left _ hm)
  refine ⟨hbehind, ?_⟩
  by_cases hl : m.kind.isLiteral = true
  · exact .inl (h.literal_declared hw hmem hbehind hl)
  · have hsink := not_isSink_of_behind hw hroot hmem hbehind
    rw [List.filterMap_flatMap]
    refine .inr (List.mem_flatMap.mpr ⟨m, hm, ?_⟩)
    simp [statements_defines, hl, hsink]

/-- Whatever node a line mentions is introduced before it. -/
theorem node_before (h : Emitted g d s root p w) (hw : g.WellFormed)
    (hroot : (g.inputsOf s.sink).at? 0 = some root) {before after : List Statement} {st : Statement}
    (hsplit : p.body = before ++ st :: after) {id : NodeId}
    (hv : Mentions st.reading (.node id)) :
    ReflTransGen (Feeds g.links) id root ∧
      (.node id ∈ p.declarations.map Declaration.name ∨
        id ∈ before.filterMap Statement.defines?) := by
  rw [h.body, stated] at hsplit
  obtain ⟨earlier, n, later, pre, post, hnodes, hst, rfl⟩ := flatMap_eq_append_cons hsplit
  have hmember : st ∈ statements d s n (operandsOf g g.links n.id) :=
    hst ▸ List.mem_append_right pre List.mem_cons_self
  have hreads : id ∈ g.producers n.id := by
    refine over_of_reading (statements_over
      (V := fun v => ∀ id, v = .node id → id ∈ g.producers n.id)
      (fun o ho id hid => ?_) (fun _ id hid => by cases hid) hmember) hv id rfl
    cases hid
    obtain ⟨i, hi⟩ := Slots.mem_filled.mp ho
    exact Slots.mem_filled.mpr ⟨i, (input_of_operand hi).1⟩
  obtain ⟨hbehind, hintroduced⟩ := h.introduced_before hw hroot hnodes hreads
  refine ⟨hbehind, hintroduced.imp_right fun hid => ?_⟩
  rw [List.filterMap_append]
  exact List.mem_append_left _ hid

theorem sampler_declared (h : Emitted g d s root p w) (hw : g.WellFormed) {st : Statement}
    (hst : st ∈ p.body) {unit : Nat} (hv : Mentions st.reading (.sampler unit)) :
    .sampler unit ∈ p.declarations := by
  rw [h.body, stated] at hst
  obtain ⟨n, hn, hst⟩ := List.mem_flatMap.mp hst
  obtain ⟨hmem, hbehind⟩ := (h.mem_postorder hw).mp hn
  refine over_of_reading (statements_over (V := fun v => ∀ unit, v = .sampler unit →
    .sampler unit ∈ p.declarations) (fun o _ unit hunit => by cases hunit) (fun hk unit hunit => ?_)
    hst) hv unit rfl
  rw [← Name.sampler.inj hunit]
  exact (h.mem_declarations hw).mpr ⟨n, hmem, hbehind, declaration?_eq_some.mpr (.inr ⟨hk, rfl⟩)⟩

theorem program_scoped (h : Emitted g d s root p w) (hw : g.WellFormed)
    (hroot : (g.inputsOf s.sink).at? 0 = some root) : p.Scoped g root := by
  have hdefined : ∀ id, id ∈ p.body.filterMap Statement.defines? ↔ ∃ n ∈ g.nodes, n.id = id ∧
      ReflTransGen (Feeds g.links) id root ∧ n.kind.isLiteral = false := by
    intro id
    rw [h.body_defines, List.mem_map]
    constructor
    · rintro ⟨n, hn, rfl⟩
      obtain ⟨hn, hplain⟩ := List.mem_filter.mp hn
      obtain ⟨hmem, hbehind⟩ := (h.mem_postorder hw).mp hn
      simp only [Bool.not_eq_true', Bool.or_eq_false_iff] at hplain
      exact ⟨n, hmem, rfl, hbehind, hplain.1⟩
    · rintro ⟨n, hn, rfl, hbehind, hl⟩
      have hsink := not_isSink_of_behind hw hroot hn hbehind
      refine ⟨n, List.mem_filter.mpr ⟨(h.mem_postorder hw).mpr ⟨hn, hbehind⟩, ?_⟩, rfl⟩
      simp [hl, hsink]
  exact {
    declared_once := by
      have honce : p.declarations.Nodup := h.declarations ▸ nodup_eraseDups _
      exact honce.map_on fun x hx y hy => h.declaration_of_name hw hx hy
    declared := by
      intro x
      rw [h.mem_declarations hw]
      simp only [declaration?_eq_some, unit_operandsOf, literalDeclaration]
    defined_once := by
      have honce : ((w.postorder.filterMap g.node?).map Node.id).Nodup := by
        rw [h.postorder_ids hw]
        exact List.nodup_reverse.mpr h.settled.nodup
      rw [h.body_defines]
      exact (List.filter_sublist.map Node.id).nodup honce
    defined := hdefined
    node_before := fun _ _ _ hsplit _ => h.node_before hw hroot hsplit
    sampler_declared := fun _ hst _ => h.sampler_declared hw hst
    output := by
      intro v
      rw [h.output]
      exact mentions_widenOutput
    root_introduced := by
      obtain ⟨n, hn, rfl⟩ := Graph.mem_ids.mp (h.live root ((h.behind root).mpr .refl))
      by_cases hl : n.kind.isLiteral = true
      · exact .inl (h.literal_declared hw hn .refl hl)
      · exact .inr ((hdefined n.id).mpr ⟨n, hn, rfl, .refl, by simpa using hl⟩) }

end Emitted

end Emission

/-- A program that compiles, in either dialect and for either stage, introduces every name once and
before the first line that mentions it, and introduces none that the nodes behind the stage output
do not call for. Its text is made of these lines and no others. -/
theorem compiled_names_scoped {g : Graph} (hg : g.Reachable) {d : Dialect} {s : Stage}
    {root : NodeId} {p : Program} (hroot : (g.inputsOf s.sink).at? 0 = some root)
    (hp : compileStage g d s = .ok p) :
    p.Scoped g root ∧ Text.splitOn '\n' p.render.toList = p.lines.map String.toList ++ [[]] := by
  obtain ⟨w, h⟩ := emitted_of_compileStage hg.wellFormed hroot hp
  exact ⟨h.program_scoped hg.wellFormed hroot,
    Program.splitOn_render (plain_of_compileStage hg.wellFormed hp)⟩

/-- Two samples of one texture, whose unit is a uniform, and their sum at the fragment stage. The
second sample has an alpha threshold. -/
def sampledSession : Session :=
  ((Session.new ⟨0⟩ ⟨1⟩).applyAll Handle.mk
    [.createNode .float (.literal [.ofNat 3]), .createNode .textureSample .standard,
      .createNode .textureSample .standard, .createNode .add .standard, .setProperty 2 true,
      .setAlphaClip 4 (some (.nearest false 1 2)), .connect 2 3 (some 0), .connect 2 4 (some 0),
      .connect 3 5 none, .connect 4 5 none, .connect 5 1 none]).2

/-- The texture is declared once for both samples, and the guard of the second stands before the
definition it belongs to. -/
theorem sampled_names_scoped :
    ∃ p, compileStage sampledSession.graph .gles100 .fragment = .ok p ∧
      p.declarations.map Declaration.render =
        ["uniform sampler2D texture_3;", "uniform float node_2;"] ∧
      p.body.map Statement.render =
        ["vec4 node_3 = texture2D(texture_3, v_uv);",
          "if (texture2D(texture_3, v_uv).a < 0.5) discard;",
          "vec4 node_4 = texture2D(texture_3, v_uv);", "vec4 node_5 = node_3 + node_4;"] ∧
      p.Scoped sampledSession.graph 5 := by
  have hs : sampledSession.Reachable := (Session.Reachable.new ⟨0⟩ ⟨1⟩).applyAll Handle.mk _
  have hroot : (sampledSession.graph.inputsOf Stage.fragment.sink).at? 0 = some 5 := by
    decide +kernel
  have htexts : (compileStage sampledSession.graph .gles100 .fragment).toOption.map
      (fun p => (p.declarations.map Declaration.render, p.body.map Statement.render)) =
        some (["uniform sampler2D texture_3;", "uniform float node_2;"],
          ["vec4 node_3 = texture2D(texture_3, v_uv);",
            "if (texture2D(texture_3, v_uv).a < 0.5) discard;",
            "vec4 node_4 = texture2D(texture_3, v_uv);", "vec4 node_5 = node_3 + node_4;"]) := by
    decide +kernel
  obtain ⟨p, hp, htexts⟩ := Option.map_eq_some_iff.mp htexts
  have hp := except_toOption_eq_some.mp hp
  obtain ⟨hdeclarations, hbody⟩ := Prod.mk.inj htexts
  exact ⟨p, hp, hdeclarations, hbody, (compiled_names_scoped hs.graph hroot hp).1⟩

end ShaderGraph.Glsl

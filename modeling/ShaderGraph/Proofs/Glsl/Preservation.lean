import ShaderGraph.Proofs.Glsl.Execution
import ShaderGraph.Proofs.Glsl.Operators
import ShaderGraph.Proofs.Sessions

namespace ShaderGraph.Glsl

open Relation

/-- The variables are those of `base` and of the nodes in `ids`, and the latter have the values that
these nodes have. -/
structure Defines (base env : Env) (g : Graph) (ids : Set NodeId) : Prop where
  node : ∀ id v, env.lookup (nodeName id).toList = some v ↔ id ∈ ids ∧ g.output? id = some v
  other : ∀ w, (∀ id, w ≠ (nodeName id).toList) → env.lookup w = base.lookup w

variable {g : Graph} {base env : Env} {ids : Set NodeId}

theorem defines_base (g : Graph) (h : ∀ id, base.lookup (nodeName id).toList = none) :
    Defines base base g ∅ :=
  ⟨fun id v => by simp [h id], fun _ _ => rfl⟩

theorem Defines.vacant (h : Defines base env g ids) {id : NodeId} (hid : id ∉ ids) :
    env.lookup (nodeName id).toList = none := by
  cases hl : env.lookup (nodeName id).toList with
  | none => rfl
  | some v => exact absurd ((h.node id v).mp hl).1 hid

theorem Defines.congr (h : Defines base env g ids) {others : Set NodeId}
    (hsame : ∀ id, id ∈ ids ↔ id ∈ others) : Defines base env g others :=
  ⟨fun id v => by rw [h.node id v, hsame], h.other⟩

theorem Defines.insert (h : Defines base env g ids) {id : NodeId} {v : Value}
    (hv : g.output? id = some v) :
    Defines base (((nodeName id).toList, v) :: env) g (insert id ids) where
  node i w := by
    rw [List.lookup_cons]
    by_cases hi : i = id
    · subst hi
      simp [hv]
    · have hne : (nodeName i).toList ≠ (nodeName id).toList := fun he =>
        hi (Name.node.inj (Name.text_injective (v := .node i) (w := .node id) he))
      have hname : ((nodeName i).toList == (nodeName id).toList) = false := by simpa using hne
      rw [hname, h.node i w]
      simp [hi]
  other w hw := by
    have hname : (w == (nodeName id).toList) = false := by simpa using hw id
    rw [List.lookup_cons, hname, h.other w hw]

/-- A constant literal, or a node whose code reads nothing but its operands. -/
def Plain (n : Node) : Prop :=
  (n.kind.isLiteral = true ∧ n.property = false ∧
    ∀ x ∈ n.literal.components, x.isFinite = true) ∨ n.kind.isPure = true

instance (n : Node) : Decidable (Plain n) :=
  inferInstanceAs (Decidable ((_ ∧ _ ∧ _) ∨ _))

theorem not_isLiteral_of_isPure {k : Kind} (h : k.isPure = true) : k.isLiteral = false := by
  cases k <;> first | rfl | cases h

theorem ne_textureSample_of_isPure {k : Kind} (h : k.isPure = true) : k ≠ .textureSample := by
  rintro rfl
  cases h

theorem statements_of_isPure (d : Dialect) (s : Stage) {n : Node} (h : n.kind.isPure = true)
    (operands : Slots Operand) :
    statements d s n operands =
      [.define n.output.shape n.id (expression d s n.kind n.id operands)] := by
  have hinner : (n.kind.isLiteral || n.kind.isSink) = false := by
    cases hk : n.kind <;> first | rfl | (rw [hk] at h; cases h)
  unfold statements
  rw [hinner]
  cases n.alphaClip <;> simp [ne_textureSample_of_isPure h]

theorem declaration?_of_plain {n : Node} (h : Plain n) (operands : Slots Operand) :
    declaration? n operands =
      if n.kind.isLiteral then some (.constant n.id n.literal) else none := by
  rcases h with ⟨hliteral, hproperty, _⟩ | hpure
  · simp [declaration?, literalDeclaration, hliteral, hproperty]
  · simp [declaration?, not_isLiteral_of_isPure hpure, ne_textureSample_of_isPure hpure]

section Steps

variable (feed : Feed) {r : Run} (hout : ∀ id, (nodeName id).toList ∉ r.outputs)

include hout

theorem Defines.isFree (henv : Defines base r.env g ids) {id : NodeId} (hid : id ∉ ids) :
    r.isFree (nodeName id).toList = true := by
  simp [Run.isFree, henv.vacant hid, hout id]

theorem carry_literal (he : g.Evaluated) {n : Node} (hn : n ∈ g.nodes)
    (hl : n.kind.isLiteral = true) (hfinite : ∀ x ∈ n.literal.components, x.isFinite = true)
    (hvalid : n.isValid = true) (hplace : r.place = .before) (henv : Defines base r.env g ids)
    (hnew : n.id ∉ ids) :
    r.carry feed (Declaration.constant n.id n.literal).render.toList =
      some { r with env := ((nodeName n.id).toList, n.output) :: r.env } := by
  have houtput := he.output_eq_literal hn hl
  have hne : n.literal.components ≠ [] := by
    intro hnil
    have hsize := Value.size_pos (not_isEmpty_of_isValid hvalid)
    rw [houtput, Value.size, ← n.literal.length_eq, hnil] at hsize
    cases hsize
  rw [houtput]
  exact carry_constant feed hplace (literalExpr_grouped hne hfinite) (value?_literal hfinite)
    (henv.isFree hout hnew)

theorem carry_pure (hw : g.WellFormed) (he : g.Evaluated) (s : Stage) {n : Node}
    (hn : n ∈ g.nodes) (hpure : n.kind.isPure = true) (hvalid : n.isValid = true)
    (hplace : r.place = .within) (henv : Defines base r.env g ids)
    (hreads : ∀ x ∈ g.producers n.id, x ∈ ids) (hnew : n.id ∉ ids) :
    r.carry feed ("    " ++ (Statement.define n.output.shape n.id
        (expression .glsl330 s n.kind n.id (operandsOf g g.links n.id))).render).toList =
      some { r with env := ((nodeName n.id).toList, n.output) :: r.env } := by
  have hbound : ∀ o ∈ (operandsOf g g.links n.id).filled, o.Bound r.env := by
    intro o ho
    obtain ⟨i, hi⟩ := Slots.mem_filled.mp ho
    obtain ⟨hinput, hvalue⟩ := input_of_operand hi
    exact (henv.node o.id o.value).mpr ⟨hreads o.id (Slots.mem_filled.mpr ⟨i, hinput⟩), hvalue⟩
  have houtput : evaluate n.kind n.literal (operandValues (operandsOf g g.links n.id)) =
      n.output := by
    rw [operandValues, values_operandsOf, he.output n hn, Graph.valueIn]
  have hne := not_isEmpty_of_isValid hvalid
  have hgives := expression_gives hbound hpure (fun i hi => operand_past_limit hw hn hi)
    (houtput ▸ hne) s n.id
  rw [houtput] at hgives
  exact carry_define feed hplace hgives.grouped hgives.value rfl (henv.isFree hout hnew)

/-- The declarations of some literals, one after the other. -/
theorem run_literals (hw : g.WellFormed) (he : g.Evaluated) {nodes : List Node}
    (hmem : ∀ n ∈ nodes, n ∈ g.nodes) (honce : (nodes.map Node.id).Nodup)
    (hliteral : ∀ n ∈ nodes, n.kind.isLiteral = true)
    (hfinite : ∀ n ∈ nodes, ∀ x ∈ n.literal.components, x.isFinite = true)
    (hvalid : ∀ n ∈ nodes, n.isValid = true) (hplace : r.place = .before)
    (henv : Defines base r.env g ids) (hnew : ∀ n ∈ nodes, n.id ∉ ids) :
    ∃ env', (nodes.map fun n => (Declaration.constant n.id n.literal).render.toList).foldlM
        (Run.carry feed) r = some { r with env := env' } ∧
      Defines base env' g {id | id ∈ ids ∨ id ∈ nodes.map Node.id} := by
  induction nodes generalizing r ids with
  | nil => exact ⟨r.env, rfl, by simpa using henv⟩
  | cons n nodes ih =>
    obtain ⟨hfirst, honce⟩ := List.nodup_cons.mp honce
    have hstep := carry_literal feed hout he (hmem n (by simp)) (hliteral n (by simp))
      (hfinite n (by simp)) (hvalid n (by simp)) hplace henv (hnew n (by simp))
    have hnext := henv.insert (Graph.output?_of_mem hw.id_once (hmem n (by simp)))
    obtain ⟨env', hrun, hdefines⟩ := ih
      (r := { r with env := ((nodeName n.id).toList, n.output) :: r.env }) hout
      (fun m hm => hmem m (by simp [hm])) honce
      (fun m hm => hliteral m (by simp [hm])) (fun m hm => hfinite m (by simp [hm]))
      (fun m hm => hvalid m (by simp [hm])) hplace hnext (by
        intro m hm hin
        rcases Set.mem_insert_iff.mp hin with heq | hin
        · exact hfirst (heq ▸ List.mem_map_of_mem hm)
        · exact hnew m (by simp [hm]) hin)
    refine ⟨env', ?_, ?_⟩
    · rw [List.map_cons, List.foldlM_cons, hstep]
      exact hrun
    · refine hdefines.congr fun id => ?_
      simp only [Set.mem_ofPred_eq, Set.mem_insert_iff, List.map_cons, List.mem_cons]
      rw [or_assoc, or_left_comm]

/-- The statements of a walk, in the order its nodes are left. The induction is on the nodes left
so far, the latest first; what they read is among the ones before. -/
theorem run_body (hw : g.WellFormed) (he : g.Evaluated) (s : Stage) {left : List NodeId}
    (hsettled : Walk.Settled g.producers left) (hlive : ∀ id ∈ left, id ∈ g.ids)
    (hplain : ∀ n ∈ g.nodes, n.id ∈ left → Plain n)
    (hvalid : ∀ n ∈ g.nodes, n.id ∈ left → n.isValid = true) {literals : Set NodeId}
    (hliterals : ∀ n ∈ g.nodes, n.id ∈ left → (n.id ∈ literals ↔ n.kind.isLiteral = true))
    (hplace : r.place = .within) (henv : Defines base r.env g literals) :
    ∃ env', (((left.reverse.filterMap g.node?).flatMap fun n =>
        statements .glsl330 s n (operandsOf g g.links n.id)).map fun st =>
          ("    " ++ st.render).toList).foldlM (Run.carry feed) r = some { r with env := env' } ∧
      Defines base env' g {id | id ∈ literals ∨ id ∈ left} := by
  induction left with
  | nil => exact ⟨r.env, rfl, by simpa using henv⟩
  | cons x left ih =>
    obtain ⟨hnot, hreads, hsettled⟩ := hsettled
    obtain ⟨env₁, hrun, hdefines⟩ := ih hsettled (fun id hid => hlive id (by simp [hid]))
      (fun n hn hid => hplain n hn (by simp [hid])) (fun n hn hid => hvalid n hn (by simp [hid]))
      (fun n hn hid => hliterals n hn (by simp [hid]))
    obtain ⟨n, hn, rfl⟩ := Graph.mem_ids.mp (hlive x (by simp))
    have hmember : n.id ∈ n.id :: left := by simp
    rw [List.reverse_cons, List.filterMap_append, List.flatMap_append, List.map_append,
      List.foldlM_append, hrun]
    simp only [List.filterMap_cons, List.filterMap_nil, Graph.node?_of_mem hw.id_once hn,
      List.flatMap_cons, List.flatMap_nil, List.append_nil, Option.bind_eq_bind, Option.bind_some]
    rcases hplain n hn hmember with ⟨hliteral, _⟩ | hpure
    · -- a literal has been declared before
      have hin := (hliterals n hn hmember).mpr hliteral
      refine ⟨env₁, by simp [statements, hliteral], ?_⟩
      refine hdefines.congr fun id => ⟨fun h => h.imp_right (List.mem_cons_of_mem _), ?_⟩
      rintro (h | h)
      · exact .inl h
      · rcases List.mem_cons.mp h with rfl | h
        · exact .inl hin
        · exact .inr h
    · have hnew : n.id ∉ {id | id ∈ literals ∨ id ∈ left} := by
        rintro (h | h)
        · have := (hliterals n hn hmember).mp h
          rw [not_isLiteral_of_isPure hpure] at this
          cases this
        · exact hnot h
      have hstep := carry_pure feed (r := { r with env := env₁ }) hout hw he s hn hpure
        (hvalid n hn hmember) hplace hdefines (fun p hp => .inr (hreads p hp)) hnew
      refine ⟨((nodeName n.id).toList, n.output) :: env₁, ?_, ?_⟩
      · rw [statements_of_isPure .glsl330 s hpure, List.map_singleton, List.foldlM_cons, hstep]
        rfl
      · refine (hdefines.insert (Graph.output?_of_mem hw.id_once hn)).congr fun id => ?_
        simp only [Set.mem_ofPred_eq, Set.mem_insert_iff, List.mem_cons]
        rw [or_left_comm]

end Steps

theorem declarations_of_plain {nodes : List Node} (h : ∀ n ∈ nodes, Plain n)
    (operands : NodeId → Slots Operand) :
    nodes.filterMap (fun n => declaration? n (operands n.id)) =
      (nodes.filter (·.kind.isLiteral)).map fun n => .constant n.id n.literal := by
  induction nodes with
  | nil => rfl
  | cons n nodes ih =>
    have hn := declaration?_of_plain (h n (by simp)) (operands n.id)
    have hrest := ih fun m hm => h m (by simp [hm])
    by_cases hl : n.kind.isLiteral = true
    · rw [if_pos hl] at hn
      simp [hn, hrest, hl]
    · rw [if_neg hl] at hn
      simp [hn, hrest, hl]

section

variable {s : Stage} {root : NodeId} {p : Program}

/-- The literals of a walk, which are declared before anything else is computed. -/
def literalsOf (g : Graph) (w : Walk) : Set NodeId :=
  {id | id ∈ w.left ∧ ∃ n ∈ g.nodes, n.id = id ∧ n.kind.isLiteral = true}

theorem mem_literalsOf {w : Walk} (hw : g.WellFormed) {n : Node} (hn : n ∈ g.nodes)
    (hid : n.id ∈ w.left) : n.id ∈ literalsOf g w ↔ n.kind.isLiteral = true := by
  constructor
  · rintro ⟨_, m, hm, hmn, hl⟩
    rwa [List.inj_on_of_nodup_map hw.id_once hm hn hmn] at hl
  · intro hl
    exact ⟨hid, n, hn, rfl, hl⟩

namespace Emitted

variable {w : Walk}

/-- The literals of the walk, each declared once. -/
theorem declarations_eq (h : Emitted g .glsl330 s root p w) (hw : g.WellFormed)
    (hplain : ∀ n ∈ g.nodes, n.id ∈ w.left → Plain n) :
    p.declarations = ((w.preorder.filterMap g.node?).filter (·.kind.isLiteral)).map
      fun n => .constant n.id n.literal := by
  have hnodup : (w.preorder.filterMap g.node?).Nodup := (h.ids_once hw).of_map
  rw [h.declarations, declared, declarations_of_plain fun n hn =>
    hplain n (h.mem_nodes hn).1 (h.mem_nodes hn).2]
  refine eraseDups_of_nodup ((hnodup.filter _).map_on ?_)
  intro n hn m hm heq
  have hn := h.mem_nodes (List.mem_filter.mp hn).1
  have hm := h.mem_nodes (List.mem_filter.mp hm).1
  exact List.inj_on_of_nodup_map hw.id_once hn.1 hm.1 (Declaration.constant.inj heq).1

theorem run_declarations (h : Emitted g .glsl330 s root p w) (hw : g.WellFormed) (he : g.Evaluated)
    (hplain : ∀ n ∈ g.nodes, n.id ∈ w.left → Plain n) {r : Run} (feed : Feed)
    (hout : ∀ id, (nodeName id).toList ∉ r.outputs) (hplace : r.place = .before)
    (henv : Defines base r.env g ∅) :
    ∃ env, (p.declarations.map fun x => x.render.toList).foldlM (Run.carry feed) r =
        some { r with env := env } ∧
      Defines base env g (literalsOf g w) := by
  have hliteral : ∀ n ∈ (w.preorder.filterMap g.node?).filter (·.kind.isLiteral),
      n ∈ g.nodes ∧ n.id ∈ w.left ∧ n.kind.isLiteral = true := by
    intro n hn
    obtain ⟨hn, hl⟩ := List.mem_filter.mp hn
    exact ⟨(h.mem_nodes hn).1, (h.mem_nodes hn).2, hl⟩
  have hfinite : ∀ n ∈ (w.preorder.filterMap g.node?).filter (·.kind.isLiteral),
      ∀ x ∈ n.literal.components, x.isFinite = true := by
    intro n hn
    obtain ⟨hmem, hid, hl⟩ := hliteral n hn
    rcases hplain n hmem hid with ⟨_, _, hfinite⟩ | hpure
    · exact hfinite
    · rw [not_isLiteral_of_isPure hpure] at hl
      cases hl
  obtain ⟨env, hrun, hdefines⟩ := run_literals feed hout hw he
    (fun n hn => (hliteral n hn).1) ((List.filter_sublist.map Node.id).nodup (h.ids_once hw))
    (fun n hn => (hliteral n hn).2.2) hfinite
    (fun n hn => h.valid n (hliteral n hn).1 (hliteral n hn).2.1) hplace henv (by simp)
  refine ⟨env, ?_, hdefines.congr fun id => ⟨?_, ?_⟩⟩
  · rw [h.declarations_eq hw hplain, List.map_map]
    exact hrun
  · rintro (hid | hid)
    · cases hid
    · obtain ⟨n, hn, rfl⟩ := List.mem_map.mp hid
      obtain ⟨hmem, hid, hl⟩ := hliteral n hn
      exact ⟨hid, n, hmem, rfl, hl⟩
  · rintro ⟨hid, n, hn, rfl, hl⟩
    have hfound : n ∈ w.preorder.filterMap g.node? :=
      List.mem_filterMap.mpr ⟨n.id, h.mem_preorder.mpr hid, Graph.node?_of_mem hw.id_once hn⟩
    exact .inr (List.mem_map_of_mem (List.mem_filter.mpr ⟨hfound, hl⟩))

end Emitted

theorem widenOutput_gives {r : Value} (h : env.lookup (nodeName root).toList = some r)
    (hne : r.isEmpty = false) :
    (widenOutput (.node root) r.size).Gives env (if r.size ≤ 4 then r.widen else r) := by
  have hnode : (Expr.node root).Gives env r := ⟨trivial, h⟩
  obtain ⟨shape, xs, hlen⟩ := r
  cases shape with
  | empty => cases hne
  | scalar =>
    obtain ⟨x, rfl⟩ := List.length_eq_one_iff.mp hlen
    exact (hnode.call1 (f := .vec 3) rfl).call2 gives_one rfl
  | vec2 =>
    obtain ⟨x, y, rfl⟩ := List.length_eq_two.mp hlen
    exact hnode.call3 gives_zero gives_one rfl
  | vec3 =>
    obtain ⟨x, y, z, rfl⟩ := List.length_eq_three.mp hlen
    exact hnode.call2 gives_one rfl
  | vec4 =>
    obtain ⟨x, rest, rfl⟩ := List.exists_cons_of_length_eq_add_one hlen
    obtain ⟨y, z, t, rfl⟩ := List.length_eq_three.mp (Nat.succ.inj hlen)
    exact hnode
  | mat4 => exact hnode

theorem output?_sink (hw : g.WellFormed) (he : g.Evaluated)
    (hroot : (g.inputsOf s.sink).at? 0 = some root) {r : Value} (hr : g.output? root = some r) :
    g.output? s.sink = some r.widen := by
  obtain ⟨n, hn, hid, hkind⟩ := sink_node hw s
  rw [← hid] at hroot ⊢
  rw [Graph.output?_of_mem hw.id_once hn, he.output n hn, Graph.valueIn]
  have hoperand : ((g.inputsOf n.id).apply g.output?).at? 0 = some r := by
    rw [Slots.at?_apply, hroot]
    exact hr
  rw [evaluate_sink hkind, hoperand]
  rfl

def passedOn (s : Stage) (feed : Feed) : Env :=
  if s = .vertex then
    Attribute.all.reverse.map fun a => (a.passed.toList, .tabulate a.shape (feed a.source.toList))
  else []

/-- The vertex stage hands its attributes on first. -/
theorem run_passedOn (feed : Feed) {r : Run} (hplace : r.place = .within)
    (hout : r.outputs = (handed s).map String.toList) (hwritten : r.written = [])
    (henv : Defines (opened s feed).env r.env g ids) :
    ((if s = .vertex then Attribute.all.map fun a => s!"{a.passed} = {a.source};" else []).map
        fun line => ("    " ++ line).toList).foldlM (Run.carry feed) r =
      some { r with written := passedOn s feed } := by
  cases s with
  | fragment =>
    rw [passedOn, if_neg (by decide), ← hwritten]
    rfl
  | vertex =>
    have hsource : ∀ a ∈ Attribute.all, r.env.lookup a.source.toList =
        some (.tabulate a.shape (feed a.source.toList)) := by
      intro a _
      rw [henv.other]
      · cases a <;> rfl
      · intro id heq
        have hhead := congrArg List.head? heq
        rw [nodeName_toList] at hhead
        cases a <;> cases hhead
    have hpassed : ∀ a ∈ Attribute.all, a.passed.toList ∈ r.outputs := by
      intro a _
      rw [hout]
      cases a <;> decide
    have hrun := run_passed feed hplace hsource hpassed
    rw [hwritten, List.append_nil] at hrun
    exact hrun

theorem run_output (feed : Feed) {r : Run} {v : Value}
    (hv : r.env.lookup (nodeName root).toList = some v) (hne : v.isEmpty = false)
    (hplace : r.place = .within) (hout : r.outputs = (handed s).map String.toList) :
    [("    " ++ (s.target .glsl330 ++ " = " ++ (widenOutput (.node root) v.size).render ++
        ";")).toList].foldlM (Run.carry feed) r =
      some { r with written := ((s.target .glsl330).toList,
        if v.size ≤ 4 then v.widen else v) :: r.written } := by
  have hgives := widenOutput_gives hv hne
  have htarget : (s.target .glsl330).toList.all isWordChar = true ∧
      (s.target .glsl330).toList ≠ [] := by
    cases s <;> decide
  have hmember : (s.target .glsl330).toList ∈ (handed s).map String.toList := by
    cases s <;> decide
  rw [List.foldlM_cons,
    carry_assign feed hplace htarget (ofLexemes?_render hgives.grouped) hgives.value
    (hout ▸ hmember)]
  rfl

/-- The text of a compiled stage runs to its end. It sets up the variables of the nodes behind the
stage, with the values of these, and assigns the widened value of the root last. -/
theorem run_render (hw : g.WellFormed) (he : g.Evaluated)
    (hroot : (g.inputsOf s.sink).at? 0 = some root) (hp : compileStage g .glsl330 s = .ok p)
    (hplain : ∀ n ∈ g.nodes, ReflTransGen (Feeds g.links) n.id root → Plain n) {n : Node}
    (hn : n ∈ g.nodes) (hid : n.id = root) (feed : Feed) :
    ∃ r, runText s feed p.render = some r ∧
      Defines (opened s feed).env r.env g {id | ReflTransGen (Feeds g.links) id root} ∧
      r.written = ((s.target .glsl330).toList,
        if n.output.size ≤ 4 then n.output.widen else n.output) :: passedOn s feed := by
  obtain ⟨w, h⟩ := emitted_of_compileStage hw hroot hp
  have hplain : ∀ n ∈ g.nodes, n.id ∈ w.left → Plain n := fun n hn hid =>
    hplain n hn ((h.behind n.id).mp hid)
  have hfree := opened_isFree s feed
  have hheader := run_header feed p h.dialect
  rw [h.stage] at hheader
  obtain ⟨env₁, hdeclared, hdefines₁⟩ := h.run_declarations hw he hplain feed
    (fun id => (hfree id).2) rfl (defines_base g fun id => (hfree id).1)
  let entered : Run := ⟨.within, env₁, (handed s).map String.toList, []⟩
  have hpassed := run_passedOn feed (r := entered) rfl rfl rfl hdefines₁
  obtain ⟨env₂, hbody, hdefines₂⟩ := run_body feed
    (r := { entered with written := passedOn s feed })
    (fun id => (hfree id).2) hw he s h.settled h.live hplain h.valid
    (fun n hn hid => mem_literalsOf hw hn hid) rfl hdefines₁
  have hdefines : Defines (opened s feed).env env₂ g
      {id | ReflTransGen (Feeds g.links) id root} := by
    refine hdefines₂.congr fun id => ⟨?_, fun hid => .inr ((h.behind id).mpr hid)⟩
    rintro (hid | hid)
    · exact (h.behind id).mp hid.1
    · exact (h.behind id).mp hid
  have hv : g.output? root = some n.output := hid ▸ Graph.output?_of_mem hw.id_once hn
  have hvalid := h.valid n hn ((h.behind n.id).mpr (hid ▸ .refl))
  have hassigned := run_output feed
    (r := { entered with written := passedOn s feed, env := env₂ })
    ((hdefines.node root n.output).mpr ⟨.refl, hv⟩) (not_isEmpty_of_isValid hvalid) rfl rfl
  have houtput : p.output = widenOutput (.node root) n.output.size := by rw [h.output, hv]; rfl
  refine ⟨⟨.behind, env₂, (handed s).map String.toList, _⟩, ?_, hdefines, rfl⟩
  rw [runText, Program.splitOn_render (plain_of_compileStage hw hp), lines_in_order, h.stage,
    h.dialect, houtput, h.body]
  have hrun := (foldlM_append_of_eq hheader _).trans <| (foldlM_append_of_eq hdeclared _).trans <|
    (foldlM_append_of_eq (run_open feed rfl) _).trans <| (foldlM_append_of_eq hpassed _).trans <|
    (foldlM_append_of_eq hbody _).trans <|
    (foldlM_append_of_eq hassigned _).trans (run_close feed rfl)
  exact congrArg (Option.filter fun r : Run => r.place = .behind) hrun

end

end ShaderGraph.Glsl

namespace ShaderGraph.Session

open Glsl Relation

/-- The text of a stage's program, run on any input, computes what the session shows. Every node
behind the stage output has a variable with the value of the node, and what the stage output is
assigned last is the value of that output, unless it is a matrix, which no output can take in. The
vertex stage hands its attributes on unchanged. -/
theorem program_computes_outputs {s : Session} (hs : s.Reachable) (ho : s.order = .topological)
    {stage : Stage} {root : NodeId} {p : Program}
    (hroot : (s.graph.inputsOf stage.sink).at? 0 = some root)
    (hp : compileStage s.graph .glsl330 stage = .ok p)
    (hplain : ∀ n ∈ s.graph.nodes, ReflTransGen (Feeds s.graph.links) n.id root → Plain n)
    (feed : Feed) :
    ∃ r, runText stage feed p.render = some r ∧
      (∀ n ∈ s.graph.nodes, ReflTransGen (Feeds s.graph.links) n.id root →
        r.env.lookup (nodeName n.id).toList = some n.output) ∧
      (∀ n ∈ s.graph.nodes, n.id = root →
        r.written.lookup (stage.target .glsl330).toList =
          if n.output.size ≤ 4 then s.graph.output? stage.sink else some n.output) ∧
      (stage = .vertex → ∀ a : Attribute, r.written.lookup a.passed.toList =
        some (.tabulate a.shape (feed a.source.toList))) := by
  have hw := hs.graph.wellFormed
  have he := hs.evaluated ho
  have hlive := hw.source_mem ((Graph.input_iff hw).mp hroot)
  obtain ⟨n, hn, rfl⟩ := Graph.mem_ids.mp hlive
  have houtput := Graph.output?_of_mem hw.id_once hn
  obtain ⟨r, hrun, hdefines, hwritten⟩ := run_render hw he hroot hp hplain hn rfl feed
  refine ⟨r, hrun, fun m hm hbehind => ?_, fun m hm hid => ?_, ?_⟩
  · exact (hdefines.node m.id m.output).mpr ⟨hbehind, Graph.output?_of_mem hw.id_once hm⟩
  · rw [List.inj_on_of_nodup_map hw.id_once hm hn hid, output?_sink hw he hroot houtput, hwritten,
      List.lookup_cons_self]
    split <;> rfl
  · rintro rfl a
    rw [hwritten]
    cases a <;> rfl

/-- A vector to the left of a matrix, with their product at the fragment stage. -/
def productSession : Session :=
  ((Session.new ⟨0⟩ ⟨1⟩).applyAll Handle.mk
    [.createNode .vector4 (.literal [.ofNat 1, .ofNat 2, .ofNat 3, .ofNat 4]),
      .createNode .matrix4 .standard, .createNode .multiply .standard, .connect 2 4 none,
      .connect 3 4 none, .connect 4 1 none]).2

theorem product_computes_outputs :
    ∃ p, compileStage productSession.graph .glsl330 .fragment = .ok p ∧
      p.body.map Statement.render = ["vec4 node_4 = node_3 * node_2;"] ∧
      ∀ feed, ∃ r, runText .fragment feed p.render = some r ∧
        r.env.lookup "node_4".toList = some (.vec4 (.ofNat 1) (.ofNat 2) (.ofNat 3) (.ofNat 4)) ∧
        r.written.lookup "frag_color".toList =
          some (.vec4 (.ofNat 1) (.ofNat 2) (.ofNat 3) (.ofNat 4)) := by
  have hs : productSession.Reachable := (Reachable.new ⟨0⟩ ⟨1⟩).applyAll Handle.mk _
  have hroot : (productSession.graph.inputsOf Stage.fragment.sink).at? 0 = some 4 := by
    decide +kernel
  have hbody : (compileStage productSession.graph .glsl330 .fragment).toOption.map
      (fun p => p.body.map Statement.render) = some ["vec4 node_4 = node_3 * node_2;"] := by
    decide +kernel
  have hplain : ∀ n ∈ productSession.graph.nodes,
      dependsOn productSession.graph.links 4 n.id = true → Plain n := by
    decide +kernel
  have hnode : ∃ n ∈ productSession.graph.nodes, n.id = 4 ∧
      n.output = .vec4 (.ofNat 1) (.ofNat 2) (.ofNat 3) (.ofNat 4) := by
    decide +kernel
  have hsink : productSession.graph.output? Stage.fragment.sink =
      some (.vec4 (.ofNat 1) (.ofNat 2) (.ofNat 3) (.ofNat 4)) := by
    decide +kernel
  cases hp : compileStage productSession.graph .glsl330 .fragment with
  | error e =>
    rw [hp] at hbody
    cases hbody
  | ok p =>
    rw [hp] at hbody
    refine ⟨p, rfl, Option.some.inj hbody, fun feed => ?_⟩
    obtain ⟨r, hrun, hvalue, hwritten, _⟩ := program_computes_outputs hs (by decide +kernel) hroot
      hp (fun n hn hbehind => hplain n hn ((dependsOn_iff _ _ _).mpr hbehind)) feed
    obtain ⟨n, hn, hid, houtput⟩ := hnode
    have hfour := hvalue n hn (hid ▸ .refl)
    rw [hid, houtput] at hfour
    have hcolor := hwritten n hn hid
    rw [houtput, hsink] at hcolor
    exact ⟨r, hrun, hfour, hcolor⟩

end ShaderGraph.Session

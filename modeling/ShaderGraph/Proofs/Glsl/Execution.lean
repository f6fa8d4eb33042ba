import ShaderGraph.Proofs.Glsl.Lines

namespace ShaderGraph.Glsl

/-- What a program is given from outside: the components of every input, by its name. -/
abbrev Feed := List Char → Nat → Scalar

def typeOf? (w : List Char) : Option Shape :=
  [Shape.scalar, .vec2, .vec3, .vec4, .mat4].find? fun s => s.keyword.toList = w

structure Definition where
  type : List Char
  name : List Char
  value : Tree

/-- What a line says. Directives say nothing about values. -/
inductive Line where
  | blank
  | input (type name : List Char)
  | output (type name : List Char)
  | constant (d : Definition)
  | main
  | define (d : Definition)
  | assign (name : List Char) (value : Tree)
  | close

namespace Line

def closed? (ls : List Lexeme) : Option Tree :=
  if ls.getLast? = some (.mark ';') then Tree.ofLexemes? ls.dropLast else none

def ofLexemes? : List Lexeme → Option Line
  | [] | .mark '#' :: _ => some .blank
  | [.mark '\x7d'] => some .close
  | [.word w, .word v, .mark '(', .mark ')', .mark '\x7b'] =>
    if w = "void".toList ∧ v = "main".toList then some .main else none
  | [.word q, .word type, .word name, .mark ';'] =>
    if q = "in".toList ∨ q = "uniform".toList then some (.input type name)
    else if q = "out".toList then some (.output type name)
    else none
  | .word q :: .word type :: .word name :: .mark '=' :: rest =>
    if q = "const".toList then (closed? rest).map fun e => .constant ⟨type, name, e⟩ else none
  | .word type :: .word name :: .mark '=' :: rest =>
    (closed? rest).map fun e => .define ⟨type, name, e⟩
  | .word name :: .mark '=' :: rest => (closed? rest).map (.assign name)
  | _ => none

def ofText? (line : List Char) : Option Line := ofLexemes? (lexemes line)

end Line

inductive Place where
  | before | within | behind
  deriving DecidableEq

/-- How far a program has run: where it is, the variables it has set up, the names of its outputs
and what has been assigned to them, the latest first. -/
structure Run where
  place : Place
  env : Env
  outputs : List (List Char)
  written : Env

namespace Run

/-- The output of the vertex stage is there without being declared. -/
def start (s : Stage) : Run := ⟨.before, [], if s = .vertex then ["gl_Position".toList] else [], []⟩

def isFree (r : Run) (name : List Char) : Bool :=
  (r.env.lookup name).isNone && !r.outputs.contains name

/-- Sets a variable up. Its value must be of the type the line names. -/
def define (r : Run) (d : Definition) : Option Run := do
  let v ← d.value.value? r.env
  if v.shape.keyword.toList = d.type ∧ r.isFree d.name then
    some { r with env := (d.name, v) :: r.env }
  else none

def step (feed : Feed) (r : Run) (line : Line) : Option Run :=
  match r.place, line with
  | _, .blank => some r
  | .before, .input type name => do
    let s ← typeOf? type
    if r.isFree name then some { r with env := (name, .tabulate s (feed name)) :: r.env } else none
  | .before, .output type name => do
    let _ ← typeOf? type
    if r.isFree name then some { r with outputs := name :: r.outputs } else none
  | .before, .constant d => r.define d
  | .before, .main => some { r with place := .within }
  | .within, .define d => r.define d
  | .within, .assign name t => do
    let v ← t.value? r.env
    if name ∈ r.outputs then some { r with written := (name, v) :: r.written } else none
  | .within, .close => some { r with place := .behind }
  | _, _ => none

def carry (feed : Feed) (r : Run) (line : List Char) : Option Run :=
  (Line.ofText? line).bind (r.step feed)

end Run

def runText (s : Stage) (feed : Feed) (text : String) : Option Run :=
  ((Text.splitOn '\n' text.toList).foldlM (Run.carry feed) (.start s)).filter (·.place = .behind)

section Reading

theorem closed?_append {ls : List Lexeme} {t : Tree} (h : Tree.ofLexemes? ls = some t) :
    Line.closed? (ls ++ [.mark ';']) = some t := by
  simp [Line.closed?, h]

theorem ofText?_indented (line : String) :
    Line.ofText? ("    " ++ line).toList = Line.ofText? line.toList := by
  have hblank : ∀ cs, lexemes (' ' :: cs) = lexemes cs := lexemes_blank (by decide)
  have htext : ("    " ++ line).toList = ' ' :: ' ' :: ' ' :: ' ' :: line.toList := by simp
  rw [Line.ofText?, htext, hblank, hblank, hblank, hblank, Line.ofText?]

theorem ofText?_define (s : Shape) (id : NodeId) {e : Expr} (hg : e.Grouped) :
    Line.ofText? (Statement.define s id e).render.toList =
      some (.define ⟨s.keyword.toList, (nodeName id).toList, e.tree⟩) := by
  have htext : (Statement.define s id e).render.toList =
      s.keyword.toList ++ ' ' :: ((nodeName id).toList ++ ' ' :: '=' :: ' ' ::
        (e.render.toList ++ [';'])) := by
    simp [render_define]
  rw [Line.ofText?, htext, lexemes_definition, Line.ofLexemes?,
    closed?_append (ofLexemes?_render hg)]
  rfl

theorem ofText?_constant (id : NodeId) (v : Value) (hg : (literalExpr v).Grouped) :
    Line.ofText? (Declaration.constant id v).render.toList =
      some (.constant ⟨v.shape.keyword.toList, (nodeName id).toList, (literalExpr v).tree⟩) := by
  have htext : (Declaration.constant id v).render.toList =
      "const".toList ++ ' ' :: (v.shape.keyword.toList ++ ' ' :: ((nodeName id).toList ++
        ' ' :: '=' :: ' ' :: ((literalExpr v).render.toList ++ [';']))) := by
    simp [render_constant]
  rw [Line.ofText?, htext, lexemes_word (by decide) (List.all_eq_true.mp (by decide))
    (not_word_head (by decide) _), lexemes_blank (by decide), lexemes_definition,
    Line.ofLexemes?, closed?_append (ofLexemes?_render hg)]
  rfl

theorem ofText?_assign {name text : String} {t : Tree}
    (hname : name.toList.all isWordChar = true ∧ name.toList ≠ [])
    (ht : Tree.ofLexemes? (lexemes text.toList) = some t) :
    Line.ofText? (name ++ " = " ++ text ++ ";").toList = some (.assign name.toList t) := by
  have htext : (name ++ " = " ++ text ++ ";").toList =
      name.toList ++ ' ' :: '=' :: ' ' :: (text.toList ++ [';']) := by
    simp
  have hblank : ∀ cs, lexemes (' ' :: cs) = lexemes cs := lexemes_blank (by decide)
  have hlexemes : lexemes (text.toList ++ [';']) = lexemes text.toList ++ [.mark ';'] :=
    lexemes_append (by decide) _ _
  rw [Line.ofText?, htext, lexemes_word hname.2 (List.all_eq_true.mp hname.1)
    (not_word_head (by decide) _), hblank, lexemes_mark (by decide) (by decide), hblank, hlexemes,
    Line.ofLexemes?, closed?_append ht]
  rfl

end Reading

section Frame

variable {feed : Feed} {r : Run}

/-- The lines up to the declarations of the nodes, as they are read. -/
def frame (s : Stage) : List Line :=
  let inputs : List Line := Attribute.all.map fun a =>
    .input a.shape.keyword.toList (if s = .vertex then a.source else a.passed).toList
  let outputs : List Line := match s with
    | .vertex => .blank :: Attribute.all.map fun a => .output a.shape.keyword.toList a.passed.toList
    | .fragment => [.output Shape.vec4.keyword.toList "frag_color".toList]
  let rest : List Line :=
    [.blank, .input "mat4".toList "u_mvp".toList, .input "float".toList "u_time".toList,
      .input "vec3".toList "u_camera_position".toList]
  Line.blank :: Line.blank :: (inputs ++ outputs ++ rest)

theorem ofText?_declared {q name : String} (hq : q.toList.all isWordChar = true ∧ q.toList ≠ [])
    (hname : name.toList.all isWordChar = true ∧ name.toList ≠ []) (s : Shape) :
    Line.ofText? (q ++ " " ++ s.keyword ++ " " ++ name ++ ";").toList =
      Line.ofLexemes? [.word q.toList, .word s.keyword.toList, .word name.toList, .mark ';'] := by
  have htext : (q ++ " " ++ s.keyword ++ " " ++ name ++ ";").toList =
      q.toList ++ ' ' :: (s.keyword.toList ++ ' ' :: (name.toList ++ [';'])) := by simp
  have hkeyword : s.keyword.toList ≠ [] := by cases s <;> decide
  have hblank : ∀ cs, lexemes (' ' :: cs) = lexemes cs := lexemes_blank (by decide)
  rw [Line.ofText?, htext,
    lexemes_word hq.2 (List.all_eq_true.mp hq.1) (not_word_head (by decide) _), hblank,
    lexemes_word hkeyword (keyword_isWord s) (not_word_head (by decide) _), hblank,
    lexemes_word hname.2 (List.all_eq_true.mp hname.1) (not_word_head (by decide) _)]
  rfl

theorem ofText?_input {name : String} (hname : name.toList.all isWordChar = true ∧ name.toList ≠ [])
    (s : Shape) : Line.ofText? ("in" ++ " " ++ s.keyword ++ " " ++ name ++ ";").toList =
      some (.input s.keyword.toList name.toList) :=
  ofText?_declared (by decide) hname s

theorem ofText?_output {name : String}
    (hname : name.toList.all isWordChar = true ∧ name.toList ≠ []) (s : Shape) :
    Line.ofText? ("out" ++ " " ++ s.keyword ++ " " ++ name ++ ";").toList =
      some (.output s.keyword.toList name.toList) :=
  ofText?_declared (by decide) hname s

theorem source_isWord (a : Attribute) :
    a.source.toList.all isWordChar = true ∧ a.source.toList ≠ [] := by
  cases a <;> decide

theorem passed_isWord (a : Attribute) :
    a.passed.toList.all isWordChar = true ∧ a.passed.toList ≠ [] := by
  cases a <;> decide

theorem ofText?_header (p : Program) (hd : p.dialect = .glsl330) :
    (p.header ++ uniforms).map (fun line => Line.ofText? line.toList) =
      (frame p.stage).map some := by
  obtain ⟨d, s, declarations, body, output⟩ := p
  cases hd
  cases s with
  | vertex =>
    have hheader : (⟨.glsl330, .vertex, declarations, body, output⟩ : Program).header =
        ["#version 330 core"] ++ [] ++ [""]
          ++ (Attribute.all.map (fun a =>
            "in" ++ " " ++ a.shape.keyword ++ " " ++ a.source ++ ";") ++ [""])
          ++ Attribute.all.map (fun a => "out" ++ " " ++ a.shape.keyword ++ " " ++ a.passed ++ ";")
          ++ [] ++ [""] := rfl
    simp only [hheader, List.map_append, List.map_map, Function.comp_def,
      ofText?_input (source_isWord _), ofText?_output (passed_isWord _)]
    rfl
  | fragment =>
    have hheader : (⟨.glsl330, .fragment, declarations, body, output⟩ : Program).header =
        ["#version 330 core"] ++ [] ++ [""] ++ []
          ++ Attribute.all.map (fun a => "in" ++ " " ++ a.shape.keyword ++ " " ++ a.passed ++ ";")
          ++ ["out vec4 frag_color;"] ++ [""] := rfl
    simp only [hheader, List.map_append, List.map_map, Function.comp_def,
      ofText?_input (passed_isWord _)]
    rfl

theorem foldlM_carry {lines : List String} {ls : List Line}
    (h : lines.map (fun line => Line.ofText? line.toList) = ls.map some) (r : Run) :
    (lines.map String.toList).foldlM (Run.carry feed) r = ls.foldlM (Run.step feed) r := by
  induction lines generalizing ls r with
  | nil =>
    cases List.map_eq_nil_iff.mp h.symm
    rfl
  | cons line lines ih =>
    obtain ⟨l, ls, rfl, hl, hls⟩ := List.map_eq_cons_iff.mp h.symm
    have hl : Line.ofText? line.toList = some l := hl.symm
    rw [List.map_cons, List.foldlM_cons, List.foldlM_cons, Run.carry, hl]
    exact bind_congr fun r => ih hls.symm r

def received (s : Stage) : List (String × Shape) :=
  [("u_camera_position", .vec3), ("u_time", .scalar), ("u_mvp", .mat4)] ++
    Attribute.all.reverse.map fun a => (if s = .vertex then a.source else a.passed, a.shape)

def handed : Stage → List String
  | .vertex => Attribute.all.reverse.map Attribute.passed ++ ["gl_Position"]
  | .fragment => ["frag_color"]

def opened (s : Stage) (feed : Feed) : Run where
  place := .before
  env := (received s).map fun x => (x.1.toList, .tabulate x.2 (feed x.1.toList))
  outputs := (handed s).map String.toList
  written := []

theorem run_header (feed : Feed) (p : Program) (hd : p.dialect = .glsl330) :
    ((p.header ++ uniforms).map String.toList).foldlM (Run.carry feed) (.start p.stage) =
      some (opened p.stage feed) := by
  rw [foldlM_carry (ofText?_header p hd)]
  cases p.stage <;> rfl

/-- No input and no output of a program is called like a node. -/
theorem opened_isFree (s : Stage) (feed : Feed) (id : NodeId) :
    (opened s feed).env.lookup (nodeName id).toList = none ∧
      (nodeName id).toList ∉ (opened s feed).outputs := by
  have hfirst : ∀ {names : List String}, names.all (·.toList.head? != some 'n') = true →
      ∀ name ∈ names, (nodeName id).toList ≠ name.toList := by
    intro names hnames name hmem heq
    have hhead := List.all_eq_true.mp hnames name hmem
    rw [← heq, nodeName_toList] at hhead
    cases hhead
  have hreceived : ((received s).map Prod.fst).all (·.toList.head? != some 'n') = true := by
    cases s <;> decide
  have hhanded : (handed s).all (·.toList.head? != some 'n') = true := by cases s <;> decide
  constructor
  · refine List.lookup_eq_none_iff.mpr fun x hx => ?_
    obtain ⟨y, hy, rfl⟩ := List.mem_map.mp hx
    simpa using hfirst hreceived y.1 (List.mem_map_of_mem hy)
  · intro hmem
    obtain ⟨name, hname, heq⟩ := List.mem_map.mp hmem
    exact hfirst hhanded name hname heq.symm

end Frame

/-- The lines of a text in the order they are run. -/
theorem lines_in_order (p : Program) : p.lines.map String.toList ++ [[]] =
    (p.header ++ uniforms).map String.toList ++ ((p.declarations.map fun x => x.render.toList) ++
      (["".toList, "void main() \x7b".toList] ++
      (((if p.stage = .vertex then Attribute.all.map fun a => s!"{a.passed} = {a.source};"
        else []).map fun line => ("    " ++ line).toList) ++
      ((p.body.map fun st => ("    " ++ st.render).toList) ++
      ([("    " ++ (p.stage.target p.dialect ++ " = " ++ p.output.render ++ ";")).toList] ++
      ["\x7d".toList, []]))))) := by
  simp only [Program.lines, Program.entry, List.map_append, List.map_map, List.append_assoc,
    List.map_cons, List.map_nil]
  rfl

/-- A run goes on from where its first part ends. -/
theorem foldlM_append_of_eq {σ α : Type} {f : σ → α → Option σ} {s t : σ} {xs : List α}
    (h : xs.foldlM f s = some t) (ys : List α) : (xs ++ ys).foldlM f s = ys.foldlM f t := by
  rw [List.foldlM_append, h]
  rfl

section Carrying

variable (feed : Feed) {r : Run} {id : NodeId} {v : Value}

theorem carry_define {s : Shape} {e : Expr} (hplace : r.place = .within) (hg : e.Grouped)
    (hv : e.tree.value? r.env = some v) (hs : v.shape = s)
    (hfree : r.isFree (nodeName id).toList = true) :
    r.carry feed ("    " ++ (Statement.define s id e).render).toList =
      some { r with env := ((nodeName id).toList, v) :: r.env } := by
  rw [Run.carry, ofText?_indented, ofText?_define s id hg]
  simp [Run.step, hplace, Run.define, hv, hs, hfree]

theorem carry_constant (hplace : r.place = .before) (hg : (literalExpr v).Grouped)
    (hv : (literalExpr v).tree.value? r.env = some v)
    (hfree : r.isFree (nodeName id).toList = true) :
    r.carry feed (Declaration.constant id v).render.toList =
      some { r with env := ((nodeName id).toList, v) :: r.env } := by
  rw [Run.carry, ofText?_constant id v hg]
  simp [Run.step, hplace, Run.define, hv, hfree]

theorem carry_assign {name text : String} {t : Tree} (hplace : r.place = .within)
    (hname : name.toList.all isWordChar = true ∧ name.toList ≠ [])
    (ht : Tree.ofLexemes? (lexemes text.toList) = some t) (hv : t.value? r.env = some v)
    (hout : name.toList ∈ r.outputs) :
    r.carry feed ("    " ++ (name ++ " = " ++ text ++ ";")).toList =
      some { r with written := (name.toList, v) :: r.written } := by
  rw [Run.carry, ofText?_indented, ofText?_assign hname ht]
  simp [Run.step, hplace, hv, hout]

theorem run_open (hplace : r.place = .before) :
    ["".toList, "void main() \x7b".toList].foldlM (Run.carry feed) r =
      some { r with place := .within } := by
  have hread : ["", "void main() \x7b"].map (fun line => Line.ofText? line.toList) =
      [Line.blank, .main].map some := rfl
  rw [show ["".toList, "void main() \x7b".toList] =
      ["", "void main() \x7b"].map String.toList from rfl,
    foldlM_carry hread]
  simp [Run.step, hplace]

theorem run_close (hplace : r.place = .within) :
    ["\x7d".toList, []].foldlM (Run.carry feed) r = some { r with place := .behind } := by
  have hread : ["\x7d", ""].map (fun line => Line.ofText? line.toList) =
      [Line.close, .blank].map some := rfl
  rw [show ["\x7d".toList, []] = ["\x7d", ""].map String.toList from rfl, foldlM_carry hread]
  simp [Run.step, hplace]

/-- Attributes are handed on one after the other. -/
theorem run_passed {as : List Attribute} {f : Attribute → Value} (hplace : r.place = .within)
    (henv : ∀ a ∈ as, r.env.lookup a.source.toList = some (f a))
    (hout : ∀ a ∈ as, a.passed.toList ∈ r.outputs) :
    (as.map fun a => ("    " ++ (a.passed ++ " = " ++ a.source ++ ";")).toList).foldlM
        (Run.carry feed) r =
      some { r with written := (as.reverse.map fun a => (a.passed.toList, f a)) ++ r.written } := by
  induction as generalizing r with
  | nil => rfl
  | cons a as ih =>
    have hread : Tree.ofLexemes? (lexemes a.source.toList) = some (.name a.source.toList) := by
      cases a <;> rfl
    have hstep := carry_assign feed hplace (passed_isWord a) hread
      (v := f a) (henv a (by simp)) (hout a (by simp))
    have hrest := ih (r := { r with written := (a.passed.toList, f a) :: r.written }) hplace
      (fun b hb => henv b (by simp [hb])) (fun b hb => hout b (by simp [hb]))
    rw [List.map_cons, List.foldlM_cons, hstep]
    refine hrest.trans ?_
    simp

end Carrying

end ShaderGraph.Glsl

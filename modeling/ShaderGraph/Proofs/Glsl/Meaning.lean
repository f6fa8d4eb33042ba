import ShaderGraph.Glsl.Program
import ShaderGraph.Evaluation
import ShaderGraph.Proofs.Glsl.Rendering

namespace ShaderGraph.Glsl

def product (a b : Value) : Option Value :=
  match a.shape, b.shape with
  | .mat4, .mat4 => some (a.matMul b)
  | .mat4, .vec4 => some (a.transform b)
  | .vec4, .mat4 => some (b.transpose.transform a)
  | _, _ => Value.zip (· * ·) a b

def Op.result? : Op → Value → Value → Option Value
  | .add => Value.zip (· + ·)
  | .sub => Value.zip (· - ·)
  | .mul => product
  | .div => Value.zip (· / ·)

def assemble? (n : Nat) (vs : List Value) : Option Value :=
  let all := vs.flatMap Value.components
  if all.length = n then Value.ofList? all else none

/-- A vector of `n` components; one scalar fills them all. -/
def vector? (n : Nat) : List Value → Option Value
  | [v] => if v.size = 1 then Value.ofList? (List.replicate n (v.get 0)) else assemble? n [v]
  | vs => assemble? n vs

def Func.result? : Func → List Value → Option Value
  | .abs, [a] => some (a.map Float32.abs)
  | .cos, [a] => some (a.map Scalar.cos)
  | .sin, [a] => some (a.map Scalar.sin)
  | .tan, [a] => some (a.map Scalar.tan)
  | .radians, [a] => some (a.map Scalar.radians)
  | .degrees, [a] => some (a.map Scalar.degrees)
  | .sqrt, [a] => some (a.map Float32.sqrt)
  | .trunc, [a] => some (a.map Scalar.trunc)
  | .round, [a] => some (a.map Scalar.round)
  | .ceil, [a] => some (a.map Scalar.ceil)
  | .floor, [a] => some (a.map Scalar.floor)
  | .fract, [a] => some (a.map Scalar.fract)
  | .exp2, [a] => some (a.map Scalar.exp2)
  | .clamp, [a, low, high] => Value.zip3 Scalar.clamp a low high
  | .normalize, [a] => some a.normalize
  | .length, [a] => some (.scalar a.norm)
  | .dot, [a, b] => if a.size = b.size then some (.scalar (a.dot b)) else none
  | .cross, [a, b] => if a.size = 3 ∧ b.size = 3 then some (a.cross b) else none
  | .distance, [a, b] =>
    if a.size = b.size then (Value.zip (· - ·) a b).map fun v => .scalar v.norm else none
  | .pow, [a, b] => Value.zip Scalar.pow a b
  | .max, [a, b] => Value.zip Scalar.maximum a b
  | .min, [a, b] => Value.zip Scalar.minimum a b
  | .mix, [a, b, c] => Value.zip3 Scalar.lerp a b c
  | .smoothstep, [a, b, c] => Value.zip3 Scalar.smoothstep a b c
  | .transpose, [a] => if a.shape = .mat4 then some a.transpose else none
  | .mat4, vs => assemble? 16 vs
  | .vec n, vs => vector? n vs
  | _, _ => none

abbrev Env := List (List Char × Value)

mutual

def Tree.value? (env : Env) : Tree → Option Value
  | .name w => env.lookup w
  | .number x => some (.scalar x)
  | .minus t => (t.value? env).map (Value.map fun x => -x)
  | .binary op a b => do
    let x ← a.value? env
    let y ← b.value? env
    op.result? x y
  | .call f args => do
    let vs ← Tree.values? env args
    f.result? vs

def Tree.values? (env : Env) : List Tree → Option (List Value)
  | [] => some []
  | t :: ts => do
    let v ← t.value? env
    let vs ← Tree.values? env ts
    return v :: vs

end

theorem attach_append {c : Char} {goesOn : Bool} {ls : List Lexeme} (h : goesOn = true → ls ≠ [])
    (more : List Lexeme) :
    Lexeme.attach c goesOn (ls ++ more) = Lexeme.attach c goesOn ls ++ more := by
  cases goesOn with
  | false => rfl
  | true =>
    obtain ⟨l, rest, rfl⟩ := List.exists_cons_of_ne_nil (h rfl)
    cases l <;> rfl

theorem lexemes_ne_nil {c : Char} (h : isWordChar c = true) (cs : List Char) :
    lexemes (c :: cs) ≠ [] := by
  simp only [lexemes, not_isBlank_of_isWordChar h, h, Bool.false_eq_true, ↓reduceIte]
  unfold Lexeme.attach
  split <;> simp

/-- A text falls apart at a mark. -/
theorem lexemes_append {c : Char} (hc : isWordChar c = false) (xs ys : List Char) :
    lexemes (xs ++ c :: ys) = lexemes xs ++ lexemes (c :: ys) := by
  induction xs with
  | nil => rfl
  | cons x xs ih =>
    have hhead : (xs ++ c :: ys).head?.any isWordChar = xs.head?.any isWordChar := by
      cases xs with
      | nil => simp [hc]
      | cons y xs => rfl
    have hword : xs.head?.any isWordChar = true → lexemes xs ≠ [] := by
      intro h
      cases xs with
      | nil => cases h
      | cons y xs => exact lexemes_ne_nil (by simpa using h) xs
    simp only [List.cons_append, lexemes, hhead, ih]
    split
    · rfl
    · split
      · exact attach_append hword _
      · rfl

theorem keyword_isWord (s : Shape) : ∀ c ∈ s.keyword.toList, isWordChar c = true := by
  cases s <;> exact List.all_eq_true.mp (by decide)

/-- The definition of a node's variable, as both declarations and statements write it. -/
theorem lexemes_definition (s : Shape) (id : NodeId) (e : Expr) :
    lexemes (s.keyword.toList ++ ' ' :: ((nodeName id).toList ++ ' ' :: '=' :: ' ' ::
        (e.render.toList ++ [';']))) =
      .word s.keyword.toList :: .word (nodeName id).toList :: .mark '=' ::
        (lexemes e.render.toList ++ [.mark ';']) := by
  have hblank : ∀ cs, lexemes (' ' :: cs) = lexemes cs := lexemes_blank (by decide)
  have hkeyword : s.keyword.toList ≠ [] := by cases s <;> decide
  have hname : (nodeName id).toList ≠ [] := by simp [nodeName_toList]
  rw [lexemes_word hkeyword (keyword_isWord s) (not_word_head (by decide) _), hblank,
    lexemes_word hname (nodeName_isWord id) (not_word_head (by decide) _), hblank,
    lexemes_mark (by decide) (by decide), hblank, lexemes_append (by decide)]
  rfl

theorem render_define (s : Shape) (id : NodeId) (e : Expr) :
    (Statement.define s id e).render =
      s.keyword ++ " " ++ nodeName id ++ " = " ++ e.render ++ ";" := by
  unfold Statement.render
  rfl

theorem render_constant (id : NodeId) (v : Value) :
    (Declaration.constant id v).render =
      "const " ++ v.shape.keyword ++ " " ++ nodeName id ++ " = " ++ (literalExpr v).render ++
        ";" := by
  unfold Declaration.render
  rfl

variable {env : Env}

theorem map_scalar (f : Scalar → Scalar) (x : Scalar) :
    (Value.scalar x).map f = .scalar (f x) := rfl

theorem value?_number {x : Scalar} (hx : x.isFinite = true) :
    (Expr.number x).tree.value? env = some (.scalar x) := by
  obtain ⟨negative, m, e, hp⟩ := Scalar.parts_of_isFinite hx
  obtain ⟨hr, hx'⟩ := Scalar.eq_ofMagnitude hp
  cases negative with
  | false => simp [Expr.tree, Expr.numberTree, hp, Tree.value?]
  | true =>
    have hneg : -Scalar.ofMagnitude false (Scalar.magnitude m e) = x := by
      rw [Scalar.neg_ofMagnitude (Scalar.magnitude_le hr).le, ← hx']
    simp [Expr.tree, Expr.numberTree, hp, Tree.value?, map_scalar, hneg]

theorem trees_eq_map (es : List Expr) : Expr.trees es = es.map Expr.tree := by
  induction es with
  | nil => rfl
  | cons e es ih => rw [Expr.trees, ih, List.map_cons]

theorem allGrouped_iff (es : List Expr) : Expr.AllGrouped es ↔ ∀ e ∈ es, e.Grouped := by
  induction es with
  | nil => simp [Expr.AllGrouped]
  | cons e es ih => simp [Expr.AllGrouped, ih]

theorem values?_map {α : Type} {f : α → Tree} {g : α → Value} {xs : List α}
    (h : ∀ x ∈ xs, (f x).value? env = some (g x)) :
    Tree.values? env (xs.map f) = some (xs.map g) := by
  induction xs with
  | nil => rfl
  | cons x xs ih =>
    have hrest := ih fun y hy => h y (by simp [hy])
    simp [Tree.values?, h x (by simp), hrest]

theorem flatMap_scalars (xs : List Scalar) :
    (xs.map Value.scalar).flatMap Value.components = xs := by
  induction xs with
  | nil => rfl
  | cons x xs ih =>
    rw [List.map_cons, List.flatMap_cons, ih]
    rfl

theorem literalExpr_grouped {v : Value} (hne : v.components ≠ [])
    (hfinite : ∀ x ∈ v.components, x.isFinite = true) : (literalExpr v).Grouped := by
  unfold literalExpr
  split
  · rename_i x hx
    exact hfinite x (by simp [hx])
  · refine ⟨by simpa using hne, (allGrouped_iff _).mpr fun e he => ?_⟩
    obtain ⟨x, hx, rfl⟩ := List.mem_map.mp he
    exact hfinite x hx

/-- A value spelled out is the value. -/
theorem value?_literal {v : Value} (hfinite : ∀ x ∈ v.components, x.isFinite = true) :
    (literalExpr v).tree.value? env = some v := by
  unfold literalExpr
  split
  · rename_i x hx
    rw [value?_number (hfinite x (by simp [hx]))]
    exact congrArg some (Value.ext' hx.symm)
  · rename_i hmany
    have hvalues : Tree.values? env (Expr.trees (v.components.map .number)) =
        some (v.components.map .scalar) := by
      rw [trees_eq_map, List.map_map]
      exact values?_map fun x hx => value?_number (hfinite x hx)
    have hall : assemble? v.shape.size (v.components.map .scalar) = some v := by
      rw [assemble?, flatMap_scalars, if_pos v.length_eq, Value.ofList?_components]
    simp only [Expr.tree, Tree.value?, hvalues, Option.bind_eq_bind, Option.bind_some]
    unfold constructor
    split
    · rename_i hs
      rw [hs] at hall
      exact hall
    · change vector? v.shape.size (v.components.map .scalar) = some v
      unfold vector?
      split
      · rename_i w hw
        obtain ⟨x, hx, -⟩ := List.map_eq_singleton_iff.mp hw
        exact absurd hx (hmany x)
      · exact hall

end ShaderGraph.Glsl

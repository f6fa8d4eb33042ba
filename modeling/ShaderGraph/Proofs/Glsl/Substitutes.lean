import ShaderGraph.Proofs.Glsl.Meaning
import ShaderGraph.Proofs.WholeParts

namespace ShaderGraph.Glsl

def Op.rational? : Op → ℚ → ℚ → Option ℚ
  | .add, a, b => some (a + b)
  | .sub, a, b => some (a - b)
  | .mul, a, b => some (a * b)
  | .div, a, b => if b = 0 then none else some (a / b)

def Func.rational? : Func → List ℚ → Option ℚ
  | .abs, [a] => some |a|
  | .sign, [a] => some (SignType.sign a)
  | .floor, [a] => some ⌊a⌋
  | _, _ => none

mutual

/-- The number an expression stands for when nothing is rounded. -/
def Tree.rational? (number : List Char → Option ℚ) : Tree → Option ℚ
  | .name w => number w
  | .number x => x.toRat?
  | .minus t => (t.rational? number).map fun a => -a
  | .binary op a b => do
    let x ← a.rational? number
    let y ← b.rational? number
    op.rational? x y
  | .call f args => do
    let xs ← Tree.rationals? number args
    f.rational? xs

def Tree.rationals? (number : List Char → Option ℚ) : List Tree → Option (List ℚ)
  | [] => some []
  | t :: ts => do
    let x ← t.rational? number
    let xs ← Tree.rationals? number ts
    return x :: xs

end

def textRational? (number : List Char → Option ℚ) (text : String) : Option ℚ :=
  (Tree.ofLexemes? (lexemes text.toList)).bind (Tree.rational? number)

section

variable {number : List Char → Option ℚ} {id : NodeId} {q : ℚ}

theorem textRational?_trunc (h : number (nodeName id).toList = some q) :
    textRational? number (Dialect.gles100.trunc (.node id)).render =
      some (SignType.sign q * ⌊|q|⌋ : ℚ) := by
  have hgrouped : (Dialect.gles100.trunc (.node id)).Grouped := by
    simp [Dialect.trunc, Expr.call1, Expr.Grouped, Expr.AllGrouped, Expr.rank, Op.rank]
  rw [textRational?, ofLexemes?_render hgrouped]
  simp [Dialect.trunc, Expr.call1, Expr.tree, Expr.trees, Tree.rational?, Tree.rationals?,
    Func.rational?, Op.rational?, h]

theorem half_parts : Scalar.parts (.nearest false 1 2) = .finite false (2 ^ 23) (-24) := by decide

theorem textRational?_round (h : number (nodeName id).toList = some q) :
    textRational? number (Dialect.gles100.round (.node id)).render = some (⌊q + 1 / 2⌋ : ℚ) := by
  have hfinite : (Scalar.nearest false 1 2).isFinite = true := by decide
  have hgrouped : (Dialect.gles100.round (.node id)).Grouped := by
    simp [Dialect.round, Expr.call1, Expr.Grouped, Expr.AllGrouped, Expr.rank, Op.rank, hfinite]
  have hhalf : Scalar.toRat? (.nearest false 1 2) = some (1 / 2) := by
    rw [Scalar.toRat?_of_parts half_parts]
    norm_num [Scalar.signed]
  rw [textRational?, ofLexemes?_render hgrouped]
  simp [Dialect.round, Expr.call1, Expr.tree, Expr.trees, Expr.numberTree, half_parts,
    Tree.rational?, Tree.rationals?, Func.rational?, Op.rational?, h, hhalf]

example : (Dialect.gles100.round (.node 2)).render = "floor(node_2 + 0.5)" := by decide +kernel

end

def elementName (w : List Char) (c r : Nat) : List Char :=
  w ++ '[' :: (Nat.toDigits 10 c ++ ']' :: '[' :: (Nat.toDigits 10 r ++ [']']))

def joinElements : List Lexeme → List Lexeme
  | .word w :: .mark '[' :: .word c :: .mark ']' :: .mark '[' :: .word r :: .mark ']' :: ls =>
    .word (w ++ '[' :: (c ++ ']' :: '[' :: (r ++ [']']))) :: joinElements ls
  | l :: ls => l :: joinElements ls
  | [] => []

/-- The elements of a matrix, `m[c][r]` being in column `c` and row `r`. -/
def matrixElements (w : List Char) (m : Value) : Env :=
  (List.range 16).map fun i => (elementName w (i / 4) (i % 4), .scalar (m.get i))

def elements (env : Env) : Env :=
  env.flatMap fun p => if p.2.shape = .mat4 then matrixElements p.1 p.2 else []

def indexedValue? (env : Env) (text : String) : Option Value :=
  (Tree.ofLexemes? (joinElements (lexemes text.toList))).bind (Tree.value? (elements env ++ env))

theorem elementName_inj {w w' : List Char} {c r c' r' : Nat} (hc : c < 4) (hr : r < 4)
    (hc' : c' < 4) (hr' : r' < 4) (h : elementName w c r = elementName w' c' r') :
    w = w' ∧ c = c' ∧ r = r' := by
  have hdigit : ∀ a < 4, ∀ b < 4, Nat.digitChar a = Nat.digitChar b → a = b := by decide
  have hone : ∀ a < 4, Nat.toDigits 10 a = [Nat.digitChar a] :=
    fun a ha => Nat.toDigits_of_lt_base (by omega)
  simp only [elementName, hone c hc, hone r hr, hone c' hc', hone r' hr'] at h
  obtain ⟨hw, hindex⟩ := List.append_inj' h (by simp)
  simp only [List.cons_append, List.nil_append, List.cons.injEq, true_and, and_true] at hindex
  exact ⟨hw, hdigit c hc c' hc' hindex.1, hdigit r hr r' hr' hindex.2⟩

theorem lookup_map {k : Nat → List Char} {v : Nat → Value} {l : List Nat} {j : Nat} (hj : j ∈ l)
    (hinj : ∀ i ∈ l, k j = k i → j = i) :
    (l.map fun i => (k i, v i)).lookup (k j) = some (v j) := by
  induction l with
  | nil => cases hj
  | cons i l ih =>
    rw [List.map_cons, List.lookup_cons]
    by_cases hk : k j = k i
    · rw [hinj i (by simp) hk]
      simp
    · have hne : j ≠ i := fun h => hk (by rw [h])
      simp only [beq_false_of_ne hk]
      exact ih (by simpa [hne] using hj) fun i hi => hinj i (by simp [hi])

section

variable {w w' : List Char} {m : Value} {c r : Nat}

theorem lookup_matrixElements (hc : c < 4) (hr : r < 4) :
    (matrixElements w m).lookup (elementName w c r) = some (.scalar (m.get (4 * c + r))) := by
  have hcolumn : (4 * c + r) / 4 = c := by omega
  have hrow : (4 * c + r) % 4 = r := by omega
  have hlookup := lookup_map (k := fun i => elementName w (i / 4) (i % 4))
    (v := fun i => .scalar (m.get i)) (List.mem_range.mpr (by omega : 4 * c + r < 16)) ?_
  · simp only [hcolumn, hrow] at hlookup
    exact hlookup
  · intro i hi hname
    have hi := List.mem_range.mp hi
    obtain ⟨-, hcolumn', hrow'⟩ := elementName_inj (by omega) (by omega) (by omega) (by omega) hname
    omega

theorem lookup_matrixElements_of_ne (hw : w ≠ w') (hc : c < 4) (hr : r < 4) :
    (matrixElements w' m).lookup (elementName w c r) = none := by
  rw [List.lookup_eq_none_iff]
  intro p hp
  obtain ⟨i, hi, rfl⟩ := List.mem_map.mp hp
  have hi := List.mem_range.mp hi
  rw [bne_iff_ne]
  exact fun h => hw (elementName_inj hc hr (by omega) (by omega) h).1

theorem lookup_elements {env : Env} (h : env.lookup w = some m) (hm : m.shape = .mat4)
    (hc : c < 4) (hr : r < 4) :
    (elements env).lookup (elementName w c r) = some (.scalar (m.get (4 * c + r))) := by
  induction env with
  | nil => cases h
  | cons entry env ih =>
    obtain ⟨w', m'⟩ := entry
    rw [List.lookup_cons] at h
    rw [elements, List.flatMap_cons, List.lookup_append]
    by_cases hw : w = w'
    · subst hw
      simp only [BEq.rfl, Option.some.injEq] at h
      subst h
      rw [if_pos hm, lookup_matrixElements hc hr, Option.some_or]
    · have hother : (if m'.shape = .mat4 then matrixElements w' m' else []).lookup
          (elementName w c r) = none := by
        split
        · exact lookup_matrixElements_of_ne hw hc hr
        · rfl
      simp only [beq_false_of_ne hw] at h
      rw [hother, Option.none_or]
      exact ih h

end

theorem elementName_render (id : NodeId) (c r : Nat) :
    (Expr.element (.node id) c r).render.toList = elementName (nodeName id).toList c r := by
  have hopen : (toString "[").toList = ['['] := rfl
  have hnext : (toString "][").toList = [']', '['] := rfl
  have hclose : (toString "]").toList = [']'] := rfl
  simp [Expr.render, elementName, hopen, hnext, hclose]

theorem joinElements_element {w : List Char} (hne : w ≠ []) (hw : ∀ d ∈ w, isWordChar d = true)
    (c r : Nat) (rest : List Char) :
    joinElements (lexemes (elementName w c r ++ rest)) =
      .word (elementName w c r) :: joinElements (lexemes rest) := by
  have hdigits (n : Nat) : ∀ d ∈ Nat.toDigits 10 n, isWordChar d = true :=
    numbered_isWord (by decide : [].all isWordChar = true) n
  have htext : elementName w c r ++ rest =
      w ++ '[' :: (Nat.toDigits 10 c ++ ']' :: '[' :: (Nat.toDigits 10 r ++ ']' :: rest)) := by
    simp [elementName]
  rw [htext, lexemes_word hne hw (not_word_head (by decide) _),
    lexemes_mark (by decide) (by decide),
    lexemes_word Nat.toDigits_ne_nil (hdigits c) (not_word_head (by decide) _),
    lexemes_mark (by decide) (by decide), lexemes_mark (by decide) (by decide),
    lexemes_word Nat.toDigits_ne_nil (hdigits r) (not_word_head (by decide) _),
    lexemes_mark (by decide) (by decide)]
  rfl

theorem joinElements_call (w : List Char) (ls : List Lexeme) :
    joinElements (.word w :: .mark '(' :: ls) = .word w :: .mark '(' :: joinElements ls := by
  simp [joinElements]

theorem operand?_element (id : NodeId) (c r : Nat) :
    Reading.operand? (elementName (nodeName id).toList c r) =
      some (.name (elementName (nodeName id).toList c r)) := by
  have hdigits (n : Nat) : '.' ∉ Nat.toDigits 10 n := fun hd =>
    absurd (Nat.isDigit_of_mem_toDigits (by decide) (by decide) hd) (by decide)
  refine operand?_name ?_ ?_
  · simp [elementName, nodeName_toList]
  · simp [elementName, nodeName_toList, hdigits]

open Reading

/-- The elements of a matrix as arguments, up to the closing bracket. -/
theorem foldlM_elements (id : NodeId) (f : Func) (cells : List (Nat × Nat)) (hne : cells ≠ [])
    (done : List Tree) :
    (joinElements (lexemes ((String.intercalate ", " (Expr.renderAll (cells.map fun p =>
        .element (.node id) p.1 p.2))).toList ++ [')']))).foldlM step
        ⟨.fresh, .nothing, [(.fresh, some (f, done))]⟩ =
      some ⟨.fresh, .whole (.call f (done ++ cells.map fun p =>
        .name (elementName (nodeName id).toList p.1 p.2))), []⟩ := by
  have hname : (nodeName id).toList ≠ [] := by simp [nodeName_toList]
  have hword (p : Nat × Nat) (r : Reading) (hr : r.hand = .nothing) :
      r.step (.word (elementName (nodeName id).toList p.1 p.2)) =
        some { r with hand := .name (elementName (nodeName id).toList p.1 p.2) } := by
    simp [step, hr, operand?_element]
  induction cells generalizing done with
  | nil => exact absurd rfl hne
  | cons p cells ih =>
    cases cells with
    | nil =>
      rw [List.map_singleton, Expr.renderAll, Expr.renderAll, String.intercalate_singleton,
        elementName_render, joinElements_element hname (nodeName_isWord id),
        lexemes_mark (by decide) (by decide), List.foldlM_cons, hword p _ rfl]
      rfl
    | cons p' cells =>
      have hcomma : (", " : String).toList = [',', ' '] := rfl
      have htext : (String.intercalate ", " (Expr.renderAll ((p :: p' :: cells).map fun p =>
          .element (.node id) p.1 p.2))).toList ++ [')'] =
            elementName (nodeName id).toList p.1 p.2 ++ ',' :: ' ' ::
              ((String.intercalate ", " (Expr.renderAll ((p' :: cells).map fun p =>
                .element (.node id) p.1 p.2))).toList ++ [')']) := by
        simp [Expr.renderAll, String.intercalate_cons_cons, hcomma, elementName_render]
      rw [htext, joinElements_element hname (nodeName_isWord id),
        lexemes_mark (by decide) (by decide), lexemes_blank (by decide), List.foldlM_cons,
        hword p _ rfl]
      change (joinElements _).foldlM step ⟨.fresh, .nothing, [(.fresh, some (f, done ++
        [.name (elementName (nodeName id).toList p.1 p.2)]))]⟩ = _
      rw [ih (by simp), List.append_assoc]
      rfl

theorem ofLexemes?_transpose (id : NodeId) :
    Tree.ofLexemes? (joinElements (lexemes (Dialect.gles100.transpose (.node id)).render.toList)) =
      some (.call .mat4 ((List.range 16).map fun i =>
        .name (elementName (nodeName id).toList (i % 4) (i / 4)))) := by
  have hcells := foldlM_elements id .mat4 ((List.range 16).map fun i => (i % 4, i / 4)) (by simp) []
  rw [List.map_map, List.map_map] at hcells
  have htext : (Dialect.gles100.transpose (.node id)).render.toList = Func.mat4.name.toList ++
      '(' :: ((String.intercalate ", " (Expr.renderAll ((List.range 16).map fun i =>
        .element (.node id) (i % 4) (i / 4)))).toList ++ [')']) := by
    simp [Dialect.transpose, Expr.render]
  have henter : step ⟨.fresh, .name Func.mat4.name.toList, []⟩ (.mark '(') =
      some ⟨.fresh, .nothing, [(.fresh, some (.mat4, []))]⟩ := by
    simp [step, enter, ofName?_name]
  have hstart : Reading.start.step (.word Func.mat4.name.toList) =
      some ⟨.fresh, .name Func.mat4.name.toList, []⟩ := by
    simp [step, Reading.start, operand?_funcName]
  rw [htext, lexemes_word (by decide) (funcName_isWord .mat4) (not_word_head (by decide) _),
    lexemes_mark (by decide) (by decide), Tree.ofLexemes?, joinElements_call]
  simp only [List.foldlM_cons, hstart, henter, Option.bind_eq_bind, Option.bind_some]
  exact congrArg (Option.bind · finish) hcells

/-- The elements put together are the columns of the matrix that are rows of the other. -/
theorem indexedValue?_transpose {env : Env} {id : NodeId} {m : Value}
    (h : env.lookup (nodeName id).toList = some m) (hm : m.shape = .mat4) :
    indexedValue? env (Dialect.gles100.transpose (.node id)).render = some m.transpose := by
  have hvalues : Tree.values? (elements env ++ env) ((List.range 16).map fun i =>
      .name (elementName (nodeName id).toList (i % 4) (i / 4))) =
        some (m.transpose.components.map Value.scalar) := by
    have hcells : m.transpose.components =
        (List.range 16).map fun i => m.get (4 * (i % 4) + i / 4) := rfl
    rw [hcells, List.map_map]
    refine values?_map fun i hi => ?_
    have hi := List.mem_range.mp hi
    rw [Tree.value?, List.lookup_append, lookup_elements h hm (by omega) (by omega), Option.some_or]
    rfl
  rw [indexedValue?, ofLexemes?_transpose, Option.bind_some, Tree.value?, hvalues]
  change assemble? 16 (m.transpose.components.map Value.scalar) = _
  have hlength : m.transpose.components.length = 16 := m.transpose.length_eq
  rw [assemble?, flatMap_scalars, if_pos hlength, Value.ofList?_components]

/-- For every finite scalar, the text for truncation stands for the number that the evaluator gives.
So does the text for rounding, but for the halves below zero, where it stands for one more. The text
for the transpose of a matrix is its transpose. -/
theorem gles100_substitutes_agree_iff (number : List Char → Option ℚ) {env : Env} {id : NodeId}
    {x : Scalar} {m : Value} (hfinite : x.isFinite = true)
    (hnumber : number (nodeName id).toList = x.toRat?)
    (hmatrix : env.lookup (nodeName id).toList = some m) (hm : m.shape = .mat4) :
    ∃ q truncated rounded, x.toRat? = some q ∧
      (Scalar.trunc x).toRat? = some truncated ∧ (Scalar.round x).toRat? = some rounded ∧
      textRational? number (Dialect.gles100.trunc (.node id)).render = some truncated ∧
      (textRational? number (Dialect.gles100.round (.node id)).render = some rounded ↔
        ¬ (q < 0 ∧ Int.fract (q + 1 / 2) = 0)) ∧
      (q < 0 ∧ Int.fract (q + 1 / 2) = 0 →
        textRational? number (Dialect.gles100.round (.node id)).render = some (rounded + 1)) ∧
      indexedValue? env (Dialect.gles100.transpose (.node id)).render = some m.transpose := by
  obtain ⟨negative, k, e, hparts⟩ := Scalar.parts_of_isFinite hfinite
  have hx := Scalar.toRat?_of_parts hparts
  generalize Scalar.signed negative (k * 2 ^ e) = q at hx
  rw [hx] at hnumber
  refine ⟨q, _, _, hx, Scalar.toRat?_trunc hx, Scalar.toRat?_round hx,
    textRational?_trunc hnumber, ?_, ?_, indexedValue?_transpose hmatrix hm⟩
  · rw [textRational?_round hnumber, Scalar.floor_add_half]
    by_cases hhalf : q < 0 ∧ Int.fract (q + 1 / 2) = 0
    · simp only [hhalf, and_self, if_true, Option.some.injEq, add_eq_left, one_ne_zero, not_true]
    · simp only [hhalf, if_false, add_zero, not_false_eq_true]
  · intro hhalf
    rw [textRational?_round hnumber, Scalar.floor_add_half, if_pos hhalf]

/-- Minus two and three quarters, and a matrix that is not symmetric. -/
theorem gles100_substitutes_agree_off_halves :
    textRational? (fun _ => some (-11 / 4)) (Dialect.gles100.trunc (.node 2)).render =
      Scalar.toRat? (Scalar.trunc (.nearest true 11 4)) ∧
    textRational? (fun _ => some (-11 / 4)) (Dialect.gles100.round (.node 2)).render =
      Scalar.toRat? (Scalar.round (.nearest true 11 4)) ∧
    indexedValue? [((nodeName 2).toList, .tabulate .mat4 .ofNat)]
      (Dialect.gles100.transpose (.node 2)).render =
        some (Value.tabulate .mat4 .ofNat).transpose := by
  have hparts : Scalar.parts (.nearest true 11 4) = .finite true (11 * 2 ^ 20) (-22) := by decide
  have hvalue : Scalar.toRat? (.nearest true 11 4) = some (-11 / 4) := by
    rw [Scalar.toRat?_of_parts hparts]
    norm_num [Scalar.signed]
  have hfinite : (Scalar.nearest true 11 4).isFinite = true := by decide
  have hmatrix : List.lookup (nodeName 2).toList [((nodeName 2).toList,
      Value.tabulate .mat4 .ofNat)] = some (Value.tabulate .mat4 .ofNat) := by simp
  obtain ⟨q, truncated, rounded, hq, htrunc, hround, htrunc', hround', -, htranspose⟩ :=
    gles100_substitutes_agree_iff (fun _ => some (-11 / 4)) hfinite hvalue.symm hmatrix rfl
  have hq : q = -11 / 4 := Option.some.inj (hq.symm.trans hvalue)
  have hfract : Int.fract (q + 1 / 2) ≠ 0 := by
    have hfloor : ⌊q + 1 / 2⌋ = -3 := by
      rw [hq, Int.floor_eq_iff]
      norm_num
    rw [← Int.self_sub_floor, hfloor, hq]
    norm_num
  exact ⟨htrunc'.trans htrunc.symm, (hround'.mpr fun h => hfract h.2).trans hround.symm, htranspose⟩

/-- Minus two and a half is rounded to minus three, its text stands for minus two. -/
theorem gles100_round_differs_below_zero :
    Scalar.toRat? (.nearest true 5 2) = some (-5 / 2) ∧
    Scalar.toRat? (Scalar.round (.nearest true 5 2)) = some (-3) ∧
    textRational? (fun _ => some (-5 / 2)) (Dialect.gles100.round (.node 2)).render =
      some (-2) := by
  have hparts : Scalar.parts (.nearest true 5 2) = .finite true (5 * 2 ^ 21) (-22) := by decide
  have hvalue : Scalar.toRat? (.nearest true 5 2) = some (-5 / 2) := by
    rw [Scalar.toRat?_of_parts hparts]
    norm_num [Scalar.signed]
  refine ⟨hvalue, ?_, ?_⟩
  · have hsign : SignType.sign (-5 / 2 : ℚ) = -1 := sign_neg (by norm_num)
    have hfloor : ⌊|(-5 / 2 : ℚ)| + 1 / 2⌋ = 3 := by
      rw [abs_of_neg (by norm_num), Int.floor_eq_iff]
      norm_num
    rw [Scalar.toRat?_round hvalue, hsign, hfloor]
    norm_num
  · have hfloor : ⌊(-5 / 2 : ℚ) + 1 / 2⌋ = -2 := by
      rw [Int.floor_eq_iff]
      norm_num
    have hnumber : (fun _ => some (-5 / 2) : List Char → Option ℚ) (nodeName 2).toList =
        some (-5 / 2) := rfl
    rw [textRational?_round hnumber, hfloor]
    norm_num

end ShaderGraph.Glsl

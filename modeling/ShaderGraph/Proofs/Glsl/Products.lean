import ShaderGraph.Proofs.Glsl.Operators

namespace ShaderGraph.Glsl

def isIdentifier (name : String) : Bool :=
  match name.toList with
  | [] => false
  | c :: cs => (c.isAlpha || c = '_') && cs.all fun c => c.isAlphanum || c = '_'

structure Factor where
  name : String
  value : Value

namespace Factor

def size (f : Factor) : Nat := f.value.size

def tree (f : Factor) : Tree := .name f.name.toList

end Factor

def Operand.factor (o : Operand) : Factor := ⟨nodeName o.id, o.value⟩

structure TextProduct where
  text : String
  size : Nat
  compound : Bool

namespace TextProduct

def times (p : TextProduct) (f : Factor) : TextProduct where
  text :=
    let left := if p.compound then "(" ++ p.text ++ ")" else p.text
    if p.size = 4 ∧ f.size = 16 then f.name ++ " * " ++ left else left ++ " * " ++ f.name
  size :=
    if (p.size = 16 ∧ f.size = 4) ∨ (p.size = 4 ∧ f.size = 16) then 4
    else if p.size = 1 then f.size
    else p.size
  compound := true

def ofFactors (first : Factor) (rest : List Factor) : TextProduct :=
  rest.foldl times ⟨first.name, first.size, false⟩

end TextProduct

/-- A product under way, as the evaluator forms it: its value, and the products it came from. -/
structure TreeProduct where
  tree : Tree
  value : Value

namespace TreeProduct

/-- One factor more. A matrix changes sides with a vector of four, nothing else does. -/
def times (p : TreeProduct) (f : Factor) : Option TreeProduct :=
  (p.value.multiply f.value).map fun v => {
    tree :=
      if p.value.shape = .vec4 ∧ f.value.shape = .mat4 then .binary .mul f.tree p.tree
      else .binary .mul p.tree f.tree
    value := v }

def ofFactors? (first : Factor) (rest : List Factor) : Option TreeProduct :=
  rest.foldlM times ⟨first.tree, first.value⟩

end TreeProduct

def Product.written (p : Product) : TextProduct := ⟨p.expr.render, p.size, p.compound⟩

theorem Product.written_times (p : Product) (o : Operand) :
    (p.times o).written = p.written.times o.factor := by
  have hexpr : o.expr.render = o.factor.name := by simp [Operand.expr, Expr.render, Operand.factor]
  have hsize : o.size = o.factor.size := rfl
  simp only [written, times, TextProduct.times, ← hexpr, ← hsize, TextProduct.mk.injEq, and_true]
  by_cases hc : p.compound = true <;> by_cases hs : p.size = 4 ∧ o.size = 16 <;>
    simp [hc, hs, Expr.render, Op.text]

theorem Product.written_foldl (os : List Operand) (p : Product) :
    (os.foldl times p).written = (os.map Operand.factor).foldl TextProduct.times p.written := by
  induction os generalizing p with
  | nil => rfl
  | cons o os ih => rw [List.foldl_cons, ih, written_times, List.map_cons, List.foldl_cons]

theorem not_isDigit_of_isAlpha {c : Char} (h : c.isAlpha = true) : c.isDigit = false := by
  simp only [Char.isAlpha, Char.isUpper, Char.isLower, Bool.or_eq_true, Bool.and_eq_true,
    decide_eq_true_eq] at h
  have hnat : (65 ≤ c.toNat ∧ c.toNat ≤ 90) ∨ (97 ≤ c.toNat ∧ c.toNat ≤ 122) := h
  have hnot : ¬ (48 ≤ c.toNat ∧ c.toNat ≤ 57) := by omega
  simpa [Char.isDigit, UInt32.le_iff_toNat_le] using hnot

theorem reads_name {f : Factor} (h : isIdentifier f.name = true) :
    Reads f.name.toList 0 f.tree := by
  unfold isIdentifier at h
  split at h
  · cases h
  · rename_i c cs hname
    simp only [Bool.and_eq_true, Bool.or_eq_true, decide_eq_true_eq, List.all_eq_true] at h
    obtain ⟨hfirst, hrest⟩ := h
    have hdigit : c.isDigit = false := by
      rcases hfirst with hc | rfl
      · exact not_isDigit_of_isAlpha hc
      · decide
    have hall : ∀ d ∈ c :: cs, d.isAlphanum = true ∨ d = '_' := by
      intro d hd
      rcases List.mem_cons.mp hd with rfl | hd
      · exact hfirst.imp_left fun hc => by simp [Char.isAlphanum, hc]
      · exact hrest d hd
    have hword : ∀ d ∈ c :: cs, isWordChar d = true := by
      intro d hd
      rcases hall d hd with hd | rfl
      · exact isWordChar_of_isAlphanum hd
      · decide
    have hpoint : '.' ∉ c :: cs := fun hd => absurd (hall _ hd) (by decide)
    rw [Factor.tree, hname]
    exact .word (by simp) hword (operand?_name (by simpa using hdigit) hpoint) rfl

/-- The text is read as the products, and the size is that of their value. -/
structure Mirrors (p : TextProduct) (q : TreeProduct) : Prop where
  reads : Reads p.text.toList (if p.compound then 1 else 0) q.tree
  size : p.size = q.value.size

section

variable {p : TextProduct} {q q' : TreeProduct} {f : Factor}

/-- What is there already is in brackets as soon as it is a product. -/
theorem Mirrors.left (h : Mirrors p q) :
    Reads (if p.compound then "(" ++ p.text ++ ")" else p.text).toList 0 q.tree := by
  have hreads := h.reads
  split
  · rename_i hc
    rw [if_pos hc] at hreads
    simpa using hreads.bracket (by decide)
  · rename_i hc
    rwa [if_neg hc] at hreads

theorem Mirrors.times (h : Mirrors p q) (hf : isIdentifier f.name = true)
    (hq : q.times f = some q') : Mirrors (p.times f) q' := by
  obtain ⟨v, hv, rfl⟩ := Option.map_eq_some_iff.mp hq
  have hside : (p.size = 4 ∧ f.size = 16) ↔ (q.value.shape = .vec4 ∧ f.value.shape = .mat4) := by
    rw [h.size]
    exact and_congr Value.size_eq_four Value.size_eq_sixteen
  have hleft := h.left
  have hname := reads_name hf
  refine ⟨?_, ?_⟩
  · simp only [TextProduct.times, hside, if_true]
    split
    · have hproduct : Reads (_ ++ (Op.mul.text.toList ++ _)) Op.mul.rank
          (.binary .mul f.tree q.tree) :=
        hname.binary hleft (Nat.zero_le _) Nat.zero_lt_one
      simpa [Op.text, Op.rank] using hproduct
    · have hproduct : Reads (_ ++ (Op.mul.text.toList ++ _)) Op.mul.rank
          (.binary .mul q.tree f.tree) :=
        hleft.binary hname (Nat.zero_le _) Nat.zero_lt_one
      simpa [Op.text, Op.rank] using hproduct
  · rw [size_multiply hv, ← h.size]
    rfl

/-- Factor by factor, the text stays in step with the evaluator. -/
theorem Mirrors.foldl {fs : List Factor} {v : Value} (h : Mirrors p q)
    (hf : ∀ f ∈ fs, isIdentifier f.name = true)
    (hv : (fs.map Factor.value).foldlM Value.multiply q.value = some v) :
    ∃ t, fs.foldlM TreeProduct.times q = some ⟨t, v⟩ ∧
      Mirrors (fs.foldl TextProduct.times p) ⟨t, v⟩ := by
  induction fs generalizing p q with
  | nil =>
    cases hv
    exact ⟨q.tree, rfl, h⟩
  | cons f fs ih =>
    simp only [List.map_cons, List.foldlM_cons, Option.bind_eq_bind] at hv
    obtain ⟨y, hy, hv⟩ := Option.bind_eq_some_iff.mp hv
    have hq : q.times f = some _ := congrArg (Option.map _) hy
    obtain ⟨t, ht, hm⟩ := ih (h.times (hf f (by simp)) hq) (fun f hm => hf f (by simp [hm])) hv
    refine ⟨t, ?_, hm⟩
    rw [List.foldlM_cons, hq]
    exact ht

end

theorem mirrors_first {f : Factor} (h : isIdentifier f.name = true) :
    Mirrors ⟨f.name, f.size, false⟩ ⟨f.tree, f.value⟩ :=
  ⟨reads_name h, rfl⟩

/-- The text of a product of factors with any names is read as the products that the evaluator forms
from the left, where a matrix that meets a vector of four goes to the left of it and every other
factor to the right of what is there. After every factor the size kept is that of the evaluator's
product so far. The products in programs are written in this way. -/
theorem products_mirror_evaluation {first : Factor} {rest : List Factor} {v : Value}
    (hnames : ∀ f ∈ first :: rest, isIdentifier f.name = true)
    (hv : foldValues Value.multiply ((first :: rest).map Factor.value) = some v) :
    (∃ t, TreeProduct.ofFactors? first rest = some ⟨t, v⟩ ∧
      Tree.ofLexemes? (lexemes (TextProduct.ofFactors first rest).text.toList) = some t) ∧
    (∀ done later, rest = done ++ later →
      ∃ acc, foldValues Value.multiply ((first :: done).map Factor.value) = some acc ∧
        (TextProduct.ofFactors first done).size = acc.size) ∧
    ∀ o os, (Product.ofOperands (o :: os)).render =
        (TextProduct.ofFactors o.factor (os.map Operand.factor)).text ∧
      (os.foldl Product.times ⟨o.expr, o.size, false⟩).size =
        (TextProduct.ofFactors o.factor (os.map Operand.factor)).size := by
  have hfirst := mirrors_first (hnames first (by simp))
  refine ⟨?_, ?_, ?_⟩
  · obtain ⟨t, ht, hm⟩ := hfirst.foldl (fun f hf => hnames f (by simp [hf])) hv
    refine ⟨t, ht, hm.reads.ofLexemes? ?_⟩
    split <;> decide
  · rintro done later rfl
    simp only [foldValues, List.map_cons, List.map_append, List.foldlM_append,
      Option.bind_eq_bind] at hv
    obtain ⟨acc, hacc, _⟩ := Option.bind_eq_some_iff.mp hv
    obtain ⟨t, _, hm⟩ := hfirst.foldl (fun f hf => hnames f (by simp [hf])) hacc
    exact ⟨acc, hacc, hm.size⟩
  · intro o os
    have hwritten := Product.written_foldl os ⟨o.expr, o.size, false⟩
    exact ⟨congrArg TextProduct.text hwritten, congrArg TextProduct.size hwritten⟩

/-- Two matrices after a scaled vector: both go to the left of it. -/
def spunFactors : List Factor :=
  [⟨"v", .tabulate .vec4 fun _ => .one⟩, ⟨"m", Value.identity⟩, ⟨"n", Value.identity⟩]

theorem spun_product_mirrors :
    (TextProduct.ofFactors ⟨"s", .scalar Scalar.one⟩ spunFactors).text = "n * (m * (s * v))" ∧
    Tree.ofLexemes? (lexemes "n * (m * (s * v))".toList) =
      some (.binary .mul (.name ['n']) (.binary .mul (.name ['m'])
        (.binary .mul (.name ['s']) (.name ['v'])))) := by
  have htext : (TextProduct.ofFactors ⟨"s", .scalar Scalar.one⟩ spunFactors).text =
      "n * (m * (s * v))" := by decide +kernel
  have hsome : (foldValues Value.multiply
      ((⟨"s", .scalar Scalar.one⟩ :: spunFactors).map Factor.value)).isSome := by decide +kernel
  obtain ⟨v, hv⟩ := Option.isSome_iff_exists.mp hsome
  obtain ⟨⟨t, ht, hread⟩, -, -⟩ := products_mirror_evaluation (by decide) hv
  have htree : (TreeProduct.ofFactors? ⟨"s", .scalar Scalar.one⟩ spunFactors).map TreeProduct.tree =
      some (.binary .mul (.name ['n']) (.binary .mul (.name ['m'])
        (.binary .mul (.name ['s']) (.name ['v'])))) := rfl
  rw [ht] at htree
  exact ⟨htext, htext ▸ hread.trans htree⟩

end ShaderGraph.Glsl

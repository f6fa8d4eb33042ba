import ShaderGraph.Proofs.Scalars
import ShaderGraph.Value.Algebra

namespace ShaderGraph

namespace Flat

variable {α : Type} [Add α] [Mul α] (zero start : α)

def column (m : List α) (c : Nat) : List α := (List.range 4).map fun r => m.getD (4 * c + r) zero

variable {zero start} {a b v : List α}

omit [Add α] [Mul α] in
theorem getD_tabulate (f : Nat → α) {n i : Nat} (hi : i < n) :
    ((List.range n).map f).getD i zero = f i := by
  simp [hi]

omit [Add α] [Mul α] in
/-- Element (row `r`, column `c`) of a transposed matrix is element (row `c`, column `r`). -/
theorem getD_transpose (m : List α) {c r : Nat} (hc : c < 4) (hr : r < 4) :
    (transpose zero m).getD (4 * c + r) zero = m.getD (4 * r + c) zero := by
  have hrow : (4 * c + r) % 4 = r := by omega
  have hcolumn : (4 * c + r) / 4 = c := by omega
  rw [transpose, getD_tabulate _ (by omega), hrow, hcolumn]

theorem getD_matMul {c r : Nat} (hc : c < 4) (hr : r < 4) :
    (matMul zero start a b).getD (4 * c + r) zero =
      sum start ((List.range 4).map fun k =>
        a.getD (4 * k + r) zero * b.getD (4 * c + k) zero) := by
  have hrow : (4 * c + r) % 4 = r := by omega
  have hcolumn : (4 * c + r) / 4 = c := by omega
  rw [matMul, getD_tabulate _ (by omega), hrow, hcolumn]

theorem column_matMul {c : Nat} (hc : c < 4) :
    column zero (matMul zero start a b) c = transform zero start a (column zero b c) := by
  refine List.map_congr_left fun r hr => ?_
  rw [getD_matMul hc (List.mem_range.mp hr)]
  refine congrArg (sum start) (List.map_congr_left fun k hk => ?_)
  rw [column, getD_tabulate _ (List.mem_range.mp hk)]

theorem transpose_matMul (hmul : ∀ x y : α, x * y = y * x) :
    transpose zero (matMul zero start a b) =
      matMul zero start (transpose zero b) (transpose zero a) := by
  refine List.map_congr_left fun i hi => ?_
  have hi : i < 16 := List.mem_range.mp hi
  rw [getD_matMul (by omega) (by omega)]
  refine congrArg (sum start) (List.map_congr_left fun k hk => ?_)
  have hk : k < 4 := List.mem_range.mp hk
  rw [getD_transpose b hk (by omega), getD_transpose a (by omega) hk, hmul]

omit [Add α] [Mul α] in
theorem transpose_transpose (ha : a.length = 16) : transpose zero (transpose zero a) = a := by
  apply List.ext_getElem
  · simp [transpose, ha]
  · intro i _ hi
    have hsplit : 4 * (i / 4) + i % 4 = i := by omega
    have houter : (transpose zero (transpose zero a)).getD (4 * (i / 4) + i % 4) zero =
        a.getD (4 * (i / 4) + i % 4) zero := by
      rw [getD_transpose _ (by omega) (by omega), getD_transpose _ (by omega) (by omega)]
    rw [hsplit] at houter
    simpa [List.getD_eq_getElem?_getD, transpose, hi, ha ▸ hi] using houter

variable (zero start) in
theorem multiply_vector (ha : a.length = 16) (hv : v.length = 4) :
    multiply zero start a v = some (transform zero start a v) ∧
      multiply zero start v a = some (transform zero start a v) := by
  simp [multiply, ha, hv]

end Flat

def Value.column (m : Value) (c : Nat) : Value := tabulate .vec4 fun r => m.get (4 * c + r)

/-- A column of a product is the product with that column, a transposed product is the product of
the transposed factors the other way around, transposing twice changes nothing, and a matrix
transforms a vector on either side alike: over any scalars whose product is commutative, and for the
values at hand. -/
theorem matrix_helpers_agree :
    (∀ (α : Type) [Add α] [Mul α] (zero start : α), (∀ x y : α, x * y = y * x) →
      ∀ a b v : List α, a.length = 16 → b.length = 16 → v.length = 4 →
        (∀ c < 4, Flat.column zero (Flat.matMul zero start a b) c =
          Flat.transform zero start a (Flat.column zero b c)) ∧
        Flat.transpose zero (Flat.matMul zero start a b) =
          Flat.matMul zero start (Flat.transpose zero b) (Flat.transpose zero a) ∧
        Flat.transpose zero (Flat.transpose zero a) = a ∧
        Flat.multiply zero start a v = some (Flat.transform zero start a v) ∧
        Flat.multiply zero start v a = some (Flat.transform zero start a v)) ∧
    ∀ a b v : Value, a.shape = .mat4 → b.shape = .mat4 → v.shape = .vec4 →
      (∀ c < 4, (a.matMul b).column c = a.transform (b.column c)) ∧
      (a.matMul b).transpose = b.transpose.matMul a.transpose ∧
      a.transpose.transpose = a ∧
      a.multiply v = some (a.transform v) ∧ v.multiply a = some (a.transform v) := by
  constructor
  · intro α _ _ zero start hmul a b v ha _ hv
    exact ⟨fun c hc => Flat.column_matMul hc, Flat.transpose_matMul hmul,
      Flat.transpose_transpose ha, Flat.multiply_vector zero start ha hv⟩
  · intro a b v ha _ hv
    have hlength : a.components.length = 16 := by rw [a.length_eq, ha]; rfl
    have hvector : v.components.length = 4 := by rw [v.length_eq, hv]; rfl
    obtain ⟨hleft, hright⟩ := Flat.multiply_vector Scalar.zero Scalar.negativeZero hlength hvector
    refine ⟨fun c hc => Value.ext' (Flat.column_matMul hc),
      Value.ext' (Flat.transpose_matMul Scalar.mul_comm),
      Value.ext' (Flat.transpose_transpose hlength), ?_, ?_⟩
    · rw [Value.multiply, hleft]
      exact Value.ofList?_components (a.transform v)
    · rw [Value.multiply, hright]
      exact Value.ofList?_components (a.transform v)

def counting : List Int := (List.range 16).map Int.ofNat

/-- The matrix that moves by one, two and three. -/
def translation : Value :=
  .tabulate .mat4 fun i =>
    if i / 4 = i % 4 then .one else if 12 ≤ i then .ofNat (i - 11) else .zero

theorem translation_helpers_agree :
    Flat.transpose 0 (Flat.matMul 0 0 counting (Flat.transpose 0 counting)) =
        Flat.matMul 0 0 counting (Flat.transpose 0 counting) ∧
      translation.multiply (.vec4 .one .one .one .one) =
        some (.vec4 (.ofNat 2) (.ofNat 3) (.ofNat 4) .one) ∧
      (Value.vec4 .one .one .one .one).multiply translation =
        some (.vec4 (.ofNat 2) (.ofNat 3) (.ofNat 4) .one) := by
  obtain ⟨hany, hvalues⟩ := matrix_helpers_agree
  obtain ⟨_, hproduct, htwice, _⟩ :=
    hany Int 0 0 Int.mul_comm counting (Flat.transpose 0 counting) [1, 1, 1, 1] rfl rfl rfl
  obtain ⟨_, _, _, hleft, hright⟩ :=
    hvalues translation translation (.vec4 .one .one .one .one) rfl rfl rfl
  have hmoved : translation.transform (.vec4 .one .one .one .one) =
      .vec4 (.ofNat 2) (.ofNat 3) (.ofNat 4) .one := by
    decide +kernel
  rw [htwice] at hproduct
  rw [hmoved] at hleft hright
  exact ⟨hproduct, hleft, hright⟩

end ShaderGraph

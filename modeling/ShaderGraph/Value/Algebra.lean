import ShaderGraph.Value.Basic

namespace ShaderGraph.Value

def map (f : Scalar → Scalar) (v : Value) : Value :=
  ⟨v.shape, v.components.map f, by simp [v.length_eq]⟩

def spread (v : Value) (i : Nat) : Scalar := Flat.spread .zero v.components i

theorem spread_eq (v : Value) (i : Nat) :
    v.spread i = if v.size = 1 then v.get 0 else v.get i := by
  rw [spread, Flat.spread, v.length_eq]
  rfl

/-- The shape of a component-wise result: that of both operands, or of the one a scalar meets. -/
def joinShape? (a b : Value) : Option Shape :=
  if a.size = b.size then some a.shape
  else if a.size = 1 then some b.shape
  else if b.size = 1 then some a.shape
  else none

def zip (f : Scalar → Scalar → Scalar) (a b : Value) : Option Value :=
  (joinShape? a b).map fun s => tabulate s fun i => f (a.spread i) (b.spread i)

/-- Three operands at once; the vectors among them must be of one size. -/
def zip3 (f : Scalar → Scalar → Scalar → Scalar) (a b c : Value) : Option Value :=
  let wide := max a.size (max b.size c.size)
  let fits (v : Value) : Bool := v.size = 1 || v.size = wide
  if fits a && fits b && fits c then
    (Shape.ofSize? wide).map fun s => tabulate s fun i => f (a.spread i) (b.spread i) (c.spread i)
  else none

/-- Over the components both operands have. -/
def dot (a b : Value) : Scalar := Scalar.sum (List.zipWith (· * ·) a.components b.components)

def norm (v : Value) : Scalar := (dot v v).sqrt

/-- The zero vector stays as it is. -/
def normalize (v : Value) : Value :=
  let len := norm v
  if len.isZero then zero v.shape else v.map (· / len)

def cross (a b : Value) : Value :=
  ⟨.vec3,
    [a.get 1 * b.get 2 - a.get 2 * b.get 1,
      a.get 2 * b.get 0 - a.get 0 * b.get 2,
      a.get 0 * b.get 1 - a.get 1 * b.get 0], rfl⟩

def project (a b : Value) : Value :=
  let denominator := dot b b
  if denominator.isZero then zero a.shape
  else
    let k := dot a b / denominator
    b.map (· * k)

def transform (m v : Value) : Value :=
  ⟨.vec4, Flat.transform .zero .negativeZero m.components v.components, List.length_map ..⟩

def matMul (a b : Value) : Value :=
  ⟨.mat4, Flat.matMul .zero .negativeZero a.components b.components, List.length_map ..⟩

def transpose (m : Value) : Value :=
  ⟨.mat4, Flat.transpose .zero m.components, List.length_map ..⟩

def multiply (a b : Value) : Option Value :=
  (Flat.multiply .zero .negativeZero a.components b.components).bind ofList?

/-- Operands that are no matrix and its like are multiplied component by component. -/
theorem multiply_eq (a b : Value) : a.multiply b =
    if a.shape = .mat4 ∧ b.shape = .vec4 then some (a.transform b)
    else if a.shape = .vec4 ∧ b.shape = .mat4 then some (b.transform a)
    else if a.shape = .mat4 ∧ b.shape = .mat4 then some (a.matMul b)
    else zip (· * ·) a b := by
  have hsize : ∀ x : Value, x.components.length = x.size := length_eq
  simp only [multiply, Flat.multiply, hsize, size_eq_four, size_eq_sixteen]
  split
  · exact ofList?_components (a.transform b)
  · split
    · exact ofList?_components (b.transform a)
    · split
      · exact ofList?_components (a.matMul b)
      · simp only [zip, joinShape?]
        split
        · exact ofList?_components (tabulate a.shape fun i => a.spread i * b.spread i)
        · split
          · exact ofList?_components (tabulate b.shape fun i => a.spread i * b.spread i)
          · split
            · exact ofList?_components (tabulate a.shape fun i => a.spread i * b.spread i)
            · rfl

def concat (vs : List Value) : Option Value :=
  let all := vs.flatMap components
  if 4 < all.length then none else ofList? all

end ShaderGraph.Value

namespace ShaderGraph.Scalar

def lerp (a b t : Scalar) : Scalar := a + (b - a) * t

/-- A Hermite step from zero to one between two edges; equal edges make it a jump. -/
def smoothstep (edge0 edge1 x : Scalar) : Scalar :=
  if edge0 == edge1 then (if x < edge0 then zero else one)
  else
    let t := saturate ((x - edge0) / (edge1 - edge0))
    t * t * (ofNat 3 - ofNat 2 * t)

end ShaderGraph.Scalar

namespace ShaderGraph.Value

/-- Blends red, green and blue toward their luminance; a fourth component passes through. -/
def desaturate (color : Value) (amount : Scalar) : Value :=
  let luma := Scalar.nearest false 3 10 * color.get 0 + Scalar.nearest false 6 10 * color.get 1
    + Scalar.nearest false 1 10 * color.get 2
  tabulate color.shape fun i =>
    if i < 3 then Scalar.lerp (color.get i) luma amount else color.get i

end ShaderGraph.Value

import ShaderGraph.Value.Algebra

namespace ShaderGraph

structure Buffer where
  shape : Shape
  data : Vector Scalar 16
  deriving DecidableEq

namespace Buffer

def zeros : Vector Scalar 16 := .replicate 16 .zero

def overwrite (data : Vector Scalar 16) (xs : List Scalar) : Vector Scalar 16 :=
  .ofFn fun i => xs.getD i data[i]

def updateFirst (n : Nat) (f : Scalar → Scalar) (data : Vector Scalar 16) : Vector Scalar 16 :=
  data.mapIdx fun i x => if i < n then f x else x

def fillFirst (n : Nat) (f : Nat → Scalar) : Vector Scalar 16 :=
  zeros.mapIdx fun i x => if i < n then f i else x

def writeAll (writes : List (Nat × Scalar)) : Vector Scalar 16 :=
  writes.foldl (fun data w => data.setIfInBounds w.1 w.2) zeros

def grid : List (Nat × Nat) :=
  (List.range 4).flatMap fun c => (List.range 4).map fun r => (c, r)

def zeroed (s : Shape) : Buffer := ⟨s, zeros⟩

def empty : Buffer := zeroed .empty

def size (b : Buffer) : Nat := b.shape.size

def isEmpty (b : Buffer) : Bool := b.shape = .empty

def live (b : Buffer) : List Scalar := b.data.toList.take b.size

/-- Component `i`, zero past the last live one. -/
def get (b : Buffer) (i : Nat) : Scalar := if i < b.size then b.data.toList.getD i .zero else .zero

def ofSlice? (xs : List Scalar) : Option Buffer :=
  (Shape.ofSize? xs.length).map fun s => { zeroed s with data := overwrite zeros xs }

def ofSlice (xs : List Scalar) : Buffer := (ofSlice? xs).getD empty

def scalar (x : Scalar) : Buffer := { zeroed .scalar with data := zeros.set 0 x }

def identity : Buffer :=
  { zeroed .mat4 with data := writeAll ((List.range 4).map fun i => (4 * i + i, .one)) }

def widen (b : Buffer) : Buffer :=
  let data :=
    if b.size = 1 then (overwrite zeros (.replicate 3 b.data[0])).set 3 .one
    else if b.size = 2 ∨ b.size = 3 then (overwrite zeros b.live).set 3 .one
    else if b.size = 4 then overwrite zeros (b.data.toList.take 4)
    else zeros.set 3 .one
  { zeroed .vec4 with data := data }

def map (f : Scalar → Scalar) (b : Buffer) : Buffer :=
  ofSlice ((updateFirst b.size f b.data).toList.take b.size)

def spread (b : Buffer) (i : Nat) : Scalar := if b.size = 1 then b.get 0 else b.get i

def joinShape? (a b : Buffer) : Option Shape :=
  if a.size = b.size then some a.shape
  else if a.size = 1 then some b.shape
  else if b.size = 1 then some a.shape
  else none

def zip (f : Scalar → Scalar → Scalar) (a b : Buffer) : Option Buffer :=
  (joinShape? a b).map fun s =>
    ofSlice ((fillFirst s.size fun i => f (a.spread i) (b.spread i)).toList.take s.size)

def zip3 (f : Scalar → Scalar → Scalar → Scalar) (a b c : Buffer) : Option Buffer :=
  let wide := max a.size (max b.size c.size)
  let fits (v : Buffer) : Bool := v.size = 1 || v.size = wide
  if fits a && fits b && fits c then
    some (ofSlice ((List.range wide).map fun i => f (a.spread i) (b.spread i) (c.spread i)))
  else none

def dot (a b : Buffer) : Scalar := Scalar.sum (List.zipWith (· * ·) a.live b.live)

def norm (b : Buffer) : Scalar := (dot b b).sqrt

def normalize (b : Buffer) : Buffer :=
  let len := norm b
  if len.isZero then zeroed b.shape else b.map (· / len)

def cross (a b : Buffer) : Buffer :=
  ofSlice [a.get 1 * b.get 2 - a.get 2 * b.get 1, a.get 2 * b.get 0 - a.get 0 * b.get 2,
    a.get 0 * b.get 1 - a.get 1 * b.get 0]

def project (a b : Buffer) : Buffer :=
  let denominator := dot b b
  if denominator.isZero then zeroed a.shape
  else
    let k := dot a b / denominator
    b.map (· * k)

def transform (m v : Buffer) : Buffer :=
  ofSlice ((List.range 4).map fun r =>
    Scalar.sum ((List.range 4).map fun c => m.get (4 * c + r) * v.get c))

def matMul (a b : Buffer) : Buffer :=
  let write (c r : Nat) : Nat × Scalar :=
    (4 * c + r, Scalar.sum ((List.range 4).map fun k => a.get (4 * k + r) * b.get (4 * c + k)))
  ofSlice (writeAll (grid.map fun p => write p.1 p.2)).toList

def transpose (m : Buffer) : Buffer :=
  ofSlice (writeAll (grid.map fun p => (4 * p.2 + p.1, m.get (4 * p.1 + p.2)))).toList

def multiply (a b : Buffer) : Option Buffer :=
  if a.size = 16 ∧ b.size = 4 then some (transform a b)
  else if a.size = 4 ∧ b.size = 16 then some (transform b a)
  else if a.size = 16 ∧ b.size = 16 then some (matMul a b)
  else zip (· * ·) a b

def concat (bs : List Buffer) : Option Buffer :=
  let all := bs.flatMap live
  if 4 < all.length then none else ofSlice? all

/-- The first three places change whatever the shape is. -/
def desaturate (color : Buffer) (amount : Scalar) : Buffer :=
  let luma := Scalar.nearest false 3 10 * color.get 0 + Scalar.nearest false 6 10 * color.get 1
    + Scalar.nearest false 1 10 * color.get 2
  ofSlice ((updateFirst 3 (Scalar.lerp · luma amount) color.data).toList.take color.size)

end Buffer

end ShaderGraph

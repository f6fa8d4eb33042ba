import ShaderGraph.Scalar.Basic
import ShaderGraph.Shape

namespace ShaderGraph

structure Value where
  shape : Shape
  components : List Scalar
  length_eq : components.length = shape.size
  deriving DecidableEq

namespace Value

def tabulate (s : Shape) (f : Nat → Scalar) : Value :=
  ⟨s, (List.range s.size).map f, by simp⟩

/-- The value of a node that has none yet. -/
def empty : Value := ⟨.empty, [], rfl⟩

def zero (s : Shape) : Value := tabulate s fun _ => .zero

def scalar (x : Scalar) : Value := ⟨.scalar, [x], rfl⟩

def vec4 (x y z w : Scalar) : Value := ⟨.vec4, [x, y, z, w], rfl⟩

def identity : Value := tabulate .mat4 fun i => if i / 4 = i % 4 then .one else .zero

def ofList? (xs : List Scalar) : Option Value :=
  match h : Shape.ofSize? xs.length with
  | some s => some ⟨s, xs, (Shape.size_of_ofSize? h).symm⟩
  | none => none

/-- As `ofList?`, with the empty value for a length that fits no shape. -/
def ofList (xs : List Scalar) : Value := (ofList? xs).getD empty

def size (v : Value) : Nat := v.shape.size

def isEmpty (v : Value) : Bool := v.shape = .empty

/-- Component `i`, zero past the last one. -/
def get (v : Value) (i : Nat) : Scalar := v.components.getD i .zero

def buffer (v : Value) : List Scalar := (List.range 16).map v.get

/-- What a stage output makes of a value: a scalar fills red, green and blue, shorter vectors are
padded with zeros, and a missing fourth component is one. -/
def widen (v : Value) : Value :=
  match v.components with
  | [x] => vec4 x x x .one
  | [x, y] => vec4 x y .zero .one
  | [x, y, z] => vec4 x y z .one
  | [x, y, z, w] => vec4 x y z w
  | _ => vec4 .zero .zero .zero .one

theorem ext' {v w : Value} (h : v.components = w.components) : v = w := by
  obtain ⟨s, xs, hs⟩ := v
  obtain ⟨t, ys, ht⟩ := w
  subst h
  have := Shape.size_injective (hs.symm.trans ht)
  subst this
  rfl

theorem ofList?_components (v : Value) : ofList? v.components = some v := by
  have hsize : Shape.ofSize? v.components.length = some v.shape := by
    rw [v.length_eq, Shape.ofSize?_size]
  unfold ofList?
  split
  · rename_i s hs
    exact congrArg some (ext' rfl)
  · rename_i hs
    rw [hsize] at hs
    cases hs

theorem size_eq_four {v : Value} : v.size = 4 ↔ v.shape = .vec4 :=
  ⟨fun h => Shape.size_injective (t := .vec4) h, congrArg Shape.size⟩

theorem size_eq_sixteen {v : Value} : v.size = 16 ↔ v.shape = .mat4 :=
  ⟨fun h => Shape.size_injective (t := .mat4) h, congrArg Shape.size⟩

end Value

end ShaderGraph

namespace ShaderGraph

inductive Shape where
  | empty
  | scalar
  | vec2
  | vec3
  | vec4
  | mat4
  deriving DecidableEq, Repr

namespace Shape

def size : Shape → Nat
  | empty => 0
  | scalar => 1
  | vec2 => 2
  | vec3 => 3
  | vec4 => 4
  | mat4 => 16

def ofSize? : Nat → Option Shape
  | 0 => some empty
  | 1 => some scalar
  | 2 => some vec2
  | 3 => some vec3
  | 4 => some vec4
  | 16 => some mat4
  | _ => none

theorem ofSize?_size (s : Shape) : ofSize? s.size = some s := by
  cases s <;> rfl

theorem size_of_ofSize? {n : Nat} {s : Shape} (h : ofSize? n = some s) : s.size = n := by
  unfold ofSize? at h
  split at h <;> first | (cases h; rfl) | simp at h

theorem size_injective {s t : Shape} (h : s.size = t.size) : s = t := by
  have := ofSize?_size s
  rw [h, ofSize?_size] at this
  exact (Option.some.inj this).symm

def name : Shape → String
  | empty => "None"
  | scalar => "Scalar"
  | vec2 => "Vec2"
  | vec3 => "Vec3"
  | vec4 => "Vec4"
  | mat4 => "Mat4"

def keyword : Shape → String
  | empty => "void"
  | scalar => "float"
  | vec2 => "vec2"
  | vec3 => "vec3"
  | vec4 => "vec4"
  | mat4 => "mat4"

end Shape

end ShaderGraph

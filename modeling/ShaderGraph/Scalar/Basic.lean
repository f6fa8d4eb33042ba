import ShaderGraph.Flat

namespace ShaderGraph

abbrev Scalar := Float32

namespace Scalar

/-- What a scalar stands for: a finite one is `± significand * 2 ^ exponent`. -/
inductive Parts where
  | nan
  | infinite (negative : Bool)
  | finite (negative : Bool) (significand : Nat) (exponent : Int)
  deriving DecidableEq, Repr

/-- Finite significands stay below `2 ^ 24`, exponents at or above `-149`. -/
def parts (x : Scalar) : Parts :=
  let bits := x.toBits.toNat
  let negative := decide (Nat.pow 2 31 ≤ bits)
  let field : Nat := bits / Nat.pow 2 23 % 256
  let fraction : Nat := bits % Nat.pow 2 23
  if field = 255 then
    if fraction = 0 then .infinite negative else .nan
  else if field = 0 then .finite negative fraction (-149)
  else .finite negative (Nat.pow 2 23 + fraction) ((field : Int) - 150)

def ofMagnitude (negative : Bool) (magnitude : Nat) : Scalar :=
  Float32.ofBits (UInt32.ofNat (if negative then Nat.pow 2 31 + magnitude else magnitude))

def infinity (negative : Bool) : Scalar := ofMagnitude negative (255 * Nat.pow 2 23)

def nan : Scalar := ofMagnitude false (255 * Nat.pow 2 23 + Nat.pow 2 22)

def zero : Scalar := ofMagnitude false 0

/-- Sums start here, so that a sum of negative zeros keeps its sign. -/
def negativeZero : Scalar := ofMagnitude true 0

/-- `n / d` to the nearest integer, a half to the even one. -/
def roundHalfEven (n d : Nat) : Nat :=
  if 2 * (n % d) < d ∨ (2 * (n % d) = d ∧ n / d % 2 = 0) then n / d else n / d + 1

/-- Exponent of the last binary place kept of `n / d`: twenty-four places, none below `2 ^ -149`. -/
def lastPlace (n d : Nat) : Int :=
  let k : Int := n.log2 - d.log2
  let top := if n * Nat.pow 2 (-k).toNat < d * Nat.pow 2 k.toNat then k - 1 else k
  max (top - 23) (-149)

/-- The scalar nearest to `± n / d`, a tie to the even significand. -/
def nearest (negative : Bool) (n d : Nat) : Scalar :=
  if n = 0 then ofMagnitude negative 0
  else
    let place := lastPlace n d
    let significand := roundHalfEven (n * Nat.pow 2 (-place).toNat) (d * Nat.pow 2 place.toNat)
    ofMagnitude negative
      (min ((place + 149).toNat * Nat.pow 2 23 + significand) (255 * Nat.pow 2 23))

def ofNat (n : Nat) : Scalar := nearest false n 1

def one : Scalar := ofNat 1

def isZero (x : Scalar) : Bool := x == zero

/-- The larger of two; a NaN gives way to the other operand. -/
def maximum (a b : Scalar) : Scalar :=
  if a.isNaN then b else if b.isNaN then a else if a < b then b else a

def minimum (a b : Scalar) : Scalar :=
  if a.isNaN then b else if b.isNaN then a else if b < a then b else a

/-- NaN and a negative zero at the lower bound pass through. -/
def clamp (x lower upper : Scalar) : Scalar :=
  let y := if x < lower then lower else x
  if upper < y then upper else y

def saturate (x : Scalar) : Scalar := clamp x zero one

def sum (xs : List Scalar) : Scalar := Flat.sum negativeZero xs

end Scalar

end ShaderGraph

import ShaderGraph.Scalar.Basic

namespace ShaderGraph.Scalar

/-- Drops the fraction `r / d` of a finite magnitude, adding one to what is left when `up` says so.
-/
def integral (up : (negative : Bool) → (r d : Nat) → Bool) (x : Scalar) : Scalar :=
  match parts x with
  | .finite negative m e =>
    let d := Nat.pow 2 (-e).toNat
    let whole := m * Nat.pow 2 e.toNat / d
    nearest negative (if up negative (m % d) d then whole + 1 else whole) 1
  | _ => x

def trunc : Scalar → Scalar := integral fun _ _ _ => false

def floor : Scalar → Scalar := integral fun negative r _ => negative && r != 0

def ceil : Scalar → Scalar := integral fun negative r _ => !negative && r != 0

/-- A half goes away from zero. -/
def round : Scalar → Scalar := integral fun _ r d => r != 0 && decide (d ≤ 2 * r)

/-- The whole part, kept within `lower` and `upper`; zero for NaN. -/
def toInt (lower upper : Int) (x : Scalar) : Int :=
  match parts x with
  | .nan => 0
  | .infinite negative => if negative then lower else upper
  | .finite negative m e =>
    let whole : Int := m * Int.pow 2 e.toNat / Int.pow 2 (-e).toNat
    max lower (min upper (if negative then -whole else whole))

end ShaderGraph.Scalar

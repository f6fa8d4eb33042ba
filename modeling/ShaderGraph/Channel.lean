import ShaderGraph.Scalar.Integral
import ShaderGraph.Value.Basic

namespace ShaderGraph

/-- What a build of the program does when an integer leaves its range. -/
inductive Overflow where
  | wraps
  | stops
  deriving DecidableEq, Repr

/-- Nothing where the program stops. -/
def Overflow.sub (o : Overflow) (a b : Int32) : Option Int32 :=
  if o = .stops ∧ a.toBitVec.ssubOverflow b.toBitVec then none else some (a - b)

inductive Channel where
  | rgba
  | rgb
  | single (index : Nat)
  deriving DecidableEq, Repr

namespace Channel

def modeNumber (mode : Scalar) : Int32 :=
  Int32.ofInt (Scalar.toInt (-Int.pow 2 31) (Int.pow 2 31 - 1) (Scalar.round mode))

def ofIndex (i : Int32) : Channel := .single (max 0 (min 3 i.toInt)).toNat

/-- Zero is all channels, one the color, two to five red to alpha; what lies outside goes to the
nearest of these four. Two is taken from the number in 32 bits, so that the lowest numbers come out
above all others. -/
def ofMode (mode : Scalar) : Channel :=
  let m := modeNumber mode
  if m = 0 then .rgba else if m = 1 then .rgb else ofIndex (m - 2)

def ofModeIn (o : Overflow) (mode : Scalar) : Option Channel :=
  let m := modeNumber mode
  if m = 0 then some .rgba else if m = 1 then some .rgb else (o.sub m 2).map ofIndex

/-- All channels when nothing is connected. -/
def ofInput : Option Value → Channel
  | some v => ofMode (v.get 0)
  | none => .rgba

def ofInputIn (o : Overflow) : Option Value → Option Channel
  | some v => ofModeIn o (v.get 0)
  | none => some .rgba

def shape : Channel → Shape
  | rgba => .vec4
  | rgb => .vec3
  | single _ => .scalar

def swizzle? : Channel → Option String
  | rgba => none
  | rgb => some "rgb"
  | single 0 => some "r"
  | single 1 => some "g"
  | single 2 => some "b"
  | single _ => some "a"

end Channel

/-- The texture unit a sample reads: its first input rounded, unit zero below that and when nothing
is connected. -/
def textureUnit : Option Value → Nat
  | some v => (Scalar.toInt 0 (Int.pow 2 32 - 1) (Scalar.round (v.get 0))).toNat
  | none => 0

end ShaderGraph

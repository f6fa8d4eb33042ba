import ShaderGraph.Scalar.Basic

namespace ShaderGraph.Scalar

/-- The number `digits * 10 ^ place`. -/
structure Decimal where
  digits : Nat
  place : Int
  deriving DecidableEq, Repr

inductive Tie where
  | up
  /-- To the one with an even last digit. -/
  | even
  deriving DecidableEq, Repr

namespace Decimal

def grids : List Int := (List.range 100).map fun (i : Nat) => (39 : Int) - i

/-- How far the interval of reals that round to `m * 2 ^ e` reaches below it, in quarters of a unit:
two, or one below a power of two. Above it is always two. -/
def below (m : Nat) (e : Int) : Nat := if m = Nat.pow 2 23 ∧ -149 < e then 1 else 2

/-- A unit of `2 ^ e` and four steps of `10 ^ place`, both as multiples of one number. -/
def unit (e place : Int) : Nat := Nat.pow 2 e.toNat * Nat.pow 10 (-place).toNat

@[inherit_doc unit]
def grid (e place : Int) : Nat :=
  4 * Nat.pow 2 (-e).toNat * Nat.pow 10 place.toNat

/-- Whether `c * 10 ^ place` lies in the interval, which holds its ends when `m` is even. -/
def inside (m : Nat) (e place : Int) (c : Nat) : Bool :=
  let low := (4 * m - below m e) * unit e place
  let high := (4 * m + 2) * unit e place
  let point := c * grid e place
  if m % 2 = 0 then low ≤ point && point ≤ high else low < point && point < high

/-- The decimal on the grid `10 ^ place` that stands for `m * 2 ^ e`, if one lies in the interval of
reals that round to it. -/
def onGrid? (tie : Tie) (m : Nat) (e place : Int) : Option Decimal :=
  let down := 4 * m * unit e place / grid e place
  let past := 2 * (4 * m * unit e place % grid e place)
  let isLower := past < grid e place || (past = grid e place && tie = .even && down % 2 = 0)
  let pick (c : Nat) : Option Decimal := some ⟨c, place⟩
  match inside m e place down, inside m e place (down + 1) with
  | true, true => if isLower then pick down else pick (down + 1)
  | true, false => pick down
  | false, true => pick (down + 1)
  | false, false => none

def shortest (tie : Tie) (m : Nat) (e : Int) : Decimal :=
  (grids.findSome? (onGrid? tie m e)).getD ⟨0, 0⟩

def text (d : Decimal) : List Char := Nat.toDigits 10 d.digits

def exponent (d : Decimal) : Int := d.place + d.text.length - 1

/-- Positional, without a point when there is no fraction. -/
def plain (d : Decimal) : List Char :=
  let digits := d.text
  if 0 ≤ d.place then digits ++ List.replicate d.place.toNat '0'
  else
    let places := (-d.place).toNat
    if places < digits.length then
      digits.take (digits.length - places) ++ '.' :: digits.drop (digits.length - places)
    else '0' :: '.' :: List.replicate (places - digits.length) '0' ++ digits

end Decimal

/-- A scalar as text: positional with ties up, `-0` for negative zero, `NaN`, `inf` and `-inf`. -/
def toText (x : Scalar) : String :=
  match parts x with
  | .nan => "NaN"
  | .infinite negative => if negative then "-inf" else "inf"
  | .finite negative m e =>
    let magnitude := if m = 0 then ['0'] else (Decimal.shortest .up m e).plain
    String.ofList (if negative then '-' :: magnitude else magnitude)

def digitsValue (cs : List Char) : Nat := cs.foldl (fun n c => 10 * n + (c.toNat - '0'.toNat)) 0

/-- The scalar nearest to `± m * 10 ^ e`. Magnitudes far outside the range are settled without
computing the power. -/
def ofDecimal (negative : Bool) (m : Nat) (e : Int) : Scalar :=
  if m = 0 then ofMagnitude negative 0
  else if 50 < e then infinity negative
  else if (Nat.toDigits 10 m).length + e < -50 then ofMagnitude negative 0
  else nearest negative (m * Nat.pow 10 e.toNat) (Nat.pow 10 (-e).toNat)

def takeSign : List Char → Bool × List Char
  | '+' :: cs => (false, cs)
  | '-' :: cs => (true, cs)
  | cs => (false, cs)

/-- `e` or `E`, a sign, digits; nothing at all is the exponent zero. -/
def exponent? : List Char → Option Int
  | [] => some 0
  | c :: cs =>
    if c = 'e' ∨ c = 'E' then
      let (negative, digits) := takeSign cs
      if digits.isEmpty || !digits.all Char.isDigit then none
      else some (if negative then -digitsValue digits else digitsValue digits)
    else none

def unsigned? (negative : Bool) (cs : List Char) : Option Scalar :=
  let whole := cs.takeWhile Char.isDigit
  let rest := cs.dropWhile Char.isDigit
  let (fraction, rest) := match rest with
    | '.' :: rest => (rest.takeWhile Char.isDigit, rest.dropWhile Char.isDigit)
    | _ => ([], rest)
  if whole.isEmpty && fraction.isEmpty then none
  else (exponent? rest).map fun e =>
    ofDecimal negative (digitsValue (whole ++ fraction)) (e - fraction.length)

/-- Reads a signed decimal, or `inf`, `infinity`, `nan` in any case. -/
def ofChars? (cs : List Char) : Option Scalar :=
  let (negative, rest) := takeSign cs
  match unsigned? negative rest with
  | some x => some x
  | none =>
    let word := String.ofList (rest.map Char.toLower)
    if word = "inf" ∨ word = "infinity" then some (infinity negative)
    else if word = "nan" then some nan
    else none

def ofText? (s : String) : Option Scalar := ofChars? s.toList

end ShaderGraph.Scalar

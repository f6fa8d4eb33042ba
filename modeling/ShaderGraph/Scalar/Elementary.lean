import ShaderGraph.Scalar.Basic

namespace ShaderGraph.Scalar

def precisions : List Nat := [512, 1024, 2048]

/-- What the series may be off by, in units. The largest share is the quadrant number of a huge
angle times the error of pi. -/
def slack : Int := Int.pow 2 160

/-- The scalar both bounds round to at the first precision where they agree. Bounds that never part
enclose a tie, which goes to the even neighbour. -/
def settle (bounds : Nat → Scalar × Scalar) : List Nat → Scalar
  | [] => nan
  | w :: ws =>
    let (lower, upper) := bounds w
    if lower = upper then lower
    else if ws.isEmpty then (if lower.toBits % 2 = 0 then lower else upper)
    else settle bounds ws

/-- `term 0 t₀ + term 1 t₁ + …` with `tₖ₊₁ = step k tₖ`, up to a `tₖ` that vanishes. -/
def series (step term : Nat → Int → Int) : (terms k : Nat) → Int → Int
  | 0, _, _ => 0
  | terms + 1, k, t => if t = 0 then 0 else term k t + series step term terms (k + 1) (step k t)

def arctanInverse (w : Nat) (n : Int) : Int :=
  series (fun _ t => -t.tdiv (n * n)) (fun k t => t.tdiv (2 * k + 1)) w 0
    ((Int.pow 2 w).tdiv n)

/-- Machin's formula. -/
def pi (w : Nat) : Int := 16 * arctanInverse w 5 - 4 * arctanInverse w 239

/-- The logarithm of `(1 + z) / (1 - z)` for a `z` in units, by the area tangent. -/
def logRatio (w : Nat) (z : Int) : Int :=
  2 * series (fun _ t => (t * z * z).tdiv (Int.pow 2 (2 * w))) (fun k t => t.tdiv (2 * k + 1)) w 0
    z

def logTwo (w : Nat) : Int := logRatio w ((Int.pow 2 w).tdiv 3)

def expSeries (w : Nat) (x : Int) : Int :=
  series (fun k t => (t * x).tdiv (Int.pow 2 w * (k + 1))) (fun _ t => t) w 0 (Int.pow 2 w)

def sinSeries (w : Nat) (x : Int) : Int :=
  series (fun k t => -(t * x * x).tdiv (Int.pow 2 (2 * w) * ((2 * k + 2) * (2 * k + 3))))
    (fun _ t => t) w 0 x

def cosSeries (w : Nat) (x : Int) : Int :=
  series (fun k t => -(t * x * x).tdiv (Int.pow 2 (2 * w) * ((2 * k + 1) * (2 * k + 2))))
    (fun _ t => t) w 0 (Int.pow 2 w)

/-- Sine and cosine of `m * 2 ^ e`, in units, for `-w ≤ e`. -/
def sinCos (w m : Nat) (e : Int) : Int × Int :=
  let x : Int := m * Int.pow 2 (e + w).toNat
  let quarter := pi w / 2
  let quadrant := x / quarter
  let rest := x - quadrant * quarter
  let s := sinSeries w rest
  let c := cosSeries w rest
  match (quadrant % 4).toNat with
  | 0 => (s, c)
  | 1 => (c, -s)
  | 2 => (-s, -c)
  | _ => (-c, s)

/-- The scalar nearest to `n / 2 ^ w`, or to its opposite when `negative` asks for that. -/
def ofUnits (negative : Bool) (w : Nat) (n : Int) : Scalar :=
  nearest (negative != decide (n < 0)) n.natAbs (Nat.pow 2 w)

def sin (x : Scalar) : Scalar :=
  match parts x with
  | .finite negative m e =>
    if m = 0 then x
    else settle (fun w =>
      let s := (sinCos w m e).1
      (ofUnits negative w (s - slack), ofUnits negative w (s + slack))) precisions
  | _ => nan

def cos (x : Scalar) : Scalar :=
  match parts x with
  | .finite _ m e =>
    settle (fun w =>
      let c := (sinCos w m e).2
      (ofUnits false w (c - slack), ofUnits false w (c + slack))) precisions
  | _ => nan

def tan (x : Scalar) : Scalar :=
  match parts x with
  | .finite negative m e =>
    if m = 0 then x
    else settle (fun w =>
      let (s, c) := sinCos w m e
      let turned := negative != (decide (s < 0) != decide (c < 0))
      let s := (s.natAbs : Int)
      let c := (c.natAbs : Int)
      (nearest turned (s - slack).natAbs (c + slack).natAbs,
        nearest turned (s + slack).natAbs (c - slack).natAbs)) precisions
  | _ => nan

/-- What lies just below and just above the exponential of `x` units rounds to these two. -/
def expBounds (negative : Bool) (w : Nat) (x : Int) : Scalar × Scalar :=
  let two := logTwo w
  let k := x / two
  if 160 < k then (infinity negative, infinity negative)
  else if k < -200 then (ofMagnitude negative 0, ofMagnitude negative 0)
  else
    let y := expSeries w (x - k * two)
    let scaled (n : Int) : Scalar :=
      nearest negative (n.natAbs * Nat.pow 2 k.toNat) (Nat.pow 2 w * Nat.pow 2 (-k).toNat)
    (scaled (y - slack), scaled (y + slack))

def exp2 (x : Scalar) : Scalar :=
  match parts x with
  | .nan => nan
  | .infinite negative => if negative then zero else x
  | .finite negative m e =>
    settle (fun w =>
      let units : Int := m * Int.pow 2 (e + w).toNat * logTwo w / Int.pow 2 w
      expBounds false w (if negative then -units else units)) precisions

/-- Whether `m * 2 ^ e` is a whole number, and whether an odd one. -/
def wholeness (m : Nat) (e : Int) : Bool × Bool :=
  let d := Nat.pow 2 (-e).toNat
  (m % d = 0, m * Nat.pow 2 e.toNat / d % 2 = 1 && m % d = 0)

/-- `m * 2 ^ e` to the power `± n * 2 ^ f`, for positive `m`. -/
def powBounds (w : Nat) (negative : Bool) (m : Nat) (e : Int) (below : Bool) (n : Nat) (f : Int) :
    Scalar × Scalar :=
  let top := m.log2
  let z : Int := ((m : Int) - Int.pow 2 top) * Int.pow 2 w / (m + Int.pow 2 top)
  let log := logRatio w z + (e + top) * logTwo w
  let units := log * (n * Int.pow 2 (f + 149).toNat) / Int.pow 2 149
  expBounds negative w (if below then -units else units)

/-- `x` to the power `y`. One to any power and any number to the power zero are one, even where the
other operand is NaN; otherwise a NaN stays, and so does a negative number under a broken power. -/
def pow (x y : Scalar) : Scalar :=
  match parts x, parts y with
  | .finite false m e, .finite below n f =>
    if n = 0 then one
    else if m = 0 then (if below then infinity false else zero)
    else settle (fun w => powBounds w false m e below n f) precisions
  | .finite true m e, .finite below n f =>
    let (whole, odd) := wholeness n f
    if n = 0 then one
    else if m = 0 then (if below then infinity odd else ofMagnitude odd 0)
    else if whole then settle (fun w => powBounds w odd m e below n f) precisions
    else nan
  | .infinite negative, .finite below n f =>
    let odd := negative && (wholeness n f).2
    if n = 0 then one else if below then ofMagnitude odd 0 else infinity odd
  | .nan, .finite _ n _ => if n = 0 then one else nan
  | .finite _ _ _, .infinite below =>
    let size := x.abs
    if size = one then one
    else if decide (size < one) == below then infinity false
    else zero
  | .infinite _, .infinite below => if below then zero else infinity false
  | .finite _ _ _, .nan => if x = one then one else nan
  | _, _ => nan

end ShaderGraph.Scalar

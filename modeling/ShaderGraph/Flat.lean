namespace ShaderGraph.Flat

variable {α : Type} [Add α] [Mul α] (zero start : α)

/-- Left to right, from a start that need not be neutral. -/
def sum (xs : List α) : α := xs.foldl (· + ·) start

/-- A matrix applied to a column vector. Matrices are stored column by column: element (row `r`,
column `c`) is component `4 * c + r`. -/
def transform (m v : List α) : List α :=
  (List.range 4).map fun r =>
    sum start ((List.range 4).map fun c => m.getD (4 * c + r) zero * v.getD c zero)

def matMul (a b : List α) : List α :=
  (List.range 16).map fun i =>
    sum start ((List.range 4).map fun k =>
      a.getD (4 * k + i % 4) zero * b.getD (4 * (i / 4) + k) zero)

def transpose (m : List α) : List α :=
  (List.range 16).map fun i => m.getD (4 * (i % 4) + i / 4) zero

def spread (xs : List α) (i : Nat) : α := if xs.length = 1 then xs.getD 0 zero else xs.getD i zero

/-- The product of two operands. A matrix transforms a vector of four on either side of it, and two
matrices compose. -/
def multiply (a b : List α) : Option (List α) :=
  let products (n : Nat) := (List.range n).map fun i => spread zero a i * spread zero b i
  if a.length = 16 ∧ b.length = 4 then some (transform zero start a b)
  else if a.length = 4 ∧ b.length = 16 then some (transform zero start b a)
  else if a.length = 16 ∧ b.length = 16 then some (matMul zero start a b)
  else if a.length = b.length then some (products a.length)
  else if a.length = 1 then some (products b.length)
  else if b.length = 1 then some (products a.length)
  else none

end ShaderGraph.Flat

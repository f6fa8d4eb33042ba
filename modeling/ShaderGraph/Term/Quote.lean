import ShaderGraph.Term.Numeral

namespace ShaderGraph.Term

def hexadecimal? (digits : List Char) : Option Nat :=
  if digits.isEmpty || digits.any (16 ≤ digitValue ·) then none
  else some (digits.foldl (fun n c => 16 * n + digitValue c) 0)

def charOfNat? (n : Nat) : Option Char := if n.isValidChar then some (Char.ofNat n) else none

/-- A character past ASCII from its UTF-8 encoding: what its first byte adds, the bytes behind it,
and the least number that needs as many of them. -/
def charOfBytes? (first : Nat) (others : List Nat) (least : Nat) : Option Char :=
  let n := others.foldl (fun n b => 64 * n + (b - 0x80)) first
  if others.all (fun b => 0x80 ≤ b && b < 0xc0) && least ≤ n then charOfNat? n else none

def escapedByte? : List Char → Option (Nat × List Char)
  | '\\' :: 'x' :: a :: b :: cs => (hexadecimal? [a, b]).map (·, cs)
  | _ => none

def escapedBytes? : Nat → List Char → Option (List Nat × List Char)
  | 0, cs => some ([], cs)
  | n + 1, cs => do
    let (b, rest) ← escapedByte? cs
    let (bs, rest) ← escapedBytes? n rest
    return (b :: bs, rest)

inductive Quoting where
  | text
  | character
  | bytes
  deriving DecidableEq, Repr

/-- The character that an escaped byte starts. Bytes stand for themselves; in text up to four of
them spell a character past ASCII. -/
def ofByte? (q : Quoting) (b : Nat) (cs : List Char) : Option (Char × List Char) :=
  let spelled (first n least : Nat) : Option (Char × List Char) := do
    let (others, rest) ← escapedBytes? n cs
    return (← charOfBytes? first others least, rest)
  if b < 0x80 ∨ q = .bytes then some (Char.ofNat b, cs)
  else if q = .character ∨ b < 0xc0 then none
  else if b < 0xe0 then spelled (b - 0xc0) 1 0x80
  else if b < 0xf0 then spelled (b - 0xe0) 2 0x800
  else if b < 0xf8 then spelled (b - 0xf0) 3 0x10000
  else none

def escape? (q : Quoting) : List Char → Option (Char × List Char)
  | 'n' :: cs => some ('\n', cs)
  | 'r' :: cs => some ('\r', cs)
  | 't' :: cs => some ('\t', cs)
  | '0' :: cs => some (Char.ofNat 0, cs)
  | 'x' :: a :: b :: cs => do ofByte? q (← hexadecimal? [a, b]) cs
  | 'u' :: '\x7b' :: cs =>
    let digits := cs.takeWhile (· ≠ '\x7d')
    if 6 < digits.length then none
    else match cs.dropWhile (· ≠ '\x7d') with
      | _ :: rest => do return (← charOfNat? (← hexadecimal? digits), rest)
      | [] => none
  | c :: cs => if c = '"' ∨ c = '\x27' ∨ c = '\\' then some (c, cs) else none
  | [] => none

/-- The rest of quoted text, after its opening quote. The text has at most `bound` characters. -/
def quoted? (q : Quoting) : (bound : Nat) → List Char → Option (List Char × List Char)
  | _, '"' :: cs => some ([], cs)
  | bound + 1, '\\' :: cs => do
    let (c, rest) ← escape? q cs
    let (text, rest) ← quoted? q bound rest
    return (c :: text, rest)
  | bound + 1, c :: cs => do
    let (text, rest) ← quoted? q bound cs
    return (c :: text, rest)
  | _, _ => none

/-- The rest of raw text, up to a quote and as many hash signs as stood in front. -/
def raw? (hashes : Nat) : List Char → Option (List Char × List Char)
  | [] => none
  | c :: cs =>
    if c = '"' ∧ cs.take hashes = List.replicate hashes '#' then some ([], cs.drop hashes)
    else do
      let (text, rest) ← raw? hashes cs
      return (c :: text, rest)

def text? (q : Quoting) : List Char → Option (List Char × List Char)
  | '"' :: cs => quoted? q cs.length cs
  | 'r' :: cs =>
    match cs.dropWhile (· = '#') with
    | '"' :: rest => raw? (cs.takeWhile (· = '#')).length rest
    | _ => none
  | _ => none

/-- A single quoted character, after its opening quote. The quote itself needs no escape here. -/
def character? : List Char → Option (Char × List Char)
  | '\\' :: cs =>
    match escape? .character cs with
    | some (c, '\x27' :: rest) => some (c, rest)
    | _ => none
  | c :: '\x27' :: rest => some (c, rest)
  | _ => none

/-- A single quoted byte, after its opening quote: an ASCII character or an escape that is not an
escape of Unicode. -/
def byteLiteral? : List Char → Option (Nat × List Char)
  | '\\' :: 'u' :: _ => none
  | '\\' :: cs =>
    match escape? .bytes cs with
    | some (c, '\x27' :: rest) => some (c.toNat, rest)
    | _ => none
  | c :: '\x27' :: rest => if c.toNat < 0x80 then some (c.toNat, rest) else none
  | _ => none

end ShaderGraph.Term

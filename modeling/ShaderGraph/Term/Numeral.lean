import ShaderGraph.Scalar.Decimal

namespace ShaderGraph.Term

def digitValue (c : Char) : Nat :=
  if c.isDigit then c.toNat - '0'.toNat
  else if 'a' ≤ c ∧ c ≤ 'f' then c.toNat - 'a'.toNat + 10
  else if 'A' ≤ c ∧ c ≤ 'F' then c.toNat - 'A'.toNat + 10
  else 16

structure WholeType where
  signed : Bool
  bits : Nat
  deriving DecidableEq, Repr

namespace WholeType

def u8 : WholeType := ⟨false, 8⟩

def u16 : WholeType := ⟨false, 16⟩

def u32 : WholeType := ⟨false, 32⟩

def u64 : WholeType := ⟨false, 64⟩

def i64 : WholeType := ⟨true, 64⟩

def ofMark? : String → Option WholeType
  | "i8" => some ⟨true, 8⟩
  | "i16" => some ⟨true, 16⟩
  | "i32" => some ⟨true, 32⟩
  | "i64" => some i64
  | "u8" => some u8
  | "u16" => some u16
  | "u32" => some u32
  | "u64" => some u64
  | _ => none

end WholeType

structure Whole where
  negative : Bool
  magnitude : Nat
  type : Option WholeType
  deriving DecidableEq, Repr

def Whole.fits (w : Whole) (type : WholeType) : Bool :=
  if type.signed then
    if w.negative then w.magnitude ≤ Nat.pow 2 (type.bits - 1)
    else w.magnitude < Nat.pow 2 (type.bits - 1)
  else w.magnitude < Nat.pow 2 type.bits && (!w.negative || w.magnitude = 0)

/-- Reads a whole number: a sign, a base, digits with underscores after the first, a type mark. The
mark of a type only goes with the bases two and ten. -/
def whole? (cs : List Char) : Option Whole :=
  let (negative, cs) := Scalar.takeSign cs
  let (base, cs) := match cs with
    | '0' :: 'b' :: cs => (2, cs)
    | '0' :: 'o' :: cs => (8, cs)
    | '0' :: 'x' :: cs => (16, cs)
    | _ => (10, cs)
  let isDigit (c : Char) : Bool := c = '_' || digitValue c < 16
  let run := cs.takeWhile isDigit
  let mark := cs.dropWhile isDigit
  let digits := run.filter (· ≠ '_')
  let magnitude := digits.foldl (fun n c => base * n + digitValue c) 0
  if run.head?.all (· = '_') || digits.any (base ≤ digitValue ·) then none
  else if mark.isEmpty then some ⟨negative, magnitude, none⟩
  else if base = 8 ∨ base = 16 then none
  else (WholeType.ofMark? (String.ofList mark)).map fun type => ⟨negative, magnitude, some type⟩

/-- Drops the underscores of a number; one may stand behind a digit or an exponent mark. -/
def dropUnderscores : (allowed : Bool) → List Char → Option (List Char)
  | _, [] => some []
  | allowed, c :: cs =>
    if c = '_' then (if allowed then dropUnderscores allowed cs else none)
    else
      let allowed := c.isDigit || c = 'e' || c = 'E' || (allowed && c ≠ '.')
      (dropUnderscores allowed cs).map (c :: ·)

/-- A scalar and the mark behind it: decimal digits, or one of the names `inf` and `NaN`. -/
def decimal? (cs : List Char) : Option (Scalar × String) :=
  let isPart (c : Char) : Bool := c.isDigit || "eE.+-_".toList.contains c
  let (negative, unsigned) := Scalar.takeSign cs
  match unsigned with
  | 'i' :: 'n' :: 'f' :: mark => some (Scalar.infinity negative, String.ofList mark)
  | 'N' :: 'a' :: 'N' :: mark => some (Scalar.nan, String.ofList mark)
  | _ =>
    ((dropUnderscores false (cs.takeWhile isPart)).bind Scalar.ofChars?).map
      (·, String.ofList (cs.dropWhile isPart))

/-- Reads a scalar. It may carry the mark of its width, and no other. -/
def scalar? (cs : List Char) : Option Scalar := do
  let (x, mark) ← decimal? cs
  if mark = "" ∨ mark = "f32" then some x else none

/-- Whether a run of characters is a number of any type. Without a mark a whole number has 64 bits;
in decimal a longer one is a scalar. -/
def isNumber (cs : List Char) : Bool :=
  (whole? cs).any (fun w => w.fits (w.type.getD (if w.negative then .i64 else .u64)))
    || (decimal? cs).any fun (_, mark) => mark = "" ∨ mark = "f32" ∨ mark = "f64"

def isNumberChar (c : Char) : Bool := c.isAlphanum || "_.+-".toList.contains c

def number? (cs : List Char) : Option (List Char × List Char) :=
  if cs.head?.any fun c => c.isDigit || "+-.".toList.contains c then
    some (cs.takeWhile isNumberChar, cs.dropWhile isNumberChar)
  else none

end ShaderGraph.Term

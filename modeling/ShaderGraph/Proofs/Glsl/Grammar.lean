import ShaderGraph.Glsl.Expr
import ShaderGraph.Text

namespace ShaderGraph.Glsl

def Func.named : List Func :=
  [.abs, .cos, .sin, .tan, .radians, .degrees, .sqrt, .trunc, .round, .ceil, .floor, .fract, .sign,
    .exp2, .clamp, .normalize, .length, .dot, .cross, .distance, .pow, .step, .max, .min, .mix,
    .smoothstep, .transpose, .texture, .texture2D, .mat4]

def Func.ofName? (w : List Char) : Option Func :=
  match w with
  | 'v' :: 'e' :: 'c' :: digits => (Text.digits? digits).map .vec
  | _ => named.find? fun f => f.name.toList = w

/-- An expression as it is read. Brackets leave no trace. -/
inductive Tree where
  | name (w : List Char)
  | number (x : Scalar)
  | minus (t : Tree)
  | binary (op : Op) (a b : Tree)
  | call (f : Func) (args : List Tree)

inductive Lexeme where
  | word (w : List Char)
  | mark (c : Char)
  deriving DecidableEq

def isWordChar (c : Char) : Bool := c.isAlphanum || c = '_' || c = '.'

def Lexeme.attach (c : Char) : (goesOn : Bool) → List Lexeme → List Lexeme
  | true, .word w :: rest => .word (c :: w) :: rest
  | _, rest => .word [c] :: rest

/-- Words are as long as can be, and blanks part them. -/
def lexemes : List Char → List Lexeme
  | [] => []
  | c :: cs =>
    if Text.isBlank c then lexemes cs
    else if isWordChar c then Lexeme.attach c (cs.head?.any isWordChar) (lexemes cs)
    else .mark c :: lexemes cs

/-- The operand read last. A name may turn out to be that of a function. -/
inductive Hand where
  | nothing
  | name (w : List Char)
  | whole (t : Tree)

def Hand.tree? : Hand → Option Tree
  | nothing => none
  | name w => some (.name w)
  | whole t => some t

structure Level where
  sum : Option (Tree × Op)
  product : Option (Tree × Op)
  minus : Bool

namespace Level

def fresh : Level := ⟨none, none, false⟩

def joined (before : Option (Tree × Op)) (t : Tree) : Tree :=
  match before with
  | none => t
  | some (a, op) => .binary op a t

def factor (l : Level) (t : Tree) : Tree := if l.minus then .minus t else t

def term (l : Level) (t : Tree) : Tree := joined l.product (l.factor t)

def total (l : Level) (t : Tree) : Tree := joined l.sum (l.term t)

end Level

/-- A reading under way. The levels around the present one come with the function whose arguments
are being read, and the arguments before, or with nothing for plain brackets. -/
structure Reading where
  level : Level
  hand : Hand
  outer : List (Level × Option (Func × List Tree))

namespace Reading

def start : Reading := ⟨.fresh, .nothing, []⟩

/-- A word is a number when it starts with a digit. -/
def operand? (w : List Char) : Option Hand :=
  if w.head?.any Char.isDigit then (Scalar.unsigned? false w).map fun x => .whole (.number x)
  else if w.contains '.' then none
  else some (.name w)

def enter (r : Reading) : Option Reading :=
  match r.hand with
  | .nothing => some ⟨.fresh, .nothing, (r.level, none) :: r.outer⟩
  | .name w => (Func.ofName? w).map fun f => ⟨.fresh, .nothing, (r.level, some (f, [])) :: r.outer⟩
  | .whole _ => none

def leave (r : Reading) (t : Tree) : Option Reading :=
  match r.outer with
  | [] => none
  | (l, none) :: outer => some ⟨l, .whole (r.level.total t), outer⟩
  | (l, some (f, args)) :: outer => some ⟨l, .whole (.call f (args ++ [r.level.total t])), outer⟩

def nextArgument (r : Reading) (t : Tree) : Option Reading :=
  match r.outer with
  | (l, some (f, args)) :: outer =>
    some ⟨.fresh, .nothing, (l, some (f, args ++ [r.level.total t])) :: outer⟩
  | _ => none

def operate (r : Reading) (t : Tree) (op : Op) : Reading where
  level := match op with
    | .add | .sub => ⟨some (r.level.total t, op), none, false⟩
    | .mul | .div => ⟨r.level.sum, some (r.level.term t, op), false⟩
  hand := .nothing
  outer := r.outer

def behind (r : Reading) (t : Tree) : Char → Option Reading
  | '+' => some (r.operate t .add)
  | '-' => some (r.operate t .sub)
  | '*' => some (r.operate t .mul)
  | '/' => some (r.operate t .div)
  | ',' => r.nextArgument t
  | ')' => r.leave t
  | _ => none

def sign (r : Reading) (c : Char) : Option Reading :=
  if c = '-' ∧ r.level.minus = false then some { r with level := { r.level with minus := true } }
  else none

def step (r : Reading) : Lexeme → Option Reading
  | .word w =>
    match r.hand with
    | .nothing => (operand? w).map fun h => { r with hand := h }
    | _ => none
  | .mark '(' => r.enter
  | .mark c =>
    match r.hand.tree? with
    | none => r.sign c
    | some t => r.behind t c

def finish (r : Reading) : Option Tree :=
  if r.outer.isEmpty then r.hand.tree?.map r.level.total else none

end Reading

def Tree.ofLexemes? (ls : List Lexeme) : Option Tree :=
  (ls.foldlM Reading.step .start).bind Reading.finish

end ShaderGraph.Glsl

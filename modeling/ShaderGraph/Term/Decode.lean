import ShaderGraph.Term.Levels

namespace ShaderGraph.Term

/-- A whole number without a sign of its type; one that is marked with a type has this one. -/
def nat? (type : WholeType) : Term → Option Nat
  | number digits => do
    let w ← whole? digits
    if w.type.all (· = type) && w.fits type then some w.magnitude else none
  | byte value => if type = .u8 then some value else none
  | _ => none

def toScalar? : Term → Option Scalar
  | number digits => scalar? digits
  | word ⟨name, false⟩ => if name.startsWith "inf" || name.startsWith "NaN" then
      scalar? name.toList
    else none
  | _ => none

def bool? : Term → Option Bool
  | word ⟨"true", false⟩ => some true
  | word ⟨"false", false⟩ => some false
  | _ => none

def string? : Term → Option String
  | text content => some content
  | _ => none

def list? {α : Type} (item : Term → Option α) : Term → Option (List α)
  | list items => items.mapM item
  | _ => none

def pair? {α : Type} (item : Term → Option α) : Term → Option (α × α)
  | tuple none [a, b] => do return (← item a, ← item b)
  | _ => none

/-- `None`, `Some(x)`, or `x` alone where that is allowed. -/
def option? {α : Type} (e : Extensions) (item : Term → Option α) : Term → Option (Option α)
  | word ⟨"None", false⟩ => some none
  | optional _ (tuple none [t]) => (item t).map some
  | t => if e.implicitSome then (item t).map some else none

abbrev Fields := List (String × Term)

/-- The field of a name. It is there once or not at all. -/
def Fields.find (fields : Fields) (name : String) : Option (Option Term) :=
  match fields.filter fun f => f.1 = name with
  | [] => some none
  | [(_, t)] => some (some t)
  | _ => none

def Fields.required {α : Type} (fields : Fields) (name : String) (read : Term → Option α) :
    Option α := do
  read (← ← fields.find name)

def Fields.optional {α : Type} (fields : Fields) (name : String) (default : α)
    (read : Term → Option α) : Option α := do
  match ← fields.find name with
  | some t => read t
  | none => return default

/-- Whether all fields but the named ones can be passed over, with so many levels above them. -/
def Fields.arePassable (fields : Fields) (above : Nat) (names : List String) : Bool :=
  fields.all fun f => names.contains f.1 || f.2.isPassable (maxLevels - above)

/-- The fields of a structure, which may carry its name and in some texts has to. -/
def structure? (e : Extensions) (name : String) : Term → Option Fields
  | record (some n) fields => if n.text = name then some fields else none
  | record none fields => if e.explicitNames then none else some fields
  | _ => none

end ShaderGraph.Term

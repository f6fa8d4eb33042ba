import ShaderGraph.Term.Reader

namespace ShaderGraph.Term

def maxLevels : Nat := 128

/-- Words that stand for a value and so have no brackets behind them. -/
def isValueWord (name : Name) : Bool :=
  !name.raw && ["true", "false", "None", "inf", "inff32", "inff64", "NaN", "NaNf32",
    "NaNf64"].contains name.text

/-- Whether there is room for a bracket: it is one level, and if it holds parts each is one more. -/
def hasRoom (room : Nat) (empty : Bool) : Bool := if empty then 1 ≤ room else 2 ≤ room

mutual

/-- Whether a term can be read without knowing what it is, with `room` levels to go. In the brackets
of `Some` is one value, or what a look ahead takes for the parts of one. -/
def isPassable : (room : Nat) → Term → Bool
  | _, number digits => isNumber digits
  | _, byte _ | _, text _ | _, bytes | _, character _ | _, word _ | _, unit => true
  | room, optional ahead inside =>
    1 ≤ room && match ahead.elim (some Holding.value) holding? with
      | some .parts => isPassable (room - 1) inside
      | some .value =>
        match inside with
        | tuple none [t] => isPassable (room - 1) t
        | _ => false
      | none => false
  | room, list items => hasRoom room items.isEmpty && itemsArePassable (room - 2) items
  | room, map entries => hasRoom room entries.isEmpty && entriesArePassable (room - 2) entries
  | room, tuple name items =>
    !name.any isValueWord && hasRoom room items.isEmpty && itemsArePassable (room - 2) items
  | room, record name fields =>
    !name.any isValueWord && hasRoom room fields.isEmpty && fieldsArePassable (room - 2) fields

def itemsArePassable : (room : Nat) → List Term → Bool
  | _, [] => true
  | room, t :: ts => isPassable room t && itemsArePassable room ts

def entriesArePassable : (room : Nat) → List (Term × Term) → Bool
  | _, [] => true
  | room, (k, v) :: entries =>
    isPassable room k && isPassable room v && entriesArePassable room entries

def fieldsArePassable : (room : Nat) → List (String × Term) → Bool
  | _, [] => true
  | room, (_, t) :: fields => isPassable room t && fieldsArePassable room fields

end

end ShaderGraph.Term

namespace ShaderGraph

abbrev Slots (α : Type) := Vector (Option α) 4

namespace Slots

variable {α β : Type}

def vacant : Slots α := Vector.replicate 4 none

/-- What stands in slot `i`; nothing stands past the last slot. -/
def at? (s : Slots α) (i : Nat) : Option α := s[i]?.join

def filled (s : Slots α) : List α := s.toList.filterMap id

def count (s : Slots α) : Nat := s.filled.length

def apply (f : α → Option β) (s : Slots α) : Slots β := Vector.map (·.bind f) s

def without [DecidableEq α] (s : Slots α) (a : α) : Slots α :=
  s.apply fun b => if b = a then none else some b

def below? (s : Slots α) (bound : Nat) : Option (List (Option α)) :=
  if bound ≤ 4 then some (s.toList.take bound) else none

end Slots

end ShaderGraph

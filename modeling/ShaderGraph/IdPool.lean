namespace ShaderGraph

/-- The ids in use are those below `next` that are not among the `released` ones, which are kept in
ascending order. -/
structure IdPool where
  capacity : Nat
  next : Nat
  released : List Nat
  deriving DecidableEq, Repr

namespace IdPool

def new (capacity : Nat) : IdPool := ⟨capacity, 0, []⟩

def inUse (p : IdPool) (id : Nat) : Prop := id < p.next ∧ id ∉ p.released

def allocate? (p : IdPool) : Option (Nat × IdPool) :=
  match p.released with
  | id :: rest => some (id, { p with released := rest })
  | [] => if p.next < p.capacity then some (p.next, { p with next := p.next + 1 }) else none

def insert (id : Nat) : List Nat → List Nat
  | [] => [id]
  | a :: as => if id < a then id :: a :: as else if id = a then a :: as else a :: insert id as

/-- Lowers the mark `next` past the released ids right below it; these come in descending order. -/
def foldBack (next : Nat) : List Nat → Nat × List Nat
  | [] => (next, [])
  | a :: as => if a + 1 = next then foldBack a as else (next, a :: as)

/-- Takes an id back. An id that was never handed out changes nothing. -/
def release (p : IdPool) (id : Nat) : IdPool :=
  if p.next ≤ id then p
  else if id + 1 = p.next then
    let (next, released) := foldBack id p.released.reverse
    { p with next := next, released := released.reverse }
  else { p with released := insert id p.released }

end IdPool

end ShaderGraph

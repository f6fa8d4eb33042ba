import ShaderGraph.IdPool

namespace ShaderGraph.IdPool

inductive Call where
  | allocate
  | release (id : UInt16)
  deriving DecidableEq, Repr

def perform : Call → StateM IdPool (Option Nat)
  | .allocate => fun p =>
    match p.allocate? with
    | some (id, q) => (some id, q)
    | none => (none, p)
  | .release id => fun p => (none, p.release id.toNat)

def increment? (a : UInt16) : Option UInt16 :=
  if a.toNat + 1 < UInt16.size then some (a + 1) else none

def decrement? (a : UInt16) : Option UInt16 := if a = 0 then none else some (a - 1)

/-- The released ids are in ascending order, each of them once. -/
structure Words where
  capacity : UInt16
  next : UInt16
  released : List UInt16
  deriving DecidableEq, Repr

namespace Words

def new (capacity : UInt16) : Words := ⟨capacity, 0, []⟩

def toPool (w : Words) : IdPool :=
  ⟨w.capacity.toNat, w.next.toNat, w.released.map UInt16.toNat⟩

def allocate (w : Words) : Option (Option UInt16 × Words) :=
  match w.released with
  | id :: rest => some (some id, { w with released := rest })
  | [] =>
    if w.next < w.capacity then do
      let next ← increment? w.next
      let id ← decrement? next
      return (some id, { w with next := next })
    else some (none, w)

/-- Lowers the mark as long as the highest released id is the one right below it. Each turn drops a
released id, so that there is an end to it. -/
def foldBack (w : Words) : Option Words :=
  if h : w.released = [] then some w
  else do
    let above ← increment? (w.released.getLast h)
    if above = w.next then do
      let next ← decrement? w.next
      foldBack { w with next := next, released := w.released.dropLast }
    else some w
termination_by w.released.length
decreasing_by
  have := List.length_pos_iff.mpr h
  simp only [List.length_dropLast]
  omega

def release (w : Words) (id : UInt16) : Option Words :=
  if w.next ≤ id then some w
  else do
    let above ← increment? id
    if above = w.next then do
      let next ← decrement? w.next
      foldBack { w with next := next }
    else
      some { w with released := w.released.filter (· < id) ++ id :: w.released.filter (id < ·) }

def perform : Call → StateT Words Option (Option UInt16)
  | .allocate => allocate
  | .release id => fun w => (w.release id).map fun w => (none, w)

end Words

end ShaderGraph.IdPool

import ShaderGraph.Graph.Basic
import ShaderGraph.Graph.Reach
import ShaderGraph.Link.Rule

namespace ShaderGraph

inductive LinkError where
  | nodeNotFound (id : NodeId)
  | sinkSource (id : NodeId)
  | selfLoop (id : NodeId)
  | inputLimit (id : NodeId) (limit : Nat)
  | slotOutOfRange (id : NodeId) (slot limit : Nat)
  | slotOccupied (id : NodeId) (slot : Nat) (holder : NodeId)
  | cycle (source target : NodeId)
  | shapeMismatch (kind : Kind) (slot size : Nat) (expected : Expectation)
  deriving DecidableEq, Repr

def LinkError.message : LinkError → String
  | nodeNotFound id => s!"Node not found: {id}"
  | sinkSource id => s!"Node {id} is a stage output and cannot feed other nodes"
  | selfLoop id => s!"Cannot connect node {id} to itself"
  | inputLimit id limit => s!"Node {id} already has {limit} input(s)"
  | slotOutOfRange id slot limit => s!"Slot {slot} is out of range for node {id} (limit {limit})"
  | slotOccupied id slot holder => s!"Slot {slot} of node {id} is already fed by node {holder}"
  | cycle source target => s!"Connecting {source} -> {target} would create a cycle"
  | shapeMismatch kind slot size expected =>
    s!"{kind.label} slot {slot} expects {expected.message} component(s), got {size}"

/-- The slot a request comes to: the one asked for, or else the lowest free one. `held` are the
slots taken by other producers. -/
def resolveSlot (id : NodeId) (limit : Nat) (held : Slots NodeId) (request : Option Nat) :
    Except LinkError Nat :=
  if limit ≤ held.count then .error (.inputLimit id limit)
  else match request with
    | some slot =>
      if limit ≤ slot then .error (.slotOutOfRange id slot limit)
      else match held.at? slot with
        | some holder => .error (.slotOccupied id slot holder)
        | none => .ok slot
    | none =>
      match (List.range limit).find? fun slot => (held.at? slot).isNone with
      | some slot => .ok slot
      | none => .error (.inputLimit id limit)

/-- The choice of a slot with every read by position: nothing comes of a read past the last slot. -/
def resolveByIndex (id : NodeId) (limit : Nat) (held : Slots NodeId) (request : Option Nat) :
    Option (Except LinkError Nat) :=
  if limit ≤ held.count then some (.error (.inputLimit id limit))
  else match request with
    | some slot =>
      if limit ≤ slot then some (.error (.slotOutOfRange id slot limit))
      else held[slot]?.map fun holder =>
        match holder with
        | some holder => .error (.slotOccupied id slot holder)
        | none => .ok slot
    | none =>
      (held.below? limit).map fun slots =>
        match slots.findIdx? Option.isNone with
        | some slot => .ok slot
        | none => .error (.inputLimit id limit)

namespace Graph

/-- Checks an edge from `source` into `target` and settles its slot. An edge that already joins the
two is looked upon as gone, since the new one replaces it. -/
def checkLink (g : Graph) (source target : NodeId) (request : Option Nat) : Except LinkError Nat :=
  match g.node? source, g.node? target with
  | none, _ => .error (.nodeNotFound source)
  | some _, none => .error (.nodeNotFound target)
  | some a, some b =>
    if a.kind.isSink then .error (.sinkSource source)
    else if source = target then .error (.selfLoop source)
    else
      let held := (g.inputsOf target).without source
      match resolveSlot target b.limit held request with
      | .error e => .error e
      | .ok slot =>
        if dependsOn g.links source target then .error (.cycle source target)
        else
          let others := held.apply fun id => (g.output? id).map Value.size
          match (Prospect.mk b.kind slot b.output.size others).refusal? a.output.size with
          | some expected => .error (.shapeMismatch b.kind slot a.output.size expected)
          | none => .ok slot

end Graph

end ShaderGraph

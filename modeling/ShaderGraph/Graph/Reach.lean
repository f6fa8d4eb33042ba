import ShaderGraph.Edge

namespace ShaderGraph

def feeders (links : List Link) (id : NodeId) : List NodeId :=
  (links.filter (·.target = id)).map (·.source)

def apartFrom (links : List Link) (id : NodeId) : List Link := links.filter (·.target ≠ id)

theorem length_feeders_add_apartFrom (links : List Link) (id : NodeId) :
    (feeders links id).length + (apartFrom links id).length = links.length := by
  unfold feeders apartFrom
  induction links with
  | nil => rfl
  | cons l ls ih => by_cases h : l.target = id <;> simp_all <;> omega

/-- Whether a chain of links leads from `goal` to a node on the stack. Every link is followed once.
-/
def reaches (goal : NodeId) (links : List Link) : List NodeId → Bool
  | [] => false
  | id :: stack =>
    if id = goal then true else reaches goal (apartFrom links id) (feeders links id ++ stack)
termination_by stack => 2 * links.length + stack.length
decreasing_by
  have := length_feeders_add_apartFrom links id
  simp only [List.length_append, List.length_cons]
  omega

/-- Whether `id` reads from `ancestor`, directly or through others. -/
def dependsOn (links : List Link) (id ancestor : NodeId) : Bool := reaches ancestor links [id]

end ShaderGraph

import ShaderGraph.Edge

namespace ShaderGraph

/-- The links into nodes that have not been looked at. -/
def linksAhead (links : List Link) (seen : List NodeId) : List Link :=
  links.filter (·.target ∉ seen)

theorem length_linksAhead_cons (links : List Link) {seen : List NodeId} {id : NodeId}
    (hid : id ∉ seen) :
    (linksAhead links (id :: seen)).length + (links.filter (·.target = id)).length =
      (linksAhead links seen).length := by
  unfold linksAhead
  induction links with
  | nil => rfl
  | cons l ls ih =>
    by_cases ht : l.target = id
    · simp_all
      omega
    · by_cases hs : l.target ∈ seen <;> simp_all
      omega

/-- A node has at most four producers, and none without a link. -/
theorem length_producers_le (links : List Link) (id : NodeId) :
    (inputsFrom links id).filled.length ≤ 4 * (links.filter (·.target = id)).length := by
  cases h : links.filter (·.target = id) with
  | nil => simp [inputsFrom, h, Slots.filled, Vector.toList_ofFn, List.ofFn_succ]
  | cons l ls =>
    have hle : (inputsFrom links id).filled.length ≤ (inputsFrom links id).toList.length :=
      List.length_filterMap_le _ _
    simp only [Vector.length_toList, List.length_cons] at hle ⊢
    omega

def search (links : List Link) (goal : NodeId) (seen : List NodeId) : List NodeId → Bool
  | [] => false
  | id :: stack =>
    if id = goal then true
    else if id ∈ seen then search links goal seen stack
    else search links goal (id :: seen) ((inputsFrom links id).filled.reverse ++ stack)
termination_by stack => 4 * (linksAhead links seen).length + stack.length
decreasing_by
  · simp
  · rename_i hnew
    have := length_linksAhead_cons links hnew
    have := length_producers_le links id
    simp only [List.length_append, List.length_reverse, List.length_cons]
    omega

end ShaderGraph

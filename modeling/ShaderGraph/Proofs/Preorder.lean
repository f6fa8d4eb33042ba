import Mathlib.Data.List.Lex
import ShaderGraph.Proofs.Inputs
import ShaderGraph.Proofs.Walks

namespace ShaderGraph

/-- What stands before an entry of the filled slots stands in a lower slot, and all of it does. -/
theorem Slots.filled_split {α : Type} {s : Slots α} {before after : List α} {a : α}
    (h : s.filled = before ++ a :: after) :
    ∃ i, s.at? i = some a ∧ ∀ j < i, ∀ b, s.at? j = some b → b ∈ before := by
  rw [filled_eq] at h
  obtain ⟨low, rest, hrange, rfl, hrest⟩ := List.filterMap_eq_append_iff.mp h
  obtain ⟨gap, i, high, rfl, hgap, hi, -⟩ := List.filterMap_eq_cons_iff.mp hrest
  refine ⟨i, hi, fun j hj b hb => ?_⟩
  have hsorted := hrange ▸ List.pairwise_lt_range (n := 4)
  have hj4 : j ∈ List.range 4 := List.mem_range.mpr (lt_of_at? hb)
  rw [hrange] at hj4
  simp only [List.mem_append, List.mem_cons] at hj4
  rcases hj4 with hlow | hmid | rfl | hhigh
  · exact List.mem_filterMap.mpr ⟨j, hlow, hb⟩
  · rw [hgap j hmid] at hb
    cases hb
  · exact absurd hj (Nat.lt_irrefl j)
  · have hupper := (List.pairwise_append.mp (List.pairwise_append.mp hsorted).2.1).2.1
    exact absurd hj (Nat.lt_asymm (List.rel_of_pairwise_cons hupper hhigh))

namespace Walk

variable {inputs : NodeId → Slots NodeId} {p : NodeId → Bool}

def follow (inputs : NodeId → Slots NodeId) (id : NodeId) : List Nat → Option NodeId
  | [] => some id
  | slot :: path => ((inputs id).at? slot).bind fun x => follow inputs x path

/-- The least of the paths from `id` to a node with `p` leads to `x`. -/
def FirstBelow (inputs : NodeId → Slots NodeId) (p : NodeId → Bool) (id x : NodeId) : Prop :=
  p x = true ∧ ∃ path, follow inputs id path = some x ∧
    ∀ other y, follow inputs id other = some y → p y = true → path ≤ other

theorem FirstBelow.unique {id x y : NodeId} (hx : FirstBelow inputs p id x)
    (hy : FirstBelow inputs p id y) : x = y := by
  obtain ⟨hpx, path, hpath, hleast⟩ := hx
  obtain ⟨hpy, other, hother, hleast'⟩ := hy
  have hsame : path = other := le_antisymm (hleast other y hother hpy) (hleast' path x hpath hpx)
  rw [hsame, hother] at hpath
  exact (Option.some.inj hpath).symm

theorem FirstBelow.here {id : NodeId} (hp : p id = true) : FirstBelow inputs p id id :=
  ⟨hp, [], rfl, fun other _ _ _ => not_lt.mp (List.not_lt_nil other)⟩

theorem FirstBelow.below {id x y : NodeId} {slot : Nat} (hp : p id = false)
    (hslot : (inputs id).at? slot = some y) (hx : FirstBelow inputs p y x)
    (hlower : ∀ j < slot, ∀ z, (inputs id).at? j = some z →
      ∀ path u, follow inputs z path = some u → p u = false) :
    FirstBelow inputs p id x := by
  obtain ⟨hpx, path, hpath, hleast⟩ := hx
  refine ⟨hpx, slot :: path, by rw [follow, hslot]; exact hpath, fun other u hother hu => ?_⟩
  cases other with
  | nil =>
    cases hother
    rw [hp] at hu
    cases hu
  | cons j other =>
    obtain ⟨z, hz, hother⟩ := Option.bind_eq_some_iff.mp hother
    rcases Nat.lt_trichotomy j slot with hj | rfl | hj
    · rw [hlower j hj z hz other u hother] at hu
      cases hu
    · rw [hslot] at hz
      cases hz
      exact List.cons_le_cons j (hleast other u hother hu)
    · exact le_of_lt (.rel hj)

theorem visit_entered {producers : NodeId → List NodeId} (room : Nat) {path : List NodeId}
    {w w' : Walk} {id : NodeId} (h : visit producers room path w id = .ok w') :
    w.entered <:+ w'.entered := by
  induction room generalizing path w w' id with
  | zero =>
    obtain ⟨-, rfl⟩ | ⟨_, _, less, _, hroom, _⟩ := visit_cases h
    · exact List.suffix_refl _
    · cases hroom
  | succ room ih =>
    obtain ⟨-, rfl⟩ | ⟨-, -, less, w₁, hroom, hfold, rfl⟩ := visit_cases h
    · exact List.suffix_refl _
    · cases hroom
      have hgrown : (id :: w.entered) <:+ w₁.entered :=
        foldlM_keeps (P := fun v => (id :: w.entered) <:+ v.entered)
          (fun _ _ _ hv hvisit => hv.trans (ih hvisit)) (List.suffix_refl _) hfold
      exact (List.suffix_cons id w.entered).trans hgrown

/-- The walk has left no node with `p`, and nothing behind the nodes it has left is still to
come. -/
structure Clear (inputs : NodeId → Slots NodeId) (p : NodeId → Bool) (w : Walk) : Prop where
  plain : ∀ x ∈ w.left, p x = false
  closed : ∀ x ∈ w.left, ∀ slot y, (inputs x).at? slot = some y → y ∈ w.left

theorem Clear.follow {w : Walk} (h : Clear inputs p w) {id x : NodeId} (hid : id ∈ w.left)
    {path : List Nat} (hx : follow inputs id path = some x) : p x = false := by
  induction path generalizing id with
  | nil =>
    cases hx
    exact h.plain x hid
  | cons slot path ih =>
    obtain ⟨y, hy, hx⟩ := Option.bind_eq_some_iff.mp hx
    exact ih (h.closed id hid slot y hy) hx

structure Clears (inputs : NodeId → Slots NodeId) (p : NodeId → Bool) (w : Walk)
    (ids : List NodeId) (w' : Walk) : Prop where
  clear : Clear inputs p w'
  keeps : w.left ⊆ w'.left
  done : ids ⊆ w'.left

theorem Clears.trans {w₁ w₂ w₃ : Walk} {ids more : List NodeId} (h : Clears inputs p w₁ ids w₂)
    (h' : Clears inputs p w₂ more w₃) : Clears inputs p w₁ (ids ++ more) w₃ :=
  ⟨h'.clear, List.Subset.trans h.keeps h'.keeps,
    List.append_subset.mpr ⟨List.Subset.trans h.done h'.keeps, h'.done⟩⟩

/-- A node whose producers have been cleared is left. -/
theorem Clears.leave {w w' : Walk} {id : NodeId} {entered : List NodeId} (hp : p id = false)
    (h : Clears inputs p { w with entered := entered } (inputs id).filled w') :
    Clears inputs p w [id] { w' with left := id :: w'.left } := by
  refine ⟨⟨fun x hx => ?_, fun x hx slot y hy => ?_⟩, ?_, by simp⟩
  · rcases List.mem_cons.mp hx with rfl | hx
    · exact hp
    · exact h.clear.plain x hx
  · apply List.mem_cons_of_mem
    rcases List.mem_cons.mp hx with rfl | hx
    · exact h.done (Slots.mem_filled.mpr ⟨slot, hy⟩)
    · exact h.clear.closed x hx slot y hy
  · exact List.subset_cons_of_subset id h.keeps

/-- A walk of several nodes clears them up to the first that has something with `p` behind it. -/
theorem foldlM_first {room : Nat} {path : List NodeId} (ids : List NodeId)
    (hvisit : ∀ w w' : Walk, ∀ id, Clear inputs p w →
      visit (fun id => (inputs id).filled) room path w id = .ok w' →
      ∃ new, w'.entered = new ++ w.entered ∧
        (new.reverse.find? p = none ∧ Clears inputs p w [id] w' ∨
          ∃ x, new.reverse.find? p = some x ∧ FirstBelow inputs p id x))
    {w w' : Walk} (hc : Clear inputs p w)
    (h : ids.foldlM (visit (fun id => (inputs id).filled) room path) w = .ok w') :
    ∃ new, w'.entered = new ++ w.entered ∧
      (new.reverse.find? p = none ∧ Clears inputs p w ids w' ∨
        ∃ before y after x, ids = before ++ y :: after ∧
          (∀ z ∈ before, ∀ path u, follow inputs z path = some u → p u = false) ∧
          new.reverse.find? p = some x ∧ FirstBelow inputs p y x) := by
  induction ids generalizing w with
  | nil =>
    cases h
    exact ⟨[], rfl, .inl ⟨rfl, hc, List.Subset.refl _, List.nil_subset _⟩⟩
  | cons id ids ih =>
    obtain ⟨w₁, hfirst, hrest⟩ := except_bind_eq_ok.mp h
    obtain ⟨new, hnew, hfound⟩ := hvisit w w₁ id hc hfirst
    rcases hfound with ⟨hnone, hclears⟩ | ⟨x, hx, hbelow⟩
    · obtain ⟨more, hmore, hfound⟩ := ih hclears.clear hrest
      refine ⟨more ++ new, by rw [hmore, hnew, List.append_assoc], ?_⟩
      have hfind : (more ++ new).reverse.find? p = more.reverse.find? p := by
        rw [List.reverse_append, List.find?_append, hnone, Option.none_or]
      rw [hfind]
      rcases hfound with ⟨hnone', hclears'⟩ | ⟨before, y, after, x, rfl, hbefore, hx, hbelow⟩
      · exact .inl ⟨hnone', hclears.trans hclears'⟩
      · refine .inr ⟨id :: before, y, after, x, rfl, ?_, hx, hbelow⟩
        intro z hz path u hu
        rcases List.mem_cons.mp hz with rfl | hz
        · exact hclears.clear.follow (hclears.done (List.mem_singleton.mpr rfl)) hu
        · exact hbefore z hz path u hu
    · obtain ⟨more, hmore⟩ : w₁.entered <:+ w'.entered :=
        foldlM_keeps (P := fun v => w₁.entered <:+ v.entered)
          (fun _ _ _ hv hv' => hv.trans (visit_entered room hv')) (List.suffix_refl _) hrest
      refine ⟨more ++ new, by rw [← hmore, hnew, List.append_assoc], ?_⟩
      refine .inr ⟨[], id, ids, x, rfl, by simp, ?_, hbelow⟩
      rw [List.reverse_append, List.find?_append, hx, Option.some_or]

/-- The first node with `p` that a visit enters is the first below the node visited. -/
theorem visit_first (room : Nat) {path : List NodeId} {w w' : Walk} {id : NodeId}
    (hc : Clear inputs p w)
    (h : visit (fun id => (inputs id).filled) room path w id = .ok w') :
    ∃ new, w'.entered = new ++ w.entered ∧
      (new.reverse.find? p = none ∧ Clears inputs p w [id] w' ∨
        ∃ x, new.reverse.find? p = some x ∧ FirstBelow inputs p id x) := by
  induction room generalizing path w w' id with
  | zero =>
    obtain ⟨hleft, rfl⟩ | ⟨-, -, _, _, hroom, _⟩ := visit_cases h
    · exact ⟨[], rfl, .inl ⟨rfl, hc, List.Subset.refl _, by simpa using hleft⟩⟩
    · cases hroom
  | succ room ih =>
    obtain ⟨hleft, rfl⟩ | ⟨-, -, _, w₁, hroom, hfold, rfl⟩ := visit_cases h
    · exact ⟨[], rfl, .inl ⟨rfl, hc, List.Subset.refl _, by simpa using hleft⟩⟩
    cases hroom
    have hc' : Clear inputs p { w with entered := id :: w.entered } := ⟨hc.plain, hc.closed⟩
    obtain ⟨new, hnew, hfound⟩ := foldlM_first _ (fun _ _ _ hv hv' => ih hv hv') hc' hfold
    refine ⟨new ++ [id], by simpa using hnew, ?_⟩
    rw [List.reverse_append, List.reverse_singleton, List.singleton_append, List.find?_cons]
    cases hp : p id with
    | true => exact .inr ⟨id, rfl, .here hp⟩
    | false =>
      rcases hfound with ⟨hnone, hclears⟩ | ⟨before, y, after, x, hfilled, hbefore, hx, hbelow⟩
      · exact .inl ⟨hnone, hclears.leave hp⟩
      · obtain ⟨slot, hslot, hlower⟩ := Slots.filled_split hfilled
        exact .inr ⟨x, hx, .below hp hslot hbelow fun j hj z hz => hbefore z (hlower j hj z hz)⟩

/-- The first node with `p` that a walk enters is the first below its root. -/
theorem preorder_find? {size : Nat} {root : NodeId} {w : Walk}
    (h : visitAll (fun id => (inputs id).filled) size [root] = .ok w) {x : NodeId} :
    w.preorder.find? p = some x ↔ FirstBelow inputs p root x := by
  have hvisit := visit_of_visitAll h
  have hstart : Clear inputs p start := ⟨by simp [start], by simp [start]⟩
  obtain ⟨new, hnew, hfound⟩ := visit_first size hstart hvisit
  have hpreorder : w.preorder = new.reverse := by simp [preorder, hnew, start]
  rw [hpreorder]
  rcases hfound with ⟨hnone, hclears⟩ | ⟨y, hy, hbelow⟩
  · rw [hnone]
    constructor
    · intro hx
      cases hx
    · rintro ⟨hp, path, hpath, _⟩
      rw [hclears.clear.follow (hclears.done (List.mem_singleton.mpr rfl)) hpath] at hp
      cases hp
  · rw [hy, Option.some.injEq]
    exact ⟨fun hx => hx ▸ hbelow, fun hx => hbelow.unique hx⟩

end Walk

end ShaderGraph

import Mathlib.Data.List.Nodup
import Mathlib.Data.List.Perm.Subperm
import Mathlib.Logic.Relation
import ShaderGraph.Graph.Walk
import ShaderGraph.Proofs.Except

namespace ShaderGraph.Walk

open Relation

variable {producers : NodeId → List NodeId}

def Produces (producers : NodeId → List NodeId) (a b : NodeId) : Prop := a ∈ producers b

/-- Every node stands once, in front of all its producers. -/
def Settled (producers : NodeId → List NodeId) : List NodeId → Prop
  | [] => True
  | x :: xs => x ∉ xs ∧ (∀ p ∈ producers x, p ∈ xs) ∧ Settled producers xs

theorem Settled.producer {xs : List NodeId} (h : Settled producers xs) {x p : NodeId} (hx : x ∈ xs)
    (hp : p ∈ producers x) : p ∈ xs := by
  induction xs with
  | nil => cases hx
  | cons y ys ih =>
    rcases List.mem_cons.mp hx with rfl | hx
    · exact List.mem_cons_of_mem _ (h.2.1 p hp)
    · exact List.mem_cons_of_mem _ (ih h.2.2 hx)

theorem Settled.behind {xs : List NodeId} (h : Settled producers xs) {x y : NodeId} (hy : y ∈ xs)
    (hc : ReflTransGen (Produces producers) x y) : x ∈ xs := by
  induction hc using ReflTransGen.head_induction_on with
  | refl => exact hy
  | head hp _ ih => exact h.producer ih hp

theorem Settled.nodup {xs : List NodeId} (h : Settled producers xs) : xs.Nodup := by
  induction xs with
  | nil => exact .nil
  | cons x xs ih => exact List.nodup_cons.mpr ⟨h.1, ih h.2.2⟩

theorem Settled.of_append {later xs : List NodeId} (h : Settled producers (later ++ xs)) :
    Settled producers xs := by
  induction later with
  | nil => exact h
  | cons x later ih => exact ih h.2.2

/-- Read backwards, a settled list has every producer before its consumers. -/
theorem Settled.idxOf_lt {xs : List NodeId} (h : Settled producers xs) {x p : NodeId} (hx : x ∈ xs)
    (hp : p ∈ producers x) : xs.reverse.idxOf p < xs.reverse.idxOf x := by
  induction xs with
  | nil => cases hx
  | cons y ys ih =>
    rw [List.reverse_cons]
    rcases List.mem_cons.mp hx with rfl | hx
    · have hm : p ∈ ys.reverse := List.mem_reverse.mpr (h.2.1 p hp)
      have hn : x ∉ ys.reverse := fun hm => h.1 (List.mem_reverse.mp hm)
      rw [List.idxOf_append_of_mem hm, List.idxOf_append_of_notMem hn]
      have := List.idxOf_lt_length_of_mem hm
      omega
    · have hm : p ∈ ys.reverse := List.mem_reverse.mpr (h.2.2.producer hx hp)
      rw [List.idxOf_append_of_mem hm, List.idxOf_append_of_mem (List.mem_reverse.mpr hx)]
      exact ih h.2.2 hx

structure Advance (producers : NodeId → List NodeId) (path ids : List NodeId) (w w' : Walk) :
    Prop where
  settled : Settled producers w'.left
  /-- The nodes on the path are the ones entered and not yet left. -/
  entered : w'.entered.Perm (w'.left ++ path)
  grows : ∃ more, w'.left = more ++ w.left
  done : ∀ id ∈ ids, id ∈ w'.left
  found : ∀ x ∈ w'.left, x ∈ w.left ∨ ∃ id ∈ ids, ReflTransGen (Produces producers) x id

theorem Advance.keeps {path ids : List NodeId} {w w' : Walk} (h : Advance producers path ids w w')
    {x : NodeId} (hx : x ∈ w.left) : x ∈ w'.left := by
  obtain ⟨more, he⟩ := h.grows
  exact he ▸ List.mem_append_right _ hx

theorem Advance.refl {path : List NodeId} {w : Walk} (hs : Settled producers w.left)
    (he : w.entered.Perm (w.left ++ path)) : Advance producers path [] w w :=
  ⟨hs, he, ⟨[], rfl⟩, by simp, fun _ hx => .inl hx⟩

theorem Advance.trans {path ids more : List NodeId} {w₁ w₂ w₃ : Walk}
    (h : Advance producers path ids w₁ w₂) (h' : Advance producers path more w₂ w₃) :
    Advance producers path (ids ++ more) w₁ w₃ where
  settled := h'.settled
  entered := h'.entered
  grows := by
    obtain ⟨a, ha⟩ := h.grows
    obtain ⟨b, hb⟩ := h'.grows
    exact ⟨b ++ a, by rw [hb, ha, List.append_assoc]⟩
  done id hid := by
    rcases List.mem_append.mp hid with hid | hid
    · exact h'.keeps (h.done id hid)
    · exact h'.done id hid
  found x hx := by
    rcases h'.found x hx with hx | ⟨id, hid, hc⟩
    · rcases h.found x hx with hx | ⟨id, hid, hc⟩
      · exact .inl hx
      · exact .inr ⟨id, List.mem_append_left _ hid, hc⟩
    · exact .inr ⟨id, List.mem_append_right _ hid, hc⟩

/-- The nodes a walk may meet: each with its producers, and none its own producer. -/
structure Field (producers : NodeId → List NodeId) (live : List NodeId) : Prop where
  closed : ∀ x ∈ live, ∀ p ∈ producers x, p ∈ live
  acyclic : ∀ x, ¬ TransGen (Produces producers) x x

/-- A path below which the walk may go on at `id`: distinct nodes that all read from `id`. -/
structure Trail (producers : NodeId → List NodeId) (live path : List NodeId) (id : NodeId) :
    Prop where
  distinct : path.Nodup
  within : path ⊆ live
  reads : ∀ p ∈ path, TransGen (Produces producers) id p

theorem Trail.not_mem {live path : List NodeId} {id : NodeId} (hf : Field producers live)
    (h : Trail producers live path id) : id ∉ path :=
  fun hm => hf.acyclic id (h.reads id hm)

theorem Trail.cons {live path : List NodeId} {id p : NodeId} (hf : Field producers live)
    (h : Trail producers live path id) (hid : id ∈ live) (hp : p ∈ producers id) :
    Trail producers live (id :: path) p where
  distinct := List.nodup_cons.mpr ⟨h.not_mem hf, h.distinct⟩
  within := List.cons_subset.mpr ⟨hid, h.within⟩
  reads q hq := by
    rcases List.mem_cons.mp hq with rfl | hq
    · exact .single hp
    · exact .head hp (h.reads q hq)

/-- If every single visit succeeds, so do several in a row. -/
theorem foldlM_visit {path : List NodeId} {room : Nat} (ids : List NodeId)
    (hvisit : ∀ id ∈ ids, ∀ w : Walk, Settled producers w.left →
      w.entered.Perm (w.left ++ path) →
      ∃ w', visit producers room path w id = .ok w' ∧ Advance producers path [id] w w')
    {w : Walk} (hs : Settled producers w.left) (he : w.entered.Perm (w.left ++ path)) :
    ∃ w', ids.foldlM (visit producers room path) w = .ok w' ∧
      Advance producers path ids w w' := by
  induction ids generalizing w with
  | nil => exact ⟨w, rfl, .refl hs he⟩
  | cons id ids ih =>
    obtain ⟨w₁, hv, ha⟩ := hvisit id (by simp) w hs he
    obtain ⟨w₂, hfold, ha'⟩ := ih (fun x hx => hvisit x (by simp [hx])) ha.settled ha.entered
    refine ⟨w₂, ?_, ha.trans ha'⟩
    rw [List.foldlM_cons, hv]
    exact hfold

/-- With room for every live node, the walk below a trail succeeds. The induction is on the room:
a trail that has used it all up would hold every live node, `id` included. -/
theorem visit_ok {live : List NodeId} (hf : Field producers live) (room : Nat)
    {path : List NodeId} {id : NodeId} (ht : Trail producers live path id) (hid : id ∈ live)
    (hroom : live.length ≤ room + path.length) {w : Walk} (hs : Settled producers w.left)
    (he : w.entered.Perm (w.left ++ path)) :
    ∃ w', visit producers room path w id = .ok w' ∧ Advance producers path [id] w w' := by
  induction room generalizing path id w with
  | zero =>
    have hsub : (id :: path) ⊆ live := List.cons_subset.mpr ⟨hid, ht.within⟩
    have hlen := ((List.nodup_cons.mpr ⟨ht.not_mem hf, ht.distinct⟩).subperm hsub).length_le
    simp only [List.length_cons] at hlen
    omega
  | succ room ih =>
    have hpath : path.any (· == id) = false := by
      simpa using fun x hx (he : x = id) => ht.not_mem hf (he ▸ hx)
    unfold visit
    simp only [hpath, Bool.false_eq_true, ↓reduceIte]
    by_cases hleft : id ∈ w.left
    · have : w.left.any (· == id) = true := by simpa using hleft
      simp only [this, ↓reduceIte]
      exact ⟨w, rfl, hs, he, ⟨[], rfl⟩, by simpa using hleft, fun _ hx => .inl hx⟩
    · have : w.left.any (· == id) = false := by
        simpa using fun x hx (he : x = id) => hleft (he ▸ hx)
      simp only [this, Bool.false_eq_true, ↓reduceIte]
      have hentered : (id :: w.entered).Perm (w.left ++ id :: path) :=
        (he.cons id).trans List.perm_middle.symm
      obtain ⟨w₁, hfold, ha⟩ := foldlM_visit (producers id)
        (fun p hp v hsv hev => ih (ht.cons hf hid hp) (hf.closed id hid p hp)
          (by simp only [List.length_cons]; omega) hsv hev)
        (w := { w with entered := id :: w.entered }) hs hentered
      refine ⟨{ w₁ with left := id :: w₁.left }, by rw [hfold]; rfl, ?_⟩
      have hnew : id ∉ w₁.left := by
        intro hm
        rcases ha.found id hm with hm | ⟨p, hp, hc⟩
        · exact hleft hm
        · exact hf.acyclic id (TransGen.tail' hc hp)
      obtain ⟨more, hmore⟩ := ha.grows
      exact {
        settled := ⟨hnew, ha.done, ha.settled⟩
        entered := ha.entered.trans List.perm_middle
        grows := ⟨id :: more, by rw [hmore]; rfl⟩
        done := by simp
        found := by
          intro x hx
          rcases List.mem_cons.mp hx with rfl | hx
          · exact .inr ⟨x, by simp, .refl⟩
          · rcases ha.found x hx with hx | ⟨p, hp, hc⟩
            · exact .inl hx
            · exact .inr ⟨id, by simp, hc.tail hp⟩ }

/-- A walk of live nodes succeeds and leaves exactly the nodes behind them. -/
theorem visitAll_ok {live : List NodeId} (hf : Field producers live) {ids : List NodeId}
    (hids : ids ⊆ live) (size : Nat) (hsize : live.length ≤ size) :
    ∃ w, visitAll producers size ids = .ok w ∧ Settled producers w.left ∧ w.entered.Perm w.left ∧
      ∀ x, x ∈ w.left ↔ ∃ id ∈ ids, ReflTransGen (Produces producers) x id := by
  obtain ⟨w, hw, ha⟩ := foldlM_visit ids
    (fun id hid w hs he => visit_ok hf size ⟨.nil, by simp, by simp⟩ (hids hid) (by simpa) hs he)
    (w := start) trivial (.refl _)
  refine ⟨w, hw, ha.settled, by simpa using ha.entered, fun x => ⟨fun hx => ?_, ?_⟩⟩
  · rcases ha.found x hx with hx | hx
    · simp [start] at hx
    · exact hx
  · rintro ⟨id, hid, hc⟩
    exact ha.settled.behind (ha.done id hid) hc

/-- A visit that succeeds finds the node left already, or enters it, walks its producers and leaves
it. -/
theorem visit_cases {room : Nat} {path : List NodeId} {w w' : Walk} {id : NodeId}
    (h : visit producers room path w id = .ok w') :
    (id ∈ w.left ∧ w' = w) ∨ id ∉ w.left ∧ id ∉ path ∧ ∃ less w₁, room = less + 1 ∧
      (producers id).foldlM (visit producers less (id :: path))
        { w with entered := id :: w.entered } = .ok w₁ ∧
      w' = { w₁ with left := id :: w₁.left } := by
  unfold visit at h
  split at h
  · cases h
  · rename_i hpath
    split at h
    · rename_i hleft
      cases h
      exact .inl ⟨by simpa using hleft, rfl⟩
    · rename_i hleft
      split at h
      · cases h
      · obtain ⟨w₁, hfold, he⟩ := except_bind_eq_ok.mp h
        cases he
        exact .inr ⟨by simpa using hleft, by simpa using hpath, _, w₁, rfl, hfold, rfl⟩

/-- The nodes entered are those that have been left and those on the path. -/
def Tracked (path : List NodeId) (w : Walk) : Prop := ∀ x, x ∈ w.entered ↔ x ∈ w.left ∨ x ∈ path

theorem tracked_start : Tracked [] start := by simp [Tracked, start]

theorem Tracked.enter {path : List NodeId} {w : Walk} (h : Tracked path w) (id : NodeId) :
    Tracked (id :: path) { w with entered := id :: w.entered } := by
  intro x
  simp only [List.mem_cons, h x]
  exact or_left_comm

theorem Tracked.leave {path : List NodeId} {w : Walk} {id : NodeId} (h : Tracked (id :: path) w) :
    Tracked path { w with left := id :: w.left } := by
  intro x
  simp only [List.mem_cons, h x]
  exact or_left_comm.trans or_assoc.symm

theorem Tracked.visit {room : Nat} {path : List NodeId} {w w' : Walk} {id : NodeId}
    (ht : Tracked path w) (h : visit producers room path w id = .ok w') : Tracked path w' := by
  induction room generalizing path w w' id with
  | zero =>
    obtain ⟨-, rfl⟩ | ⟨-, -, _, _, hroom, _⟩ := visit_cases h
    · exact ht
    · cases hroom
  | succ room ih =>
    obtain ⟨-, rfl⟩ | ⟨-, -, _, w₁, hroom, hfold, rfl⟩ := visit_cases h
    · exact ht
    · cases hroom
      exact (foldlM_keeps (fun _ _ _ hv hvisit => ih hv hvisit) (ht.enter id) hfold).leave

theorem visit_of_visitAll {size : Nat} {root : NodeId} {w : Walk}
    (h : visitAll producers size [root] = .ok w) :
    Walk.visit producers size [] start root = .ok w := by
  obtain ⟨w₁, hfirst, hrest⟩ := except_bind_eq_ok.mp h
  cases hrest
  exact hfirst

theorem foldlM_room {path ids : List NodeId} {room room' : Nat}
    (hvisit : ∀ id ∈ ids, ∀ w w' : Walk, visit producers room path w id = .ok w' →
      visit producers room' path w id = .ok w')
    {w w' : Walk} (h : ids.foldlM (visit producers room path) w = .ok w') :
    ids.foldlM (visit producers room' path) w = .ok w' := by
  induction ids generalizing w with
  | nil => exact h
  | cons id ids ih =>
    obtain ⟨w₁, hfirst, hrest⟩ := except_bind_eq_ok.mp h
    refine except_bind_eq_ok.mpr ⟨w₁, hvisit id (by simp) w w₁ hfirst, ?_⟩
    exact ih (fun x hx => hvisit x (by simp [hx])) hrest

/-- A walk that succeeds does the same with more room. -/
theorem visit_room {room room' : Nat} (hle : room ≤ room') {path : List NodeId} {id : NodeId}
    {w w' : Walk} (h : visit producers room path w id = .ok w') :
    visit producers room' path w id = .ok w' := by
  induction room generalizing room' path id w w' with
  | zero =>
    unfold visit at h ⊢
    split at h
    · cases h
    · split at h
      · rename_i hp hl
        simpa only [hp, hl, Bool.false_eq_true, ↓reduceIte] using h
      · cases h
  | succ room ih =>
    obtain ⟨more, rfl⟩ : ∃ more, room' = more + 1 := ⟨room' - 1, by omega⟩
    unfold visit at h ⊢
    split at h
    · cases h
    · split at h
      · rename_i hp hl
        simpa only [hp, hl, Bool.false_eq_true, ↓reduceIte] using h
      · rename_i hp hl
        simp only [hp, hl, Bool.false_eq_true, ↓reduceIte]
        obtain ⟨w₁, hfold, hdone⟩ := except_bind_eq_ok.mp h
        refine except_bind_eq_ok.mpr ⟨w₁, ?_, hdone⟩
        exact foldlM_room (fun p _ v v' hv => ih (by omega) hv) hfold

theorem visitAll_room {size size' : Nat} {ids : List NodeId} {w w' : Walk}
    (h : visitAll producers size ids = .ok w) (h' : visitAll producers size' ids = .ok w') :
    w = w' := by
  have hmore := foldlM_room (fun _ _ _ _ => visit_room (Nat.le_max_left size size')) h
  have hmore' := foldlM_room (fun _ _ _ _ => visit_room (Nat.le_max_right size size')) h'
  exact Except.ok.inj (hmore.symm.trans hmore')

def rename (f : NodeId → NodeId) (w : Walk) : Walk := ⟨w.entered.map f, w.left.map f⟩

/-- A renaming of the nodes in `live` that keeps them apart and takes producers to producers. -/
structure Renames (producers others : NodeId → List NodeId) (live : List NodeId)
    (f : NodeId → NodeId) : Prop where
  closed : ∀ x ∈ live, ∀ p ∈ producers x, p ∈ live
  apart : ∀ x ∈ live, ∀ y ∈ live, f x = f y → x = y
  producers_eq : ∀ x ∈ live, others (f x) = (producers x).map f

variable {others : NodeId → List NodeId} {live : List NodeId} {f : NodeId → NodeId}

theorem Renames.any_eq (h : Renames producers others live f) {xs : List NodeId} (hxs : xs ⊆ live)
    {x : NodeId} (hx : x ∈ live) : (xs.map f).any (· == f x) = xs.any (· == x) := by
  rw [Bool.eq_iff_iff]
  simp only [List.any_map, List.any_eq_true, Function.comp_apply, beq_iff_eq]
  constructor
  · rintro ⟨y, hy, he⟩
    exact ⟨y, hy, h.apart y (hxs hy) x hx he⟩
  · rintro ⟨y, hy, rfl⟩
    exact ⟨y, hy, rfl⟩

theorem foldlM_rename (others : NodeId → List NodeId) {room : Nat} (path : List NodeId)
    {ids live : List NodeId} {f : NodeId → NodeId}
    (hvisit : ∀ id ∈ ids, ∀ w w' : Walk, w.left ⊆ live → visit producers room path w id = .ok w' →
      w'.left ⊆ live ∧ visit others room (path.map f) (w.rename f) (f id) = .ok (w'.rename f))
    {w w' : Walk} (hw : w.left ⊆ live) (h : ids.foldlM (visit producers room path) w = .ok w') :
    w'.left ⊆ live ∧
      (ids.map f).foldlM (visit others room (path.map f)) (w.rename f) = .ok (w'.rename f) := by
  induction ids generalizing w with
  | nil =>
    cases h
    exact ⟨hw, rfl⟩
  | cons id ids ih =>
    obtain ⟨w₁, hfirst, hrest⟩ := except_bind_eq_ok.mp h
    obtain ⟨hsub, hfirst⟩ := hvisit id (by simp) w w₁ hw hfirst
    obtain ⟨hsub, hrest⟩ := ih (fun x hx => hvisit x (by simp [hx])) hsub hrest
    refine ⟨hsub, ?_⟩
    rw [List.map_cons, List.foldlM_cons, hfirst]
    exact hrest

/-- A walk that succeeds does so under any names. -/
theorem visit_rename (h : Renames producers others live f) (room : Nat) {path : List NodeId}
    (hpath : path ⊆ live) {id : NodeId} (hid : id ∈ live) {w w' : Walk} (hw : w.left ⊆ live)
    (hv : visit producers room path w id = .ok w') :
    w'.left ⊆ live ∧ visit others room (path.map f) (w.rename f) (f id) = .ok (w'.rename f) := by
  induction room generalizing path id w w' with
  | zero =>
    unfold visit at hv ⊢
    simp only [rename, h.any_eq hpath hid, h.any_eq hw hid]
    split at hv
    · cases hv
    · split at hv
      · rename_i hp hl
        cases hv
        simp [hp, hl, hw]
      · cases hv
  | succ room ih =>
    unfold visit at hv ⊢
    simp only [rename, h.any_eq hpath hid, h.any_eq hw hid]
    split at hv
    · cases hv
    · split at hv
      · rename_i hp hl
        cases hv
        simp [hp, hl, hw]
      · rename_i hp hl
        simp only [hp, hl, Bool.false_eq_true, ↓reduceIte]
        obtain ⟨w₁, hfold, hv⟩ := except_bind_eq_ok.mp hv
        cases hv
        have hsub : (id :: path) ⊆ live := List.cons_subset.mpr ⟨hid, hpath⟩
        obtain ⟨hleft, hfold⟩ := foldlM_rename others (id :: path) (f := f)
          (fun p hp v v' hv hvisit => ih hsub (h.closed id hid p hp) hv hvisit) (by exact hw) hfold
        refine ⟨List.cons_subset.mpr ⟨hid, hleft⟩, ?_⟩
        rw [h.producers_eq id hid, ← List.map_cons, ← List.map_cons (f := f)]
        exact except_bind_eq_ok.mpr ⟨_, hfold, rfl⟩

theorem visitAll_rename (h : Renames producers others live f) {size : Nat} {ids : List NodeId}
    (hids : ids ⊆ live) {w : Walk} (hw : visitAll producers size ids = .ok w) :
    visitAll others size (ids.map f) = .ok (w.rename f) :=
  (foldlM_rename others [] (fun _ hid _ _ hw hv =>
    visit_rename h size (List.nil_subset _) (hids hid) hw hv) (List.nil_subset live) hw).2

end ShaderGraph.Walk

import Mathlib.Data.List.Nodup
import ShaderGraph.Edge

namespace ShaderGraph

namespace Slots

variable {α β : Type}

theorem at?_eq_none {s : Slots α} {i : Nat} (h : 4 ≤ i) : s.at? i = none := by
  simp [at?, Vector.getElem?_eq_none h]

theorem at?_of_lt {s : Slots α} {i : Nat} (h : i < 4) : s.at? i = s[i] := by
  simp [at?, Vector.getElem?_eq_getElem h]

theorem lt_of_at? {s : Slots α} {i : Nat} {a : α} (h : s.at? i = some a) : i < 4 := by
  by_contra hn
  rw [at?_eq_none (by omega)] at h
  cases h

theorem ext_at? {s t : Slots α} (h : ∀ i, s.at? i = t.at? i) : s = t := by
  apply Vector.ext
  intro i hi
  have := h i
  rwa [at?_of_lt hi, at?_of_lt hi] at this

theorem at?_apply (f : α → Option β) (s : Slots α) (i : Nat) :
    (s.apply f).at? i = (s.at? i).bind f := by
  by_cases h : i < 4
  · simp [apply, at?_of_lt h]
  · rw [at?_eq_none (by omega), at?_eq_none (by omega)]
    rfl

theorem at?_without [DecidableEq α] (s : Slots α) (a : α) (i : Nat) :
    (s.without a).at? i = (s.at? i).bind fun b => if b = a then none else some b :=
  at?_apply _ s i

theorem toList_eq (s : Slots α) : s.toList = (List.range 4).map s.at? := by
  apply List.ext_getElem
  · simp
  · intro i h _
    have hi : i < 4 := by simpa using h
    simp [at?_of_lt hi]

theorem filled_eq (s : Slots α) : s.filled = (List.range 4).filterMap s.at? := by
  rw [filled, toList_eq, List.filterMap_map]
  rfl

theorem count_eq (s : Slots α) :
    s.count = ((List.range 4).filter fun i => (s.at? i).isSome).length := by
  rw [count, filled_eq, List.length_filterMap_eq_countP, List.countP_eq_length_filter]

theorem mem_filled {s : Slots α} {a : α} : a ∈ s.filled ↔ ∃ i, s.at? i = some a := by
  rw [filled_eq, List.mem_filterMap]
  constructor
  · rintro ⟨i, _, h⟩
    exact ⟨i, h⟩
  · rintro ⟨i, h⟩
    exact ⟨i, List.mem_range.mpr (lt_of_at? h), h⟩

theorem filled_apply (f : α → Option β) (s : Slots α) :
    (s.apply f).filled = s.filled.filterMap f := by
  simp only [filled_eq, List.filterMap_filterMap]
  congr 1
  funext i
  exact at?_apply f s i

end Slots

namespace Link

def socket (l : Link) : Socket := ⟨l.target, l.slot⟩

def ends (l : Link) : NodeId × NodeId := (l.source, l.target)

end Link

theorem at?_inputsFrom (links : List Link) (id : NodeId) {i : Nat} (h : i < 4) :
    (inputsFrom links id).at? i =
      (((links.filter (·.target = id)).filter (·.slot = i)).getLast?).map (·.source) := by
  simp [inputsFrom, Slots.at?_of_lt h]

/-- Whatever stands in a slot got there by a link. -/
theorem link_of_input {links : List Link} {id x : NodeId} {i : Nat}
    (h : (inputsFrom links id).at? i = some x) : ⟨x, id, i⟩ ∈ links := by
  rw [at?_inputsFrom links id (Slots.lt_of_at? h), Option.map_eq_some_iff] at h
  obtain ⟨l, hl, rfl⟩ := h
  have hm := List.mem_of_getLast? hl
  simp only [List.mem_filter, decide_eq_true_eq] at hm
  obtain ⟨⟨hm, rfl⟩, rfl⟩ := hm
  exact hm

/-- With one link to a slot, the link into a slot is the one that counts. -/
theorem input_of_link {links : List Link} (hu : (links.map Link.socket).Nodup) {l : Link}
    (hl : l ∈ links) (hs : l.slot < 4) :
    (inputsFrom links l.target).at? l.slot = some l.source := by
  rw [at?_inputsFrom links _ hs]
  have hm : l ∈ (links.filter (·.target = l.target)).filter (·.slot = l.slot) := by
    simp [List.mem_filter, hl]
  obtain ⟨k, hk⟩ : ∃ k, ((links.filter (·.target = l.target)).filter
      (·.slot = l.slot)).getLast? = some k := by
    cases h : ((links.filter (·.target = l.target)).filter (·.slot = l.slot)).getLast? with
    | none =>
      rw [List.getLast?_eq_none_iff] at h
      rw [h] at hm
      cases hm
    | some k => exact ⟨k, rfl⟩
  have hkm := List.mem_of_getLast? hk
  simp only [List.mem_filter, decide_eq_true_eq] at hkm
  obtain ⟨⟨hkm, ht⟩, hslot⟩ := hkm
  have he : k = l := List.inj_on_of_nodup_map hu hkm hl (by simp [Link.socket, ht, hslot])
  rw [hk, he]
  rfl

theorem input_iff_link {links : List Link} (hu : (links.map Link.socket).Nodup)
    (hs : ∀ l ∈ links, l.slot < 4) {id x : NodeId} {i : Nat} :
    (inputsFrom links id).at? i = some x ↔ ⟨x, id, i⟩ ∈ links :=
  ⟨link_of_input, fun h => input_of_link (l := ⟨x, id, i⟩) hu h (hs _ h)⟩

end ShaderGraph

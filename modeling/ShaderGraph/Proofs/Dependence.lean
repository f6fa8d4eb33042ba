import Mathlib.Logic.Relation
import ShaderGraph.Graph.Reach

namespace ShaderGraph

open Relation

/-- A link leads from `a` into `b`. -/
def Feeds (links : List Link) (a b : NodeId) : Prop := ∃ l ∈ links, l.source = a ∧ l.target = b

def Acyclic (links : List Link) : Prop := ∀ id, ¬ TransGen (Feeds links) id id

theorem Feeds.mono {links more : List Link} (h : links ⊆ more) : Feeds links ≤ Feeds more := by
  rintro a b ⟨l, hl, ha, hb⟩
  exact ⟨l, h hl, ha, hb⟩

theorem mem_feeders {links : List Link} {id x : NodeId} :
    x ∈ feeders links id ↔ Feeds links x id := by
  simp only [feeders, List.mem_map, List.mem_filter, decide_eq_true_eq, Feeds]
  constructor
  · rintro ⟨l, ⟨hl, ht⟩, hs⟩
    exact ⟨l, hl, hs, ht⟩
  · rintro ⟨l, hl, hs, ht⟩
    exact ⟨l, ⟨hl, ht⟩, hs⟩

theorem feeds_apartFrom {links : List Link} {id a b : NodeId} :
    Feeds (apartFrom links id) a b ↔ Feeds links a b ∧ b ≠ id := by
  simp only [apartFrom, Feeds, List.mem_filter, decide_eq_true_eq]
  constructor
  · rintro ⟨l, ⟨hl, hn⟩, hs, ht⟩
    exact ⟨⟨l, hl, hs, ht⟩, ht ▸ hn⟩
  · rintro ⟨⟨l, hl, hs, ht⟩, hn⟩
    exact ⟨l, ⟨hl, ht ▸ hn⟩, hs, ht⟩

/-- A chain of links either keeps clear of those into `id` or can be cut short at a feeder of it. -/
theorem chain_apartFrom {links : List Link} (id : NodeId) {goal x : NodeId}
    (h : ReflTransGen (Feeds links) goal x) :
    ReflTransGen (Feeds (apartFrom links id)) goal x ∨
      ∃ y ∈ feeders links id, ReflTransGen (Feeds (apartFrom links id)) goal y := by
  induction h with
  | refl => exact .inl .refl
  | @tail y z _ hf ih =>
    rcases ih with hy | hcut
    · by_cases hz : z = id
      · subst hz
        exact .inr ⟨y, mem_feeders.mpr hf, hy⟩
      · exact .inl (hy.tail (feeds_apartFrom.mpr ⟨hf, hz⟩))
    · exact .inr hcut

/-- The search finds a chain from `goal` to the stack exactly when there is one. -/
theorem reaches_iff (goal : NodeId) (links : List Link) (stack : List NodeId) :
    reaches goal links stack = true ↔ ∃ id ∈ stack, ReflTransGen (Feeds links) goal id := by
  fun_induction reaches goal links stack with
  | case1 => simp
  | case2 links stack => simpa using .inl .refl
  | case3 links id stack hne ih =>
    have hsub : apartFrom links id ⊆ links := fun _ hl => (List.mem_filter.mp hl).1
    rw [ih]
    constructor
    · rintro ⟨x, hx, hc⟩
      have hc := ReflTransGen.mono (Feeds.mono hsub) _ _ hc
      rcases List.mem_append.mp hx with hx | hx
      · exact ⟨id, by simp, hc.tail (mem_feeders.mp hx)⟩
      · exact ⟨x, by simp [hx], hc⟩
    · rintro ⟨x, hx, hc⟩
      rcases chain_apartFrom id hc with hc | ⟨y, hy, hc⟩
      · rcases List.mem_cons.mp hx with rfl | hx
        · -- the last link of a chain into `x` would be among those left out
          rcases ReflTransGen.cases_tail hc with he | ⟨_, _, hf⟩
          · exact absurd he hne
          · exact absurd rfl (feeds_apartFrom.mp hf).2
        · exact ⟨x, by simp [hx], hc⟩
      · exact ⟨y, by simp [hy], hc⟩

theorem dependsOn_iff (links : List Link) (id ancestor : NodeId) :
    dependsOn links id ancestor = true ↔ ReflTransGen (Feeds links) ancestor id := by
  simp [dependsOn, reaches_iff]

theorem acyclic_nil : Acyclic [] := by
  intro id h
  obtain ⟨_, ⟨l, hl, _⟩, _⟩ := TransGen.head'_iff.mp h
  simp at hl

theorem Acyclic.subset {links less : List Link} (h : Acyclic links) (hs : less ⊆ links) :
    Acyclic less :=
  fun id hc => h id (TransGen.mono (Feeds.mono hs) _ _ hc)

/-- A chain that may use a new link goes by the old links alone, or leads to the new link and on
from it by old ones. -/
theorem chain_added {links more : List Link} {new : Link}
    (hm : ∀ l ∈ more, l ∈ links ∨ l = new) {a b : NodeId}
    (h : ReflTransGen (Feeds more) a b) :
    ReflTransGen (Feeds links) a b ∨
      ReflTransGen (Feeds links) a new.source ∧ ReflTransGen (Feeds links) new.target b := by
  induction h with
  | refl => exact .inl .refl
  | @tail y z _ hf ih =>
    obtain ⟨l, hl, hs, ht⟩ := hf
    rcases hm l hl with hold | rfl
    · have hf : Feeds links y z := ⟨l, hold, hs, ht⟩
      rcases ih with hy | ⟨hy, hz⟩
      · exact .inl (hy.tail hf)
      · exact .inr ⟨hy, hz.tail hf⟩
    · subst hs ht
      rcases ih with hy | ⟨hy, _⟩
      · exact .inr ⟨hy, .refl⟩
      · exact .inr ⟨hy, .refl⟩

/-- A link whose source does not depend on its target closes no cycle. -/
theorem Acyclic.add {links more : List Link} (h : Acyclic links) (new : Link)
    (hn : ¬ ReflTransGen (Feeds links) new.target new.source)
    (hm : ∀ l ∈ more, l ∈ links ∨ l = new) : Acyclic more := by
  intro id hc
  obtain ⟨y, ⟨l, hl, hs, ht⟩, hback⟩ := TransGen.head'_iff.mp hc
  have hback := chain_added hm hback
  rcases hm l hl with hold | rfl
  · have hf : Feeds links id y := ⟨l, hold, hs, ht⟩
    rcases hback with hold | ⟨hto, hfrom⟩
    · exact h id (TransGen.head' hf hold)
    · exact hn ((hfrom.tail hf).trans hto)
  · subst hs ht
    rcases hback with hold | ⟨hto, _⟩
    · exact hn hold
    · exact hn hto

end ShaderGraph

import ShaderGraph.Graph.Search
import ShaderGraph.Proofs.Passes
import ShaderGraph.Proofs.Reachable

namespace ShaderGraph

open Relation

namespace Graph

variable {g : Graph}

/-- A walk with room for all nodes does not depend on how much room it has. -/
theorem visitAll_of_room (hw : g.WellFormed) {w : Walk}
    (h : Walk.visitAll g.producers g.nodes.length g.ids = .ok w) {room : Nat}
    (hroom : g.nodes.length ≤ room) : Walk.visitAll g.producers room g.ids = .ok w := by
  obtain ⟨w', hw', _⟩ := Walk.visitAll_ok hw.field (List.Subset.refl g.ids) room
    (by simpa [ids] using hroom)
  rw [hw', Walk.visitAll_room h hw']

/-- The topological order of a reachable graph exists, however deep the walk may go, has every node
once and nothing else, and every source before its target. Where the storage order and the producers
of another graph are those of this one under other names, so is its order. -/
theorem topologicalOrder_linearises (hg : g.Reachable) :
    ∃ order, g.topologicalOrder = .ok order ∧
      (∀ room, g.nodes.length ≤ room →
        (Walk.visitAll g.producers room g.ids).map Walk.postorder = .ok order) ∧
      order.Nodup ∧ (∀ id, id ∈ order ↔ id ∈ g.ids) ∧
      (∀ l ∈ g.links, order.idxOf l.source < order.idxOf l.target) ∧
      ∀ (h : Graph) (f : NodeId → NodeId), h.Reachable → h.ids = g.ids.map f →
        (∀ id ∈ g.ids, h.inputsOf (f id) = (g.inputsOf id).apply fun x => some (f x)) →
        h.topologicalOrder = .ok (order.map f) := by
  have hw := hg.wellFormed
  obtain ⟨order, ho, hsorted⟩ := topologicalOrder_ok hw
  refine ⟨order, ho, ?_, hsorted.once, hsorted.mem_iff, hsorted.before, ?_⟩
  · intro room hroom
    obtain ⟨w, hwalk, hpost⟩ := except_map_eq_ok.mp ho
    exact except_map_eq_ok.mpr ⟨w, visitAll_of_room hw hwalk hroom, hpost⟩
  · intro h f hh hids hinputs
    exact topologicalOrder_rename hw hh.wellFormed.id_once hids hinputs ho

/-- A sum of two chains, with a node gone that was stored before them. -/
def gappedSteps : List Step :=
  [.command (.createNode .time .standard) ⟨2⟩, .command (.createNode .add .standard) ⟨3⟩,
    .command (.createNode .negate .standard) ⟨4⟩, .command (.createNode .float .standard) ⟨5⟩,
    .command (.connect 5 4 none) ⟨6⟩, .recompute .topological,
    .command (.connect 5 3 (some 1)) ⟨6⟩, .command (.connect 4 3 (some 0)) ⟨6⟩,
    .command (.destroyNode 2) ⟨6⟩]

/-- The same nodes and links without the gap, the links made in another order. -/
def closedSteps : List Step :=
  [.command (.createNode .add .standard) ⟨2⟩, .command (.createNode .negate .standard) ⟨3⟩,
    .command (.createNode .float .standard) ⟨4⟩, .command (.connect 3 2 (some 0)) ⟨5⟩,
    .command (.connect 4 2 (some 1)) ⟨5⟩, .command (.connect 4 3 none) ⟨5⟩]

def closed (id : NodeId) : NodeId := if id ≤ 1 then id else id - 1

theorem gapped_order_renamed :
    (gappedSteps.foldl perform (Graph.new ⟨0⟩ ⟨1⟩)).topologicalOrder = .ok [0, 1, 5, 4, 3] ∧
      (closedSteps.foldl perform (Graph.new ⟨0⟩ ⟨1⟩)).topologicalOrder =
        .ok ([0, 1, 5, 4, 3].map closed) := by
  have hg := reachable_foldl (.new ⟨0⟩ ⟨1⟩) gappedSteps
  have hh := reachable_foldl (.new ⟨0⟩ ⟨1⟩) closedSteps
  obtain ⟨order, ho, _, _, _, _, hrename⟩ := topologicalOrder_linearises hg
  have hgapped : (gappedSteps.foldl perform (Graph.new ⟨0⟩ ⟨1⟩)).topologicalOrder =
      .ok [0, 1, 5, 4, 3] := by
    decide +kernel
  obtain rfl : order = [0, 1, 5, 4, 3] := Except.ok.inj (ho.symm.trans hgapped)
  exact ⟨hgapped, hrename _ closed hh (by decide +kernel) (by decide +kernel)⟩

end Graph

/-- Halfway through a search: the goal has not been looked at, and the producers of what has been
were looked at too or are still to come. -/
structure Exploring (links : List Link) (goal : NodeId) (seen stack : List NodeId) : Prop where
  goal : goal ∉ seen
  ahead : ∀ id ∈ seen, ∀ p ∈ (inputsFrom links id).filled, p ∈ seen ∨ p ∈ stack

abbrev StandsIn (links : List Link) : NodeId → NodeId → Prop :=
  Walk.Produces fun id => (inputsFrom links id).filled

section

variable {links : List Link} {goal id : NodeId} {seen stack : List NodeId}

/-- A chain that ends among the nodes looked at comes by the stack on its way. -/
theorem Exploring.chain (h : Exploring links goal seen stack) (hid : id ∈ seen)
    (hc : ReflTransGen (StandsIn links) goal id) :
    ∃ x ∈ stack, ReflTransGen (StandsIn links) goal x := by
  induction hc with
  | refl => exact absurd hid h.goal
  | @tail p id hp hstep ih =>
    rcases h.ahead id hid p hstep with hseen | hstack
    · exact ih hseen
    · exact ⟨p, hstack, hp⟩

/-- A node that was looked at before may be passed over. -/
theorem Exploring.pass (h : Exploring links goal seen (id :: stack)) (hid : id ∈ seen) :
    Exploring links goal seen stack := by
  refine ⟨h.goal, fun x hx p hp => ?_⟩
  rcases h.ahead x hx p hp with hseen | hstack
  · exact .inl hseen
  · rcases List.mem_cons.mp hstack with rfl | hstack
    · exact .inl hid
    · exact .inr hstack

/-- A new node makes way for its producers. -/
theorem Exploring.look (h : Exploring links goal seen (id :: stack)) (hne : id ≠ goal) :
    Exploring links goal (id :: seen) ((inputsFrom links id).filled.reverse ++ stack) := by
  refine ⟨?_, fun x hx p hp => ?_⟩
  · simpa using ⟨Ne.symm hne, h.goal⟩
  · rcases List.mem_cons.mp hx with rfl | hx
    · exact .inr (by simp [hp])
    · rcases h.ahead x hx p hp with hseen | hstack
      · exact .inl (List.mem_cons_of_mem _ hseen)
      · rcases List.mem_cons.mp hstack with rfl | hstack
        · exact .inl (by simp)
        · exact .inr (by simp [hstack])

/-- The search meets the goal just when a chain leads from it to the stack. -/
theorem search_iff (h : Exploring links goal seen stack) :
    search links goal seen stack = true ↔
      ∃ id ∈ stack, ReflTransGen (StandsIn links) goal id := by
  fun_induction search links goal seen stack with
  | case1 seen => simp
  | case2 seen stack => simpa using .inl .refl
  | case3 seen id stack hne hid ih =>
    rw [ih (h.pass hid)]
    constructor
    · rintro ⟨x, hx, hc⟩
      exact ⟨x, List.mem_cons_of_mem _ hx, hc⟩
    · rintro ⟨x, hx, hc⟩
      rcases List.mem_cons.mp hx with rfl | hx
      · exact (h.pass hid).chain hid hc
      · exact ⟨x, hx, hc⟩
  | case4 seen id stack hne _ ih =>
    rw [ih (h.look hne)]
    constructor
    · rintro ⟨x, hx, hc⟩
      rcases List.mem_append.mp hx with hx | hx
      · exact ⟨id, by simp, hc.tail (List.mem_reverse.mp hx)⟩
      · exact ⟨x, List.mem_cons_of_mem _ hx, hc⟩
    · rintro ⟨x, hx, hc⟩
      rcases List.mem_cons.mp hx with rfl | hx
      · rcases ReflTransGen.cases_tail hc with he | ⟨p, hp, hstep⟩
        · exact absurd he hne
        · exact ⟨p, List.mem_append_left _ (List.mem_reverse.mpr hstep), hp⟩
      · exact ⟨x, List.mem_append_right _ hx, hc⟩

end

/-- In a well-formed graph no link is lost on the way to the slots, so the search finds every
dependence. -/
theorem Graph.WellFormed.search_eq {g : Graph} (hw : g.WellFormed) (a b : NodeId) :
    search g.links b [] [a] = dependsOn g.links a b := by
  have hstart : Exploring g.links b [] [a] := ⟨by simp, by simp⟩
  rw [Bool.eq_iff_iff, search_iff hstart, dependsOn_iff]
  change (∃ id ∈ [a], ReflTransGen (Walk.Produces g.producers) b id) ↔ _
  simp [Graph.produces_eq hw]

/-- Without cycles, a chain that starts at the target of a link has no use for links like it. -/
theorem Acyclic.chain_apart {links : List Link} (h : Acyclic links) (source : NodeId)
    {target x : NodeId} (hback : ReflTransGen (Feeds links) target x) :
    ReflTransGen (Feeds (links.filter (·.ends ≠ (source, target)))) target x := by
  induction hback with
  | refl => exact .refl
  | @tail y z hy hstep ih =>
    obtain ⟨l, hl, rfl, rfl⟩ := hstep
    refine ih.tail ⟨l, List.mem_filter.mpr ⟨hl, ?_⟩, rfl, rfl⟩
    have hother : l.ends ≠ (source, target) := by
      intro he
      obtain ⟨hs, ht⟩ := Prod.mk.inj he
      exact h target (TransGen.tail' hy ⟨l, hl, rfl, ht⟩)
    simpa using hother

theorem resolveSlot_ne_cycle {id limit : Nat} {held : Slots NodeId} {request : Option Nat}
    {s t : NodeId} : resolveSlot id limit held request ≠ .error (.cycle s t) := by
  intro h
  unfold resolveSlot at h
  split at h
  · cases h
  · split at h
    · split at h
      · cases h
      · split at h <;> cases h
    · split at h <;> cases h

namespace Graph

variable {g : Graph} {source target s t : NodeId} {request : Option Nat}

/-- A cycle is what a link is refused for only if its source depends on its target. -/
theorem dependsOn_of_cycle (h : g.checkLink source target request = .error (.cycle s t)) :
    s = source ∧ t = target ∧ dependsOn g.links source target = true := by
  unfold checkLink at h
  split at h
  · cases h
  · cases h
  · split at h
    · cases h
    split at h
    · cases h
    dsimp only at h
    split at h
    · rename_i e hslot
      cases h
      exact absurd hslot resolveSlot_ne_cycle
    split at h
    · rename_i hcycle
      cases h
      exact ⟨rfl, rfl, hcycle⟩
    · split at h <;> cases h

/-- Dependence is being the same node or being led to by links, and a search over the slots that
passes over what it has seen finds it out, of any two ids. A link that is refused for a cycle would
close one, even with the link it replaces out of the way, and a link that is let in closes none. -/
theorem dependsOn_decides (hg : g.Reachable) :
    (∀ a b, dependsOn g.links a b = true ↔ a = b ∨ TransGen (Feeds g.links) b a) ∧
    (∀ a b, search g.links b [] [a] = dependsOn g.links a b) ∧
    (∀ source target request s t, g.checkLink source target request = .error (.cycle s t) →
      s = source ∧ t = target ∧ ∀ slot, ¬ Acyclic
        (g.links.filter (·.ends ≠ (source, target)) ++ [⟨source, target, slot⟩])) ∧
    (∀ source target request slot, g.checkLink source target request = .ok slot →
      Acyclic (g.links ++ [⟨source, target, slot⟩])) := by
  have hw := hg.wellFormed
  refine ⟨?_, hw.search_eq, ?_, ?_⟩
  · intro a b
    rw [dependsOn_iff, reflTransGen_iff_eq_or_transGen]
  · intro source target request s t hc
    obtain ⟨rfl, rfl, hdepends⟩ := dependsOn_of_cycle hc
    refine ⟨rfl, rfl, fun slot hacyclic => ?_⟩
    have hchain := hw.wired.acyclic.chain_apart s ((dependsOn_iff _ _ _).mp hdepends)
    refine hacyclic t (TransGen.tail' (ReflTransGen.mono (Feeds.mono ?_) _ _ hchain)
      ⟨⟨s, t, slot⟩, by simp, rfl, rfl⟩)
    exact List.subset_append_left _ _
  · intro source target request slot hc
    obtain ⟨_, _, _, _, _, _, _, hfree, _⟩ := checkLink_ok_iff.mp hc
    refine hw.wired.acyclic.add ⟨source, target, slot⟩ ?_ (by simp)
    intro hchain
    rw [(dependsOn_iff _ _ _).mpr hchain] at hfree
    cases hfree

def returningSteps : List Step :=
  [.command (.createNode .multiply .standard) ⟨2⟩, .command (.createNode .negate .standard) ⟨3⟩,
    .command (.createNode .float .standard) ⟨4⟩, .command (.connect 4 2 none) ⟨5⟩,
    .command (.connect 2 3 none) ⟨5⟩]

/-- The negation may not become a factor. The first factor may be moved, and a node that is not
there depends on itself alone. -/
theorem returning_closes_cycle :
    search (returningSteps.foldl perform (Graph.new ⟨0⟩ ⟨1⟩)).links 4 [] [3] = true ∧
    (∀ b, search (returningSteps.foldl perform (Graph.new ⟨0⟩ ⟨1⟩)).links b [] [9] = true ↔
      9 = b ∨ TransGen (Feeds (returningSteps.foldl perform (Graph.new ⟨0⟩ ⟨1⟩)).links) b 9) ∧
    (returningSteps.foldl perform (Graph.new ⟨0⟩ ⟨1⟩)).checkLink 3 2 none = .error (.cycle 3 2) ∧
    ¬ Acyclic [⟨4, 2, 0⟩, ⟨2, 3, 0⟩, ⟨3, 2, 1⟩] ∧
    (returningSteps.foldl perform (Graph.new ⟨0⟩ ⟨1⟩)).checkLink 4 2 (some 1) = .ok 1 ∧
    Acyclic [⟨4, 2, 0⟩, ⟨2, 3, 0⟩, ⟨4, 2, 1⟩] := by
  have hg := reachable_foldl (.new ⟨0⟩ ⟨1⟩) returningSteps
  have hlinks : (returningSteps.foldl perform (Graph.new ⟨0⟩ ⟨1⟩)).links =
      [⟨4, 2, 0⟩, ⟨2, 3, 0⟩] := by
    decide +kernel
  have hcycle : (returningSteps.foldl perform (Graph.new ⟨0⟩ ⟨1⟩)).checkLink 3 2 none =
      .error (.cycle 3 2) := by
    decide +kernel
  have hmoved : (returningSteps.foldl perform (Graph.new ⟨0⟩ ⟨1⟩)).checkLink 4 2 (some 1) =
      .ok 1 := by
    decide +kernel
  obtain ⟨hdepends, hsearch, hcloses, hopen⟩ := dependsOn_decides hg
  refine ⟨?_, fun b => ?_, hcycle, ?_, hmoved, ?_⟩
  · rw [hsearch]
    decide +kernel
  · rw [hsearch, hdepends]
  · have hclosed := (hcloses 3 2 none 3 2 hcycle).2.2 1
    rwa [hlinks] at hclosed
  · have hacyclic := hopen 4 2 (some 1) 1 hmoved
    rwa [hlinks] at hacyclic

end Graph

end ShaderGraph

import ShaderGraph.Proofs.Coherence

namespace ShaderGraph

/-- A chain of so many links, each into the source of the next, that ends at a node. -/
inductive ChainInto (links : List Link) : NodeId → Nat → Prop where
  | start (id : NodeId) : ChainInto links id 0
  | link {l : Link} {n : Nat} (hl : l ∈ links) (h : ChainInto links l.source n) :
      ChainInto links l.target (n + 1)

/-- The longest chain into a node has fewer than `k` links. -/
def Shallow (links : List Link) (k : Nat) (id : NodeId) : Prop := ∀ n, ChainInto links id n → n < k

section

variable {links : List Link} {k : Nat} {id : NodeId}

theorem not_shallow_zero : ¬ Shallow links 0 id :=
  fun h => Nat.not_lt_zero 0 (h 0 (.start id))

theorem Shallow.succ (h : Shallow links k id) : Shallow links (k + 1) id :=
  fun n hn => Nat.lt_succ_of_lt (h n hn)

theorem Shallow.source {l : Link} (hl : l ∈ links) (h : Shallow links (k + 1) l.target) :
    Shallow links k l.source :=
  fun n hn => Nat.lt_of_succ_lt_succ (h (n + 1) (.link hl hn))

theorem shallow_succ_iff :
    Shallow links (k + 1) id ↔ ∀ l ∈ links, l.target = id → Shallow links k l.source := by
  constructor
  · rintro h l hl rfl
    exact h.source hl
  · intro h n hn
    cases hn with
    | start => exact Nat.succ_pos k
    | link hl hn => exact Nat.succ_lt_succ (h _ hl rfl _ hn)

instance decidableShallow (links : List Link) :
    (k : Nat) → (id : NodeId) → Decidable (Shallow links k id)
  | 0, _ => isFalse not_shallow_zero
  | k + 1, id =>
    have (x : NodeId) := decidableShallow links k x
    decidable_of_iff (∀ l ∈ links, l.target = id → Shallow links k l.source) shallow_succ_iff.symm

end

namespace Graph

variable {g final : Graph}

/-- In a sorted order a node stands behind every chain into it. -/
theorem Sorted.chain_le {order : List NodeId} (ho : g.Sorted order) {id : NodeId} {n : Nat}
    (h : ChainInto g.links id n) : n ≤ order.idxOf id := by
  induction h with
  | start => exact Nat.zero_le _
  | link hl _ ih => exact Nat.succ_le_of_lt (Nat.lt_of_le_of_lt ih (ho.before _ hl))

theorem WellFormed.shallow (hw : g.WellFormed) {id : NodeId} (hid : id ∈ g.ids) :
    Shallow g.links g.nodes.length id := by
  intro n hn
  obtain ⟨order, _, hsorted⟩ := topologicalOrder_ok hw
  rw [← hsorted.length_eq hw]
  exact Nat.lt_of_le_of_lt (hsorted.chain_le hn)
    (List.idxOf_lt_length_of_mem ((hsorted.mem_iff id).mpr hid))

/-- A pass in either order visits the nodes and nothing else. -/
theorem recompute_visits (hw : g.WellFormed) (order : Order) :
    ∃ (visited : List NodeId) (report : Report), (∀ id, id ∈ visited ↔ id ∈ g.ids) ∧
      g.recompute order =
        .ok (g.shown (visited.foldl (g.enterValue g.links) g.valuation), report) := by
  obtain ⟨sorted, hsorted, hs⟩ := topologicalOrder_ok hw
  unfold recompute
  rw [hsorted]
  cases order with
  | topological => exact ⟨sorted, _, hs.mem_iff, rfl⟩
  | storage => exact ⟨g.ids, _, fun _ => Iff.rfl, rfl⟩

/-- `final` is `g` with the values of a topological pass. -/
structure Approaches (g final : Graph) : Prop where
  wellFormed : g.WellFormed
  core : g.core = final.core
  final_wellFormed : final.WellFormed
  final_evaluated : final.Evaluated

theorem Approaches.pass (h : g.Approaches final) {order : Order} {g' : Graph} {report : Report}
    (hr : g.recompute order = .ok (g', report)) : g'.Approaches final :=
  ⟨h.wellFormed.recompute hr, (core_recompute hr).trans h.core, h.final_wellFormed,
    h.final_evaluated⟩

/-- A node whose producers have their final values is given its own. -/
theorem Approaches.lookup_enterValue (h : g.Approaches final) {env : Valuation} {id : NodeId}
    (hid : id ∈ g.ids)
    (hfed : ∀ l ∈ final.links, l.target = id → env.lookup l.source = final.output? l.source) :
    (g.enterValue g.links env id).lookup id = final.output? id := by
  obtain ⟨n, hn, rfl⟩ := mem_ids.mp hid
  obtain ⟨m, hm, hc⟩ := core_node h.core hn
  obtain ⟨hmid, _, hkind, _, hliteral, _⟩ := Node.core_eq_iff.mp hc
  have hoperands : ((g.inputsOf n.id).apply fun i => env.lookup i) =
      (final.inputsOf m.id).apply final.output? := by
    apply Slots.ext_at?
    intro i
    rw [Slots.at?_apply, Slots.at?_apply, core_inputsOf h.core, hmid]
    cases hi : (final.inputsOf n.id).at? i with
    | none => rfl
    | some x => exact hfed _ (link_of_input hi) rfl
  have hvalue : g.valueIn (fun i => env.lookup i) n = m.output := by
    rw [h.final_evaluated.output m hm, valueIn, valueIn, hkind, hliteral, hoperands]
  rw [Graph.lookup_enterValue, if_pos rfl, node?_of_mem h.wellFormed.id_once hn, Option.map_some,
    Option.some_or, hvalue, ← hmid, output?_of_mem h.final_wellFormed.id_once hm]

/-- Halfway through a pass: what is less than `k` links down has its final value all along, and what
is `k` links down has it once it has been visited. -/
def Underway (final : Graph) (k : Nat) (visited : List NodeId) (env : Valuation) : Prop :=
  ∀ id, Shallow final.links k id ∨ id ∈ visited ∧ Shallow final.links (k + 1) id →
    env.lookup id = final.output? id

variable {k : Nat} {visited rest : List NodeId} {env : Valuation}

theorem Underway.enter (hu : final.Underway k visited env) (h : g.Approaches final) {id : NodeId}
    (hid : id ∈ g.ids) : final.Underway k (visited ++ [id]) (g.enterValue g.links env id) := by
  intro x hx
  by_cases hxid : x = id
  · subst hxid
    have hshallow : Shallow final.links (k + 1) x := by
      rcases hx with hx | ⟨_, hx⟩
      · exact hx.succ
      · exact hx
    -- the producers are less than `k` links down, visited or not
    refine h.lookup_enterValue hid fun l hl ht => hu _ (.inl ?_)
    exact Shallow.source hl (ht ▸ hshallow)
  · rw [lookup_enterValue, if_neg hxid]
    refine hu x (hx.imp_right fun hv => ⟨?_, hv.2⟩)
    exact (List.mem_append.mp hv.1).resolve_right fun hm => hxid (List.mem_singleton.mp hm)

theorem Underway.foldl (hu : final.Underway k visited env) (h : g.Approaches final)
    (hrest : ∀ id ∈ rest, id ∈ g.ids) :
    final.Underway k (visited ++ rest) (rest.foldl (g.enterValue g.links) env) := by
  induction rest generalizing visited env with
  | nil => simpa using hu
  | cons id rest ih =>
    have hnext := ih (hu.enter h (hrest id (by simp))) fun x hx => hrest x (by simp [hx])
    simpa using hnext

theorem output?_of_notMem {id : NodeId} (h : id ∉ g.ids) : g.output? id = none := by
  rw [output?, node?_of_notMem h, Option.map_none]

def ShowsAbove (final : Graph) (k : Nat) (h : Graph) : Prop :=
  ∀ id, Shallow final.links k id → h.output? id = final.output? id

/-- A pass in either order brings the final values one link further down. -/
theorem ShowsAbove.pass (hs : final.ShowsAbove k g) (h : g.Approaches final) {order : Order}
    {g' : Graph} {report : Report} (hr : g.recompute order = .ok (g', report)) :
    final.ShowsAbove (k + 1) g' := by
  have hids := core_ids (h.pass hr).core
  obtain ⟨visited, _, hvisited, hr'⟩ := recompute_visits h.wellFormed order
  rw [hr] at hr'
  cases hr'
  have hstart : final.Underway k [] g.valuation := by
    intro id hid
    rw [lookup_valuation]
    exact hs id (hid.resolve_right fun hv => List.not_mem_nil hv.1)
  have hend := hstart.foldl h fun id hid => (hvisited id).mp hid
  intro id hid
  by_cases hlive : id ∈ g.ids
  · rw [((covered_valuation g).foldl visited).output?_shown]
    exact hend id (.inr ⟨by simpa using (hvisited id).mpr hlive, hid⟩)
  · have hdead : id ∉ final.ids := core_ids h.core ▸ hlive
    rw [output?_of_notMem (hids ▸ hdead), output?_of_notMem hdead]

def passes (g : Graph) (orders : List Order) : Except Cycle Graph :=
  orders.foldlM (fun g order => (g.recompute order).map Prod.fst) g

def passesIn (o : Overflow) (g : Graph) (orders : List Order) : ExceptT Cycle Option Graph :=
  orders.foldlM (fun g order => ExceptT.mk ((g.recomputeIn o order).map (·.map Prod.fst))) g

theorem passes_cons {order : Order} {orders : List Order} {g' : Graph} {report : Report}
    (hr : g.recompute order = .ok (g', report)) :
    g.passes (order :: orders) = g'.passes orders := by
  rw [passes, List.foldlM_cons, hr]
  rfl

theorem passes_append {orders more : List Order} {h : Graph} (hp : g.passes orders = .ok h) :
    g.passes (orders ++ more) = h.passes more := by
  rw [passes, List.foldlM_append, ← passes, hp]
  rfl

theorem passesIn_cons {o : Overflow} {order : Order} {orders : List Order} {g' : Graph}
    {report : Report} (hr : g.recomputeIn o order = some (.ok (g', report))) :
    g.passesIn o (order :: orders) = g'.passesIn o orders := by
  rw [passesIn, List.foldlM_cons, hr]
  rfl

theorem passesIn_cons_none {o : Overflow} {order : Order} {orders : List Order}
    (hr : g.recomputeIn o order = none) : (g.passesIn o (order :: orders)).run = none := by
  rw [passesIn, List.foldlM_cons, hr]
  rfl

/-- A build stops in one of the passes, if it checks and that one strains it, or it makes them all
as any build does. -/
theorem passesIn_spec (hw : g.WellFormed) (o : Overflow) (orders : List Order) :
    ((g.passesIn o orders).run = none ∨ (g.passesIn o orders).run = some (g.passes orders)) ∧
      ((g.passesIn o orders).run = none ↔ o = .stops ∧
        ∃ before order after h, orders = before ++ order :: after ∧ g.passes before = .ok h ∧
          h.Strains order) := by
  induction orders generalizing g with
  | nil =>
    have hrun : (g.passesIn o []).run = some (g.passes []) := rfl
    exact ⟨.inr hrun, by simp [hrun]⟩
  | cons order orders ih =>
    obtain ⟨hstops, hcases⟩ := recomputeIn_spec hw o order
    rcases hcases with hnone | hsome
    · obtain ⟨ho, hstrains⟩ := hstops.mp hnone
      have hrun : (g.passesIn o (order :: orders)).run = none := passesIn_cons_none hnone
      exact ⟨.inl hrun, iff_of_true hrun ⟨ho, [], order, orders, g, rfl, rfl, hstrains⟩⟩
    · obtain ⟨g', report, hr⟩ := recompute_ok hw order
      rw [hr] at hsome
      obtain ⟨hcases, hnone⟩ := ih (hw.recompute hr)
      rw [passesIn_cons hsome, passes_cons hr]
      refine ⟨hcases, hnone.trans (and_congr_right fun ho => ⟨?_, ?_⟩)⟩
      · rintro ⟨before, last, after, h, rfl, hp, hstrains⟩
        exact ⟨order :: before, last, after, h, rfl, (passes_cons hr).trans hp, hstrains⟩
      · rintro ⟨before, last, after, h, hsplit, hp, hstrains⟩
        cases before with
        | nil =>
          cases hsplit
          cases hp
          rw [hstops.mpr ⟨ho, hstrains⟩] at hsome
          cases hsome
        | cons first before =>
          cases hsplit
          rw [passes_cons hr] at hp
          exact ⟨before, last, after, h, rfl, hp, hstrains⟩

/-- After any passes the final values have come as many links down. -/
theorem Approaches.passes_ok (h : g.Approaches final) (orders : List Order) :
    ∃ h, g.passes orders = .ok h ∧ h.Approaches final ∧ final.ShowsAbove orders.length h := by
  induction orders using List.reverseRecOn with
  | nil => exact ⟨g, rfl, h, fun id hid => absurd hid not_shallow_zero⟩
  | append_singleton orders order ih =>
    obtain ⟨h₁, hp, h₁final, hs⟩ := ih
    obtain ⟨h₂, report, hr⟩ := recompute_ok h₁final.wellFormed order
    refine ⟨h₂, (passes_append hp).trans (passes_cons hr), h₁final.pass hr, ?_⟩
    rw [List.length_append]
    exact hs.pass h₁final hr

/-- A pass after which every node shows its final value leaves the final graph. -/
theorem Approaches.eq_of_shows (h : g.Approaches final) {g' : Graph} {order : Order}
    {report : Report} (hr : g.recompute order = .ok (g', report))
    (hshown : ∀ id ∈ final.ids, g'.output? id = final.output? id) : g' = final := by
  have hcore := (h.pass hr).core
  have hu := (h.pass hr).wellFormed.id_once
  have he : g'.Evaluated := by
    refine ⟨inputs_of_recompute hr, fun m hm => ?_⟩
    obtain ⟨n, hn, hc⟩ := core_node hcore hm
    obtain ⟨hid, _, hkind, _, hliteral, _⟩ := Node.core_eq_iff.mp hc
    have houtput : m.output = n.output := by
      have hvalue := hshown n.id (mem_ids.mpr ⟨n, hn, rfl⟩)
      rw [output?_of_mem h.final_wellFormed.id_once hn, hid, output?_of_mem hu hm] at hvalue
      exact Option.some.inj hvalue
    rw [houtput, h.final_evaluated.output n hn, valueIn, valueIn, hkind, hliteral, hid,
      core_inputsOf hcore]
    congr 1
    apply Slots.ext_at?
    intro i
    rw [Slots.at?_apply, Slots.at?_apply]
    cases hi : (final.inputsOf m.id).at? i with
    | none => rfl
    | some x => exact (hshown x (h.final_wellFormed.source_mem (link_of_input hi))).symm
  exact (h.final_evaluated.eq_of_core h.final_wellFormed he hcore.symm).symm

/-- The last of as many passes as there are nodes leaves the final graph. -/
theorem Approaches.passes_length (h : g.Approaches final) {orders : List Order}
    (hlength : orders.length = g.nodes.length) : g.passes orders = .ok final := by
  cases orders using List.reverseRecOn with
  | nil =>
    -- the stage outputs are always there
    obtain ⟨_, _, _, hsinks, _⟩ := h.wellFormed.sinks
    rw [hsinks] at hlength
    cases hlength
  | append_singleton before order =>
    obtain ⟨h₁, hp, h₁final, hs⟩ := h.passes_ok before
    obtain ⟨h₂, report, hr⟩ := recompute_ok h₁final.wellFormed order
    have hsame : h₂ = final := by
      refine h₁final.eq_of_shows hr fun id hid => hs.pass h₁final hr id ?_
      rw [List.length_append, List.length_singleton] at hlength
      rw [hlength, core_length h.core]
      exact h.final_wellFormed.shallow hid
    rw [passes_append hp, passes_cons hr, hsame]
    rfl

/-- Where all values are final, no pass of either order finds anything to do. -/
theorem Evaluated.recompute_eq (he : final.Evaluated) (hw : final.WellFormed) {report : Report}
    (hr : final.recompute .topological = .ok (final, report)) (order : Order) :
    final.recompute order = .ok (final, report) := by
  have h : final.Approaches final := ⟨hw, rfl, hw, he⟩
  obtain ⟨g', report', hr'⟩ := recompute_ok hw order
  have hs : final.ShowsAbove final.nodes.length final := fun _ _ => rfl
  have hsame : g' = final := h.eq_of_shows hr' fun id hid => hs.pass h hr' id (hw.shallow hid).succ
  subst hsame
  rw [hr', recompute_report hw hr', ← recompute_report hw hr]

theorem passes_eq {report : Report} (hstays : ∀ order, g.recompute order = .ok (g, report))
    (orders : List Order) : g.passes orders = .ok g := by
  induction orders with
  | nil => rfl
  | cons order orders ih => rw [passes_cons (hstays order), ih]

/-- Where producers are stored ahead of their consumers, the storage order is as good as any. -/
theorem recompute_storage (hw : g.WellFormed)
    (hahead : ∀ l ∈ g.links, g.ids.idxOf l.source < g.ids.idxOf l.target) :
    g.recompute .storage = g.recompute .topological := by
  have hstored : g.Sorted g.ids := ⟨hw.id_once, fun _ => Iff.rfl, hahead⟩
  obtain ⟨sorted, horder, _⟩ := topologicalOrder_ok hw
  obtain ⟨g₁, report₁, hr₁, he₁⟩ := recompute_topological hw
  obtain ⟨g₂, report₂, hr₂⟩ := recompute_ok hw .storage
  have he₂ : g₂.Evaluated := by
    unfold recompute at hr₂
    rw [horder] at hr₂
    cases hr₂
    exact hstored.evaluated hw
  have hsame : g₁ = g₂ := he₁.eq_of_core (hw.recompute hr₁) he₂
    ((core_recompute hr₁).trans (core_recompute hr₂).symm)
  subst hsame
  rw [hr₁, hr₂, recompute_report hw hr₁, recompute_report hw hr₂]

/-- Passes in storage order come to the graph that a topological pass leaves. After `k` of them
every node with fewer than `k` links on every chain into it has its final value. As many as there
are nodes give every node its own, and from then on no pass of either order changes anything. Where
producers are stored ahead of their consumers, one pass does it. Every build makes these passes;
only one that checks may stop, and does in the first pass that strains it by what it finds. -/
theorem storage_passes_converge (hg : g.Reachable) :
    ∃ final report, g.recompute .topological = .ok (final, report) ∧
      (∀ k, ∃ h, g.passes (List.replicate k .storage) = .ok h ∧
        ∀ id, Shallow g.links k id → h.output? id = final.output? id) ∧
      (∀ further, g.passes (List.replicate g.nodes.length .storage ++ further) = .ok final) ∧
      (∀ order, final.recompute order = .ok (final, report)) ∧
      ((∀ l ∈ g.links, g.ids.idxOf l.source < g.ids.idxOf l.target) →
        g.recompute .storage = .ok (final, report)) ∧
      ∀ o orders,
        ((g.passesIn o orders).run = none ∨ (g.passesIn o orders).run = some (g.passes orders)) ∧
        ((g.passesIn o orders).run = none ↔ o = .stops ∧
          ∃ before order after h, orders = before ++ order :: after ∧ g.passes before = .ok h ∧
            h.Strains order) := by
  have hw := hg.wellFormed
  obtain ⟨final, report, hr, he⟩ := recompute_topological hw
  have h : g.Approaches final := ⟨hw, (core_recompute hr).symm, hw.recompute hr, he⟩
  have hstays := he.recompute_eq h.final_wellFormed (recompute_again hw hr)
  refine ⟨final, report, hr, ?_, ?_, hstays, ?_, passesIn_spec hw⟩
  · intro k
    obtain ⟨h₁, hp, _, hs⟩ := h.passes_ok (List.replicate k .storage)
    rw [List.length_replicate] at hs
    exact ⟨h₁, hp, fun id hid => hs id (core_links h.core ▸ hid)⟩
  · intro further
    rw [passes_append (h.passes_length List.length_replicate)]
    exact passes_eq hstays further
  · intro hahead
    rw [recompute_storage hw hahead, hr]

/-- A chain of three in which each node is stored before its producer. -/
def backwardSteps : List Step :=
  [.command (.createNode .negate .standard) ⟨2⟩, .command (.createNode .negate .standard) ⟨3⟩,
    .command (.createNode .vertexColor .standard) ⟨4⟩, .command (.connect 4 3 none) ⟨5⟩,
    .command (.connect 3 2 none) ⟨5⟩]

/-- A color whose channel is set by a node behind it, which still holds a number far too low. -/
def staleSteps : List Step :=
  [.command (.createNode .vertexColor .standard) ⟨2⟩, .command (.createNode .negate .standard) ⟨3⟩,
    .command (.createNode .float (.literal [.nearest false 3000000000 1])) ⟨4⟩,
    .command (.connect 4 3 none) ⟨5⟩, .recompute .topological,
    .command (.setLiteral 4 [.zero]) ⟨5⟩, .command (.connect 3 2 none) ⟨5⟩]

/-- The end of the chain is two links down, and it takes three passes. The number that is too low
stops a build that checks only in storage order. -/
theorem backward_takes_three : ∃ final report two three,
    (backwardSteps.foldl perform (Graph.new ⟨0⟩ ⟨1⟩)).recompute .topological = .ok (final, report) ∧
    (backwardSteps.foldl perform (Graph.new ⟨0⟩ ⟨1⟩)).passes [.storage, .storage] = .ok two ∧
    (backwardSteps.foldl perform (Graph.new ⟨0⟩ ⟨1⟩)).passes [.storage, .storage, .storage] =
      .ok three ∧
    two.output? 3 = final.output? 3 ∧ two.output? 2 ≠ final.output? 2 ∧
    three.output? 2 = final.output? 2 ∧
    (backwardSteps.foldl perform (Graph.new ⟨0⟩ ⟨1⟩)).passes
      (List.replicate 5 .storage ++ [.topological, .storage]) = .ok final ∧
    ((staleSteps.foldl perform (Graph.new ⟨0⟩ ⟨1⟩)).passesIn .stops [.storage]).run = none ∧
    ((staleSteps.foldl perform (Graph.new ⟨0⟩ ⟨1⟩)).passesIn .stops [.topological]).run =
      some ((staleSteps.foldl perform (Graph.new ⟨0⟩ ⟨1⟩)).passes [.topological]) := by
  have hg := reachable_foldl (.new ⟨0⟩ ⟨1⟩) backwardSteps
  obtain ⟨final, report, hr, hpasses, hfinal, _⟩ := storage_passes_converge hg
  obtain ⟨two, htwo, hshows⟩ := hpasses 2
  obtain ⟨three, hthree, hshows'⟩ := hpasses 3
  have hlength : (backwardSteps.foldl perform (Graph.new ⟨0⟩ ⟨1⟩)).nodes.length = 5 := by
    decide +kernel
  have hstops : ((staleSteps.foldl perform (Graph.new ⟨0⟩ ⟨1⟩)).passesIn .stops
      [.storage]).run.isNone = true := by decide +kernel
  have hgoes : ((staleSteps.foldl perform (Graph.new ⟨0⟩ ⟨1⟩)).passesIn .stops
      [.topological]).run.isNone = false := by decide +kernel
  obtain ⟨_, _, _, _, _, _, _, hbuilds⟩ :=
    storage_passes_converge (reachable_foldl (.new ⟨0⟩ ⟨1⟩) staleSteps)
  have hsorted := (hbuilds .stops [.topological]).1.resolve_left fun h => by
    rw [h] at hgoes
    cases hgoes
  have hstale : ((backwardSteps.foldl perform (Graph.new ⟨0⟩ ⟨1⟩)).passes
      [.storage, .storage]).toOption.bind (·.output? 2) ≠
      ((backwardSteps.foldl perform (Graph.new ⟨0⟩ ⟨1⟩)).recompute .topological).toOption.bind
        (·.1.output? 2) := by
    decide +kernel
  rw [show (backwardSteps.foldl perform (Graph.new ⟨0⟩ ⟨1⟩)).passes [.storage, .storage] = .ok two
    from htwo, hr] at hstale
  exact ⟨final, report, two, three, hr, htwo, hthree, hshows 3 (by decide +kernel), hstale,
    hshows' 2 (by decide +kernel), hlength ▸ hfinal [.topological, .storage],
    Option.isNone_iff_eq_none.mp hstops, hsorted⟩

end Graph

end ShaderGraph

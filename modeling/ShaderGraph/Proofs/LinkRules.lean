import ShaderGraph.Proofs.Compatibility
import ShaderGraph.Proofs.Lifetimes
import ShaderGraph.Proofs.Locality

namespace ShaderGraph

theorem Slots.sum_filled (s : Slots Nat) :
    s.filled.sum = (s.at? 0).getD 0 + (s.at? 1).getD 0 + (s.at? 2).getD 0 + (s.at? 3).getD 0 := by
  have hfilled : s.filled = [0, 1, 2, 3].filterMap s.at? := filled_eq s
  rw [hfilled]
  simp only [List.filterMap_cons, List.filterMap_nil]
  cases s.at? 0 <;> cases s.at? 1 <;> cases s.at? 2 <;> cases s.at? 3 <;> simp <;> omega

namespace Kind

theorem pairs_comm (k : Kind) (a b : Nat) : k.pairs a b = k.pairs b a := by
  rw [Bool.eq_iff_iff]
  cases k <;> simp only [pairs, multipliable, Bool.or_eq_true, Bool.and_eq_true, decide_eq_true_eq]
    <;> omega

/-- What is accepted still is with fewer operands. -/
theorem Accepts.mono {k : Kind} {sizes fewer : Slots Nat} (h : k.Accepts sizes)
    (hf : ∀ i a, fewer.at? i = some a → sizes.at? i = some a) : k.Accepts fewer where
  pairs a ha b hb := by
    obtain ⟨i, hi⟩ := Slots.mem_filled.mp ha
    obtain ⟨j, hj⟩ := Slots.mem_filled.mp hb
    exact h.pairs a (Slots.mem_filled.mpr ⟨i, hf i a hi⟩) b (Slots.mem_filled.mpr ⟨j, hf j b hj⟩)
  total hk := by
    have hle : ∀ i, (fewer.at? i).getD 0 ≤ (sizes.at? i).getD 0 := by
      intro i
      cases hi : fewer.at? i with
      | none => exact Nat.zero_le _
      | some a => rw [hf i a hi]
    have htotal := h.total hk
    rw [Slots.sum_filled] at htotal ⊢
    have := hle 0
    have := hle 1
    have := hle 2
    have := hle 3
    omega
  second hk a ha := h.second hk a (hf 1 a ha)

end Kind

namespace Prospect

/-- What a rule can rely on: the other operands have values that go together and stand within the
slots of the kind, the slot in question is free, and a product absorbs its factors. -/
structure Sound (p : Prospect) : Prop where
  accepts : p.kind.Accepts p.others
  values : ∀ a ∈ p.others.filled, 0 < a
  within : ∀ i a, p.others.at? i = some a → i < p.kind.inputLimit
  slot_lt : p.slot < p.kind.inputLimit
  free : p.others.at? p.slot = none
  product : p.kind = .multiply → ∀ a ∈ p.others.filled, 0 < p.size ∧ Value.absorbs p.size a = true

variable {p : Prospect} {n : Nat}

theorem admits_of_refusal? (h : p.refusal? n = none) : ∀ e ∈ p.expectations, e.admits n = true := by
  simpa [refusal?] using h

/-- Beside other operands, the established size is that of one of them. -/
theorem Sound.established_eq (h : p.Sound) {a : Nat} (ha : a ∈ p.others.filled) :
    ∃ b ∈ p.others.filled, p.established = some b := by
  cases hf : p.others.filled with
  | nil =>
    rw [hf] at ha
    cases ha
  | cons b rest =>
    have hb : 0 < b := h.values b (hf ▸ List.mem_cons_self)
    exact ⟨b, List.mem_cons_self, by simp [established, hf, hb]⟩

/-- A pair of slots has one other. -/
theorem Sound.sibling_eq (h : p.Sound) (hlimit : p.kind.inputLimit = 2) {a : Nat}
    (ha : a ∈ p.others.filled) : p.sibling = [.exactly a] := by
  obtain ⟨i, hi⟩ := Slots.mem_filled.mp ha
  have hlt := h.within i a hi
  have hslot := h.slot_lt
  have hne : i ≠ p.slot := by
    rintro rfl
    rw [h.free] at hi
    cases hi
  have hother : (if p.slot = 0 then 1 else 0) = i := by
    split <;> omega
  rw [sibling, hother, hi]
  exact if_pos (h.values a ha)

/-- Where sizes above one agree, one of them stands for all. -/
theorem Sound.blend (h : p.Sound) (hk : p.kind = .lerp ∨ p.kind = .smoothstep)
    (hadmits : ∀ e ∈ p.expectations, e.admits n = true) {a : Nat} (ha : a ∈ p.others.filled) :
    n = 1 ∨ a = 1 ∨ n = a := by
  have hpos := h.values a ha
  cases hf : p.others.filled.find? (1 < ·) with
  | none =>
    have hle := List.find?_eq_none.mp hf a ha
    simp only [decide_eq_true_eq] at hle
    omega
  | some b =>
    have hb : 1 < b := by simpa using List.find?_some hf
    have hpair := h.accepts.pairs b (List.mem_of_find?_eq_some hf) a ha
    have hscalar := hadmits (.scalarOr b)
      (by rcases hk with hk | hk <;> simp [expectations, hk, hf])
    simp only [Expectation.admits, Bool.or_eq_true, decide_eq_true_eq] at hscalar
    have hsame : b = 1 ∨ a = 1 ∨ b = a := by
      rcases hk with hk | hk <;> simpa [hk, Kind.pairs, or_assoc] using hpair
    omega

/-- An operand that is admitted goes with every other. -/
theorem Sound.pairs (h : p.Sound) (hn : p.refusal? n = none) {a : Nat} (ha : a ∈ p.others.filled) :
    p.kind.pairs n a = true := by
  have hadmits := admits_of_refusal? hn
  obtain ⟨b, hb, hestablished⟩ := h.established_eq ha
  have hpair := h.accepts.pairs b hb a ha
  have hsibling := fun hlimit => h.sibling_eq hlimit ha
  have hproduct := fun hk => h.product hk a ha
  have hblend := fun hk => h.blend hk hadmits ha
  obtain ⟨k, slot, size, others⟩ := p
  cases k
  case add | subtract | divide | max | min =>
    simp only [Kind.pairs, decide_eq_true_eq] at hpair ⊢
    simp only [expectations, hestablished, List.mem_singleton, forall_eq, Expectation.admits,
      decide_eq_true_eq] at hadmits
    exact hadmits.trans hpair
  case multiply =>
    obtain ⟨hsize, habsorbs⟩ := hproduct rfl
    simp only [expectations, hsize, ↓reduceIte, List.mem_singleton, forall_eq,
      Expectation.admits] at hadmits
    rw [Kind.pairs_comm]
    exact Value.multipliable_of_absorbs habsorbs hadmits
  case dot | distance | project | reject | halfDirection =>
    simp only [expectations, hsibling rfl, List.mem_cons, List.not_mem_nil, or_false,
      forall_eq_or_imp, forall_eq, Expectation.admits, decide_eq_true_eq] at hadmits
    simpa [Kind.pairs] using hadmits.2
  case cross =>
    simp only [expectations, hsibling rfl, List.mem_cons, List.not_mem_nil, or_false,
      forall_eq_or_imp, forall_eq, Expectation.admits, decide_eq_true_eq] at hadmits
    simp [Kind.pairs, hadmits.1, ← hadmits.2]
  case lerp | smoothstep => simpa [Kind.pairs, or_assoc] using hblend (by simp)
  case transpose | matrixMultiply =>
    simp only [expectations, List.mem_singleton, forall_eq, Expectation.admits,
      decide_eq_true_eq] at hadmits
    simp only [Kind.pairs, Bool.and_eq_true, decide_eq_true_eq] at hpair ⊢
    exact ⟨hadmits, hpair.2⟩
  all_goals rfl

theorem pairs_self (hn : p.refusal? n = none) : p.kind.pairs n n = true := by
  have hadmits := admits_of_refusal? hn
  obtain ⟨k, slot, size, others⟩ := p
  cases k
  case cross | transpose | matrixMultiply =>
    have hexact := hadmits _ List.mem_cons_self
    simp only [Expectation.admits, decide_eq_true_eq] at hexact
    simp [Kind.pairs, hexact]
  all_goals simp [Kind.pairs, multipliable]

/-- An appended operand leaves room for itself. -/
theorem Sound.total_filled (h : p.Sound) (hn : p.refusal? n = none) (hk : p.kind = .append)
    {sizes : Slots Nat}
    (hs : ∀ i, sizes.at? i = if i = p.slot then some n else p.others.at? i) :
    sizes.filled.sum ≤ 4 := by
  have htotal := h.accepts.total hk
  have hroom := admits_of_refusal? hn (.atMost (4 - p.others.filled.sum))
    (by simp [expectations, hk, List.sum_eq_foldr])
  simp only [Expectation.admits, decide_eq_true_eq] at hroom
  have hslot : p.slot < 4 := Nat.lt_of_lt_of_le h.slot_lt p.kind.inputLimit_le
  have hfree := h.free
  rw [Slots.sum_filled] at htotal hroom ⊢
  simp only [hs]
  generalize p.slot = slot at *
  obtain rfl | rfl | rfl | rfl : slot = 0 ∨ slot = 1 ∨ slot = 2 ∨ slot = 3 := by omega
  all_goals simp [hfree] at htotal hroom ⊢; omega

/-- With the operand in its slot, all of them are accepted. -/
theorem Sound.accepts_filled (h : p.Sound) (hn : p.refusal? n = none) {sizes : Slots Nat}
    (hs : ∀ i, sizes.at? i = if i = p.slot then some n else p.others.at? i) :
    p.kind.Accepts sizes := by
  have hmem : ∀ a ∈ sizes.filled, a = n ∨ a ∈ p.others.filled := by
    intro a ha
    obtain ⟨i, hi⟩ := Slots.mem_filled.mp ha
    rw [hs] at hi
    split at hi
    · cases hi
      exact .inl rfl
    · exact .inr (Slots.mem_filled.mpr ⟨i, hi⟩)
  refine ⟨fun a ha b hb => ?_, fun hk => ?_, fun hk a ha => ?_⟩
  · rcases hmem a ha with rfl | ha <;> rcases hmem b hb with rfl | hb
    · exact pairs_self hn
    · exact h.pairs hn hb
    · rw [Kind.pairs_comm]
      exact h.pairs hn ha
    · exact h.accepts.pairs a ha b hb
  · exact h.total_filled hn hk hs
  · rw [hs] at ha
    split at ha
    · rename_i hslot
      cases ha
      have hexact := admits_of_refusal? hn (.exactly 1)
        (by rcases hk with hk | hk | hk <;> simp [expectations, hk, ← hslot])
      simpa [Expectation.admits] using hexact
    · exact h.accepts.second hk a ha

end Prospect

theorem Kind.accepts_vacant (k : Kind) {sizes : Slots Nat} (h : ∀ i, sizes.at? i = none) :
    k.Accepts sizes where
  pairs a ha := by
    obtain ⟨i, hi⟩ := Slots.mem_filled.mp ha
    rw [h i] at hi
    cases hi
  total _ := by simp [Slots.sum_filled, h]
  second _ a ha := by
    rw [h 1] at ha
    cases ha

namespace Graph

variable {g g' : Graph} {n m : Node} {i : Nat} {v : Value}

def operandsAt (g : Graph) (id : NodeId) : Slots Value := (g.inputsOf id).apply g.output?

/-- The operands of a node have values, and these go together. -/
structure Fed (g : Graph) (n : Node) : Prop where
  values : ∀ v ∈ (g.operandsAt n.id).filled, 0 < v.size
  accepts : n.kind.Accepts (g.operandsAt n.id).sizes

theorem at?_operandsAt (hw : g.WellFormed) {id : NodeId} :
    (g.operandsAt id).at? i = some v ↔ ∃ x, ⟨x, id, i⟩ ∈ g.links ∧ g.output? x = some v := by
  rw [operandsAt, Slots.at?_apply, Option.bind_eq_some_iff]
  simp only [input_iff hw]

theorem isSome_operandsAt (hw : g.WellFormed) (id : NodeId) (i : Nat) :
    ((g.operandsAt id).at? i).isSome = ((g.inputsOf id).at? i).isSome := by
  rw [operandsAt, Slots.at?_apply]
  cases hi : (g.inputsOf id).at? i with
  | none => rfl
  | some x =>
    obtain ⟨p, hp, rfl⟩ := hw.producer hi
    rw [Option.bind_some, output?_of_mem hw.id_once hp]
    rfl

theorem fed_of_free (hw : g.WellFormed) (hfree : ∀ l ∈ g.links, l.target ≠ n.id) : g.Fed n := by
  have hnone : ∀ i, (g.operandsAt n.id).at? i = none := by
    intro i
    cases hi : (g.operandsAt n.id).at? i with
    | none => rfl
    | some v =>
      obtain ⟨x, hl, _⟩ := (at?_operandsAt hw).mp hi
      exact absurd rfl (hfree _ hl)
  refine ⟨fun v hv => ?_, n.kind.accepts_vacant fun i => ?_⟩
  · obtain ⟨i, hi⟩ := Slots.mem_filled.mp hv
    rw [hnone i] at hi
    cases hi
  · rw [Slots.at?_sizes, hnone, Option.map_none]

theorem at?_sizes_operandsAt (g : Graph) (id : NodeId) (i : Nat) :
    (g.operandsAt id).sizes.at? i =
      ((g.inputsOf id).at? i).bind fun x => (g.output? x).map Value.size := by
  rw [Slots.at?_sizes, operandsAt, Slots.at?_apply, Option.map_bind]
  rfl

theorem Fed.value_pos (h : g.Fed n) (hw : g.WellFormed) {x : NodeId}
    (hfeeds : Feeds g.links x n.id) (hv : g.output? x = some v) : 0 < v.size := by
  obtain ⟨⟨_, _, slot⟩, hl, rfl, rfl⟩ := hfeeds
  exact h.values v (Slots.mem_filled.mpr ⟨slot, (at?_operandsAt hw).mpr ⟨_, hl, hv⟩⟩)

/-- Being fed is kept when operands go and the others keep their sizes. -/
theorem Fed.fewer (h : g.Fed n) (hkind : m.kind = n.kind)
    (hsame : ∀ i v, (g'.operandsAt m.id).at? i = some v →
      ∃ u, (g.operandsAt n.id).at? i = some u ∧ u.size = v.size) : g'.Fed m := by
  refine ⟨fun v hv => ?_, ?_⟩
  · obtain ⟨i, hi⟩ := Slots.mem_filled.mp hv
    obtain ⟨u, hu, hsize⟩ := hsame i v hi
    exact hsize ▸ h.values u (Slots.mem_filled.mpr ⟨i, hu⟩)
  · rw [hkind]
    refine h.accepts.mono fun i a ha => ?_
    rw [Slots.at?_sizes, Option.map_eq_some_iff] at ha ⊢
    obtain ⟨v, hv, rfl⟩ := ha
    exact hsame i v hv

/-- The new link takes its slot, and the source no other. -/
theorem inputsOf_linked (hw : g.WellFormed) (hw' : g'.WellFormed) {source id : NodeId} {slot : Nat}
    (hlinks : ∀ l, l ∈ g'.links ↔ l ∈ g.links ∧ l.ends ≠ (source, id) ∨ l = ⟨source, id, slot⟩)
    (hfree : ((g.inputsOf id).without source).at? slot = none) (i : Nat) :
    (g'.inputsOf id).at? i =
      if i = slot then some source else ((g.inputsOf id).without source).at? i := by
  have hwithout : ∀ i x, ((g.inputsOf id).without source).at? i = some x ↔
      ⟨x, id, i⟩ ∈ g.links ∧ x ≠ source := by
    intro i x
    rw [Slots.at?_without, ← input_iff hw]
    cases (g.inputsOf id).at? i with
    | none => simp
    | some y =>
      rw [Option.bind_some]
      split
      · rename_i hy
        refine ⟨fun h => (nomatch h), fun ⟨h, hx⟩ => ?_⟩
        cases h
        exact absurd hy hx
      · rename_i hy
        refine ⟨fun h => ⟨h, ?_⟩, And.left⟩
        cases h
        exact hy
  apply Option.ext
  intro x
  rw [input_iff hw', hlinks]
  split
  · rename_i hi
    subst hi
    constructor
    · rintro (⟨hl, hends⟩ | hl)
      · have hx : x ≠ source := fun he => hends (by rw [he]; rfl)
        rw [(hwithout i x).mpr ⟨hl, hx⟩] at hfree
        cases hfree
      · cases hl
        rfl
    · intro hx
      cases hx
      exact .inr rfl
  · rename_i hi
    rw [hwithout]
    constructor
    · rintro (⟨hl, hends⟩ | hl)
      · exact ⟨hl, fun he => hends (by rw [he]; rfl)⟩
      · cases hl
        exact absurd rfl hi
    · rintro ⟨hl, hx⟩
      exact .inl ⟨hl, by simp [Link.ends, hx]⟩

section Evaluated

variable (hw : g.WellFormed) (he : g.Evaluated) (hn : n ∈ g.nodes) (h : g.Fed n)

include hw he hn h

/-- A node that is fed has a value exactly when the slots that it needs are connected. -/
theorem Fed.isValid_iff :
    n.isValid = true ↔ n.kind.requirement.Connected (g.inputsOf n.id) := by
  have hliteral : n.kind.isLiteral = true → 0 < n.literal.size := by
    intro hk
    rw [Value.size, (hw.formed n hn).literal_shape hk]
    exact Kind.naturalShape_pos (.inr (by simpa [Kind.isLiteral] using hk))
  have hvalue : n.isValid = true ↔ 0 < n.output.size := by
    rw [← Value.isEmpty_eq_false_iff, Node.isValid, Bool.not_eq_true']
  rw [hvalue, he.output n hn]
  refine (evaluate_pos_iff h.values h.accepts hliteral).trans ?_
  unfold Requirement.Connected
  simp only [isSome_operandsAt hw]

omit he h in
/-- The sizes beside an operand are sizes of operands. -/
theorem operand_beside {source : NodeId} {a : Nat} (ha : (((g.inputsOf n.id).without source).apply
      fun id => (g.output? id).map Value.size).at? i = some a) :
    i < n.kind.inputLimit ∧ ∃ u, (g.operandsAt n.id).at? i = some u ∧ u.size = a := by
  rw [Slots.at?_apply, Slots.at?_without] at ha
  obtain ⟨x, hx, hv⟩ := Option.bind_eq_some_iff.mp ha
  obtain ⟨y, hy, hyx⟩ := Option.bind_eq_some_iff.mp hx
  split at hyx
  · cases hyx
  cases hyx
  obtain ⟨u, hu, rfl⟩ := Option.map_eq_some_iff.mp hv
  have hl := (input_iff hw).mp hy
  refine ⟨?_, u, (at?_operandsAt hw).mpr ⟨x, hl, hu⟩, rfl⟩
  obtain ⟨k, hk, hid, hlt⟩ := hw.wired.target _ hl
  have hsame : k = n := List.inj_on_of_nodup_map hw.id_once hk hn hid
  subst hsame
  exact Nat.lt_of_lt_of_le hlt (hw.formed k hk).limit_le_inputLimit

/-- What the rule of a slot sees when a node is fed. -/
theorem Fed.sound {source : NodeId} {slot : Nat} (hslot : slot < n.limit)
    (hfree : ((g.inputsOf n.id).without source).at? slot = none) :
    (Prospect.mk n.kind slot n.output.size (((g.inputsOf n.id).without source).apply
      fun id => (g.output? id).map Value.size)).Sound where
  accepts := h.accepts.mono fun i a ha => by
    rw [Slots.at?_sizes, Option.map_eq_some_iff]
    exact (operand_beside hw hn ha).2
  values a ha := by
    obtain ⟨i, hi⟩ := Slots.mem_filled.mp ha
    obtain ⟨_, u, hu, rfl⟩ := operand_beside hw hn hi
    exact h.values u (Slots.mem_filled.mpr ⟨i, hu⟩)
  within i a ha := (operand_beside hw hn ha).1
  slot_lt := Nat.lt_of_lt_of_le hslot (hw.formed n hn).limit_le_inputLimit
  free := by
    rw [Slots.at?_apply, hfree]
    rfl
  product hk a ha := by
    obtain ⟨i, hi⟩ := Slots.mem_filled.mp ha
    obtain ⟨_, u, hu, rfl⟩ := operand_beside hw hn hi
    have hk : n.kind = .multiply := hk
    have hinput : ((g.inputsOf n.id).at? i).isSome = true := by
      rw [← isSome_operandsAt hw, hu]
      rfl
    have hvalid : n.isValid = true := (h.isValid_iff hw he hn).mpr (by rw [hk]; exact ⟨i, hinput⟩)
    refine ⟨Value.isEmpty_eq_false_iff.mp (by simpa [Node.isValid] using hvalid), ?_⟩
    change Value.absorbs n.output.size u.size = true
    rw [he.output n hn]
    exact evaluate_absorbs h.values h.accepts hk u (Slots.mem_filled.mpr ⟨i, hu⟩)

/-- A node stays fed when a link into it passes the check, from a source with a value, and all its
operands keep their sizes. -/
theorem Fed.linked (hw' : g'.WellFormed) {source : NodeId} {request : Option Nat} {slot : Nat}
    (hcheck : g.checkLink source n.id request = .ok slot)
    (hlinks : ∀ l, l ∈ g'.links ↔ l ∈ g.links ∧ l.ends ≠ (source, n.id) ∨ l = ⟨source, n.id, slot⟩)
    (hid : m.id = n.id) (hkind : m.kind = n.kind)
    (hvalue : ∀ u, g.output? source = some u → 0 < u.size)
    (hsizes : ∀ l ∈ g'.links, l.target = n.id →
      (g'.output? l.source).map Value.size = (g.output? l.source).map Value.size) : g'.Fed m := by
  obtain ⟨a, b, hsource, htarget, _, _, hresolve, _, hrefusal⟩ := checkLink_ok_iff.mp hcheck
  rw [node?_of_mem hw.id_once hn] at htarget
  cases htarget
  obtain ⟨_, hslot, hfree, _⟩ := resolveSlot_ok hresolve
  have houtput : g.output? source = some a.output := by
    rw [output?, hsource]
    rfl
  have hinputs := inputsOf_linked hw hw' hlinks hfree
  have hat : ∀ i, (g'.operandsAt m.id).sizes.at? i = if i = slot then some a.output.size else
      (((g.inputsOf n.id).without source).apply fun id => (g.output? id).map Value.size).at? i := by
    intro i
    have hkept : ∀ x, (g'.inputsOf n.id).at? i = some x →
        (g'.output? x).map Value.size = (g.output? x).map Value.size :=
      fun x hx => hsizes _ ((input_iff hw').mp hx) rfl
    rw [at?_sizes_operandsAt, hid]
    cases hx : (g'.inputsOf n.id).at? i with
    | none =>
      rw [hinputs] at hx
      split at hx
      · cases hx
      · rename_i hi
        rw [if_neg hi, Slots.at?_apply, hx]
        rfl
    | some x =>
      rw [Option.bind_some, hkept x hx]
      rw [hinputs] at hx
      split at hx
      · rename_i hi
        cases hx
        rw [if_pos hi, houtput]
        rfl
      · rename_i hi
        rw [if_neg hi, Slots.at?_apply, hx]
        rfl
  have haccepts := (h.sound hw he hn hslot hfree).accepts_filled hrefusal hat
  refine ⟨fun v hv => ?_, hkind ▸ haccepts⟩
  obtain ⟨i, hi⟩ := Slots.mem_filled.mp hv
  have hsize := hat i
  rw [Slots.at?_sizes, hi, Option.map_some] at hsize
  split at hsize
  · rw [Option.some.inj hsize]
    exact hvalue _ houtput
  · obtain ⟨_, u, hu, he⟩ := operand_beside hw hn hsize.symm
    exact he ▸ h.values u (Slots.mem_filled.mpr ⟨i, hu⟩)

end Evaluated

end Graph

end ShaderGraph

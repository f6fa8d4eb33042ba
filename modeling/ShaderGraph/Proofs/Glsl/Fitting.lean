import ShaderGraph.Proofs.Replay
import ShaderGraph.Proofs.Glsl.Emission
import ShaderGraph.Proofs.Glsl.NodeTypes

namespace ShaderGraph

/-- Whether the code of a kind has nothing but `+ - * /` and a transposition in it, which are there
for matrices. -/
def Kind.takesMatrix : Kind → Bool
  | add | subtract | multiply | divide | negate | reciprocal | oneMinus | transpose
  | matrixMultiply => true
  | _ => false

/-- Which kinds are particular about shapes, beyond that most take no matrix. -/
theorem Kind.takes_cases (k : Kind) :
    (∀ shapes, k.takes shapes = true) ∨ (k = .max ∨ k = .min) ∨
      k ∈ [.power, .desaturate, .textureSample] ∨
      k.takesMatrix = false ∧ ∀ shapes, k.takes shapes = decide (.mat4 ∉ shapes.filled) := by
  cases k
  case max => exact .inr (.inl (.inl rfl))
  case min => exact .inr (.inl (.inr rfl))
  case power => exact .inr (.inr (.inl (by simp)))
  case desaturate => exact .inr (.inr (.inl (by simp)))
  case textureSample => exact .inr (.inr (.inl (by simp)))
  all_goals first | exact .inl fun _ => rfl | exact .inr (.inr (.inr ⟨rfl, fun _ => rfl⟩))

namespace Graph

def inputShapes (g : Graph) (id : NodeId) : Slots Shape :=
  (g.inputsOf id).apply fun i => (g.output? i).map Value.shape

/-- The shape rule has nothing against a link as the values are now, and if it brings a matrix there
is code for it. -/
structure Fits (g : Graph) (l : Link) : Prop where
  rule : g.misfit? l = none
  matrix : (g.output? l.source).map Value.shape = some .mat4 →
    ∀ n ∈ g.nodes, n.id = l.target → n.kind.takesMatrix = true

variable {g : Graph} {n : Node}

theorem at?_inputShapes (g : Graph) (id : NodeId) (i : Nat) :
    (g.inputShapes id).at? i =
      ((g.inputsOf id).at? i).bind fun x => (g.output? x).map Value.shape :=
  Slots.at?_apply ..

/-- What a rule expects of an operand that fits. -/
theorem Fits.admits {l : Link} (h : g.Fits l) (hw : g.WellFormed) (hl : l ∈ g.links)
    (hn : n ∈ g.nodes) (hid : n.id = l.target) {v : Value} (hv : g.output? l.source = some v) :
    ∀ e ∈ (Prospect.mk n.kind l.slot n.output.size (((g.inputsOf l.target).without l.source).apply
      fun id => (g.output? id).map Value.size)).expectations, e.admits v.size = true := by
  obtain ⟨a, ha, haid⟩ := mem_ids.mp (hw.source_mem hl)
  have hrule := h.rule
  have htarget : g.node? l.target = some n := hid ▸ node?_of_mem hw.id_once hn
  rw [← haid, output?_of_mem hw.id_once ha, Option.some_inj] at hv
  subst hv
  simp only [misfit?, ← haid, node?_of_mem hw.id_once ha, htarget, shapeError?,
    Option.map_eq_none_iff, Prospect.refusal?, List.find?_eq_none] at hrule
  intro e he
  have hadmits := hrule e (haid ▸ he)
  simpa using hadmits

end Graph

namespace Glsl

variable {g : Graph} {n : Node}

theorem operandShapes_operandsOf (g : Graph) (id : NodeId) :
    operandShapes (operandsOf g g.links id) = g.inputShapes id := by
  apply Slots.ext_at?
  intro i
  rw [operandShapes, operandsOf, Graph.inputShapes, Slots.at?_apply, Slots.at?_apply,
    Slots.at?_apply]
  change (((g.inputsOf id).at? i).bind _).bind _ = _
  cases (g.inputsOf id).at? i with
  | none => rfl
  | some x =>
    simp only [Option.bind_some]
    cases g.output? x <;> rfl

/-- The sizes that a rule sees beside an operand. -/
theorem filled_others (g : Graph) (id x : NodeId) :
    (((g.inputsOf id).without x).apply fun i => (g.output? i).map Value.size).filled =
      (operandsOf g g.links id).filled.filterMap fun o =>
        if o.id = x then none else some o.size := by
  have hinputs : inputsFrom g.links id = g.inputsOf id := rfl
  rw [operandsOf, hinputs, Slots.filled_apply, Slots.filled_apply, Slots.without,
    Slots.filled_apply, List.filterMap_filterMap, List.filterMap_filterMap]
  congr 1
  funext i
  by_cases hi : i = x
  · cases hv : g.output? i <;> simp [hi]
  · cases hv : g.output? i <;> simp [hi, hv, Operand.size]

/-- What the rules expect of the operands of a node whose links fit. -/
theorem admits_of_fits (hw : g.WellFormed) (hn : n ∈ g.nodes)
    (hfits : ∀ l ∈ g.links, l.target = n.id → g.Fits l) {i : Nat} {o : Operand}
    (ho : (operandsOf g g.links n.id).at? i = some o) :
    ∀ e ∈ (Prospect.mk n.kind i n.output.size (((g.inputsOf n.id).without o.id).apply
      fun id => (g.output? id).map Value.size)).expectations, e.admits o.size = true := by
  obtain ⟨hinput, hvalue⟩ := input_of_operand ho
  have hlink := (Graph.input_iff hw).mp hinput
  exact (hfits _ hlink rfl).admits hw hlink hn rfl hvalue

theorem shape_of_exactly {o : Operand} {s : Shape}
    (h : (Expectation.exactly s.size).admits o.size = true) : o.value.shape = s :=
  Shape.size_injective (of_decide_eq_true h)

theorem mat4_notMem_of_fits (hw : g.WellFormed) (hn : n ∈ g.nodes)
    (hfits : ∀ l ∈ g.links, l.target = n.id → g.Fits l) (hk : n.kind.takesMatrix = false) :
    .mat4 ∉ (g.inputShapes n.id).filled := by
  intro hmem
  obtain ⟨i, hi⟩ := Slots.mem_filled.mp hmem
  rw [Graph.at?_inputShapes, Option.bind_eq_some_iff] at hi
  obtain ⟨x, hx, hshape⟩ := hi
  have htakes := (hfits _ ((Graph.input_iff hw).mp hx) rfl).matrix hshape n hn rfl
  rw [hk] at htakes
  cases htakes

theorem exactly_of_established {p : Prospect} (hk : p.kind = .max ∨ p.kind = .min) {m : Nat}
    (hm : p.established = some m) : .exactly m ∈ p.expectations := by
  rcases hk with hk | hk <;> simp [Prospect.expectations, hk, hm]

/-- The operands of a maximum or minimum are all of the shape of the first. -/
theorem extremum_takes (hw : g.WellFormed) (hn : n ∈ g.nodes) (hk : n.kind = .max ∨ n.kind = .min)
    (hfits : ∀ l ∈ g.links, l.target = n.id → g.Fits l)
    (hempty : ∀ o ∈ (operandsOf g g.links n.id).filled, o.value.isEmpty = false) :
    n.kind.takes (g.inputShapes n.id) = true := by
  have hmat := mat4_notMem_of_fits hw hn hfits (by rcases hk with hk | hk <;> rw [hk] <;> rfl)
  rw [← operandShapes_operandsOf, filled_operandShapes] at hmat
  rw [← operandShapes_operandsOf]
  cases hos : (operandsOf g g.links n.id).filled with
  | nil => rcases hk with hk | hk <;> simp [hk, Kind.takes, filled_operandShapes, hos]
  | cons o os =>
    rw [hos] at hmat
    refine (takes_iff_first (by rcases hk with hk | hk <;> simp [hk]) hos).mpr (.inr ⟨?_, ?_⟩)
    · intro hs
      exact hmat (by simp [hs])
    intro p hp
    obtain ⟨i, hi⟩ := Slots.mem_filled.mp (hos ▸ List.mem_cons_of_mem o hp)
    by_cases hid : o.id = p.id
    · -- one producer in two slots
      obtain ⟨j, hj⟩ := Slots.mem_filled.mp (hos ▸ List.mem_cons_self)
      have hvalue := (input_of_operand hj).2
      rw [hid, (input_of_operand hi).2, Option.some_inj] at hvalue
      exact .inl (congrArg Value.shape hvalue)
    · have hpos : 1 ≤ o.size := Value.size_pos (hempty o (hos ▸ List.mem_cons_self))
      have hfirst : (Prospect.mk n.kind i n.output.size (((g.inputsOf n.id).without p.id).apply
          fun id => (g.output? id).map Value.size)).established = some o.size := by
        rw [Prospect.established, filled_others, hos]
        simp [hid, Nat.lt_of_succ_le hpos]
      have hadmits := admits_of_fits hw hn hfits hi (.exactly o.size)
        (exactly_of_established hk hfirst)
      exact .inl (shape_of_exactly hadmits)

theorem operand_of_isMet {m : Nat} {operands : Slots Operand}
    (hmet : (Requirement.leading m).isMet (operandValues operands) = true) {i : Nat} (hi : i < m) :
    ∃ o, operands.at? i = some o := by
  obtain ⟨x, hx, -⟩ := isMet_leading hmet hi
  obtain ⟨o, ho, -⟩ := operand_of_value (P := fun _ => True) (fun _ _ => trivial) hx
  exact ⟨o, ho⟩

/-- An exponent is a number. -/
theorem power_takes (hw : g.WellFormed) (hn : n ∈ g.nodes) (hk : n.kind = .power)
    (hfits : ∀ l ∈ g.links, l.target = n.id → g.Fits l)
    (hmet : (Requirement.leading 2).isMet (operandValues (operandsOf g g.links n.id)) = true) :
    n.kind.takes (g.inputShapes n.id) = true := by
  obtain ⟨a, ha⟩ := operand_of_isMet hmet Nat.zero_lt_two
  obtain ⟨b, hb⟩ := operand_of_isMet hmet Nat.one_lt_two
  have hfilled := filled_two ha hb fun i hi => operand_past_limit hw hn (by rw [hk]; exact hi)
  have hmat := mat4_notMem_of_fits hw hn hfits (by rw [hk]; rfl)
  rw [← operandShapes_operandsOf, filled_operandShapes, hfilled] at hmat
  have hone := admits_of_fits hw hn hfits hb (.exactly 1) (by simp [Prospect.expectations, hk])
  have hscalar : b.value.shape = .scalar := shape_of_exactly hone
  rw [← operandShapes_operandsOf]
  refine (takes_iff_first (by simp [hk]) hfilled).mpr (.inr ⟨fun hs => hmat (by simp [hs]), ?_⟩)
  simp [hscalar]

/-- A color has three or four channels, and an amount is a number. -/
theorem desaturate_takes (hw : g.WellFormed) (hn : n ∈ g.nodes) (hk : n.kind = .desaturate)
    (hfits : ∀ l ∈ g.links, l.target = n.id → g.Fits l)
    (hmet : (Requirement.leading 2).isMet (operandValues (operandsOf g g.links n.id)) = true) :
    n.kind.takes (g.inputShapes n.id) = true := by
  obtain ⟨a, ha⟩ := operand_of_isMet hmet Nat.zero_lt_two
  obtain ⟨b, hb⟩ := operand_of_isMet hmet Nat.one_lt_two
  have hcolor := admits_of_fits hw hn hfits ha (.between 3 4)
    (by simp [Prospect.expectations, hk])
  have hone := admits_of_fits hw hn hfits hb (.exactly 1) (by simp [Prospect.expectations, hk])
  have hchannels : a.value.shape = .vec3 ∨ a.value.shape = .vec4 := by
    have hsize : (Expectation.between 3 4).admits a.value.shape.size = true := hcolor
    revert hsize
    cases a.value.shape <;> decide
  have hscalar : b.value.shape = .scalar := shape_of_exactly hone
  rw [← operandShapes_operandsOf]
  simpa [hk, Kind.takes, at?_operandShapes, ha, hb, hscalar] using hchannels

/-- Coordinates are two numbers. -/
theorem textureSample_takes (hw : g.WellFormed) (hn : n ∈ g.nodes) (hk : n.kind = .textureSample)
    (hfits : ∀ l ∈ g.links, l.target = n.id → g.Fits l) :
    n.kind.takes (g.inputShapes n.id) = true := by
  rw [← operandShapes_operandsOf]
  cases ho : (operandsOf g g.links n.id).at? 2 with
  | none => simp [hk, Kind.takes, at?_operandShapes, ho]
  | some o =>
    have htwo := admits_of_fits hw hn hfits ho (.exactly 2) (by simp [Prospect.expectations, hk])
    have hshape : o.value.shape = .vec2 := shape_of_exactly htwo
    simp [hk, Kind.takes, at?_operandShapes, ho, hshape]

/-- A node with a value whose links fit takes its operands. -/
theorem takes_of_fits (hw : g.WellFormed) (hn : n ∈ g.nodes)
    (hmet : n.kind.requirement.isMet (operandValues (operandsOf g g.links n.id)) = true)
    (hfits : ∀ l ∈ g.links, l.target = n.id → g.Fits l) :
    n.kind.takes (g.inputShapes n.id) = true := by
  rcases n.kind.takes_cases with hall | hk | hk | ⟨hk, htakes⟩
  · exact hall _
  · have hneeds : n.kind.requirement = .anySlot := by rcases hk with hk | hk <;> rw [hk] <;> rfl
    rw [hneeds] at hmet
    refine extremum_takes hw hn hk hfits fun o ho => ?_
    simp only [Requirement.isMet, filled_operandValues, Bool.and_eq_true, List.all_map,
      List.all_eq_true] at hmet
    simpa using hmet.2 o ho
  · simp only [List.mem_cons, List.not_mem_nil, or_false] at hk
    rcases hk with hk | hk | hk
    · rw [hk] at hmet
      exact power_takes hw hn hk hfits hmet
    · rw [hk] at hmet
      exact desaturate_takes hw hn hk hfits hmet
    · exact textureSample_takes hw hn hk hfits
  · rw [htakes, decide_eq_true_eq]
    exact mat4_notMem_of_fits hw hn hfits hk

end Glsl

end ShaderGraph

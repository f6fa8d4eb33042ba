import ShaderGraph.Link.Rule
import ShaderGraph.Proofs.Glsl.Templates

namespace ShaderGraph

namespace Kind

def pairs (k : Kind) (a b : Nat) : Bool :=
  match k with
  | add | subtract | divide | max | min | dot | distance | project | reject | halfDirection => a = b
  | multiply => multipliable a b
  | cross => a = 3 && b = 3
  | lerp | smoothstep => a = 1 || b = 1 || a = b
  | transpose | matrixMultiply => a = 16 && b = 16
  | _ => true

/-- Sizes of operands by slot that a kind can compute with. -/
structure Accepts (k : Kind) (sizes : Slots Nat) : Prop where
  pairs : ∀ a ∈ sizes.filled, ∀ b ∈ sizes.filled, k.pairs a b = true
  total : k = .append → sizes.filled.sum ≤ 4
  second : k = .power ∨ k = .posterize ∨ k = .step → ∀ a, sizes.at? 1 = some a → a = 1

end Kind

def Requirement.Connected {α : Type} (r : Requirement) (slots : Slots α) : Prop :=
  match r with
  | .nothing => True
  | .anySlot => ∃ i, (slots.at? i).isSome = true
  | .leading n => ∀ i < n, (slots.at? i).isSome = true

namespace Value

theorem isEmpty_eq_false_iff {v : Value} : v.isEmpty = false ↔ 0 < v.size := by
  unfold isEmpty size
  cases v.shape <;> decide

theorem zip_of_sizes {a b : Value} (f : Scalar → Scalar → Scalar)
    (h : a.size = b.size ∨ a.size = 1 ∨ b.size = 1) :
    ∃ v, zip f a b = some v ∧ v.size = if a.size = 1 then b.size else a.size := by
  have hjoin : ∃ s, joinShape? a b = some s := by
    unfold joinShape?
    split
    · exact ⟨_, rfl⟩
    · split
      · exact ⟨_, rfl⟩
      · rename_i hne ha
        rw [if_pos ((h.resolve_left hne).resolve_left ha)]
        exact ⟨_, rfl⟩
  obtain ⟨s, hs⟩ := hjoin
  have hzip : zip f a b = some (tabulate s fun i => f (a.spread i) (b.spread i)) := by
    rw [zip, hs]
    rfl
  exact ⟨_, hzip, Glsl.size_zip hzip⟩

/-- Of three operands each two are of one size, or one of them is a scalar. -/
theorem zip3_of_sizes {a b c : Value} (f : Scalar → Scalar → Scalar → Scalar)
    (hab : a.size = 1 ∨ b.size = 1 ∨ a.size = b.size)
    (hac : a.size = 1 ∨ c.size = 1 ∨ a.size = c.size)
    (hbc : b.size = 1 ∨ c.size = 1 ∨ b.size = c.size)
    (ha : 0 < a.size) (hb : 0 < b.size) (hc : 0 < c.size) :
    ∃ v, zip3 f a b c = some v ∧ 0 < v.size := by
  have hwide : ∃ s : Shape, max a.size (max b.size c.size) = s.size := by
    rcases Nat.le_total a.size (max b.size c.size) with h | h
    · rcases Nat.le_total b.size c.size with h' | h'
      · exact ⟨c.shape, by rw [Nat.max_eq_right h, Nat.max_eq_right h']; rfl⟩
      · exact ⟨b.shape, by rw [Nat.max_eq_right h, Nat.max_eq_left h']; rfl⟩
    · exact ⟨a.shape, Nat.max_eq_left h⟩
  obtain ⟨s, hs⟩ := hwide
  have hfits : (a.size = 1 ∨ a.size = s.size) ∧ (b.size = 1 ∨ b.size = s.size) ∧
      (c.size = 1 ∨ c.size = s.size) := by
    rw [← hs]
    omega
  refine ⟨_, by rw [zip3_eq f hs, if_pos hfits], ?_⟩
  change 0 < s.size
  omega

/-- Any operands but empty ones have a product when the sizes are multipliable. -/
theorem multiply_of_sizes {a b : Value} (h : multipliable a.size b.size = true) :
    ∃ v, a.multiply b = some v := by
  rw [multiply_eq]
  split
  · exact ⟨_, rfl⟩
  · split
    · exact ⟨_, rfl⟩
    · split
      · exact ⟨_, rfl⟩
      · rename_i hleft hright _
        rw [← size_eq_sixteen, ← size_eq_four] at hleft hright
        simp only [multipliable, Bool.or_eq_true, Bool.and_eq_true, decide_eq_true_eq] at h
        obtain ⟨v, hv, _⟩ := zip_of_sizes (a := a) (b := b) (· * ·) (by omega)
        exact ⟨v, hv⟩

theorem concat_of_sizes {vs : List Value} (hpos : 0 < (vs.map size).sum)
    (hle : (vs.map size).sum ≤ 4) : ∃ v, concat vs = some v ∧ 0 < v.size := by
  have hlength : (vs.flatMap components).length = (vs.map size).sum := by
    rw [List.length_flatMap]
    exact congrArg List.sum (List.map_congr_left fun v _ => v.length_eq)
  have hshape : ∃ s, Shape.ofSize? (vs.flatMap components).length = some s := by
    rw [hlength]
    generalize (vs.map size).sum = n at hpos hle
    match n, hpos, hle with
    | 1, _, _ => exact ⟨_, rfl⟩
    | 2, _, _ => exact ⟨_, rfl⟩
    | 3, _, _ => exact ⟨_, rfl⟩
    | 4, _, _ => exact ⟨_, rfl⟩
  have hsome : ∃ v, ofList? (vs.flatMap components) = some v := by
    unfold ofList?
    obtain ⟨s, hs⟩ := hshape
    split
    · exact ⟨_, rfl⟩
    · rename_i hnone
      rw [hs] at hnone
      cases hnone
  obtain ⟨v, hv⟩ := hsome
  refine ⟨v, ?_, ?_⟩
  · rw [concat, if_neg (by omega), hv]
  · change 0 < v.shape.size
    rw [size_of_ofList? hv, hlength]
    exact hpos

theorem foldlM_zip (f : Scalar → Scalar → Scalar) {vs : List Value} {x : Value}
    (h : ∀ v ∈ vs, v.size = x.size) : ∃ v, vs.foldlM (zip f) x = some v ∧ v.size = x.size := by
  induction vs generalizing x with
  | nil => exact ⟨x, rfl, rfl⟩
  | cons y vs ih =>
    have hy := h y List.mem_cons_self
    obtain ⟨z, hz, hsize⟩ := zip_of_sizes f (.inl hy.symm)
    have hsame : z.size = x.size := by
      rw [hsize, hy]
      split <;> rfl
    obtain ⟨v, hv, hvsize⟩ := ih fun u hu => (h u (List.mem_cons_of_mem y hu)).trans hsame.symm
    refine ⟨v, ?_, hvsize.trans hsame⟩
    rw [List.foldlM_cons, hz]
    exact hv

/-- Whether a product of size `r` can have a factor of size `a`: a scalar, one of its own size, or
beside a vector of four a matrix. -/
def absorbs (r a : Nat) : Bool := a = 1 || a = r || (r = 4 && a = 16)

theorem absorbs_trans {r a b : Nat} (h : absorbs r a = true) (h' : absorbs a b = true) :
    absorbs r b = true := by
  simp only [absorbs, Bool.or_eq_true, Bool.and_eq_true, decide_eq_true_eq] at h h' ⊢
  omega

/-- A size that goes with a product goes with all its factors. -/
theorem multipliable_of_absorbs {r a b : Nat} (h : absorbs r a = true)
    (hb : multipliable r b = true) : multipliable a b = true := by
  simp only [absorbs, multipliable, Bool.or_eq_true, Bool.and_eq_true, decide_eq_true_eq] at h hb ⊢
  omega

/-- The product of two operands is of the size of one of them and absorbs both. -/
theorem size_product {a b v : Value} (hab : multipliable a.size b.size = true)
    (h : a.multiply b = some v) :
    (v.size = a.size ∨ v.size = b.size) ∧ absorbs v.size a.size = true ∧
      absorbs v.size b.size = true := by
  have hsize := Glsl.size_multiply h
  simp only [absorbs, multipliable, Bool.or_eq_true, Bool.and_eq_true, decide_eq_true_eq] at hab ⊢
  split at hsize
  · omega
  · split at hsize <;> omega

/-- Factors that go together two by two have a product. It is of the size of one of them and absorbs
them all. -/
theorem foldlM_multiply {vs : List Value} {x : Value}
    (hpairs : (x :: vs).Pairwise fun a b => multipliable a.size b.size = true) :
    ∃ v, vs.foldlM multiply x = some v ∧ (∃ u ∈ x :: vs, v.size = u.size) ∧
      ∀ u ∈ x :: vs, absorbs v.size u.size = true := by
  induction vs generalizing x with
  | nil => exact ⟨x, rfl, ⟨x, by simp⟩, by simp [absorbs]⟩
  | cons y vs ih =>
    obtain ⟨hx, hrest⟩ := List.pairwise_cons.mp hpairs
    obtain ⟨hy, hvs⟩ := List.pairwise_cons.mp hrest
    have hxy := hx y List.mem_cons_self
    obtain ⟨z, hz⟩ := multiply_of_sizes hxy
    obtain ⟨hone, hzx, hzy⟩ := size_product hxy hz
    have hzvs : ∀ u ∈ vs, multipliable z.size u.size = true := by
      intro u hu
      rcases hone with he | he <;> rw [he]
      · exact hx u (List.mem_cons_of_mem y hu)
      · exact hy u hu
    obtain ⟨v, hv, ⟨w, hw, hsize⟩, habsorbs⟩ := ih (List.pairwise_cons.mpr ⟨hzvs, hvs⟩)
    refine ⟨v, by rw [List.foldlM_cons, hz]; exact hv, ?_, fun u hu => ?_⟩
    · rcases List.mem_cons.mp hw with rfl | hw
      · rcases hone with he | he
        · exact ⟨x, by simp, hsize.trans he⟩
        · exact ⟨y, by simp, hsize.trans he⟩
      · exact ⟨w, by simp [hw], hsize⟩
    · have hvz := habsorbs z List.mem_cons_self
      rcases List.mem_cons.mp hu with rfl | hu
      · exact absorbs_trans hvz hzx
      · rcases List.mem_cons.mp hu with rfl | hu
        · exact absorbs_trans hvz hzy
        · exact habsorbs u (List.mem_cons_of_mem z hu)

end Value

theorem Channel.size_pos (c : Channel) : 0 < c.shape.size := by
  cases c <;> exact Nat.zero_lt_succ _

theorem Kind.naturalShape_pos {k : Kind} (h : k.family = .environment ∨ k.family = .literal) :
    0 < k.naturalShape.size := by
  revert h
  cases k <;> decide

theorem sinkValue_pos (k : Kind) (v : Option Value) : 0 < (sinkValue k v).size := by
  have hwide : ∀ v : Value, v.widen.size = 4 := by
    intro v
    unfold Value.widen
    split <;> rfl
  unfold sinkValue
  split
  · rw [hwide]
    exact Nat.zero_lt_succ 3
  · split
    · exact Nat.zero_lt_succ 3
    · rw [hwide]
      exact Nat.zero_lt_succ 3

def Slots.sizes (operands : Slots Value) : Slots Nat := operands.apply fun v => some v.size

section

variable {k : Kind} {literal : Value} {operands : Slots Value}

theorem Slots.at?_sizes (operands : Slots Value) (i : Nat) :
    operands.sizes.at? i = (operands.at? i).map Value.size := by
  rw [sizes, at?_apply]
  cases operands.at? i <;> rfl

theorem filled_sizes (operands : Slots Value) :
    operands.sizes.filled = operands.filled.map Value.size := by
  rw [Slots.sizes, Slots.filled_apply, ← List.filterMap_eq_map]
  rfl

theorem Requirement.connected_of_isMet {r : Requirement} (h : r.isMet operands = true) :
    r.Connected operands := by
  cases r with
  | nothing => trivial
  | anySlot =>
    simp only [isMet, Bool.and_eq_true, Bool.not_eq_true', List.isEmpty_eq_false_iff] at h
    obtain ⟨v, hv⟩ := List.exists_mem_of_ne_nil _ h.1
    obtain ⟨i, hi⟩ := Slots.mem_filled.mp hv
    exact ⟨i, by rw [hi]; rfl⟩
  | leading n =>
    intro i hi
    obtain ⟨v, hv, _⟩ := isMet_leading h hi
    rw [hv]
    rfl

/-- Connected slots are all that is missing when every operand has a value. -/
theorem Requirement.isMet_of_connected {r : Requirement}
    (hvalues : ∀ v ∈ operands.filled, 0 < v.size) (h : r.Connected operands) :
    r.isMet operands = true := by
  have hvalid : ∀ v ∈ operands.filled, v.isEmpty = false :=
    fun v hv => Value.isEmpty_eq_false_iff.mpr (hvalues v hv)
  cases r with
  | nothing => rfl
  | anySlot =>
    obtain ⟨i, hi⟩ := h
    obtain ⟨v, hv⟩ := Option.isSome_iff_exists.mp hi
    have hmem := Slots.mem_filled.mpr ⟨i, hv⟩
    simp only [isMet, Bool.and_eq_true, Bool.not_eq_true', List.isEmpty_eq_false_iff,
      List.all_eq_true]
    exact ⟨List.ne_nil_of_mem hmem, hvalid⟩
  | leading n =>
    refine List.all_eq_true.mpr fun i hi => ?_
    obtain ⟨v, hv⟩ := Option.isSome_iff_exists.mp (h i (List.mem_range.mp hi))
    simp [hv, hvalid v (Slots.mem_filled.mpr ⟨i, hv⟩)]

theorem Kind.Accepts.sizes_pair (ha : k.Accepts operands.sizes) {u w : Value}
    (hu : u ∈ operands.filled) (hw : w ∈ operands.filled) : k.pairs u.size w.size = true := by
  refine ha.pairs _ ?_ _ ?_ <;> rw [filled_sizes]
  · exact List.mem_map_of_mem hu
  · exact List.mem_map_of_mem hw

section Arity

variable {a b c : Value} (h₀ : operands.at? 0 = some a) (ha : 0 < a.size)

include h₀ ha

theorem operate_one (hk : k.requirement = .leading 1) (hu : k.unary? = none)
    (hpair : k.pairs a.size a.size = true) : ∃ v, operate k operands = some v ∧ 0 < v.size := by
  cases k <;> first | cases hk; done | cases hu; done | skip
  all_goals simp only [operate, h₀, Option.getD_some]
  case normalize => exact ⟨_, rfl, by rwa [Value.size, Value.shape_normalize]⟩
  case length => exact ⟨_, rfl, Nat.zero_lt_one⟩
  case transpose =>
    rw [if_pos (by simpa [Kind.pairs] using hpair)]
    exact ⟨_, rfl, Nat.zero_lt_succ 15⟩

variable (h₁ : operands.at? 1 = some b) (hb : 0 < b.size)

include h₁ hb

theorem operate_two (hk : k.requirement = .leading 2) (hpair : k.pairs a.size b.size = true)
    (hsecond : k = .power ∨ k = .posterize ∨ k = .step → b.size = 1) :
    ∃ v, operate k operands = some v ∧ 0 < v.size := by
  have hzip : ∀ (f : Scalar → Scalar → Scalar), b.size = 1 →
      ∃ v, Value.zip f a b = some v ∧ 0 < v.size := by
    intro f hone
    obtain ⟨v, hv, hsize⟩ := Value.zip_of_sizes f (a := a) (b := b) (.inr (.inr hone))
    refine ⟨v, hv, ?_⟩
    rw [hsize]
    split <;> assumption
  cases k <;> first | cases hk; done | skip
  all_goals simp only [operate, h₀, h₁, Option.getD_some]
  case dot =>
    rw [if_pos (by simpa [Kind.pairs] using hpair)]
    exact ⟨_, rfl, Nat.zero_lt_one⟩
  case cross =>
    rw [if_pos (by simpa [Kind.pairs] using hpair)]
    exact ⟨_, rfl, Nat.zero_lt_succ 2⟩
  case distance =>
    have hab : a.size = b.size := by simpa [Kind.pairs] using hpair
    obtain ⟨v, hv, _⟩ := Value.zip_of_sizes (· - ·) (.inl hab)
    rw [if_pos hab, hv]
    exact ⟨_, rfl, Nat.zero_lt_one⟩
  case project =>
    have hab : a.size = b.size := by simpa [Kind.pairs] using hpair
    rw [if_pos hab]
    exact ⟨_, rfl, by rwa [Value.size, Value.shape_project (Shape.size_injective hab)]⟩
  case reject =>
    have hab : a.size = b.size := by simpa [Kind.pairs] using hpair
    have hproject : (a.project b).size = b.size := by
      rw [Value.size, Value.shape_project (Shape.size_injective hab), Value.size]
    obtain ⟨v, hv, hsize⟩ := Value.zip_of_sizes (· - ·) (.inl (hab.trans hproject.symm))
    rw [if_pos hab, hv]
    refine ⟨v, rfl, ?_⟩
    rw [hsize, hproject]
    split <;> assumption
  case halfDirection =>
    have hab : a.size = b.size := by simpa [Kind.pairs] using hpair
    have hnormal : ∀ v : Value, v.normalize.size = v.size := fun v =>
      congrArg Shape.size (Value.shape_normalize v)
    obtain ⟨v, hv, hsize⟩ := Value.zip_of_sizes (· + ·)
      (.inl ((hnormal a).trans (hab.trans (hnormal b).symm)))
    rw [if_pos hab, hv]
    refine ⟨v.normalize, rfl, ?_⟩
    rw [hnormal, hsize, hnormal, hnormal]
    split <;> assumption
  case desaturate => exact ⟨_, rfl, ha⟩
  case power => exact hzip _ (hsecond (by simp))
  case posterize => exact hzip _ (hsecond (by simp))
  case step => exact hzip _ (hsecond (by simp))
  case matrixMultiply =>
    rw [if_pos (by simpa [Kind.pairs] using hpair)]
    exact ⟨_, rfl, Nat.zero_lt_succ 15⟩

theorem operate_three (h₂ : operands.at? 2 = some c) (hc : 0 < c.size)
    (hk : k.requirement = .leading 3) (hab : k.pairs a.size b.size = true)
    (hac : k.pairs a.size c.size = true) (hbc : k.pairs b.size c.size = true) :
    ∃ v, operate k operands = some v ∧ 0 < v.size := by
  cases k <;> first | cases hk; done | skip
  all_goals
    simp only [Kind.pairs, Bool.or_eq_true, decide_eq_true_eq, or_assoc] at hab hac hbc
    simp only [operate, h₀, h₁, h₂, Option.getD_some]
    exact Value.zip3_of_sizes _ hab hac hbc ha hb hc

end Arity

variable (hvalues : ∀ v ∈ operands.filled, 0 < v.size) (ha : k.Accepts operands.sizes)

include hvalues ha

theorem product_of_accepts (hk : k = .multiply) (hsome : operands.filled ≠ []) :
    ∃ v, foldValues Value.multiply operands.filled = some v ∧ 0 < v.size ∧
      ∀ u ∈ operands.filled, Value.absorbs v.size u.size = true := by
  obtain ⟨x, vs, hfilled⟩ := List.exists_cons_of_ne_nil hsome
  have hpairs : (x :: vs).Pairwise fun a b => multipliable a.size b.size = true := by
    refine List.pairwise_of_forall_mem_list fun a hma b hmb => ?_
    rw [← hfilled] at hma hmb
    have hpair := ha.sizes_pair hma hmb
    rwa [hk] at hpair
  obtain ⟨v, hv, ⟨u, hu, hsize⟩, habsorbs⟩ := Value.foldlM_multiply hpairs
  rw [hfilled] at hvalues ⊢
  exact ⟨v, hv, hsize ▸ hvalues u hu, habsorbs⟩

theorem folded_of_accepts {f : Value → Value → Option Value} (hf : k.folded? = some f)
    (hsome : operands.filled ≠ []) : ∃ v, foldValues f operands.filled = some v ∧ 0 < v.size := by
  by_cases hk : k = .multiply
  · obtain ⟨v, hv, hpos, _⟩ := product_of_accepts hvalues ha hk hsome
    rw [hk] at hf
    cases hf
    exact ⟨v, hv, hpos⟩
  · have hzip : (∃ h, f = Value.zip h) ∧ ∀ a b, k.pairs a b = true → a = b := by
      cases k <;> cases hf <;> first | exact ⟨⟨_, rfl⟩, by simp [Kind.pairs]⟩ | exact absurd rfl hk
    obtain ⟨⟨h, rfl⟩, heq⟩ := hzip
    obtain ⟨x, vs, hfilled⟩ := List.exists_cons_of_ne_nil hsome
    have hx : x ∈ operands.filled := hfilled ▸ List.mem_cons_self
    have hsame : ∀ u ∈ vs, u.size = x.size := fun u hu =>
      heq _ _ (ha.sizes_pair (hfilled ▸ List.mem_cons_of_mem x hu) hx)
    obtain ⟨v, hv, hsize⟩ := Value.foldlM_zip h hsame
    exact ⟨v, by rw [hfilled]; exact hv, hsize ▸ hvalues x hx⟩

/-- Operators of fixed arity have a value once their leading slots are connected. -/
theorem operate_of_accepts (hk : k.family = .operator) (hf : k.folded? = none)
    (hu : k.unary? = none) (hc : k.requirement.Connected operands) :
    ∃ v, operate k operands = some v ∧ 0 < v.size := by
  have hread : ∀ i, (operands.at? i).isSome = true →
      ∃ x, operands.at? i = some x ∧ x ∈ operands.filled ∧ 0 < x.size := by
    intro i hi
    obtain ⟨x, hx⟩ := Option.isSome_iff_exists.mp hi
    have hmem := Slots.mem_filled.mpr ⟨i, hx⟩
    exact ⟨x, hx, hmem, hvalues x hmem⟩
  have hneeds : k = .append ∨ k = .textureSample ∨ k = .vertexColor ∨
      k.requirement = .leading 1 ∨ k.requirement = .leading 2 ∨ k.requirement = .leading 3 := by
    cases k <;> first | cases hk; done | cases hf; done | cases hu; done | decide
  rcases hneeds with rfl | rfl | rfl | hr | hr | hr
  · obtain ⟨i, hi⟩ := hc
    obtain ⟨x, _, hmem, hx⟩ := hread i hi
    have htotal := ha.total rfl
    rw [filled_sizes] at htotal
    refine Value.concat_of_sizes ?_ htotal
    exact Nat.lt_of_lt_of_le hx (List.le_sum_of_mem (List.mem_map_of_mem hmem))
  · exact ⟨_, rfl, (Channel.ofInput (operands.at? 1)).size_pos⟩
  · exact ⟨_, rfl, (Channel.ofInput (operands.at? 0)).size_pos⟩
  · rw [hr] at hc
    obtain ⟨a, h₀, hma, hpa⟩ := hread 0 (hc 0 Nat.zero_lt_one)
    exact operate_one h₀ hpa hr hu (ha.sizes_pair hma hma)
  · rw [hr] at hc
    obtain ⟨a, h₀, hma, hpa⟩ := hread 0 (hc 0 Nat.zero_lt_two)
    obtain ⟨b, h₁, hmb, hpb⟩ := hread 1 (hc 1 Nat.one_lt_two)
    have hb : operands.sizes.at? 1 = some b.size := by rw [Slots.at?_sizes, h₁, Option.map_some]
    exact operate_two h₀ hpa h₁ hpb hr (ha.sizes_pair hma hmb) fun h => ha.second h _ hb
  · rw [hr] at hc
    obtain ⟨a, h₀, hma, hpa⟩ := hread 0 (hc 0 (by decide))
    obtain ⟨b, h₁, hmb, hpb⟩ := hread 1 (hc 1 (by decide))
    obtain ⟨c, h₂, hmc, hpc⟩ := hread 2 (hc 2 (by decide))
    exact operate_three h₀ hpa h₁ hpb h₂ hpc hr (ha.sizes_pair hma hmb) (ha.sizes_pair hma hmc)
      (ha.sizes_pair hmb hmc)

/-- The same for the kinds that have neither a value of their own nor one of a stage. -/
theorem computed_of_accepts (hk : k.family = .arithmetic ∨ k.family = .operator)
    (hc : k.requirement.Connected operands) :
    0 < (match k.folded?, k.unary? with
      | some f, _ => (foldValues f operands.filled).getD .empty
      | none, some f => ((operands.at? 0).getD .empty).map f
      | none, none => (operate k operands).getD .empty).size := by
  split
  · rename_i hf
    have hneeds : k.requirement = .anySlot := by cases k <;> first | rfl | cases hf
    rw [hneeds] at hc
    obtain ⟨i, hi⟩ := hc
    obtain ⟨x, hx⟩ := Option.isSome_iff_exists.mp hi
    obtain ⟨v, hv, hpos⟩ := folded_of_accepts hvalues ha hf
      (List.ne_nil_of_mem (Slots.mem_filled.mpr ⟨i, hx⟩))
    rwa [hv]
  · rename_i hu
    have hneeds : k.requirement = .leading 1 := by cases k <;> first | rfl | cases hu
    rw [hneeds] at hc
    obtain ⟨x, hx⟩ := Option.isSome_iff_exists.mp (hc 0 Nat.zero_lt_one)
    rw [hx]
    exact hvalues x (Slots.mem_filled.mpr ⟨0, hx⟩)
  · rename_i hf hu
    have hoperator : k.family = .operator := by
      refine hk.resolve_left fun harithmetic => ?_
      cases k <;> first | cases harithmetic; done | cases hf
    obtain ⟨v, hv, hpos⟩ := operate_of_accepts hvalues ha hoperator hf hu hc
    rwa [hv]

/-- A node whose operands have values that go together has a value itself as soon as the slots that
it needs are connected. -/
theorem evaluate_pos_iff (hliteral : k.isLiteral = true → 0 < literal.size) :
    0 < (evaluate k literal operands).size ↔ k.requirement.Connected operands := by
  refine ⟨fun h => ?_, fun hc => ?_⟩
  · exact Requirement.connected_of_isMet (isMet_of_evaluate (Value.isEmpty_eq_false_iff.mpr h))
  · rw [evaluate, if_pos (Requirement.isMet_of_connected hvalues hc)]
    have hcomputed := fun hk => computed_of_accepts hvalues ha hk hc
    cases hk : k.family with
    | environment => exact Kind.naturalShape_pos (.inl hk)
    | literal => exact hliteral (by simp [Kind.isLiteral, hk])
    | sink => exact sinkValue_pos k _
    | arithmetic => exact hcomputed (.inl hk)
    | operator => exact hcomputed (.inr hk)

/-- A product absorbs all its factors. -/
theorem evaluate_absorbs (hk : k = .multiply) :
    ∀ u ∈ operands.filled, Value.absorbs (evaluate k literal operands).size u.size = true := by
  intro u hu
  obtain ⟨v, hv, _, habsorbs⟩ := product_of_accepts hvalues ha hk (List.ne_nil_of_mem hu)
  subst hk
  have hmet : Kind.multiply.requirement.isMet operands = true := by
    obtain ⟨i, hi⟩ := Slots.mem_filled.mp hu
    exact Requirement.isMet_of_connected hvalues ⟨i, by rw [hi]; rfl⟩
  have heval : evaluate .multiply literal operands = v := by
    rw [evaluate, if_pos hmet]
    change (foldValues Value.multiply operands.filled).getD .empty = v
    rw [hv]
    rfl
  rw [heval]
  exact habsorbs u hu

end

end ShaderGraph

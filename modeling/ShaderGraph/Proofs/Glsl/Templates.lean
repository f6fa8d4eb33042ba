import ShaderGraph.Proofs.Glsl.Operators
import ShaderGraph.Proofs.Glsl.Typing

namespace ShaderGraph

namespace Value

theorem size_eq_one {v : Value} : v.size = 1 ↔ v.shape = .scalar :=
  ⟨fun h => Shape.size_injective (t := .scalar) h, congrArg Shape.size⟩

theorem joinShape?_eq (a b : Value) : joinShape? a b = a.shape.join? b.shape := by
  have hsame : a.size = b.size ↔ a.shape = b.shape :=
    ⟨fun h => Shape.size_injective h, congrArg Shape.size⟩
  simp only [joinShape?, Shape.join?, size_eq_one, hsame]

theorem join?_of_zip {f : Scalar → Scalar → Scalar} {a b v : Value} (h : zip f a b = some v) :
    a.shape.join? b.shape = some v.shape := by
  rw [zip, joinShape?_eq] at h
  obtain ⟨s, hs, rfl⟩ := Option.map_eq_some_iff.mp h
  exact hs

/-- Three operands that go together are scalars and values of the shape of the result. -/
theorem shapes_of_zip3 {f : Scalar → Scalar → Scalar → Scalar} {a b c v : Value}
    (h : zip3 f a b c = some v) :
    (∀ x ∈ [a, b, c], x.shape = .scalar ∨ x.shape = v.shape) ∧
      ∃ x ∈ [a, b, c], x.shape = v.shape := by
  have hmax := size_zip3 h
  have hsame : ∀ x : Value, x.size = v.shape.size → x.shape = v.shape := fun _ hx =>
    Shape.size_injective hx
  have hfit : ∀ x : Value, x.size = 1 ∨ x.size = v.shape.size →
      x.shape = .scalar ∨ x.shape = v.shape := fun x hx =>
    hx.imp (fun h => Shape.size_injective (t := .scalar) h) (hsame x)
  rw [zip3_eq f hmax] at h
  split at h
  · rename_i hfits
    refine ⟨by simpa using ⟨hfit a hfits.1, hfit b hfits.2.1, hfit c hfits.2.2⟩, ?_⟩
    have hone : a.size = v.shape.size ∨ b.size = v.shape.size ∨ c.size = v.shape.size := by omega
    rcases hone with h | h | h
    · exact ⟨a, by simp, hsame a h⟩
    · exact ⟨b, by simp, hsame b h⟩
    · exact ⟨c, by simp, hsame c h⟩
  · cases h

theorem size_of_ofList? {xs : List Scalar} {v : Value} (h : ofList? xs = some v) :
    v.shape.size = xs.length := by
  unfold ofList? at h
  split at h
  · rename_i hs
    cases h
    exact Shape.size_of_ofSize? hs
  · cases h

theorem shape_normalize (v : Value) : v.normalize.shape = v.shape := by
  unfold normalize
  simp only
  split <;> rfl

theorem shape_project {a b : Value} (h : a.shape = b.shape) : (a.project b).shape = b.shape := by
  unfold project
  simp only
  split
  · exact h
  · rfl

end Value

namespace Glsl

variable {c : Scope}

namespace Operand

structure Typed (c : Scope) (o : Operand) : Prop where
  bound : c.nodes.lookup o.id = some o.value.shape
  nonempty : o.value.shape ≠ .empty

variable {o : Operand}

theorem Typed.not_isEmpty (h : o.Typed c) : o.value.isEmpty = false := by
  simpa [Value.isEmpty] using h.nonempty

theorem Typed.expr (h : o.Typed c) : o.expr.type? c = some (.value o.value.shape) := by
  change (c.nodes.lookup o.id).bind Ty.ofShape? = _
  rw [h.bound, Option.bind_some]
  cases hs : o.value.shape <;> first | rfl | exact absurd hs h.nonempty

/-- The type of a scalar that is brought to the size of a shape. There is no constructor that would
fill a matrix. -/
theorem Typed.widen (h : o.Typed c) {s : Shape} (hs : s ≠ .empty) :
    (o.widen s.size).type? c =
      if o.value.shape = .scalar then if s = .mat4 then none else some (.value s)
      else some (.value o.value.shape) := by
  have hone : o.size = 1 ↔ o.value.shape = .scalar := Value.size_eq_one
  simp only [Operand.widen, hone]
  by_cases ho : o.value.shape = .scalar
  · rw [if_pos ho]
    cases s with
    | empty => exact absurd rfl hs
    | scalar =>
      rw [if_neg (fun hand => absurd hand.2 (by decide)), h.expr, ho]
      rfl
    | vec2 | vec3 | vec4 | mat4 =>
      rw [if_pos ⟨ho, by decide⟩, type?_call1, h.expr, ho]
      rfl
  · rw [if_neg ho, if_neg (fun hand => ho hand.1), h.expr]

end Operand

theorem type?_componentwise {f : Func} (hf : f.signatures c.dialect = [⟨[.generic], .generic⟩])
    {e : Expr} {s : Shape} (he : e.type? c = some (.value s)) (hs : s ≠ .empty) :
    (Expr.call1 f e).type? c = if s = .mat4 then none else some (.value s) := by
  have htype : ∀ args, f.type? c.dialect args =
      ((f.signatures c.dialect).flatMap Signature.calls).lookup args := by
    intro args
    cases f <;> first | rfl | cases hf
  rw [type?_call1, he, Option.bind_some, htype, hf]
  cases s <;> first | rfl | exact absurd rfl hs

theorem round_type {e : Expr} {s : Shape} (he : e.type? c = some (.value s)) (hs : s ≠ .empty)
    (hrank : e.rank = 0) :
    (c.dialect.round e).type? c = if s = .mat4 then none else some (.value s) := by
  cases hd : c.dialect with
  | glsl330 => exact type?_componentwise (by rw [hd]; rfl) he hs
  | gles100 =>
    have hsum : (Expr.binary .add e (.number (.nearest false 1 2))).type? c =
        some (.value s) := by
      rw [type?_binary .add (hrank.trans_le (Nat.zero_le _)) (by decide), he]
      cases s <;> rfl
    exact type?_componentwise rfl hsum hs

theorem trunc_type {e : Expr} {s : Shape} (he : e.type? c = some (.value s)) (hs : s ≠ .empty) :
    (c.dialect.trunc e).type? c = if s = .mat4 then none else some (.value s) := by
  cases hd : c.dialect with
  | glsl330 => exact type?_componentwise (by rw [hd]; rfl) he hs
  | gles100 =>
    have hsign := type?_componentwise (f := .sign) rfl he hs
    have habs := type?_componentwise (f := .abs) rfl he hs
    have hproduct := type?_binary (c := c) .mul (a := .call1 .sign e)
      (b := .call1 .floor (.call1 .abs e)) (Nat.zero_le _) Nat.zero_lt_one
    rw [Dialect.trunc, Expr.type?, hproduct, hsign, type?_call1, habs]
    cases s <;> first | rfl | exact absurd rfl hs

theorem transpose_type {e : Expr} (he : e.type? c = some .mat4) (hrank : e.rank = 0) :
    (c.dialect.transpose e).type? c = some .mat4 := by
  cases hd : c.dialect with
  | glsl330 =>
    rw [Dialect.transpose, type?_call1, he, hd]
    rfl
  | gles100 =>
    have helement : ∀ i ∈ List.range 16,
        (Expr.element e (i % 4) (i / 4)).type? c = some .float := by
      intro i hi
      have hlt := List.mem_range.mp hi
      rw [Expr.type?, if_pos ⟨hrank, he, by omega, by omega⟩]
    rw [Dialect.transpose, Expr.type?, types?_map helement]
    rfl

section

variable {a b : Expr} {s t : Shape}

theorem type?_measured {f : Func} (hf : f = .dot ∨ f = .distance)
    (ha : a.type? c = some (.value s)) (hb : b.type? c = some (.value s)) (hs : s ≠ .empty) :
    (Expr.call2 f a b).type? c = if s = .mat4 then none else some .float := by
  rw [type?_call2, ha, hb]
  rcases hf with rfl | rfl <;> cases s <;> first | rfl | exact absurd rfl hs

/-- The share of a vector in the direction of another. -/
theorem share_type (ha : a.type? c = some (.value s)) (hb : b.type? c = some (.value s))
    (hs : s ≠ .empty) :
    (Expr.bracket (.binary .div (.call2 .dot a b) (.call2 .dot b b))).type? c =
      if s = .mat4 then none else some .float := by
  have hquotient := type?_binary (c := c) .div (a := .call2 .dot a b) (b := .call2 .dot b b)
    (Nat.zero_le _) Nat.zero_lt_one
  rw [Expr.type?, hquotient, type?_measured (.inl rfl) ha hb hs, type?_measured (.inl rfl) hb hb hs]
  cases s <;> rfl

theorem project_type (ha : a.type? c = some (.value s)) (hb : b.type? c = some (.value s))
    (hs : s ≠ .empty) (hrank : b.rank = 0) :
    (Expr.binary .mul (.bracket (.binary .div (.call2 .dot a b) (.call2 .dot b b))) b).type? c =
      if s = .mat4 then none else some (.value s) := by
  rw [type?_binary .mul (Nat.zero_le _) (hrank.trans_lt Nat.zero_lt_one), share_type ha hb hs, hb]
  cases s <;> rfl

theorem reject_type (ha : a.type? c = some (.value s)) (hb : b.type? c = some (.value s))
    (hs : s ≠ .empty) (hrank : a.rank = 0) (hrank' : b.rank = 0) :
    (Expr.binary .sub a (.binary .mul
        (.bracket (.binary .div (.call2 .dot a b) (.call2 .dot b b))) b)).type? c =
      if s = .mat4 then none else some (.value s) := by
  have hproject := project_type ha hb hs hrank'
  generalize hp : Expr.binary .mul _ b = projection at hproject ⊢
  have hlt : projection.rank < Op.sub.rank := by
    rw [← hp]
    exact Nat.one_lt_two
  rw [type?_binary .sub (hrank.trans_le (Nat.zero_le _)) hlt, hproject, ha]
  cases s <;> rfl

theorem halfDirection_type (ha : a.type? c = some (.value s)) (hb : b.type? c = some (.value s))
    (hs : s ≠ .empty) :
    (Expr.call1 .normalize
        (.binary .add (.call1 .normalize a) (.call1 .normalize b))).type? c =
      if s = .mat4 then none else some (.value s) := by
  have hsum := type?_binary (c := c) .add (a := .call1 .normalize a) (b := .call1 .normalize b)
    (Nat.zero_le _) Nat.zero_lt_two
  rw [type?_call1, hsum, type?_componentwise rfl ha hs, type?_componentwise rfl hb hs]
  cases s <;> first | rfl | exact absurd rfl hs

theorem posterize_type (ha : a.type? c = some (.value s)) (hb : b.type? c = some (.value t))
    (hs : s ≠ .empty) (ht : t ≠ .empty) {u : Shape} (hu : s.join? t = some u) (hrank : a.rank = 0)
    (hrank' : b.rank = 0) :
    (Expr.binary .div (.call1 .floor (.binary .mul a b)) b).type? c =
      if s = .mat4 ∨ t = .mat4 then none else some (.value u) := by
  have hquotient := type?_binary (c := c) .div (a := .call1 .floor (.binary .mul a b)) (b := b)
    (Nat.zero_le _) (hrank'.trans_lt Nat.zero_lt_one)
  rw [hquotient, type?_call1,
    type?_binary .mul (hrank.trans_le (Nat.zero_le _)) (hrank'.trans_lt Nat.zero_lt_one), ha, hb]
  cases s <;> cases t <;>
    first | cases hu; rfl | exact absurd rfl hs | exact absurd rfl ht | cases hu

/-- A power goes by the type of its base. A scalar exponent is brought to that type, but a scalar
base is not brought to the type of its exponent. -/
theorem power_type (ha : a.type? c = some (.value s)) (hs : s ≠ .empty) {o : Operand}
    (ho : o.Typed c) {u : Shape} (hu : s.join? o.value.shape = some u) :
    (Expr.call2 .pow a (o.widen s.size)).type? c =
      if s ≠ .mat4 ∧ (o.value.shape = s ∨ o.value.shape = .scalar) then some (.value u)
      else none := by
  have ht := ho.nonempty
  rw [type?_call2, ha, ho.widen hs]
  generalize o.value.shape = t at hu ht
  cases s <;> cases t <;>
    first | cases hu; rfl | exact absurd rfl hs | exact absurd rfl ht | cases hu

/-- A step takes a scalar in front of a vector. -/
theorem step_type (ha : a.type? c = some (.value s)) (hs : s ≠ .empty) {o : Operand}
    (ho : o.Typed c) {u : Shape} (hu : s.join? o.value.shape = some u) :
    (Expr.call2 .step a (o.widen s.size)).type? c =
      if s = .mat4 ∨ o.value.shape = .mat4 then none else some (.value u) := by
  have ht := ho.nonempty
  rw [type?_call2, ha, ho.widen hs]
  generalize o.value.shape = t at hu ht
  cases s <;> cases t <;>
    first | cases hu; rfl | exact absurd rfl hs | exact absurd rfl ht | cases hu

/-- Toward gray, by an amount for all three channels or by one for each. -/
theorem desaturate_type (ha : a.type? c = some (.value s)) (hb : b.type? c = some (.value t))
    (hrank : a.rank = 0) :
    (if s = .vec4 then
        Expr.call2 (.vec 4) (.call .mix [.field a "rgb",
          .call1 (.vec 3) (.call2 .dot (.field a "rgb") luma), b]) (.field a "a")
      else .call .mix [a, .call1 (.vec 3) (.call2 .dot a luma), b]).type? c =
      if s ∈ [.vec3, .vec4] ∧ t ∈ [.scalar, .vec3] then some (.value s) else none := by
  have hluma : luma.type? c = some .vec3 := rfl
  split
  · rename_i hs
    subst hs
    rw [type?_call2, type?_call3, type?_call1, type?_call2, type?_field hrank, type?_field hrank,
      ha, hluma, hb]
    cases t <;> rfl
  · rename_i hs
    rw [type?_call3, type?_call1, type?_call2, ha, hluma, hb]
    cases s <;> first | exact absurd rfl hs | (cases t <;> rfl)

end

/-- Three operands, scalars among them brought to the type of the others. -/
theorem blended_type {f : Func} (hf : f = .mix ∨ f = .smoothstep) {a b e : Operand}
    (ha : a.Typed c) (hb : b.Typed c) (he : e.Typed c) {v : Value} (hempty : v.shape ≠ .empty)
    {g : Scalar → Scalar → Scalar → Scalar}
    (hzip : Value.zip3 g a.value b.value e.value = some v) :
    (Expr.call f ([a, b, e].map (Operand.widen · v.shape.size))).type? c =
      if v.shape = .mat4 then none else some (.value v.shape) := by
  obtain ⟨hfit, -⟩ := Value.shapes_of_zip3 hzip
  have hwiden : ∀ o : Operand, o.Typed c → o.value ∈ [a.value, b.value, e.value] →
      (o.widen v.shape.size).type? c =
        if v.shape = .mat4 ∧ o.value.shape = .scalar then none else some (.value v.shape) := by
    intro o ho hmem
    rw [ho.widen hempty]
    rcases hfit o.value hmem with hs | hs
    · simp [hs]
    · simp only [hs]
      split <;> simp_all
  rw [List.map_cons, List.map_cons, List.map_cons, List.map_nil, type?_call3,
    hwiden a ha (by simp), hwiden b hb (by simp), hwiden e he (by simp)]
  by_cases hmat : v.shape = .mat4
  · -- a scalar cannot be brought to a matrix, and three matrices are not blended
    rw [if_pos hmat, hmat]
    split <;> split <;> split <;> first | rfl | (rcases hf with rfl | rfl <;> rfl)
  · simp only [hmat, false_and, if_false, Option.bind_some]
    rcases hf with rfl | rfl <;> cases hs : v.shape <;>
      first | rfl | exact absurd hs hempty | exact absurd hs hmat

section

variable {operands : List Operand} {v : Value}

theorem chain_type {op : Op} {f : Scalar → Scalar → Scalar} (hop : op ≠ .mul)
    (ho : ∀ o ∈ operands, o.Typed c)
    (hv : foldValues (Value.zip f) (operands.map Operand.value) = some v) :
    (Expr.chain op (operands.map Operand.expr)).type? c = some (.value v.shape) := by
  cases operands with
  | nil => cases hv
  | cons o operands =>
    have hpos : 0 < op.rank := by cases op <;> decide
    have hstep : ∀ (e : Expr) (x : Value) (p : Operand) (y : Value),
        e.type? c = some (.value x.shape) ∧ e.rank ≤ op.rank →
        p.Typed c → Value.zip f x p.value = some y →
        (Expr.binary op e p.expr).type? c = some (.value y.shape) ∧
          (Expr.binary op e p.expr).rank ≤ op.rank := by
      rintro e x p y ⟨he, hrank⟩ hp hy
      refine ⟨?_, le_refl op.rank⟩
      have htype : op.type? (.value x.shape) (.value p.value.shape) = some (.value y.shape) := by
        rw [Op.type?, if_neg (fun h => hop h.1), Value.join?_of_zip hy]
        rfl
      rw [type?_binary op (b := p.expr) hrank hpos, he, hp.expr]
      exact htype
    rw [List.map_cons, Expr.chain, List.foldl_map]
    exact (foldl_shows (fun (e : Expr) x => e.type? c = some (.value x.shape) ∧ e.rank ≤ op.rank)
      (Operand.Typed c) hstep (fun p hp => ho p (by simp [hp]))
      ⟨(ho o (by simp)).expr, Nat.zero_le _⟩ hv).1

/-- The type of a product is that of the value, on whichever side a matrix stands. -/
theorem type?_of_multiply {x y v : Value} (h : x.multiply y = some v) :
    Op.type? .mul (.value x.shape) (.value y.shape) = some (.value v.shape) ∧
      (x.shape = .vec4 ∧ y.shape = .mat4 →
        Op.type? .mul (.value y.shape) (.value x.shape) = some (.value v.shape)) := by
  rw [Value.multiply_eq] at h
  split at h
  · rename_i hs
    cases h
    rw [hs.1, hs.2]
    exact ⟨rfl, fun _ => rfl⟩
  · split at h
    · rename_i hs
      cases h
      rw [hs.1, hs.2]
      exact ⟨rfl, fun _ => rfl⟩
    · split at h
      · rename_i hs
        cases h
        rw [hs.1, hs.2]
        exact ⟨rfl, fun _ => rfl⟩
      · rename_i h₁ h₂ _
        refine ⟨?_, fun hs => absurd hs h₂⟩
        rw [Op.type?, if_neg (fun hs => hs.2.elim h₁ h₂), Value.join?_of_zip h]
        rfl

namespace Product

structure Typed (c : Scope) (p : Product) (x : Value) : Prop where
  type : p.expr.type? c = some (.value x.shape)
  size : p.size = x.size
  simple : p.compound = false → p.expr.rank = 0

theorem Typed.times {p : Product} {o : Operand} {x y : Value} (h : p.Typed c x) (ho : o.Typed c)
    (hy : x.multiply o.value = some y) : (p.times o).Typed c y := by
  have hleft : (if p.compound then Expr.bracket p.expr else p.expr).type? c =
        some (.value x.shape) ∧
      (if p.compound then Expr.bracket p.expr else p.expr).rank = 0 := by
    split
    · exact ⟨h.type, rfl⟩
    · rename_i hc
      exact ⟨h.type, h.simple (by simpa using hc)⟩
  obtain ⟨htype, hrank⟩ := hleft
  obtain ⟨hmul, hswap⟩ := type?_of_multiply hy
  refine ⟨?_, ?_, nofun⟩
  · simp only [Product.times]
    split
    · rename_i hs
      rw [h.size] at hs
      rw [type?_binary .mul (a := o.expr) (Nat.zero_le _) (hrank.trans_lt Nat.zero_lt_one), ho.expr,
        htype]
      exact hswap ⟨Value.size_eq_four.mp hs.1, Value.size_eq_sixteen.mp hs.2⟩
    · rw [type?_binary .mul (b := o.expr) (hrank.trans_le (Nat.zero_le _)) Nat.zero_lt_one, htype,
        ho.expr]
      exact hmul
  · rw [size_multiply hy, ← h.size]
    rfl

theorem ofOperands_type (ho : ∀ o ∈ operands, o.Typed c)
    (hv : foldValues Value.multiply (operands.map Operand.value) = some v) :
    (ofOperands operands).type? c = some (.value v.shape) := by
  cases operands with
  | nil => cases hv
  | cons o operands =>
    exact (foldl_shows (Typed c) (Operand.Typed c) (fun p x o y hp ho hy => hp.times ho hy)
      (fun p hp => ho p (by simp [hp])) ⟨(ho o (by simp)).expr, rfl, fun _ => rfl⟩ hv).type

end Product

theorem type?_extremum {d : Dialect} {f : Func} (hf : f = .max ∨ f = .min) {s t : Shape}
    (hs : s ≠ .empty) :
    f.type? d [.value s, .value t] =
      if s ≠ .mat4 ∧ (t = s ∨ t = .scalar) then some (.value s) else none := by
  rcases hf with rfl | rfl <;> cases s <;> cases t <;> first | rfl | exact absurd rfl hs

theorem foldl_call2_none (f : Func) {e : Expr} (he : e.type? c = none) (es : List Expr) :
    (es.foldl (.call2 f) e).type? c = none := by
  induction es generalizing e with
  | nil => exact he
  | cons e' es ih => exact ih (by rw [type?_call2, he]; rfl)

theorem foldl_extremum {f : Func} (hf : f = .max ∨ f = .min) {s : Shape} (hs : s ≠ .empty)
    {e : Expr} (he : e.type? c = some (.value s)) (ho : ∀ o ∈ operands, o.Typed c) :
    ((operands.map Operand.expr).foldl (.call2 f) e).type? c =
      if operands = [] ∨ s ≠ .mat4 ∧ ∀ o ∈ operands, o.value.shape = s ∨ o.value.shape = .scalar
      then some (.value s) else none := by
  induction operands generalizing e with
  | nil => simpa using he
  | cons o operands ih =>
    have htype : (Expr.call2 f e o.expr).type? c = if s ≠ .mat4 ∧ (o.value.shape = s ∨
        o.value.shape = .scalar) then some (.value s) else none := by
      rw [type?_call2, he, (ho o (by simp)).expr]
      exact type?_extremum hf hs
    rw [List.map_cons, List.foldl_cons]
    by_cases hfirst : s ≠ .mat4 ∧ (o.value.shape = s ∨ o.value.shape = .scalar)
    · rw [ih (htype.trans (if_pos hfirst)) fun p hp => ho p (by simp [hp])]
      congr 1
      simp only [List.mem_cons, forall_eq_or_imp, hfirst, ne_eq, not_false_eq_true, true_and,
        reduceCtorEq, false_or]
      exact propext ⟨fun h => h.elim (fun hnil => by simp [hnil]) id, .inr⟩
    · rw [foldl_call2_none f (htype.trans (if_neg hfirst)), if_neg]
      rintro (hnil | ⟨hmat, hall⟩)
      · cases hnil
      · exact hfirst ⟨hmat, hall o (by simp)⟩

/-- Operands of one shape, with scalars among them, fold to a value of that shape. -/
theorem shape_of_foldlM {f : Scalar → Scalar → Scalar} {x : Value}
    (hall : ∀ o ∈ operands, o.value.shape = x.shape ∨ o.value.shape = .scalar)
    (hv : (operands.map Operand.value).foldlM (Value.zip f) x = some v) : v.shape = x.shape := by
  induction operands generalizing x with
  | nil =>
    cases hv
    rfl
  | cons o operands ih =>
    simp only [List.map_cons, List.foldlM_cons, Option.bind_eq_bind] at hv
    obtain ⟨y, hy, hv⟩ := Option.bind_eq_some_iff.mp hv
    have hshape : y.shape = x.shape := by
      have hjoin := Value.join?_of_zip hy
      rcases hall o (by simp) with h | h
      · rw [h, Shape.join?, if_pos rfl, Option.some_inj] at hjoin
        exact hjoin.symm
      · rw [h] at hjoin
        cases hx : x.shape <;> rw [hx] at hjoin <;> exact (Option.some.inj hjoin).symm
    rw [← hshape] at hall ⊢
    exact ih (fun p hp => hall p (by simp [hp])) hv

theorem components?_operands {os : List Operand}
    (hos : ∀ o ∈ os, o.value.shape ≠ .empty ∧ o.size ≤ 4) :
    components? (os.map fun o => .value o.value.shape) =
      some (os.foldr (fun o n => o.size + n) 0) := by
  induction os with
  | nil => rfl
  | cons o os ih =>
    obtain ⟨hempty, hsize⟩ := hos o (by simp)
    have hgeneric : o.value.shape ∈ Shape.generic := by
      have hsize : o.value.shape.size ≤ 4 := hsize
      revert hempty hsize
      cases o.value.shape <;> decide
    rw [List.map_cons, components?, if_pos hgeneric, ih fun p hp => hos p (by simp [hp])]
    rfl

theorem type?_vector {d : Dialect} {args : List Ty} {s : Shape} (hs : s ∈ [.vec2, .vec3, .vec4])
    (hargs : components? args = some s.size) :
    (Func.vec s.size).type? d args = some (.value s) := by
  have htype : (Func.vec s.size).type? d args = construct? s args := by
    revert hs
    cases s <;> first | exact fun _ => rfl | exact fun h => absurd h (by decide)
  rw [htype, construct?, if_pos (.inr hargs)]

theorem size_le_total {os : List Operand} {o : Operand} (ho : o ∈ os) :
    o.size ≤ os.foldr (fun o n => o.size + n) 0 := by
  induction os with
  | nil => cases ho
  | cons p os ih =>
    rw [List.foldr_cons]
    rcases List.mem_cons.mp ho with rfl | ho
    · exact Nat.le_add_right _ _
    · exact (ih ho).trans (Nat.le_add_left _ _)

theorem two_le_total {os : List Operand} (hpos : ∀ o ∈ os, 1 ≤ o.size) (hnil : os ≠ [])
    (hmany : ∀ o, os ≠ [o]) : 2 ≤ os.foldr (fun o n => o.size + n) 0 := by
  obtain ⟨p, rest, rfl⟩ := List.exists_cons_of_ne_nil hnil
  have hrest : rest ≠ [] := fun h => hmany p (h ▸ rfl)
  obtain ⟨q, rest, rfl⟩ := List.exists_cons_of_ne_nil hrest
  have hp : 1 ≤ p.size := hpos p (by simp)
  have hq : 1 ≤ q.size := hpos q (by simp)
  simp only [List.foldr_cons]
  omega

end

theorem read_type (a : Attribute) : (a.read c.stage).type? c = some (.value a.shape) := by
  cases hs : c.stage <;> cases a <;> simp only [Attribute.read, Expr.type?, hs] <;> rfl

theorem rank_read (a : Attribute) (s : Stage) : (a.read s).rank = 0 := by
  cases s <;> rfl

theorem uniform_type {name : String} {s : Shape}
    (h : ∀ stage : Stage, stage.variables.lookup name = some s) :
    (Expr.ident name).type? c = some (.value s) := by
  rw [Expr.type?, h]
  rfl

theorem normal_type : (normal c.stage).type? c = some .vec3 := by
  have hread := read_type (c := c) .normal
  cases hs : c.stage with
  | vertex =>
    rw [hs] at hread
    exact hread
  | fragment =>
    rw [hs] at hread
    exact type?_componentwise (f := .normalize) rfl hread (by decide)

theorem viewDirection_type : (viewDirection c.stage).type? c = some .vec3 := by
  have hread := read_type (c := c) .position
  have hcamera : (Expr.ident "u_camera_position").type? c = some .vec3 :=
    uniform_type (by intro s; cases s <;> rfl)
  have hsum : (Expr.binary .sub (.ident "u_camera_position")
      (Attribute.position.read c.stage)).type? c = some .vec3 := by
    rw [type?_binary .sub (Nat.zero_le _) (by rw [rank_read]; decide), hcamera, hread]
    rfl
  exact type?_componentwise (f := .normalize) rfl hsum (by decide)

theorem fresnel_type : (fresnel c.stage).type? c = some .float := by
  have hclamped : (Expr.call .clamp [.call2 .dot (normal c.stage) (viewDirection c.stage), .zero,
      .one]).type? c = some .float := by
    rw [type?_call3, type?_measured (.inl rfl) normal_type viewDirection_type (by decide)]
    rfl
  have hrest : (Expr.binary .sub .one (.call .clamp [.call2 .dot (normal c.stage)
      (viewDirection c.stage), .zero, .one])).type? c = some .float := by
    rw [Expr.type?, if_pos ⟨by decide, Nat.zero_lt_two⟩, hclamped]
    rfl
  rw [fresnel, type?_call2, hrest]
  rfl

theorem select_type {e : Expr} (he : e.type? c = some .vec4) (hrank : e.rank = 0)
    (mode : Option Operand) :
    (select e mode).type? c =
      some (.value (Channel.ofInput (mode.map Operand.value)).shape) := by
  have hfield : ∀ letters, (Expr.field e letters).type? c = fieldType? letters .vec4 := by
    intro letters
    rw [type?_field hrank, he]
    rfl
  unfold select
  cases Channel.ofInput (mode.map Operand.value) with
  | rgba => exact he
  | rgb => exact hfield "rgb"
  | single i =>
    rcases i with _ | _ | _ | i
    all_goals exact hfield _

theorem select_none {e : Expr} (he : e.type? c = none) (mode : Option Operand) :
    (select e mode).type? c = none := by
  unfold select
  split
  · rw [Expr.type?, he]
    exact ite_self none
  · exact he

end Glsl

end ShaderGraph

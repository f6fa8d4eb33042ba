import ShaderGraph.Proofs.InPlace
import ShaderGraph.Session.InPlace

namespace ShaderGraph

theorem Scalar.toInt_mem (lower upper : Int) (hl : lower ≤ 0) (hu : 0 ≤ upper) (x : Scalar) :
    lower ≤ toInt lower upper x ∧ toInt lower upper x ≤ upper := by
  unfold toInt
  cases parts x with
  | nan => exact ⟨hl, hu⟩
  | infinite negative => cases negative <;> simp <;> omega
  | finite negative m e =>
    simp only
    omega

theorem Overflow.sub_cases (o : Overflow) (a b : Int32) :
    (o = .stops ∧ o.sub a b = none) ∨ o.sub a b = some (a - b) := by
  unfold Overflow.sub
  split
  · rename_i h
    exact .inl ⟨h.1, rfl⟩
  · exact .inr rfl

theorem Overflow.sub_stops (a b : Int32) : Overflow.stops.sub a b = none ↔
    a.toInt - b.toInt < -2147483648 ∨ 2147483648 ≤ a.toInt - b.toInt := by
  simp only [Overflow.sub, true_and, BitVec.ssubOverflow, ite_eq_left_iff, reduceCtorEq, imp_false,
    Bool.or_eq_true, Decidable.not_not, decide_eq_true_eq]
  change 2147483648 ≤ a.toInt - b.toInt ∨ a.toInt - b.toInt < -2147483648 ↔ _
  omega

namespace Channel

theorem toInt_modeNumber (mode : Scalar) : (modeNumber mode).toInt =
    Scalar.toInt (-2147483648) 2147483647 (Scalar.round mode) := by
  have h := Scalar.toInt_mem (-2147483648) 2147483647 (by omega) (by omega) (Scalar.round mode)
  change (Int32.ofInt (Scalar.toInt (-2147483648) 2147483647 (Scalar.round mode))).toInt = _
  exact Int32.toInt_ofInt_of_le h.1 (by omega)

theorem ofModeIn_cases (o : Overflow) (mode : Scalar) :
    (o = .stops ∧ ofModeIn o mode = none) ∨ ofModeIn o mode = some (ofMode mode) := by
  simp only [ofModeIn, ofMode]
  split
  · exact .inr rfl
  · split
    · exact .inr rfl
    · rcases o.sub_cases (modeNumber mode) 2 with ⟨ho, h⟩ | h
      · exact .inl ⟨ho, by rw [h]; rfl⟩
      · exact .inr (by rw [h]; rfl)

/-- A build that checks stops at the modes from which two cannot be taken. -/
theorem ofModeIn_stops {mode : Scalar} : ofModeIn .stops mode = none ↔
    Scalar.toInt (-2147483648) 2147483647 (Scalar.round mode) < -2147483646 := by
  have hrange : (modeNumber mode).toInt < 2147483648 := (modeNumber mode).toInt_lt
  rw [← toInt_modeNumber]
  unfold ofModeIn
  by_cases h0 : modeNumber mode = 0
  · simp [h0]
  by_cases h1 : modeNumber mode = 1
  · simp [h1]
  simp only [h0, h1, ↓reduceIte, Option.map_eq_none_iff, Overflow.sub_stops]
  have htwo : (2 : Int32).toInt = 2 := rfl
  omega

end Channel

/-- The channels of a node are asked for by so low a number that two cannot be taken from it in 32
bits. -/
def Kind.AsksTooLow (kind : Kind) (operands : Slots Value) : Prop :=
  ∃ slot v, (kind = .textureSample ∧ slot = 1 ∨ kind = .vertexColor ∧ slot = 0) ∧
    operands.at? slot = some v ∧
    Scalar.toInt (-2147483648) 2147483647 (Scalar.round (v.get 0)) < -2147483646

theorem Channel.ofInputIn_isNone {o : Overflow} {v : Option Value} :
    (ofInputIn o v).isNone = true ↔ o = .stops ∧ ∃ x, v = some x ∧
      Scalar.toInt (-2147483648) 2147483647 (Scalar.round (x.get 0)) < -2147483646 := by
  cases v with
  | none => simp [ofInputIn]
  | some x =>
    rw [ofInputIn, Option.isNone_iff_eq_none]
    rcases ofModeIn_cases o (x.get 0) with ⟨rfl, h⟩ | h
    · simp [ofModeIn_stops]
    · cases o <;> simp [h, ← ofModeIn_stops]

/-- Only a build that checks stops, and only over a number that is too low. -/
theorem Kind.stops_iff {o : Overflow} {kind : Kind} {operands : Slots Value} :
    kind.stops o operands = true ↔ o = .stops ∧ kind.AsksTooLow operands := by
  unfold Kind.stops AsksTooLow
  split
  · rw [Channel.ofInputIn_isNone]
    simp
  · rw [Channel.ofInputIn_isNone]
    simp
  · rename_i hsample hcolor
    refine iff_of_false (by simp) ?_
    rintro ⟨-, slot, v, (⟨hk, -⟩ | ⟨hk, -⟩), -⟩
    · exact hsample hk
    · exact hcolor hk

/-- Steps that either stop or do what is done without stopping: a run of them stops where one of
them does, and otherwise does the same. What the steps keep is `P`. -/
theorem foldlM_stopping {σ α : Type} {f : σ → α → Option σ} {stops : σ → α → Prop}
    {step : σ → α → σ} {P : σ → Prop} (hstep : ∀ s a, P s → P (step s a))
    (hf : ∀ s a, P s → (stops s a ∧ f s a = none) ∨ (¬ stops s a ∧ f s a = some (step s a)))
    (xs : List α) {s : σ} (hs : P s) :
    (xs.foldlM f s = none ↔
        ∃ before x after, xs = before ++ x :: after ∧ stops (before.foldl step s) x) ∧
      (xs.foldlM f s = none ∨ xs.foldlM f s = some (xs.foldl step s)) := by
  induction xs generalizing s with
  | nil => simp
  | cons x xs ih =>
    rcases hf s x hs with ⟨hstops, hx⟩ | ⟨hgoes, hx⟩
    · have hnone : (x :: xs).foldlM f s = none := by rw [List.foldlM_cons, hx]; rfl
      exact ⟨iff_of_true hnone ⟨[], x, xs, rfl, hstops⟩, .inl hnone⟩
    · have hrest : (x :: xs).foldlM f s = xs.foldlM f (step s x) := by
        rw [List.foldlM_cons, hx]
        rfl
      obtain ⟨hnone, hcases⟩ := ih (hstep s x hs)
      rw [hrest]
      refine ⟨hnone.trans ⟨?_, ?_⟩, hcases⟩
      · rintro ⟨before, y, after, rfl, hy⟩
        exact ⟨x :: before, y, after, rfl, hy⟩
      · rintro ⟨before, y, after, hsplit, hy⟩
        cases before with
        | nil =>
          cases hsplit
          exact absurd hy hgoes
        | cons z before =>
          cases hsplit
          exact ⟨before, y, after, rfl, hy⟩

namespace Graph

variable {g g' : Graph} {o : Overflow}

/-- A build that checks stops at a node that is asked for channels by too low a number. -/
def StopsAt (o : Overflow) (g : Graph) (values : NodeId → Option Value) (id : NodeId) : Prop :=
  o = .stops ∧ ∃ n, g.node? id = some n ∧ n.kind.AsksTooLow ((g.inputsOf id).apply values)

theorem stopsAt_iff {n : Node} {values : NodeId → Option Value} {id : NodeId}
    (hn : g.node? id = some n) :
    g.StopsAt o values id ↔ n.kind.stops o ((g.inputsOf id).apply values) = true := by
  simp only [StopsAt, hn, Option.some.injEq, exists_eq_left', Kind.stops_iff]

theorem enterValueIn_cases (o : Overflow) (g : Graph) (env : Valuation) (id : NodeId) :
    (g.StopsAt o (fun i => env.lookup i) id ∧ g.enterValueIn o g.links env id = none) ∨
      (¬ g.StopsAt o (fun i => env.lookup i) id ∧
        g.enterValueIn o g.links env id = some (g.enterValue g.links env id)) := by
  unfold enterValueIn enterValue evaluateIn
  cases hn : g.node? id with
  | none => simp [StopsAt, hn]
  | some n =>
    have hinputs : inputsFrom g.links id = g.inputsOf id := rfl
    rw [stopsAt_iff hn]
    cases hs : n.kind.stops o ((g.inputsOf id).apply fun i => env.lookup i) <;> simp [hinputs, hs]

/-- What a pass from `g` to `g'` finds with `x` when it visits a node: what `x` held before the
pass, or has been given in it. -/
def seen (g g' : Graph) (order : Order) (id x : NodeId) : Option Value :=
  match order with
  | .topological => g'.output? x
  | .storage => if g.ids.idxOf x < g.ids.idxOf id then g'.output? x else g.output? x

/-- A pass in this order comes to a node that is asked for channels by too low a number. -/
def Strains (g : Graph) (order : Order) : Prop :=
  ∃ g' report, g.recompute order = .ok (g', report) ∧
    ∃ n ∈ g.nodes, n.kind.AsksTooLow ((g.inputsOf n.id).apply (g.seen g' order n.id))

/-- Halfway through a list of distinct nodes those before have their new values and the others
those of before. -/
theorem lookup_foldl_before {before after : List NodeId} {id : NodeId}
    (honce : (before ++ id :: after).Nodup) (env : Valuation) (x : NodeId) :
    (before.foldl (g.enterValue g.links) env).lookup x =
      if (before ++ id :: after).idxOf x < (before ++ id :: after).idxOf id then
        ((before ++ id :: after).foldl (g.enterValue g.links) env).lookup x
      else env.lookup x := by
  obtain ⟨_, _, hapart⟩ := List.nodup_append.mp honce
  have hid : id ∉ before := fun hm => hapart id hm id (by simp) rfl
  rw [List.idxOf_append_of_notMem hid, List.idxOf_cons_self, Nat.add_zero]
  by_cases hx : x ∈ before
  · have hlt := List.idxOf_lt_length_of_mem hx
    rw [List.idxOf_append_of_mem hx, if_pos hlt, List.foldl_append,
      lookup_foldl_of_notMem g fun hm => hapart x hx x hm rfl]
  · rw [List.idxOf_append_of_notMem hx, if_neg (by omega), lookup_foldl_of_notMem g hx]

/-- What a node finds with its producers at its turn. -/
theorem operands_seen (hw : g.WellFormed) {sorted before after : List NodeId} {id : NodeId}
    (hs : g.Sorted sorted) {order : Order}
    (hsplit : order.arrange sorted g.ids = before ++ id :: after) :
    ((g.inputsOf id).apply fun x => (before.foldl (g.enterValue g.links) g.valuation).lookup x) =
      (g.inputsOf id).apply (g.seen (g.shown
        ((order.arrange sorted g.ids).foldl (g.enterValue g.links) g.valuation)) order id) := by
  have honce : (order.arrange sorted g.ids).Nodup := by
    cases order with
    | topological => exact hs.once
    | storage => exact hw.id_once
  have hfinal := ((covered_valuation g).foldl (order.arrange sorted g.ids)).output?_shown
  apply Slots.ext_at?
  intro i
  rw [Slots.at?_apply, Slots.at?_apply]
  cases hi : (g.inputsOf id).at? i with
  | none => rfl
  | some x =>
    rw [Option.bind_some, Option.bind_some, lookup_foldl_before (hsplit ▸ honce), ← hsplit,
      ← hfinal, lookup_valuation]
    cases order with
    | topological => exact if_pos (hs.before _ ((input_iff hw).mp hi))
    | storage => rfl

/-- A build stops in a pass if it checks and the pass strains it; otherwise the pass is the one of
any build. -/
theorem recomputeIn_spec (hw : g.WellFormed) (o : Overflow) (order : Order) :
    (g.recomputeIn o order = none ↔ o = .stops ∧ g.Strains order) ∧
      (g.recomputeIn o order = none ∨ g.recomputeIn o order = some (g.recompute order)) := by
  obtain ⟨sorted, hsorted, hs⟩ := topologicalOrder_ok hw
  obtain ⟨hnone, hcases⟩ := foldlM_stopping (P := fun _ => True) (fun _ _ _ => trivial)
    (fun env id _ => enterValueIn_cases o g env id) (order.arrange sorted g.ids)
    (s := g.valuation) trivial
  have hmem : ∀ id, id ∈ order.arrange sorted g.ids ↔ id ∈ g.ids := by
    cases order with
    | topological => exact hs.mem_iff
    | storage => exact fun _ => Iff.rfl
  unfold recomputeIn Strains recompute
  rw [hsorted]
  constructor
  · refine Option.bind_eq_none_iff.trans (Iff.trans ?_ (hnone.trans ⟨?_, ?_⟩))
    · cases (order.arrange sorted g.ids).foldlM (g.enterValueIn o g.links) g.valuation <;> simp
    · rintro ⟨before, id, after, hsplit, ho, n, hn, hlow⟩
      obtain ⟨hmem, rfl⟩ := mem_of_node? hn
      rw [operands_seen hw hs hsplit] at hlow
      exact ⟨ho, _, _, rfl, n, hmem, hlow⟩
    · rintro ⟨ho, g', report, hr, n, hn, hlow⟩
      cases hr
      obtain ⟨before, after, hsplit⟩ :=
        List.append_of_mem ((hmem n.id).mpr (mem_ids.mpr ⟨n, hn, rfl⟩))
      refine ⟨before, n.id, after, hsplit, ho, n, node?_of_mem hw.id_once hn, ?_⟩
      rw [operands_seen hw hs hsplit]
      exact hlow
  · rcases hcases with h | h
    · exact .inl (by simp only [h]; rfl)
    · exact .inr (by simp only [h]; rfl)

theorem evaluateNodeIn_cases (o : Overflow) {env : Valuation} (h : g.Covered env) (id : NodeId) :
    (g.StopsAt o (fun i => env.lookup i) id ∧ (g.shown env).evaluateNodeIn o id = none) ∨
      (¬ g.StopsAt o (fun i => env.lookup i) id ∧
        (g.shown env).evaluateNodeIn o id = some ((g.shown env).evaluateNode id)) := by
  have hvalues : (g.shown env).output? = fun i => env.lookup i := funext h.output?_shown
  unfold evaluateNodeIn evaluateNode evaluateIn
  rw [node?_shown, hvalues]
  cases hn : g.node? id with
  | none => simp [StopsAt, hn]
  | some n =>
    rw [stopsAt_iff hn]
    have hinputs : (refresh g.links env n).inputs = g.inputsOf id := by
      rw [← (mem_of_node? hn).2]
      rfl
    have hkind : (refresh g.links env n).kind = n.kind := rfl
    cases hs : n.kind.stops o ((g.inputsOf id).apply fun i => env.lookup i) <;>
      simp [hinputs, hkind, hs]

namespace InPlace

theorem run_settleIn_cases (o : Overflow) {env : Valuation} (h : g.Covered env) (id : NodeId) :
    (g.StopsAt o (fun i => env.lookup i) id ∧
        (settleIn o id).run (g.shown env) = .error .stopped (g.shown env)) ∨
      (¬ g.StopsAt o (fun i => env.lookup i) id ∧
        (settleIn o id).run (g.shown env) = .ok () (g.shown (g.enterValue g.links env id))) := by
  unfold settleIn
  rw [run_bind_ok (EStateM.run_get _)]
  rcases evaluateNodeIn_cases o h id with ⟨hstops, hvalue⟩ | ⟨hgoes, hvalue⟩
  · exact .inl ⟨hstops, by rw [hvalue]; rfl⟩
  · exact .inr ⟨hgoes, by rw [hvalue, ← h.settle id]; rfl⟩

/-- In place or not, a build stops at the same nodes. -/
theorem run_forM_settleIn (o : Overflow) (visited : List NodeId) {env : Valuation}
    (h : g.Covered env) :
    (visited.foldlM (g.enterValueIn o g.links) env = none ∧
        ∃ g', (visited.forM (settleIn o)).run (g.shown env) = .error .stopped g') ∨
      ∃ env', visited.foldlM (g.enterValueIn o g.links) env = some env' ∧
        (visited.forM (settleIn o)).run (g.shown env) = .ok () (g.shown env') := by
  induction visited generalizing env with
  | nil => exact .inr ⟨env, rfl, rfl⟩
  | cons id visited ih =>
    rcases enterValueIn_cases o g env id with ⟨hstops, hvalue⟩ | ⟨hgoes, hvalue⟩
    · rcases run_settleIn_cases o h id with ⟨-, hrun⟩ | ⟨hgoes, -⟩
      · refine .inl ⟨by rw [List.foldlM_cons, hvalue]; rfl, _, run_bind_error hrun _⟩
      · exact absurd hstops hgoes
    · rcases run_settleIn_cases o h id with ⟨hstops, -⟩ | ⟨-, hrun⟩
      · exact absurd hstops hgoes
      · have hfold : (id :: visited).foldlM (g.enterValueIn o g.links) env =
            visited.foldlM (g.enterValueIn o g.links) (g.enterValue g.links env id) := by
          rw [List.foldlM_cons, hvalue]
          rfl
        have hforM : ((id :: visited).forM (settleIn o)).run (g.shown env) =
            (visited.forM (settleIn o)).run (g.shown (g.enterValue g.links env id)) :=
          run_bind_ok hrun _
        rw [hfold, hforM]
        exact ih (h.enterValue id)

theorem run_recomputeIn (hw : g.WellFormed) (o : Overflow) (order : Order) :
    (g.recomputeIn o order = none ∧ ∃ g', (recomputeIn o order).run g = .error .stopped g') ∨
      ∃ g' report, g.recomputeIn o order = some (.ok (g', report)) ∧
        (recomputeIn o order).run g = .ok report g' := by
  obtain ⟨sorted, hsorted, -⟩ := topologicalOrder_ok hw
  unfold recomputeIn Graph.recomputeIn
  rw [run_recomputeWith _ _ hw.id_once, hsorted]
  simp only
  rcases run_forM_settleIn o (order.arrange sorted g.ids) (covered_valuation g) with
    ⟨hnone, g', hrun⟩ | ⟨env, hsome, hrun⟩
  · exact .inl ⟨by rw [hnone]; rfl, g', by rw [hrun]⟩
  · exact .inr ⟨_, _, by rw [hsome]; rfl, by rw [hrun]; rfl⟩

end InPlace

end Graph

end ShaderGraph

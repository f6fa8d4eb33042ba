import ShaderGraph.Glsl.Compile
import ShaderGraph.Proofs.Passes

namespace ShaderGraph.Glsl

open Relation

section Lists

variable {α β : Type} [DecidableEq α] [DecidableEq β]

theorem eraseDups_of_nodup {xs : List α} (h : xs.Nodup) : xs.eraseDups = xs := by
  induction xs with
  | nil => rfl
  | cons x xs ih =>
    obtain ⟨hx, h⟩ := List.nodup_cons.mp h
    have hkeep : xs.filter (fun y => !y == x) = xs := by
      rw [List.filter_eq_self]
      intro y hy
      simpa using fun he : y = x => hx (he ▸ hy)
    rw [List.eraseDups_cons, hkeep, ih h]

theorem nodup_eraseDups (xs : List α) : xs.eraseDups.Nodup := by
  cases xs with
  | nil => exact .nil
  | cons x xs =>
    rw [List.eraseDups_cons, List.nodup_cons]
    exact ⟨by simp, nodup_eraseDups (xs.filter fun y => !y == x)⟩
termination_by xs.length
decreasing_by
  exact Nat.lt_succ_of_le (List.length_filter_le _ _)

/-- Names that keep the entries of a list apart keep its repetitions. -/
theorem eraseDups_map {k : α → β} {xs : List α} (hk : ∀ x ∈ xs, ∀ y ∈ xs, k x = k y → x = y) :
    (xs.map k).eraseDups = xs.eraseDups.map k := by
  match xs with
  | [] => rfl
  | x :: xs =>
    have hfilter : (xs.map k).filter (fun y => !y == k x) = (xs.filter fun y => !y == x).map k := by
      rw [List.filter_map]
      refine congrArg (List.map k) (List.filter_congr fun y hy => ?_)
      have hsame : k y = k x ↔ y = x :=
        ⟨hk y (by simp [hy]) x (by simp), fun h => congrArg k h⟩
      simp [Bool.beq_eq_decide_eq, hsame]
    rw [List.map_cons, List.eraseDups_cons, List.eraseDups_cons, List.map_cons, hfilter,
      eraseDups_map fun y hy z hz => hk y (by simp [List.mem_of_mem_filter hy]) z
        (by simp [List.mem_of_mem_filter hz])]
termination_by xs.length
decreasing_by
  exact Nat.lt_succ_of_le (List.length_filter_le _ _)

theorem eraseDups_concat (xs : List α) (x : α) :
    (xs ++ [x]).eraseDups = if x ∈ xs then xs.eraseDups else xs.eraseDups ++ [x] := by
  rw [List.eraseDups_append]
  by_cases hx : x ∈ xs
  · simp [hx, List.removeAll]
  · simp [hx, List.removeAll, List.eraseDups_cons]

end Lists

variable {g : Graph}

theorem input_of_operand {id : NodeId} {i : Nat} {o : Operand}
    (h : (operandsOf g g.links id).at? i = some o) :
    (g.inputsOf id).at? i = some o.id ∧ g.output? o.id = some o.value := by
  rw [operandsOf, Slots.at?_apply] at h
  obtain ⟨x, hx, h⟩ := Option.bind_eq_some_iff.mp h
  obtain ⟨v, hv, rfl⟩ := Option.map_eq_some_iff.mp h
  exact ⟨hx, hv⟩

theorem input_past_limit (hw : g.WellFormed) {n : Node} (hn : n ∈ g.nodes) {i : Nat}
    (hi : n.kind.inputLimit ≤ i) : (g.inputsOf n.id).at? i = none := by
  cases hx : (g.inputsOf n.id).at? i with
  | none => rfl
  | some x =>
    obtain ⟨m, hm, hid, hlt⟩ := hw.wired.target _ ((Graph.input_iff hw).mp hx)
    have hmn : m = n := List.inj_on_of_nodup_map hw.id_once hm hn hid
    have hle := (hw.formed n hn).limit_le_inputLimit
    subst hmn
    simp only at hlt
    omega

theorem operand_past_limit (hw : g.WellFormed) {n : Node} (hn : n ∈ g.nodes) {i : Nat}
    (hi : n.kind.inputLimit ≤ i) : (operandsOf g g.links n.id).at? i = none := by
  have hinput : (inputsFrom g.links n.id).at? i = none := input_past_limit hw hn hi
  rw [operandsOf, Slots.at?_apply, hinput, Option.bind_none]

theorem producers_of_literal (hw : g.WellFormed) {n : Node} (hn : n ∈ g.nodes)
    (hl : n.kind.isLiteral = true) : g.producers n.id = [] := by
  have hlimit : n.kind.inputLimit = 0 := by
    revert hl
    cases n.kind <;> decide
  rw [Graph.producers, List.eq_nil_iff_forall_not_mem]
  intro x hx
  obtain ⟨i, hi⟩ := Slots.mem_filled.mp hx
  rw [input_past_limit hw hn (by omega)] at hi
  cases hi

theorem literalDeclaration_cases (n : Node) :
    literalDeclaration n = .uniform n.id n.literal.shape ∨
      literalDeclaration n = .constant n.id n.literal := by
  unfold literalDeclaration
  cases n.property
  · exact .inr rfl
  · exact .inl rfl

/-- What a node adds to the declarations, unless it is there already. -/
def declaration? (n : Node) (operands : Slots Operand) : Option Declaration :=
  if n.kind.isLiteral then some (literalDeclaration n)
  else if n.kind = .textureSample then
    some (.sampler (textureUnit ((operands.at? 0).map Operand.value)))
  else none

theorem declaration?_eq_some {n : Node} {operands : Slots Operand} {x : Declaration} :
    declaration? n operands = some x ↔
      (n.kind.isLiteral = true ∧ x = literalDeclaration n) ∨
        (n.kind = .textureSample ∧
          x = .sampler (textureUnit ((operands.at? 0).map Operand.value))) := by
  unfold declaration?
  by_cases hl : n.kind.isLiteral = true
  · rw [if_pos hl, Option.some.injEq]
    constructor
    · rintro rfl
      exact .inl ⟨hl, rfl⟩
    · rintro (⟨_, rfl⟩ | ⟨hk, _⟩)
      · rfl
      · rw [hk] at hl
        cases hl
  · rw [if_neg hl]
    by_cases hk : n.kind = .textureSample
    · rw [if_pos hk, Option.some.injEq]
      constructor
      · rintro rfl
        exact .inr ⟨hk, rfl⟩
      · rintro (⟨hl', _⟩ | ⟨_, rfl⟩)
        · exact absurd hl' hl
        · rfl
    · rw [if_neg hk]
      exact ⟨fun h => (nomatch h), fun h => h.elim (fun h => absurd h.1 hl) fun h => absurd h.1 hk⟩

def Declaration.unit? : Declaration → Option Nat
  | constant .. | uniform .. => none
  | sampler unit => some unit

/-- The declarations of nodes one after the other, as often as they are called for. -/
def declared (g : Graph) (ids : List NodeId) : List Declaration :=
  (ids.filterMap g.node?).filterMap fun n => declaration? n (operandsOf g g.links n.id)

namespace Hoisted

def along (g : Graph) (w : Walk) : Hoisted where
  visited := w.entered
  samplers := ((declared g w.preorder).eraseDups.filterMap Declaration.unit?).reverse
  lines := (declared g w.preorder).eraseDups

theorem mem_samplers_along {w : Walk} {unit : Nat} :
    unit ∈ (along g w).samplers ↔ .sampler unit ∈ declared g w.preorder := by
  simp only [along, List.mem_reverse, List.mem_filterMap, List.mem_eraseDups]
  constructor
  · rintro ⟨x, hx, hunit⟩
    cases x with
    | sampler u =>
      cases hunit
      exact hx
    | constant id v => cases hunit
    | uniform id shape => cases hunit
  · intro hx
    exact ⟨_, hx, rfl⟩

/-- A literal is declared by the node itself and no other. -/
theorem literal_notMem {ids : List NodeId} {n : Node} (hn : n.id ∉ ids) :
    literalDeclaration n ∉ declared g ids := by
  intro hmem
  obtain ⟨m, hm, hdeclares⟩ := List.mem_filterMap.mp hmem
  obtain ⟨id, hid, hfound⟩ := List.mem_filterMap.mp hm
  have hmid : m.id = n.id := by
    rcases declaration?_eq_some.mp hdeclares with ⟨-, hsame⟩ | ⟨-, hsame⟩
    · rcases literalDeclaration_cases m with hm' | hm' <;>
        rcases literalDeclaration_cases n with hn' | hn' <;>
        rw [hm', hn'] at hsame <;> simp_all
    · rcases literalDeclaration_cases n with hn' | hn' <;> rw [hn'] at hsame <;> cases hsame
  rw [(Graph.mem_of_node? hfound).2] at hmid
  exact hn (hmid ▸ hid)

theorem declared_enter {w : Walk} {id : NodeId} {n : Node} (hn : g.node? id = some n) :
    declared g { w with entered := id :: w.entered }.preorder =
      declared g w.preorder ++ (declaration? n (operandsOf g g.links id)).toList := by
  have hid := (Graph.mem_of_node? hn).2
  simp only [declared, Walk.preorder, List.reverse_cons, List.filterMap_append,
    List.filterMap_cons_some hn, List.filterMap_nil]
  cases h : declaration? n (operandsOf g g.links id) with
  | none => simp [hid, h]
  | some x => simp [hid, h]

/-- What is done on entering a node keeps the declarations in step with the walk. -/
theorem along_enter {w : Walk} {id : NodeId} {n : Node} (hn : g.node? id = some n)
    (hnew : id ∉ w.entered) :
    along g { w with entered := id :: w.entered } =
      if n.kind.isLiteral then ((along g w).enter id).declare (literalDeclaration n)
      else if n.kind = .textureSample then
        ((along g w).enter id).declareSampler
          (textureUnit (((operandsOf g g.links id).at? 0).map Operand.value))
      else (along g w).enter id := by
  have hid := (Graph.mem_of_node? hn).2
  have hlines := declared_enter (w := w) hn
  unfold declaration? at hlines
  split at hlines
  · rename_i hl
    have hfresh : literalDeclaration n ∉ declared g w.preorder :=
      literal_notMem (by simpa [Walk.preorder, hid] using hnew)
    have hunit : (literalDeclaration n).unit? = none := by
      rcases literalDeclaration_cases n with h | h <;> rw [h] <;> rfl
    rw [if_pos hl]
    simp [along, enter, declare, hlines, eraseDups_concat, hfresh, hunit]
  · rename_i hl
    rw [if_neg hl]
    split at hlines
    · rename_i hk
      rw [if_pos hk, declareSampler]
      by_cases hmem : .sampler (textureUnit (((operandsOf g g.links id).at? 0).map Operand.value)) ∈
          declared g w.preorder
      · have hany := mem_samplers_along.mpr hmem
        rw [if_pos (by simpa [enter] using hany)]
        simp [along, enter, hlines, eraseDups_concat, hmem]
      · have hany := mt mem_samplers_along.mp hmem
        rw [if_neg (by simpa [enter] using hany)]
        simp [along, enter, declare, hlines, eraseDups_concat, hmem, Declaration.unit?]
    · rename_i hk
      rw [if_neg hk]
      simp [along, enter, hlines]

end Hoisted

theorem hoist_visited {room : Nat} (w : Walk) {id : NodeId} (h : id ∈ w.entered) :
    hoist g g.links room (.along g w) id = .ok (.along g w) := by
  unfold hoist
  rw [if_pos (by simpa [Hoisted.along] using h)]

/-- What goes along with every visit goes along with several in a row. -/
theorem foldlM_along {σ : Type} {f : σ → NodeId → Except CompileError σ} {view : Walk → σ}
    {room : Nat} {path ids : List NodeId}
    (hvisit : ∀ id ∈ ids, ∀ w w' : Walk, Walk.Tracked path w →
      Walk.visit g.producers room path w id = .ok w' → f (view w) id = .ok (view w'))
    {w w' : Walk} (ht : Walk.Tracked path w)
    (h : ids.foldlM (Walk.visit g.producers room path) w = .ok w') :
    ids.foldlM f (view w) = .ok (view w') := by
  induction ids generalizing w with
  | nil =>
    cases h
    rfl
  | cons id ids ih =>
    obtain ⟨w₁, hfirst, hrest⟩ := except_bind_eq_ok.mp h
    refine except_bind_eq_ok.mpr ⟨_, hvisit id (by simp) w w₁ ht hfirst, ?_⟩
    exact ih (fun x hx => hvisit x (by simp [hx])) (ht.visit hfirst) hrest

/-- The walk for the declarations goes the way of the graph's own. It knows a node again once it has
entered it, the other only when it has left it; on a path without repetitions that is the same. -/
theorem hoist_along (hw : g.WellFormed) (room : Nat) {path : List NodeId} {w w' : Walk}
    {id : NodeId}
    (ht : Walk.Tracked path w) (hid : id ∈ g.ids)
    (h : Walk.visit g.producers room path w id = .ok w') :
    hoist g g.links room (.along g w) id = .ok (.along g w') := by
  induction room generalizing path w w' id with
  | zero =>
    obtain ⟨hleft, rfl⟩ | ⟨-, -, _, _, hroom, _⟩ := Walk.visit_cases h
    · exact hoist_visited _ ((ht id).mpr (.inl hleft))
    · cases hroom
  | succ room ih =>
    obtain ⟨hleft, rfl⟩ | ⟨hleft, hpath, _, w₁, hroom, hfold, rfl⟩ := Walk.visit_cases h
    · exact hoist_visited _ ((ht id).mpr (.inl hleft))
    cases hroom
    have hnew : id ∉ w.entered := fun hm => ((ht id).mp hm).elim hleft hpath
    have hbelow : (g.producers id).foldlM (hoist g g.links room)
        (.along g { w with entered := id :: w.entered }) = .ok (.along g w₁) :=
      foldlM_along (fun p hp _ _ hv hvisit => ih hv (hw.field.closed id hid p hp) hvisit)
        (ht.enter id) hfold
    obtain ⟨n, hn, rfl⟩ := Graph.mem_ids.mp hid
    have hfound := Graph.node?_of_mem hw.id_once hn
    have henter := Hoisted.along_enter hfound hnew
    unfold hoist
    rw [if_neg (by simpa [Hoisted.along] using hnew), hfound]
    simp only
    by_cases hl : n.kind.isLiteral = true
    · rw [producers_of_literal hw hn hl] at hfold
      cases hfold
      rw [if_pos hl]
      exact congrArg Except.ok (henter.trans (if_pos hl)).symm
    · rw [henter, if_neg hl] at hbelow
      rw [if_neg hl]
      exact hbelow

def hasValue (g : Graph) (id : NodeId) : Bool := (g.node? id).any Node.isValid

theorem hasValue_eq_true {id : NodeId} :
    hasValue g id = true ↔ ∃ n, g.node? id = some n ∧ n.isValid = true := by
  unfold hasValue
  cases g.node? id <;> simp

def stated (g : Graph) (d : Dialect) (s : Stage) (ids : List NodeId) : List Statement :=
  (ids.filterMap g.node?).flatMap fun n => statements d s n (operandsOf g g.links n.id)

variable {d : Dialect} {s : Stage}

def Emission.along (g : Graph) (d : Dialect) (s : Stage) (path : List NodeId) (w : Walk) :
    Emission := ⟨w.left, path, stated g d s w.postorder⟩

theorem stated_leave {w : Walk} {id : NodeId} {n : Node} (hn : g.node? id = some n) :
    stated g d s { w with left := id :: w.left }.postorder =
      stated g d s w.postorder ++ statements d s n (operandsOf g g.links id) := by
  have hid := (Graph.mem_of_node? hn).2
  simp [stated, Walk.postorder, hn, hid]

def settled (g : Graph) (new : List NodeId) (e : Emission) : Except CompileError Emission :=
  match new.reverse.find? fun id => !hasValue g id with
  | some id => .error (.unresolved id)
  | none => .ok e

/-- The first node without a value that was come to stays the first. -/
theorem settled_append (more new : List NodeId) (e e' : Emission) :
    (settled g new e >>= fun _ => settled g more e') = settled g (more ++ new) e' := by
  simp only [settled, List.reverse_append, List.find?_append]
  cases new.reverse.find? fun id => !hasValue g id with
  | none => rfl
  | some x => rfl

theorem settled_map (new : List NodeId) (f : Emission → Emission) (e : Emission) :
    (settled g new e >>= fun e => .ok (f e)) = settled g new (f e) := by
  unfold settled
  cases new.reverse.find? fun id => !hasValue g id with
  | none => rfl
  | some x => rfl

theorem settled_ok {new : List NodeId} {e e' : Emission} (h : settled g new e = .ok e') :
    e' = e := by
  unfold settled at h
  cases hfind : new.reverse.find? fun id => !hasValue g id with
  | none =>
    rw [hfind] at h
    exact (Except.ok.inj h).symm
  | some x =>
    rw [hfind] at h
    cases h

def plainly (d : Dialect) (s : Stage) (n : Node) (operands : Slots Operand) :
    Except CompileError (List Statement) := pure (statements d s n operands)

section Emit

variable {m : Type → Type} [Monad m] [MonadExceptOf CompileError m]
  {write : Node → Slots Operand → m (List Statement)} {room : Nat} {e : Emission} {id : NodeId}

theorem emit_emitted (h : id ∈ e.emitted) : emit write g g.links room e id = pure e := by
  unfold emit
  rw [if_pos (by simpa using h)]

theorem emit_inProgress (he : id ∉ e.emitted) (hp : id ∈ e.inProgress) :
    emit write g g.links room e id = throw (.cycle ⟨id⟩) := by
  unfold emit
  rw [if_neg (by simpa using he), if_pos (by simpa using hp)]

theorem emit_lacking (he : id ∉ e.emitted) (hp : id ∉ e.inProgress)
    (h : hasValue g id = false) : emit write g g.links room e id = throw (.unresolved id) := by
  unfold emit
  rw [if_neg (by simpa using he), if_neg (by simpa using hp)]
  cases hn : g.node? id with
  | none => rfl
  | some n =>
    have hv : n.isValid = false := by simpa [hasValue, hn] using h
    simp [hv]

theorem emit_crowded (he : id ∉ e.emitted) (hp : id ∉ e.inProgress) (h : hasValue g id = true) :
    emit write g g.links 0 e id = throw (.cycle ⟨id⟩) := by
  obtain ⟨n, hn, hv⟩ := hasValue_eq_true.mp h
  unfold emit
  rw [if_neg (by simpa using he), if_neg (by simpa using hp), hn]
  simp [hv]

theorem emit_valid (he : id ∉ e.emitted) (hp : id ∉ e.inProgress) {n : Node}
    (hn : g.node? id = some n) (hv : n.isValid = true) :
    emit write g g.links (room + 1) e id = do
      let e ← (g.producers id).foldlM (emit write g g.links room)
        { e with inProgress := id :: e.inProgress }
      let lines ← write n (operandsOf g g.links id)
      return ⟨id :: e.emitted, e.inProgress.erase id, e.lines ++ lines⟩ := by
  conv => lhs; unfold emit
  rw [if_neg (by simpa using he), if_neg (by simpa using hp), hn]
  simp only [hv, Bool.not_true, Bool.false_eq_true, ↓reduceIte]
  rfl

end Emit

theorem foldlM_emit {room : Nat} {path ids : List NodeId}
    (hvisit : ∀ id ∈ ids, ∀ w w' : Walk, Walk.visit g.producers room path w id = .ok w' →
      ∃ new, w'.entered = new ++ w.entered ∧
        emit (plainly d s) g g.links room (.along g d s path w) id =
          settled g new (.along g d s path w'))
    {w w' : Walk} (h : ids.foldlM (Walk.visit g.producers room path) w = .ok w') :
    ∃ new, w'.entered = new ++ w.entered ∧
      ids.foldlM (emit (plainly d s) g g.links room) (.along g d s path w) =
        settled g new (.along g d s path w') := by
  induction ids generalizing w with
  | nil =>
    cases h
    exact ⟨[], rfl, rfl⟩
  | cons id ids ih =>
    obtain ⟨w₁, hfirst, hrest⟩ := except_bind_eq_ok.mp h
    obtain ⟨new, hnew, hemit⟩ := hvisit id (by simp) w w₁ hfirst
    obtain ⟨more, hmore, hemits⟩ := ih (fun x hx => hvisit x (by simp [hx])) hrest
    refine ⟨more ++ new, by rw [hmore, hnew, List.append_assoc], ?_⟩
    rw [List.foldlM_cons, hemit, ← settled_append more new (.along g d s path w₁)]
    cases hfound : settled g new (.along g d s path w₁) with
    | error e => rfl
    | ok e =>
      obtain rfl := settled_ok hfound
      exact hemits

/-- The walk for the statements goes the way of the graph's own and ends where that one enters the
first node without a value. -/
theorem emit_along (room : Nat) {path : List NodeId} {w w' : Walk} {id : NodeId}
    (h : Walk.visit g.producers room path w id = .ok w') :
    ∃ new, w'.entered = new ++ w.entered ∧
      emit (plainly d s) g g.links room (.along g d s path w) id =
        settled g new (.along g d s path w') := by
  induction room generalizing path w w' id with
  | zero =>
    obtain ⟨hleft, rfl⟩ | ⟨-, -, _, _, hroom, _⟩ := Walk.visit_cases h
    · exact ⟨[], rfl, emit_emitted hleft⟩
    · cases hroom
  | succ room ih =>
    obtain ⟨hleft, rfl⟩ | ⟨hleft, hpath, _, w₁, hroom, hfold, rfl⟩ := Walk.visit_cases h
    · exact ⟨[], rfl, emit_emitted hleft⟩
    cases hroom
    obtain ⟨new, hnew, hemits⟩ := foldlM_emit (d := d) (s := s) (fun _ _ _ _ hv => ih hv) hfold
    refine ⟨new ++ [id], by simpa using hnew, ?_⟩
    rw [← settled_append new [id] (.along g d s path w)]
    cases hvalue : hasValue g id with
    | false =>
      rw [emit_lacking hleft hpath hvalue]
      simp only [settled, List.reverse_singleton, List.find?_singleton, hvalue, Bool.not_false,
        ↓reduceIte]
      rfl
    | true =>
      obtain ⟨n, hn, hv⟩ := hasValue_eq_true.mp hvalue
      have hhere : settled g [id] (.along g d s path w) = .ok (.along g d s path w) := by
        simp [settled, hvalue]
      let finish (e : Emission) : Emission :=
        ⟨id :: e.emitted, e.inProgress.erase id,
          e.lines ++ statements d s n (operandsOf g g.links id)⟩
      have hfinish : finish (.along g d s (id :: path) w₁) =
          .along g d s path { w₁ with left := id :: w₁.left } := by
        simp [finish, Emission.along, stated_leave hn]
      rw [emit_valid hleft hpath hn hv, hhere, ← hfinish]
      refine Eq.trans ?_ (settled_map new finish (.along g d s (id :: path) w₁))
      rw [← hemits]
      rfl

end ShaderGraph.Glsl

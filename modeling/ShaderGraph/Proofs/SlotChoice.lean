import ShaderGraph.Proofs.FreeIds
import ShaderGraph.Proofs.Linking
import ShaderGraph.Proofs.Replay

namespace ShaderGraph

namespace Slots

variable {α : Type}

def put (s : Slots α) (i : Nat) (a : α) : Slots α := s.setIfInBounds i (some a)

theorem at?_put (s : Slots α) {i : Nat} (hi : i < 4) (a : α) (j : Nat) :
    (s.put i a).at? j = if j = i then some a else s.at? j := by
  by_cases hj : j < 4
  · rw [at?_of_lt hj, at?_of_lt hj, put, Vector.getElem_setIfInBounds]
    simp only [eq_comm]
  · rw [at?_eq_none (by omega), at?_eq_none (by omega), if_neg (by omega)]

theorem findIdx?_below (s : Slots α) {bound : Nat} (hb : bound ≤ 4) :
    (s.toList.take bound).findIdx? Option.isNone =
      (List.range bound).find? fun i => (s.at? i).isNone := by
  rw [toList_eq, ← List.map_take, List.take_range, Nat.min_eq_left hb, List.findIdx?_map]
  apply Option.ext
  intro i
  rw [List.findIdx?_eq_some_iff_getElem, List.find?_range_eq_some]
  simp only [List.length_range, List.getElem_range, Function.comp_apply, List.mem_range,
    Bool.not_eq_eq_eq_not, Bool.not_true, Bool.not_eq_true]
  constructor
  · rintro ⟨hi, hfree, hbefore⟩
    exact ⟨hfree, hi, hbefore⟩
  · rintro ⟨hfree, hi, hbefore⟩
    exact ⟨hi, hfree, hbefore⟩

/-- Where all that is held stands below the limit, counting comes to looking at every slot. -/
theorem le_count_iff {s : Slots NodeId} {limit : Nat} (hl : limit ≤ 4)
    (hs : ∀ i a, s.at? i = some a → i < limit) :
    limit ≤ s.count ↔ ∀ i < limit, (s.at? i).isSome = true := by
  constructor
  · intro hcount i hi
    cases hfree : s.at? i with
    | some a => rfl
    | none =>
      have := Graph.count_lt hi hfree hs
      omega
  · intro hheld
    rw [count_eq]
    have hsub : List.range limit ⊆ (List.range 4).filter fun i => (s.at? i).isSome := by
      intro i hi
      have hlt := List.mem_range.mp hi
      exact List.mem_filter.mpr ⟨List.mem_range.mpr (by omega), hheld i hlt⟩
    simpa using (List.nodup_range.subperm hsub).length_le

end Slots

def LinkError.aboutSlot : LinkError → Bool
  | inputLimit .. | slotOutOfRange .. | slotOccupied .. => true
  | _ => false

/-- With no more than four slots, no read goes astray. -/
theorem resolveByIndex_eq {id limit : Nat} (hl : limit ≤ 4) (held : Slots NodeId)
    (request : Option Nat) :
    resolveByIndex id limit held request = some (resolveSlot id limit held request) := by
  unfold resolveByIndex resolveSlot
  split
  · rfl
  · cases request with
    | none =>
      have hscan := Slots.findIdx?_below held hl
      cases hfree : (List.range limit).find? fun slot => (held.at? slot).isNone with
      | none => simp [Slots.below?, hl, hscan, hfree]
      | some slot => simp [Slots.below?, hl, hscan, hfree]
    | some slot =>
      simp only
      split
      · rfl
      · rename_i hlt
        have hslot : slot < 4 := by omega
        rw [Vector.getElem?_eq_getElem hslot, Slots.at?_of_lt hslot]
        rfl

section Resolve

variable {id limit x n asked holder slot : Nat} {held : Slots NodeId} {request : Option Nat}

theorem resolveSlot_inputLimit_iff (hl : limit ≤ 4) (hs : ∀ i a, held.at? i = some a → i < limit) :
    resolveSlot id limit held request = .error (.inputLimit x n) ↔
      x = id ∧ n = limit ∧ limit ≤ held.count := by
  cases request with
  | some asked => grind [resolveSlot]
  | none =>
    unfold resolveSlot
    split
    · grind
    · rename_i hroom
      -- some slot is free, so the search does not come back empty
      obtain ⟨slot, hslot, hfree⟩ : ∃ slot < limit, (held.at? slot).isSome = false := by
        rw [Slots.le_count_iff hl hs] at hroom
        simpa using hroom
      have hfound : (List.range limit).find? (fun i => (held.at? i).isNone) ≠ none := by
        rw [ne_eq, List.find?_eq_none]
        intro h
        exact absurd (h slot (List.mem_range.mpr hslot)) (by simpa using hfree)
      grind

theorem resolveSlot_outOfRange_iff :
    resolveSlot id limit held request = .error (.slotOutOfRange x asked n) ↔
      x = id ∧ n = limit ∧ held.count < limit ∧ request = some asked ∧ limit ≤ asked := by
  cases request with
  | some r => grind [resolveSlot]
  | none => grind [resolveSlot]

theorem resolveSlot_occupied_iff :
    resolveSlot id limit held request = .error (.slotOccupied x asked holder) ↔
      x = id ∧ held.count < limit ∧ request = some asked ∧ asked < limit ∧
        held.at? asked = some holder := by
  cases request with
  | some r => grind [resolveSlot]
  | none => grind [resolveSlot]

theorem resolveSlot_ok_iff :
    resolveSlot id limit held request = .ok slot ↔
      held.count < limit ∧ slot < limit ∧ held.at? slot = none ∧
        match request with
        | some asked => slot = asked
        | none => ∀ lower < slot, held.at? lower ≠ none := by
  cases request with
  | some r => grind [resolveSlot]
  | none =>
    have hfind : (List.range limit).find? (fun i => (held.at? i).isNone) = some slot ↔
        slot < limit ∧ held.at? slot = none ∧ ∀ lower < slot, held.at? lower ≠ none := by
      simp only [List.find?_range_eq_some, Option.isNone_iff_eq_none, List.mem_range,
        Option.not_isNone, Option.isSome_iff_ne_none]
      exact and_left_comm
    simp only [← hfind]
    grind [resolveSlot]

end Resolve

namespace Graph

variable {g g' : Graph} {source target : NodeId} {a b : Node} {request : Option Nat} {slot : Nat}

/-- A slot of `target` is taken by a producer other than `source`. -/
def Held (g : Graph) (source target : NodeId) (slot : Nat) : Prop :=
  ∃ holder, holder ≠ source ∧ ⟨holder, target, slot⟩ ∈ g.links

def Full (g : Graph) (source target : NodeId) (limit : Nat) : Prop :=
  ∀ slot < limit, g.Held source target slot

/-- The slot that a request comes to: free and below the limit, and the one asked for, or else the
lowest of its sort. -/
def Settles (g : Graph) (source target : NodeId) (limit : Nat) (request : Option Nat) (slot : Nat) :
    Prop :=
  slot < limit ∧ ¬ g.Held source target slot ∧
    match request with
    | some asked => slot = asked
    | none => ∀ lower < slot, g.Held source target lower

theorem at?_others (hw : g.WellFormed) {holder : NodeId} :
    ((g.inputsOf target).without source).at? slot = some holder ↔
      holder ≠ source ∧ ⟨holder, target, slot⟩ ∈ g.links := by
  rw [Slots.at?_without, ← input_iff hw]
  cases (g.inputsOf target).at? slot with
  | none => simp
  | some x =>
    simp only [Option.bind_some, Option.some.injEq]
    by_cases hx : x = source
    · rw [if_pos hx]
      constructor
      · intro h
        cases h
      · rintro ⟨hne, rfl⟩
        exact absurd hx hne
    · rw [if_neg hx, Option.some.injEq]
      constructor
      · rintro rfl
        exact ⟨hx, rfl⟩
      · exact And.right

theorem isSome_others (hw : g.WellFormed) :
    (((g.inputsOf target).without source).at? slot).isSome = true ↔ g.Held source target slot := by
  rw [Option.isSome_iff_exists]
  exact exists_congr fun holder => at?_others hw

theorem others_lt (hw : g.WellFormed) (hb : g.node? target = some b) {holder : NodeId}
    (h : ((g.inputsOf target).without source).at? slot = some holder) : slot < b.limit := by
  obtain ⟨hm, rfl⟩ := mem_of_node? hb
  obtain ⟨n, hn, hid, hlt⟩ := hw.wired.target _ ((at?_others hw).mp h).2
  rwa [List.inj_on_of_nodup_map hw.id_once hn hm hid] at hlt

theorem le_count_others (hw : g.WellFormed) (hb : g.node? target = some b) :
    b.limit ≤ ((g.inputsOf target).without source).count ↔ g.Full source target b.limit := by
  rw [Slots.le_count_iff (hw.formed b (mem_of_node? hb).1).limit_le fun _ _ => others_lt hw hb]
  exact forall₂_congr fun i _ => isSome_others hw

/-- The choice comes to the slot that the links of the graph call for. -/
theorem resolveSlot_ok_others (hw : g.WellFormed) (hb : g.node? target = some b) :
    resolveSlot target b.limit ((g.inputsOf target).without source) request = .ok slot ↔
      g.Settles source target b.limit request slot := by
  have hheld : ∀ i, ((g.inputsOf target).without source).at? i ≠ none ↔ g.Held source target i := by
    intro i
    rw [← isSome_others hw, Option.isSome_iff_ne_none]
  have hroom : slot < b.limit → ((g.inputsOf target).without source).at? slot = none →
      ¬ g.Full source target b.limit := fun hlt hfree hfull =>
    (hheld slot).mpr (hfull slot hlt) hfree
  rw [resolveSlot_ok_iff, ← not_le, le_count_others hw hb]
  cases request with
  | some asked =>
    simp only [Settles, ← hheld, not_not]
    exact ⟨And.right, fun h => ⟨hroom h.1 h.2.1, h⟩⟩
  | none =>
    simp only [Settles, ← hheld, not_not]
    exact ⟨And.right, fun h => ⟨hroom h.1 h.2.1, h⟩⟩

section Live

variable (ha : g.node? source = some a) (hb : g.node? target = some b)
  (hsink : a.kind.isSink = false) (hne : source ≠ target)
include ha hb hsink hne

/-- Between two nodes that may be linked at all, a slot that cannot be settled is the first thing a
link is refused for. -/
theorem checkLink_unsettled {e : LinkError}
    (h : resolveSlot target b.limit ((g.inputsOf target).without source) request = .error e) :
    g.checkLink source target request = .error e := by
  simp only [checkLink, ha, hb, hsink, hne, h, Bool.false_eq_true, ↓reduceIte]

/-- With the slot settled, it is a cycle or the shape that a link may still be refused for. -/
theorem checkLink_settled
    (h : resolveSlot target b.limit ((g.inputsOf target).without source) request = .ok slot) :
    g.checkLink source target request = .ok slot ∨
      g.checkLink source target request = .error (.cycle source target) ∨
      ∃ expected, g.checkLink source target request =
        .error (.shapeMismatch b.kind slot a.output.size expected) := by
  simp only [checkLink, ha, hb, hsink, hne, h, Bool.false_eq_true, ↓reduceIte]
  split
  · exact .inr (.inl rfl)
  · split
    · exact .inr (.inr ⟨_, rfl⟩)
    · exact .inl rfl

theorem checkLink_error_iff {e : LinkError} (he : e.aboutSlot = true) :
    g.checkLink source target request = .error e ↔
      resolveSlot target b.limit ((g.inputsOf target).without source) request = .error e := by
  cases h : resolveSlot target b.limit ((g.inputsOf target).without source) request with
  | error d => rw [checkLink_unsettled ha hb hsink hne h]
  | ok slot =>
    have hnot : g.checkLink source target request ≠ .error e := by
      intro hc
      rcases checkLink_settled ha hb hsink hne h with hok | hcycle | ⟨expected, hshape⟩
      · rw [hok] at hc
        cases hc
      · rw [hcycle] at hc
        cases hc
        cases he
      · rw [hshape] at hc
        cases hc
        cases he
    simp [hnot]

end Live

/-- A new link takes its slot, and its source stands in no other. -/
theorem Linked.inputsOf_target {id : EdgeId} (hl : g.Linked source target slot id g')
    (hw : g.WellFormed) (hw' : g'.WellFormed) :
    g'.inputsOf target = ((g.inputsOf target).without source).put slot source := by
  have hmem : (⟨source, target, slot⟩ : Link) ∈ g'.links := by
    rw [hl.links.mem_iff]
    simp
  have hlt : slot < 4 := hw'.wired.slot_lt hw'.formed _ hmem
  apply Slots.ext_at?
  intro i
  rw [Slots.at?_put _ hlt]
  by_cases hi : i = slot
  · rw [if_pos hi, hi, input_iff hw']
    exact hmem
  · rw [if_neg hi]
    apply Option.ext
    intro holder
    rw [input_iff hw', at?_others hw, hl.links.mem_iff]
    simp [Link.ends, hi, and_comm]

/-- What becomes of the request for a slot of `target`, which takes `limit` inputs. -/
structure SlotChoice (g : Graph) (source target : NodeId) (limit : Nat) (request : Option Nat) :
    Prop where
  inputLimit : ∀ id n, g.checkLink source target request = .error (.inputLimit id n) ↔
    id = target ∧ n = limit ∧ g.Full source target limit
  slotOutOfRange : ∀ id asked n,
    g.checkLink source target request = .error (.slotOutOfRange id asked n) ↔
      id = target ∧ n = limit ∧ ¬ g.Full source target limit ∧ request = some asked ∧ limit ≤ asked
  slotOccupied : ∀ id asked holder,
    g.checkLink source target request = .error (.slotOccupied id asked holder) ↔
      id = target ∧ ¬ g.Full source target limit ∧ request = some asked ∧ holder ≠ source ∧
        ⟨holder, target, asked⟩ ∈ g.links
  accepted : ∀ slot, g.checkLink source target request = .ok slot →
    g.Settles source target limit request slot
  /-- Once there is a slot, nothing about slots is in the way. -/
  settled : ∀ slot, g.Settles source target limit request slot →
    g.checkLink source target request = .ok slot ∨
      g.checkLink source target request = .error (.cycle source target) ∨
      ∃ kind size expected, g.checkLink source target request =
        .error (.shapeMismatch kind slot size expected)
  /-- Every read is within the four slots. -/
  inBounds : resolveByIndex target limit ((g.inputsOf target).without source) request =
    some (resolveSlot target limit ((g.inputsOf target).without source) request)

theorem slotChoice_of_live (hw : g.WellFormed) (ha : g.node? source = some a)
    (hb : g.node? target = some b) (hsink : a.kind.isSink = false) (hne : source ≠ target)
    (request : Option Nat) : g.SlotChoice source target b.limit request where
  inputLimit id n := by
    rw [checkLink_error_iff ha hb hsink hne rfl, resolveSlot_inputLimit_iff
      (hw.formed b (mem_of_node? hb).1).limit_le (fun _ _ => others_lt hw hb),
      le_count_others hw hb]
  slotOutOfRange id asked n := by
    rw [checkLink_error_iff ha hb hsink hne rfl, resolveSlot_outOfRange_iff, ← not_le,
      le_count_others hw hb]
  slotOccupied id asked holder := by
    rw [checkLink_error_iff ha hb hsink hne rfl, resolveSlot_occupied_iff, ← not_le,
      le_count_others hw hb, ← at?_others hw]
    constructor
    · rintro ⟨hid, hroom, hasked, _, hat⟩
      exact ⟨hid, hroom, hasked, hat⟩
    · rintro ⟨hid, hroom, hasked, hat⟩
      exact ⟨hid, hroom, hasked, others_lt hw hb hat, hat⟩
  accepted slot h := by
    obtain ⟨_, b', _, hb', _, _, hresolve, _⟩ := checkLink_ok_iff.mp h
    cases hb.symm.trans hb'
    exact (resolveSlot_ok_others hw hb).mp hresolve
  settled slot h := by
    rcases checkLink_settled ha hb hsink hne ((resolveSlot_ok_others hw hb).mpr h) with
      hok | hcycle | ⟨expected, hshape⟩
    · exact .inl hok
    · exact .inr (.inl hcycle)
    · exact .inr (.inr ⟨_, _, expected, hshape⟩)
  inBounds := resolveByIndex_eq (hw.formed b (mem_of_node? hb).1).limit_le _ request

/-- Connecting puts the source into the slot that the link check names and clears the one it stood
in before, unless no edge id is left. -/
theorem connect_places (hw : g.WellFormed) (hc : g.checkLink source target request = .ok slot) :
    g.connect source target request = .error (.exhausted .connection maxEdges) ∨
      ∃ id g', g.connect source target request = .ok (id, g') ∧
        g'.inputsOf target = ((g.inputsOf target).without source).put slot source := by
  cases h : g.connect source target request with
  | error e => exact .inl (by rw [((connect_error_iff hw hc).mp h).1])
  | ok r =>
    obtain ⟨slot', hc', hl⟩ := linked_of_connect hw h
    cases hc.symm.trans hc'
    exact .inr ⟨r.1, r.2, rfl, hl.inputsOf_target hw (hw.connect h)⟩

/-- A link check settles the slot of every link that a reachable graph may take, and connecting puts
the source there and nowhere else. -/
theorem slots_settled (hg : g.Reachable) (ha : g.node? source = some a)
    (hsink : a.kind.isSink = false) (hb : g.node? target = some b) (hne : source ≠ target)
    (request : Option Nat) :
    g.SlotChoice source target b.limit request ∧
      ∀ slot, g.checkLink source target request = .ok slot →
        g.connect source target request = .error (.exhausted .connection maxEdges) ∨
          ∃ id g', g.connect source target request = .ok (id, g') ∧
            g'.inputsOf target = ((g.inputsOf target).without source).put slot source :=
  ⟨slotChoice_of_live hg.wellFormed ha hb hsink hne request,
    fun _ hc => connect_places hg.wellFormed hc⟩

/-- A sum of three with its outer slots taken, and a third source that is not connected. -/
def outerSteps : List Step :=
  [.command (.createNode .float .standard) ⟨2⟩, .command (.createNode .time .standard) ⟨3⟩,
    .command (.createNode .add (.arity 3)) ⟨4⟩, .command (.createNode .float .standard) ⟨5⟩,
    .command (.connect 2 4 (some 2)) ⟨6⟩, .command (.connect 3 4 none) ⟨6⟩]

def outer : Graph := outerSteps.foldl perform (Graph.new ⟨0⟩ ⟨1⟩)

theorem outer_slots_settled :
    outer.inputsOf 4 = #v[some 3, none, some 2, none] ∧ outer.SlotChoice 5 4 3 (some 2) ∧
      outer.checkLink 5 4 (some 2) = .error (.slotOccupied 4 2 2) ∧ outer.Settles 5 4 3 none 1 ∧
      ∃ id g', outer.connect 3 4 (some 1) = .ok (id, g') ∧
        g'.inputsOf 4 = #v[none, some 3, some 2, none] := by
  have hg : outer.Reachable := reachable_foldl (.new ⟨0⟩ ⟨1⟩) outerSteps
  have hlinks : outer.links = [⟨2, 4, 2⟩, ⟨3, 4, 0⟩] := by decide +kernel
  have hinputs : outer.inputsOf 4 = #v[some 3, none, some 2, none] := by decide +kernel
  have hlast : (outer.node? 5).map Node.kind = some .float := by decide +kernel
  have htime : (outer.node? 3).map Node.kind = some .time := by decide +kernel
  have hsum : (outer.node? 4).map Node.limit = some 3 := by decide +kernel
  obtain ⟨a, ha, hak⟩ := Option.map_eq_some_iff.mp hlast
  obtain ⟨c, hc, hck⟩ := Option.map_eq_some_iff.mp htime
  obtain ⟨b, hb, hbl⟩ := Option.map_eq_some_iff.mp hsum
  have hasked := (slots_settled hg ha (hak ▸ rfl) hb (by decide) (some 2)).1
  have hnone := (slots_settled hg ha (hak ▸ rfl) hb (by decide) none).1
  have hmoved := (slots_settled hg hc (hck ▸ rfl) hb (by decide) (some 1)).2
  rw [hbl] at hasked hnone
  refine ⟨hinputs, hasked, ?_, ?_, ?_⟩
  · refine (hasked.slotOccupied 4 2 2).mpr ⟨rfl, ?_, rfl, by decide, by simp [hlinks]⟩
    intro hfull
    obtain ⟨holder, _, hl⟩ := hfull 1 (by decide)
    simp [hlinks] at hl
  · exact hnone.accepted 1 (except_toOption_eq_some.mp (by decide +kernel))
  · have hcheck : outer.checkLink 3 4 (some 1) = .ok 1 :=
      except_toOption_eq_some.mp (by decide +kernel)
    have hroom : (outer.connect 3 4 (some 1)).toOption.map Prod.fst = some 1 := by decide +kernel
    rcases hmoved 1 hcheck with herror | ⟨id, g', hok, hplaced⟩
    · rw [herror] at hroom
      cases hroom
    · exact ⟨id, g', hok, by rw [hplaced, hinputs]; decide +kernel⟩

end Graph

end ShaderGraph

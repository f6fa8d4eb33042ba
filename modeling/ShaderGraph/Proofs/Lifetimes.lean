import ShaderGraph.Proofs.Passes
import ShaderGraph.Proofs.Reachable

namespace ShaderGraph

/-- What a node is known by, from its creation to its end. -/
structure Identity where
  id : NodeId
  handle : Handle
  kind : Kind

def Node.identity (n : Node) : Identity := ⟨n.id, n.handle, n.kind⟩

theorem Node.create_identity {id : NodeId} {handle : Handle} {kind : Kind} {init : Init} {n : Node}
    (h : Node.create id handle kind init = .ok n) : n.identity = ⟨id, handle, kind⟩ := by
  unfold Node.create at h
  split at h
  · cases h
    rfl
  · split at h <;> cases h
    rfl
  · split at h <;> cases h
    rfl

namespace Graph

variable {g g' : Graph}

def roster (g : Graph) : List Identity := g.nodes.map Node.identity

def handles (g : Graph) : List Handle := g.nodes.map Node.handle

theorem handles_eq_roster (g : Graph) : g.handles = g.roster.map Identity.handle := by
  rw [handles, roster, List.map_map]
  rfl

theorem mem_handles {handle : Handle} : handle ∈ g.handles ↔ ∃ n ∈ g.nodes, n.handle = handle :=
  List.mem_map

theorem roster_of_core (hc : g'.core = g.core) : g'.roster = g.roster := by
  have hroster : ∀ k : Graph, k.core.roster = k.roster := by
    intro k
    simp only [core, roster, List.map_map]
    rfl
  rw [← hroster g', hc, hroster]

theorem roster_updateNode {id : NodeId} {f : Node → Node}
    (hf : ∀ n ∈ g.nodes, n.id = id → (f n).identity = n.identity) :
    (g.updateNode id f).roster = g.roster := by
  rw [roster, updateNode, List.map_map, roster]
  refine List.map_congr_left fun n hn => ?_
  simp only [Function.comp_apply]
  split
  · rename_i hid
    exact hf n hn hid
  · rfl

theorem roster_setParameter (hw : g.WellFormed) {id : NodeId} {parameter : Parameter}
    {has : Kind → Bool} {f : Node → Except GraphError Node}
    (hf : ∀ n m, f n = .ok m → m.identity = n.identity)
    (h : g.setParameter id parameter has f = .ok g') : g'.roster = g.roster := by
  obtain ⟨n, m, hn, _, hm, rfl⟩ := setParameter_ok_iff.mp h
  refine roster_updateNode fun k hk hid => ?_
  cases eq_of_node? hw.id_once hn hk hid
  exact hf n m hm

theorem roster_setLiteral (hw : g.WellFormed) {id : NodeId} {xs : List Scalar}
    (h : g.setLiteral id xs = .ok g') : g'.roster = g.roster := by
  refine roster_setParameter hw (fun n m hm => ?_) h
  split at hm <;> cases hm
  rfl

theorem roster_setProperty (hw : g.WellFormed) {id : NodeId} {property : Bool}
    (h : g.setProperty id property = .ok g') : g'.roster = g.roster :=
  roster_setParameter hw (fun n m hm => by cases hm; rfl) h

theorem roster_setAlphaClip (hw : g.WellFormed) {id : NodeId} {threshold : Option Scalar}
    (h : g.setAlphaClip id threshold = .ok g') : g'.roster = g.roster :=
  roster_setParameter hw (fun n m hm => by cases hm; rfl) h

theorem roster_setPosition {id : NodeId} {position : Scalar × Scalar}
    (h : g.setPosition id position = .ok g') : g'.roster = g.roster := by
  obtain ⟨_, rfl⟩ := setPosition_ok_iff.mp h
  exact roster_updateNode fun _ _ _ => rfl

theorem roster_createNode {kind : Kind} {init : Init} {handle : Handle} {id : NodeId}
    (h : g.createNode kind init handle = .ok (id, g')) :
    g'.roster = g.roster ++ [⟨id, handle, kind⟩] := by
  obtain ⟨_, n, pool, _, hn, rfl⟩ := createNode_ok_iff.mp h
  simp [roster, Node.create_identity hn]

theorem roster_connect {source target : NodeId} {request : Option Nat} {id : EdgeId}
    (h : g.connect source target request = .ok (id, g')) : g'.roster = g.roster := by
  obtain ⟨_, _, _, _, rfl⟩ := connect_ok_iff.mp h
  rfl

def admitted (g : Graph) : Step → List Identity
  | .command (.createNode kind init) handle =>
    match g.createNode kind init handle with
    | .ok (id, _) => [⟨id, handle, kind⟩]
    | .error _ => []
  | _ => []

def destroys (g : Graph) (id : NodeId) : Step → Bool
  | .command (.destroyNode node) _ => id = node && (g.destroyNode node).isOk
  | _ => false

theorem roster_apply (hw : g.WellFormed) {c : Command} {handle : Handle} {outcome : Outcome}
    (ha : g.apply c handle = .ok (outcome, g')) :
    g'.roster = g.roster.filter (fun e => !g.destroys e.id (.command c handle)) ++
      g.admitted (.command c handle) := by
  have hidle : ∀ rs : List Identity, (rs.filter fun _ => !false) ++ [] = rs := by simp
  have hkept : c.rewires = true → g'.roster = g.roster := by
    intro hc
    rw [roster, nodes_of_rewires hc ha, roster]
  cases c <;> obtain ⟨r, hr, he⟩ := except_map_eq_ok.mp ha <;> cases he
  case createNode =>
    have hnew := roster_createNode hr
    simpa [destroys, admitted, hr] using hnew
  case destroyNode node =>
    obtain ⟨n, g'⟩ := r
    have hgone : ∀ id,
        g.destroys id (.command (.destroyNode node) handle) = decide (id = node) := by
      intro id
      simp [destroys, hr, Except.isOk, Except.toBool]
    obtain ⟨_, _, rfl⟩ := destroyNode_ok_iff.mp hr
    simp only [hgone, admitted, List.append_nil, roster, List.filter_map]
    refine congrArg _ (List.filter_congr fun m _ => ?_)
    by_cases hid : m.id = node <;> simp [Node.identity, hid]
  case setLiteral => exact (roster_setLiteral hw hr).trans (hidle _).symm
  case setProperty => exact (roster_setProperty hw hr).trans (hidle _).symm
  case setAlphaClip => exact (roster_setAlphaClip hw hr).trans (hidle _).symm
  case setPosition => exact (roster_setPosition hr).trans (hidle _).symm
  case beginLink | finishLink | cancelLink | destroyLink | connect =>
    exact (hkept rfl).trans (hidle _).symm

/-- A step that is refused neither adds an identity nor takes one away. -/
theorem refused_idle {c : Command} {handle : Handle} {e : GraphError}
    (ha : g.apply c handle = .error e) :
    g.admitted (.command c handle) = [] ∧ ∀ id, g.destroys id (.command c handle) = false := by
  cases c with
  | createNode =>
    have hr := except_map_eq_error.mp ha
    exact ⟨by simp only [admitted, hr], fun _ => rfl⟩
  | destroyNode =>
    have hr := except_map_eq_error.mp ha
    exact ⟨rfl, fun _ => by simp [destroys, hr, Except.isOk, Except.toBool]⟩
  | _ => exact ⟨rfl, fun _ => rfl⟩

/-- What a step does to the roster: it takes out the node it destroys and adds the one it makes. -/
theorem roster_perform (hw : g.WellFormed) (s : Step) :
    (g.perform s).roster = g.roster.filter (fun e => !g.destroys e.id s) ++ g.admitted s := by
  cases s with
  | command c handle =>
    simp only [perform]
    cases ha : g.apply c handle with
    | ok r => exact roster_apply hw ha
    | error e =>
      obtain ⟨hnone, hkept⟩ := refused_idle ha
      simp [hnone, hkept]
  | recompute order =>
    obtain ⟨g', report, hr⟩ := recompute_ok hw order
    have hsame := roster_of_core (core_recompute hr)
    simpa [perform, hr, destroys, admitted] using hsame

def after (g : Graph) (steps : List Step) (k : Nat) : Graph := (steps.take k).foldl perform g

def drawn (g : Graph) : List Step → List Handle
  | [] => []
  | s :: steps => (g.admitted s).map Identity.handle ++ (g.perform s).drawn steps

def DestroyedWithin (g : Graph) (steps : List Step) (k j : Nat) (id : NodeId) : Prop :=
  ∃ i s, k ≤ i ∧ i < j ∧ steps[i]? = some s ∧ (g.after steps i).destroys id s = true

variable {steps : List Step}

theorem after_after (g : Graph) (steps : List Step) (k i : Nat) :
    (g.after steps k).after (steps.drop k) i = g.after steps (k + i) := by
  rw [after, after, after, List.take_add, List.foldl_append]

theorem after_succ {k : Nat} {s : Step} (hs : steps[k]? = some s) :
    g.after steps (k + 1) = (g.after steps k).perform s := by
  rw [after, List.take_add_one, hs, List.foldl_append]
  rfl

theorem wellFormed_after (hw : g.WellFormed) (steps : List Step) (k : Nat) :
    (g.after steps k).WellFormed :=
  List.foldlRecOn _ _ hw fun _ h s _ => h.perform s

/-- What is in use and what is still to come never grows. -/
theorem handles_perform_sublist (hw : g.WellFormed) (s : Step) (steps : List Step) :
    ((g.perform s).handles ++ (g.perform s).drawn steps).Sublist
      (g.handles ++ g.drawn (s :: steps)) := by
  rw [handles_eq_roster, roster_perform hw, List.map_append, List.append_assoc, handles_eq_roster]
  exact (List.filter_sublist.map _).append_right _

theorem handles_after_sublist (hw : g.WellFormed) (steps : List Step) (k : Nat) :
    ((g.after steps k).handles ++ (g.after steps k).drawn (steps.drop k)).Sublist
      (g.handles ++ g.drawn steps) := by
  induction k generalizing g steps with
  | zero => exact .refl _
  | succ k ih =>
    cases steps with
    | nil => exact .refl _
    | cons s steps => exact (ih (hw.perform s) steps).trans (handles_perform_sublist hw s steps)

/-- A step that destroys a node leaves its handle to no other. -/
theorem handle_retired (hw : g.WellFormed) {s : Step}
    (hfresh : (g.handles ++ g.drawn (s :: steps)).Nodup) {e : Identity} (he : e ∈ g.roster)
    (hs : g.destroys e.id s = true) :
    e.handle ∉ (g.perform s).handles ++ (g.perform s).drawn steps := by
  obtain ⟨honce, _, hapart⟩ := List.nodup_append.mp hfresh
  rw [handles_eq_roster] at honce hapart
  have hnew : e.handle ∉ g.drawn (s :: steps) :=
    fun hm => hapart e.handle (List.mem_map_of_mem he) e.handle hm rfl
  rw [drawn, List.mem_append, not_or] at hnew
  rw [List.mem_append, not_or, handles_eq_roster, roster_perform hw, List.map_append,
    List.mem_append, not_or]
  refine ⟨⟨fun hm => ?_, hnew.1⟩, hnew.2⟩
  obtain ⟨d, hd, hsame⟩ := List.mem_map.mp hm
  obtain ⟨hd, hkept⟩ := List.mem_filter.mp hd
  rw [List.inj_on_of_nodup_map honce hd he hsame, hs] at hkept
  cases hkept

/-- With no handle drawn twice, an identity stays until its node is destroyed, and from then on
no other has its handle. -/
theorem roster_fate (hw : g.WellFormed) (hfresh : (g.handles ++ g.drawn steps).Nodup) {e : Identity}
    (he : e ∈ g.roster) (j : Nat) :
    g.DestroyedWithin steps 0 j e.id ∧ e.handle ∉ (g.after steps j).handles ∨
      ¬ g.DestroyedWithin steps 0 j e.id ∧ e ∈ (g.after steps j).roster := by
  induction j generalizing g steps with
  | zero => exact .inr ⟨fun ⟨i, _, _, hi, _⟩ => absurd hi (Nat.not_lt_zero i), he⟩
  | succ j ih =>
    cases steps with
    | nil => exact .inr ⟨fun ⟨_, _, _, _, hs, _⟩ => by simp at hs, he⟩
    | cons s steps =>
      cases hs : g.destroys e.id s with
      | true =>
        refine .inl ⟨⟨0, s, Nat.le_refl 0, Nat.succ_pos j, rfl, hs⟩, fun hm => ?_⟩
        exact handle_retired hw hfresh he hs
          ((handles_after_sublist (hw.perform s) steps j).subset (List.mem_append_left _ hm))
      | false =>
        have hkept : e ∈ (g.perform s).roster := by
          rw [roster_perform hw]
          exact List.mem_append_left _ (List.mem_filter.mpr ⟨he, by simp [hs]⟩)
        have hshift : g.DestroyedWithin (s :: steps) 0 (j + 1) e.id ↔
            (g.perform s).DestroyedWithin steps 0 j e.id := by
          constructor
          · rintro ⟨i, s', _, hi, hs', hd⟩
            cases i with
            | zero =>
              cases hs'
              rw [show g.after (s :: steps) 0 = g from rfl, hs] at hd
              cases hd
            | succ i => exact ⟨i, s', Nat.zero_le i, Nat.lt_of_succ_lt_succ hi, hs', hd⟩
          · rintro ⟨i, s', _, hi, hs', hd⟩
            exact ⟨i + 1, s', Nat.zero_le _, Nat.succ_lt_succ hi, hs', hd⟩
        rw [hshift]
        exact ih (hw.perform s) ((handles_perform_sublist hw s steps).nodup hfresh) hkept

end Graph

namespace SavedGraph

open ShaderGraph.Graph

/-- Every node has the handle of its place. -/
def Numbered (handles : Nat → Handle) (g : Graph) : Prop :=
  g.handles = (List.range g.nodes.length).map handles

variable {handles : Nat → Handle} {g g' : Graph}

theorem Numbered.of_roster (h : Numbered handles g) (hr : g'.roster = g.roster) :
    Numbered handles g' := by
  have hlength : g'.nodes.length = g.nodes.length := by simpa [roster] using congrArg List.length hr
  rw [Numbered, handles_eq_roster, hr, ← handles_eq_roster, hlength]
  exact h

theorem Numbered.createNode {kind : Kind} {init : Init} {id : NodeId} (h : Numbered handles g)
    (hc : g.createNode kind init (handles g.nodes.length) = .ok (id, g')) :
    Numbered handles g' := by
  have hr := roster_createNode hc
  have hlength : g'.nodes.length = g.nodes.length + 1 := by
    simpa [roster] using congrArg List.length hr
  rw [Numbered, handles_eq_roster, hr, List.map_append, ← handles_eq_roster, h, hlength,
    List.range_succ, List.map_append]
  rfl

theorem roster_setParameters {id : NodeId} {r : NodeRecord} (hw : g.WellFormed)
    (hs : setParameters g id r = .ok g') : g'.roster = g.roster := by
  obtain ⟨g₁, hproperty, hclip⟩ := setParameters_ok hs
  have h₁ : g₁.WellFormed ∧ g₁.roster = g.roster := by
    rcases hproperty with rfl | hproperty
    · exact ⟨hw, rfl⟩
    · exact ⟨hw.setProperty hproperty, roster_setProperty hw hproperty⟩
  rcases hclip with rfl | ⟨threshold, hclip⟩
  · exact h₁.2
  · exact (roster_setAlphaClip h₁.1 hclip).trans h₁.2

theorem Numbered.addNode {r : NodeRecord} {id : NodeId} (h : Numbered handles g)
    (hw : g.WellFormed) (ha : addNode g r (handles g.nodes.length) = .ok (id, g')) :
    Numbered handles g' := by
  obtain ⟨g₁, hplace, hposition⟩ := addNode_ok ha
  refine Numbered.of_roster ?_ (roster_setPosition hposition)
  rcases hplace with rfl | ⟨g₂, hcreate, hset⟩
  · exact h
  · exact (h.createNode hcreate).of_roster (roster_setParameters (hw.createNode hcreate) hset)

theorem roster_evaluated (he : evaluated g = .ok g') : g'.roster = g.roster := by
  obtain ⟨_, hr⟩ := evaluated_ok he
  exact roster_of_core (core_recompute hr)

theorem Numbered.addLine {l l' : Loading} {line : List Char × Nat}
    (h : Numbered handles l.graph) (hw : l.graph.WellFormed)
    (ha : l.addLine handles line = .ok l') : Numbered handles l'.graph := by
  cases adds_of_addLine ha with
  | blank => exact h
  | @link rest r g₁ g₂ g₃ edge _ hfirst _ hconnect hlast =>
    have h₁ : g₁.roster = l.graph.roster := by
      split at hfirst
      · cases hfirst
        rfl
      · exact roster_evaluated hfirst
    exact h.of_roster ((roster_evaluated hlast).trans ((roster_connect hconnect).trans h₁))
  | node _ _ _ _ hadd => exact h.addNode hw hadd

theorem numbered_load {text : String} (h : load handles text = .ok g) : Numbered handles g := by
  unfold load at h
  obtain ⟨l, hl, h⟩ := except_bind_eq_ok.mp h
  have hnew : Numbered handles (Graph.new (handles 0) (handles 1)) := rfl
  have hlines : l.graph.WellFormed ∧ Numbered handles l.graph :=
    foldlM_keeps (P := fun l => l.graph.WellFormed ∧ Numbered handles l.graph)
      (fun _ _ _ hs ha => ⟨addLine_keeps stable_wellFormed hs.1 ha, hs.2.addLine hs.1 ha⟩)
      ⟨wellFormed_new _ _, hnew⟩ hl
  split at h
  · cases h
    exact hlines.2
  · exact hlines.2.of_roster (roster_evaluated h)

end SavedGraph

namespace Graph

/-- A graph that is new or was loaded, with the handles that were drawn for its nodes. -/
inductive Opening : List Handle → Graph → Prop where
  | new (vertexHandle fragmentHandle : Handle) :
      Opening [vertexHandle, fragmentHandle] (Graph.new vertexHandle fragmentHandle)
  | loaded {handles : Nat → Handle} {text : String} {g : Graph}
      (h : SavedGraph.load handles text = .ok g) :
      Opening ((List.range g.nodes.length).map handles) g

variable {g : Graph} {given : List Handle} {steps : List Step}

theorem Opening.wellFormed (h : Opening given g) : g.WellFormed := by
  cases h with
  | new vertexHandle fragmentHandle => exact wellFormed_new vertexHandle fragmentHandle
  | loaded h => exact SavedGraph.load_wellFormed h

theorem Opening.handles_eq (h : Opening given g) : g.handles = given := by
  cases h with
  | new => rfl
  | loaded h => exact SavedGraph.numbered_load h

/-- With handles used once, looking one up finds the node that has it. -/
theorem nodeOf?_of_mem (hu : g.handles.Nodup) {n : Node} (hn : n ∈ g.nodes) :
    g.nodeOf? n.handle = some n :=
  find?_key Node.handle hu hn

theorem nodeOf?_eq_none {handle : Handle} (h : handle ∉ g.handles) : g.nodeOf? handle = none := by
  rw [nodeOf?, List.find?_eq_none]
  intro n hn hsame
  exact h (mem_handles.mpr ⟨n, hn, by simpa using hsame⟩)

theorem nodeOf?_of_roster (hu : g.handles.Nodup) {e : Identity} (he : e ∈ g.roster) :
    ∃ n, g.nodeOf? e.handle = some n ∧ n.id = e.id ∧ n.kind = e.kind := by
  obtain ⟨n, hn, rfl⟩ := List.mem_map.mp he
  exact ⟨n, nodeOf?_of_mem hu hn, rfl, rfl⟩

/-- When no handle is drawn twice, then at every point of a run no two nodes share a handle. The
handle of a new node leads to this node, and that of any node keeps leading to a node of the same id
and kind until a step destroys it. From then on it leads nowhere, whoever gets the id. -/
theorem handles_outlast_ids (hopen : Opening given g) (hfresh : (given ++ g.drawn steps).Nodup) :
    (∀ k, (g.after steps k).handles.Nodup) ∧
      (∀ k kind init handle id g', steps[k]? = some (.command (.createNode kind init) handle) →
        (g.after steps k).createNode kind init handle = .ok (id, g') →
        ∃ n, (g.after steps (k + 1)).nodeOf? handle = some n ∧ n.id = id ∧ n.kind = kind) ∧
      ∀ k j, k ≤ j → ∀ n ∈ (g.after steps k).nodes,
        (g.DestroyedWithin steps k j n.id → (g.after steps j).nodeOf? n.handle = none) ∧
        (¬ g.DestroyedWithin steps k j n.id →
          ∃ m, (g.after steps j).nodeOf? n.handle = some m ∧ m.id = n.id ∧ m.kind = n.kind) := by
  have hw := hopen.wellFormed
  rw [← hopen.handles_eq] at hfresh
  have hlater : ∀ k, ((g.after steps k).handles ++
      (g.after steps k).drawn (steps.drop k)).Nodup :=
    fun k => (handles_after_sublist hw steps k).nodup hfresh
  have honce : ∀ k, (g.after steps k).handles.Nodup := fun k => (List.nodup_append.mp (hlater k)).1
  refine ⟨honce, ?_, ?_⟩
  · intro k kind init handle id g' hs hc
    have hroster := roster_perform (wellFormed_after hw steps k)
      (.command (.createNode kind init) handle)
    have hmem : (⟨id, handle, kind⟩ : Identity) ∈ (g.after steps (k + 1)).roster := by
      rw [after_succ hs, hroster, admitted, hc]
      exact List.mem_append_right _ (List.mem_singleton.mpr rfl)
    exact nodeOf?_of_roster (honce (k + 1)) hmem
  · intro k j hkj n hn
    obtain ⟨i, rfl⟩ := Nat.exists_eq_add_of_le hkj
    have hshift : g.DestroyedWithin steps k (k + i) n.id ↔
        (g.after steps k).DestroyedWithin (steps.drop k) 0 i n.id := by
      constructor
      · rintro ⟨a, s, hle, hlt, hs, hd⟩
        obtain ⟨b, rfl⟩ := Nat.exists_eq_add_of_le hle
        refine ⟨b, s, Nat.zero_le b, Nat.lt_of_add_lt_add_left hlt, ?_, ?_⟩
        · rwa [List.getElem?_drop]
        · rwa [after_after]
      · rintro ⟨b, s, _, hlt, hs, hd⟩
        rw [List.getElem?_drop] at hs
        rw [after_after] at hd
        exact ⟨k + b, s, Nat.le_add_right k b, Nat.add_lt_add_left hlt k, hs, hd⟩
    have hfate := roster_fate (wellFormed_after hw steps k) (hlater k)
      (List.mem_map_of_mem (f := Node.identity) hn) i
    rw [after_after] at hfate
    obtain ⟨hgone, hnone⟩ | ⟨hlives, hmem⟩ := hfate
    · exact ⟨fun _ => nodeOf?_eq_none hnone, fun h => absurd (hshift.mpr hgone) h⟩
    · exact ⟨fun h => absurd (hshift.mp h) hlives, fun _ => nodeOf?_of_roster (honce _) hmem⟩

/-- Three nodes take the same id in turn, and a fourth lives through it all. -/
def turnover : List Step :=
  [.command (.createNode .float .standard) ⟨2⟩, .command (.createNode .multiply .standard) ⟨3⟩,
    .command (.connect 2 3 none) ⟨4⟩, .recompute .topological, .command (.destroyNode 2) ⟨4⟩,
    .command (.createNode .time .standard) ⟨4⟩, .command (.connect 2 3 (some 1)) ⟨5⟩,
    .command (.destroyNode 2) ⟨5⟩, .command (.destroyNode 0) ⟨5⟩,
    .command (.createNode .add (.arity 3)) ⟨5⟩, .recompute .storage]

theorem handles_outlast_turnover :
    (Graph.new ⟨0⟩ ⟨1⟩).drawn turnover = [⟨2⟩, ⟨3⟩, ⟨4⟩, ⟨5⟩] ∧
      ((Graph.new ⟨0⟩ ⟨1⟩).after turnover 11).ids = [0, 1, 3, 2] ∧
      ((Graph.new ⟨0⟩ ⟨1⟩).after turnover 11).handles.Nodup ∧
      (∃ n, ((Graph.new ⟨0⟩ ⟨1⟩).after turnover 1).nodeOf? ⟨2⟩ = some n ∧ n.id = 2 ∧
        n.kind = .float) ∧
      ∀ n ∈ ((Graph.new ⟨0⟩ ⟨1⟩).after turnover 6).nodes,
        (n.id = 2 → ((Graph.new ⟨0⟩ ⟨1⟩).after turnover 11).nodeOf? n.handle = none) ∧
        (n.id = 3 → ∃ m, ((Graph.new ⟨0⟩ ⟨1⟩).after turnover 11).nodeOf? n.handle = some m ∧
          m.id = n.id ∧ m.kind = n.kind) := by
  have hdrawn : (Graph.new ⟨0⟩ ⟨1⟩).drawn turnover = [⟨2⟩, ⟨3⟩, ⟨4⟩, ⟨5⟩] := by decide +kernel
  have hfresh : (([⟨0⟩, ⟨1⟩] : List Handle) ++ (Graph.new ⟨0⟩ ⟨1⟩).drawn turnover).Nodup := by
    rw [hdrawn]
    decide
  obtain ⟨honce, hborn, hfate⟩ := handles_outlast_ids (.new ⟨0⟩ ⟨1⟩) hfresh
  refine ⟨hdrawn, by decide +kernel, honce 11, ?_, fun n hn => ⟨fun hid => ?_, fun hid => ?_⟩⟩
  · exact hborn 0 .float .standard ⟨2⟩ 2 _ rfl rfl
  · exact (hfate 6 11 (by decide) n hn).1 ⟨7, _, by decide, by decide, rfl, by
      rw [hid]; decide +kernel⟩
  · refine (hfate 6 11 (by decide) n hn).2 ?_
    rintro ⟨i, s, hle, hlt, hs, hd⟩
    rw [hid] at hd
    obtain rfl | rfl | rfl | rfl | rfl : i = 6 ∨ i = 7 ∨ i = 8 ∨ i = 9 ∨ i = 10 := by omega
    all_goals
      cases hs
      exact absurd hd (by decide +kernel)

end Graph

end ShaderGraph

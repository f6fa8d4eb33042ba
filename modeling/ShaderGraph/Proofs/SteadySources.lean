import ShaderGraph.Proofs.LinkRules
import ShaderGraph.Proofs.Transcript

namespace ShaderGraph

instance (links : List Link) (a b : NodeId) : Decidable (Feeds links a b) :=
  inferInstanceAs (Decidable (∃ l ∈ links, l.source = a ∧ l.target = b))

namespace Graph

variable {g g' : Graph} {c : Command} {handle : Handle} {outcome : Outcome}

theorem Linked.mem_links {source target : NodeId} {slot : Nat} {e : EdgeId}
    (h : g.Linked source target slot e g') (l : Link) :
    l ∈ g'.links ↔ l ∈ g.links ∧ l.ends ≠ (source, target) ∨ l = ⟨source, target, slot⟩ := by
  rw [h.links.mem_iff, List.mem_append, List.mem_filter, List.mem_singleton, decide_eq_true_eq]

/-- A link into a node that was not there has passed the check, and nothing else has changed. -/
def GainsLink (g : Graph) (id : NodeId) (g' : Graph) : Prop :=
  ∃ source request slot e, g.checkLink source id request = .ok slot ∧
    g.Linked source id slot e g'

theorem Linked.gainsLink {source target : NodeId} {request : Option Nat} {slot : Nat} {e : EdgeId}
    (h : g.Linked source target slot e g') (hcheck : g.checkLink source target request = .ok slot)
    (id : NodeId) : (∀ l ∈ g'.links, l.target = id → l ∈ g.links) ∨ g.GainsLink id g' := by
  by_cases ht : target = id
  · subst ht
    exact .inr ⟨source, request, slot, e, hcheck, h⟩
  · refine .inl fun l hl hid => ?_
    rcases (h.mem_links l).mp hl with ⟨hl, _⟩ | rfl
    · exact hl
    · exact absurd hid ht

/-- A command that furnishes a node leaves the links as they are. -/
theorem links_of_furnishes (hc : c.furnishes = true) (ha : g.apply c handle = .ok (outcome, g')) :
    g'.links = g.links := by
  cases c <;> obtain ⟨r, hr, he⟩ := except_map_eq_ok.mp ha <;> cases he
  case createNode =>
    obtain ⟨_, _, _, _, _, hg⟩ := createNode_ok_iff.mp hr
    rw [hg]
    rfl
  case setLiteral | setProperty | setAlphaClip =>
    obtain ⟨_, _, _, _, _, rfl⟩ := setParameter_ok_iff.mp hr
    rfl
  case setPosition =>
    obtain ⟨_, rfl⟩ := setPosition_ok_iff.mp hr
    rfl
  all_goals cases hc

/-- Links into a node only go, unless the command is one that makes such a link. -/
theorem links_into (hw : g.WellFormed) (ha : g.apply c handle = .ok (outcome, g')) (id : NodeId) :
    (∀ l ∈ g'.links, l.target = id → l ∈ g.links) ∨ g.GainsLink id g' := by
  have hdrop : ∀ (doomed : Edge → Bool), ∀ l ∈ (g.dropEdges doomed).links, l ∈ g.links :=
    fun doomed l hl => (dropEdges_links_sublist g doomed).subset hl
  have hkept : c.furnishes = true → g'.links = g.links := fun hc => links_of_furnishes hc ha
  cases c <;> obtain ⟨r, hr, he⟩ := except_map_eq_ok.mp ha <;> cases he
  case destroyNode =>
    obtain ⟨_, _, hg⟩ := destroyNode_ok_iff.mp hr
    exact .inl fun l hl _ => hdrop _ l (by rw [hg] at hl; exact hl)
  case beginLink =>
    obtain ⟨_, hlinks⟩ := begun_same hr
    exact .inl fun l hl _ => hlinks ▸ hl
  case finishLink =>
    obtain ⟨_, _, hcheck, hlinked⟩ := linked_of_finishEdge hw hr
    exact hlinked.gainsLink hcheck id
  case cancelLink =>
    obtain ⟨_, rfl⟩ := cancelEdge_ok_iff.mp hr
    exact .inl fun l hl _ => hdrop _ l hl
  case destroyLink =>
    obtain ⟨_, hg⟩ := destroyEdge_ok_iff.mp hr
    exact .inl fun l hl _ => hdrop _ l (by rw [hg] at hl; exact hl)
  case connect =>
    obtain ⟨_, hcheck, hlinked⟩ := linked_of_connect hw hr
    exact hlinked.gainsLink hcheck id
  case createNode | setLiteral | setProperty | setAlphaClip | setPosition =>
    exact .inl fun l hl _ => hkept rfl ▸ hl

theorem admitted_fresh (hw : g.WellFormed) {s : Step} {e : Identity} (he : e ∈ g.admitted s) :
    e.id ∉ g.ids := by
  unfold admitted at he
  split at he
  · split at he
    · rename_i hc
      obtain ⟨_, _, _, ha, _⟩ := createNode_ok_iff.mp hc
      rw [List.mem_singleton.mp he]
      exact (hw.nodePool.allocate ha).1
    · cases he
  · cases he

/-- A node that was there before is of the kind it was. -/
theorem kind_kept (hw : g.WellFormed) (ha : g.apply c handle = .ok (outcome, g')) {m : Node}
    (hm : m ∈ g'.nodes) (hid : m.id ∈ g.ids) : ∃ n ∈ g.nodes, n.id = m.id ∧ n.kind = m.kind := by
  have hmem : m.identity ∈ g'.roster := List.mem_map_of_mem hm
  rw [roster_apply hw ha, List.mem_append] at hmem
  rcases hmem with hold | hnew
  · obtain ⟨n, hn, hsame⟩ := List.mem_map.mp (List.mem_filter.mp hold).1
    exact ⟨n, hn, congrArg Identity.id hsame, congrArg Identity.kind hsame⟩
  · exact absurd hid (admitted_fresh hw hnew)

end Graph

namespace Session

variable {s s' : Session} {id : NodeId}

/-- From one session to the next, the sources of a node keep their shapes if they fed it already,
and had values if they did not. -/
def KeepsSources (id : NodeId) (s s' : Session) : Prop :=
  ∀ l ∈ s'.graph.links, l.target = id →
    (Feeds s.graph.links l.source id →
      (s'.graph.output? l.source).map Value.shape = (s.graph.output? l.source).map Value.shape) ∧
    (¬ Feeds s.graph.links l.source id → (s.graph.node? l.source).any Node.isValid = true)

instance (id : NodeId) (s s' : Session) : Decidable (KeepsSources id s s') :=
  inferInstanceAs (Decidable (∀ l ∈ s'.graph.links, l.target = id → _ ∧ _))

def Feeding (s : Session) (id : NodeId) : Prop := ∀ n ∈ s.graph.nodes, n.id = id → s.graph.Fed n

theorem feeding_of_free (hw : s.graph.WellFormed) (hfree : ∀ l ∈ s.graph.links, l.target ≠ id) :
    s.Feeding id := by
  rintro n _ rfl
  exact Graph.fed_of_free hw hfree

theorem KeepsSources.size_eq (hkeeps : KeepsSources id s s') {l : Link}
    (hl : l ∈ s'.graph.links) (ht : l.target = id) (hfeeds : Feeds s.graph.links l.source id) :
    (s'.graph.output? l.source).map Value.size = (s.graph.output? l.source).map Value.size := by
  have hsize := congrArg (Option.map Shape.size) ((hkeeps l hl ht).1 hfeeds)
  rw [Option.map_map, Option.map_map] at hsize
  exact hsize

/-- Whether it fed the node before or not, a source had a value. -/
theorem KeepsSources.value_pos {n : Node} (hkeeps : KeepsSources n.id s s')
    (hfed : s.graph.Fed n) (hw : s.graph.WellFormed) {l : Link} (hl : l ∈ s'.graph.links)
    (ht : l.target = n.id) {u : Value} (hu : s.graph.output? l.source = some u) : 0 < u.size := by
  by_cases hfeeds : Feeds s.graph.links l.source n.id
  · exact hfed.value_pos hw hfeeds hu
  · have hvalid := (hkeeps l hl ht).2 hfeeds
    obtain ⟨a, ha, rfl⟩ := Option.map_eq_some_iff.mp hu
    rw [ha, Option.any_some, Node.isValid, Bool.not_eq_true'] at hvalid
    exact Value.isEmpty_eq_false_iff.mp hvalid

/-- A node of which links only go stays fed. -/
theorem KeepsSources.fed_of_fewer {n m : Node} (hkeeps : KeepsSources n.id s s')
    (hfed : s.graph.Fed n) (hw : s.graph.WellFormed) (hw' : s'.graph.WellFormed)
    (hid : m.id = n.id) (hkind : m.kind = n.kind)
    (hless : ∀ l ∈ s'.graph.links, l.target = n.id → l ∈ s.graph.links) : s'.graph.Fed m := by
  refine hfed.fewer hkind fun i v hv => ?_
  obtain ⟨x, hl, hx⟩ := (Graph.at?_operandsAt hw').mp hv
  have hold := hless _ hl hid
  have hsize := hkeeps.size_eq hl hid ⟨_, hold, rfl, hid⟩
  rw [hx] at hsize
  obtain ⟨u, hu, hsize⟩ := Option.map_eq_some_iff.mp hsize.symm
  exact ⟨u, (Graph.at?_operandsAt hw).mpr ⟨x, hid ▸ hold, hu⟩, hsize⟩

section Step

variable {c : Command} {handle : Handle} {outcome : Outcome} (hs : s.Reachable)
  (ho : s.order = .topological) (h : s.apply c handle = .ok (outcome, s'))

include hs ho h

/-- A source of the node that a command links keeps its value: it does not depend on that node. -/
theorem source_kept {g : Graph} (hcore : s'.graph.core = g.core) {source : NodeId}
    {request : Option Nat} {slot : Nat} {e : EdgeId}
    (hcheck : s.graph.checkLink source id request = .ok slot)
    (hlinked : s.graph.Linked source id slot e g) :
    s'.graph.output? source = s.graph.output? source := by
  have hw := hs.graph.wellFormed
  have hs' := hs.apply h
  obtain ⟨_, _, hof⟩ := apply_ok h
  have ho' : s'.order = .topological := (ofGraph_ok hof).1.trans ho
  obtain ⟨a, _, hsource, _, _, _, _, hcycle, _⟩ := Graph.checkLink_ok_iff.mp hcheck
  obtain ⟨ha, rfl⟩ := Graph.mem_of_node? hsource
  have hapart : s.graph.Apart (some id) a.id := by
    rintro _ ⟨⟩ hchain
    rw [(dependsOn_iff _ _ _).mpr hchain] at hcycle
    cases hcycle
  rw [(hs.evaluated ho).output?_apart hw (hs'.evaluated ho') hs'.graph.wellFormed
    (hlinked.sameApart.of_core hcore) ha hapart, Graph.output?_of_mem hw.id_once ha]

/-- A node that gains a link stays fed. -/
theorem fed_of_gain {n m : Node} (hkeeps : KeepsSources n.id s s') (hfed : s.graph.Fed n)
    (hn : n ∈ s.graph.nodes) (hid : m.id = n.id) (hkind : m.kind = n.kind) {g : Graph}
    (hcore : s'.graph.core = g.core) (hgains : s.graph.GainsLink n.id g) : s'.graph.Fed m := by
  have hw := hs.graph.wellFormed
  obtain ⟨source, request, slot, e, hcheck, hlinked⟩ := hgains
  have hmem := fun l => Graph.core_links hcore ▸ hlinked.mem_links l
  refine hfed.linked hw (hs.evaluated ho) hn (hs.apply h).graph.wellFormed hcheck hmem hid hkind
    (fun u hu => ?_) fun l hl ht => ?_
  · exact hkeeps.value_pos hfed hw ((hmem _).mpr (.inr rfl)) rfl hu
  · by_cases hfeeds : Feeds s.graph.links l.source n.id
    · exact hkeeps.size_eq hl ht hfeeds
    · rcases (hmem l).mp hl with ⟨hold, _⟩ | rfl
      · exact absurd ⟨l, hold, rfl, ht⟩ hfeeds
      · rw [source_kept hs ho h hcore hcheck hlinked]

theorem feeding_apply (hkeeps : KeepsSources id s s') (hfed : s.Feeding id) : s'.Feeding id := by
  have hw := hs.graph.wellFormed
  have hw' := (hs.apply h).graph.wellFormed
  obtain ⟨g, ha, hof⟩ := apply_ok h
  have hcore := Graph.core_recompute (ofGraph_ok hof).2
  have hinto := Graph.links_into hw ha id
  rw [← Graph.core_links hcore] at hinto
  intro m hm hmid
  by_cases hlive : id ∈ s.graph.ids
  · obtain ⟨k, hk, hkc⟩ := Graph.core_node hcore hm
    obtain ⟨hkid, _, hkkind, _⟩ := Node.core_eq_iff.mp hkc
    obtain ⟨n, hn, hid, hkind⟩ := Graph.kind_kept hw ha hk (by rwa [hkid, hmid])
    have hid : m.id = n.id := (hid.trans hkid).symm
    have hkind : m.kind = n.kind := (hkind.trans hkkind).symm
    rw [← hmid, hid] at hkeeps hinto
    have hnfed := hfed n hn (hid.symm.trans hmid)
    rcases hinto with hless | hgains
    · exact hkeeps.fed_of_fewer hnfed hw hw' hid hkind hless
    · exact fed_of_gain hs ho h hkeeps hnfed hn hid hkind hcore hgains
  · -- a node that is new has no links
    refine Graph.fed_of_free hw' fun l hl ht => hlive ?_
    rcases hinto with hless | ⟨_, _, _, _, hcheck, _⟩
    · exact hmid ▸ ht ▸ hw.target_mem (hless l hl (ht.trans hmid))
    · obtain ⟨_, b, _, htarget, _⟩ := Graph.checkLink_ok_iff.mp hcheck
      obtain ⟨hb, hbid⟩ := Graph.mem_of_node? htarget
      exact Graph.mem_ids.mpr ⟨b, hb, hbid⟩

end Step

def after (s : Session) (steps : List (Command × Handle)) (k : Nat) : Session :=
  (steps.take k).foldl perform s

theorem perform_cases (hs : s.Reachable) (step : Command × Handle) :
    s.perform step = s ∨
      ∃ outcome, s.apply step.1 step.2 = .ok (outcome, s.perform step) := by
  obtain ⟨c, handle⟩ := step
  rw [perform, InPlace.run_apply hs.graph.wellFormed]
  cases hc : s.apply c handle with
  | error e => exact .inl rfl
  | ok r => exact .inr ⟨r.1, rfl⟩

theorem after_succ {steps : List (Command × Handle)} {k : Nat} (hk : k < steps.length) :
    ∃ step, s.after steps (k + 1) = (s.after steps k).perform step := by
  refine ⟨steps[k], ?_⟩
  rw [after, List.take_succ_eq_append_getElem hk, List.foldl_append]
  rfl

theorem reachable_after (hs : s.Reachable) (steps : List (Command × Handle)) (k : Nat) :
    (s.after steps k).Reachable :=
  hs.foldl_perform (steps.take k)

theorem order_after (hs : s.Reachable) (steps : List (Command × Handle)) (k : Nat) :
    (s.after steps k).order = s.order := by
  unfold after
  induction steps.take k generalizing s with
  | nil => rfl
  | cons step steps ih => exact (ih (hs.perform step)).trans (perform_order s hs step)

theorem feeding_perform (hs : s.Reachable) (ho : s.order = .topological)
    (step : Command × Handle) (hkeeps : KeepsSources id s (s.perform step))
    (hfed : s.Feeding id) : (s.perform step).Feeding id := by
  rcases perform_cases hs step with hsame | ⟨_, happly⟩
  · rw [hsame]
    exact hfed
  · exact feeding_apply hs ho happly hkeeps hfed

theorem feeding_after (hs : s.Reachable) (ho : s.order = .topological)
    (hfree : ∀ l ∈ s.graph.links, l.target ≠ id) {steps : List (Command × Handle)}
    (hkeeps : ∀ k < steps.length, KeepsSources id (s.after steps k) (s.after steps (k + 1)))
    {k : Nat} (hk : k ≤ steps.length) : (s.after steps k).Feeding id := by
  induction k with
  | zero => exact feeding_of_free hs.graph.wellFormed hfree
  | succ k ih =>
    have hstep := hkeeps k hk
    obtain ⟨step, hafter⟩ := after_succ (s := s) hk
    rw [hafter] at hstep ⊢
    exact feeding_perform (reachable_after hs steps k) ((order_after hs steps k).trans ho) step
      hstep (ih (Nat.le_of_succ_le hk))

/-- Literals and what a stage reads have the shape of their kind at all times. -/
theorem Reachable.constant_shape (hs : s.Reachable) (ho : s.order = .topological) {n : Node}
    (hn : n ∈ s.graph.nodes) (hk : n.kind.family = .environment ∨ n.kind.family = .literal) :
    n.output.shape = n.kind.naturalShape ∧ n.isValid = true := by
  have hshape : n.output.shape = n.kind.naturalShape := by
    rcases hk with hk | hk
    · rw [(hs.evaluated ho).output n hn, Graph.valueIn, evaluate_environment hk]
      rfl
    · have hliteral : n.kind.isLiteral = true := by simp [Kind.isLiteral, hk]
      rw [(hs.evaluated ho).output_eq_literal hn hliteral]
      exact (hs.graph.wellFormed.formed n hn).literal_shape hliteral
  refine ⟨hshape, ?_⟩
  rw [Node.isValid, Bool.not_eq_true', Value.isEmpty_eq_false_iff, Value.size, hshape]
  exact Kind.naturalShape_pos hk

end Session

/-- Nodes are made and set up without a link. -/
theorem Graph.carry_unlinked {g g' : Graph} {handle : Handle} {cs : List Command}
    (hcs : ∀ c ∈ cs, c.furnishes = true) (h : g.carry handle cs = .ok g')
    (hg : g.Reachable) (hlinks : g.links = []) : g'.Reachable ∧ g'.links = [] := by
  induction cs generalizing g with
  | nil =>
    cases h
    exact ⟨hg, hlinks⟩
  | cons c cs ih =>
    rw [carry_cons] at h
    obtain ⟨g₁, hc, h⟩ := except_bind_eq_ok.mp h
    obtain ⟨⟨outcome, _⟩, ha, rfl⟩ := except_map_eq_ok.mp hc
    have hstep := hg.step (.command c handle)
    simp only [Graph.perform, ha] at hstep
    exact ih (fun d hd => hcs d (List.mem_cons_of_mem c hd)) h hstep
      ((links_of_furnishes (hcs c List.mem_cons_self) ha).trans hlinks)

/-- A session that a run of commands has come to, from one without links. -/
def Session.Built (s : Session) : Prop :=
  ∃ s₀ : Session, s₀.Reachable ∧ s₀.order = .topological ∧ s₀.graph.links = [] ∧
    ∃ steps : List (Command × Handle), s = s₀.after steps steps.length

namespace Session

variable {s s' : Session}

theorem Built.reachable (h : s.Built) : s.Reachable := by
  obtain ⟨s₀, hs, _, _, steps, rfl⟩ := h
  exact reachable_after hs steps _

theorem Built.order (h : s.Built) : s.order = .topological := by
  obtain ⟨s₀, hs, ho, _, steps, rfl⟩ := h
  exact (order_after hs steps _).trans ho

theorem Built.apply (h : s.Built) {c : Command} {handle : Handle} {outcome : Outcome}
    (ha : s.apply c handle = .ok (outcome, s')) : s'.Built := by
  have hperform : s.perform (c, handle) = s' := by
    rw [Session.perform, InPlace.run_apply h.reachable.graph.wellFormed, ha]
    rfl
  obtain ⟨s₀, hs, ho, hlinks, steps, rfl⟩ := h
  refine ⟨s₀, hs, ho, hlinks, steps ++ [(c, handle)], ?_⟩
  rw [← hperform]
  simp only [after, List.take_length, List.foldl_append, List.foldl_cons, List.foldl_nil]

theorem Built.of_unlinked {g : Graph} (hg : g.Reachable) (hlinks : g.links = [])
    (h : ofGraph g .topological = .ok s) : s.Built := by
  obtain ⟨horder, hr⟩ := ofGraph_ok h
  exact ⟨s, .ofGraph hg h, horder, (Graph.core_links (Graph.core_recompute hr)).trans hlinks,
    [], rfl⟩

end Session

namespace SavedGraph

open ShaderGraph.Graph

variable {g g' : Graph} {l l' : Loading} {handles : Nat → Handle}

/-- A graph on its way in: it has no links, or it is that of a session that has been built. -/
structure Underway (l : Loading) : Prop where
  unlinked : l.linking = false → l.graph.Reachable ∧ l.graph.links = [] ∧
    ∃ next, l.graph.nodeIds = ⟨Graph.maxNodes, next, []⟩
  built : l.linking = true → ∃ s : Session, s.Built ∧ s.graph = l.graph

theorem ofGraph_of_evaluated (h : evaluated g = .ok g') :
    ∃ s, Session.ofGraph g .topological = .ok s ∧ s.graph = g' := by
  obtain ⟨report, hr⟩ := evaluated_ok h
  exact ⟨⟨g', .topological, report⟩, by simp only [Session.ofGraph, hr], rfl⟩

theorem Underway.pass (h : Underway l)
    (hg : (if l.linking then pure l.graph else evaluated l.graph) = .ok g) :
    ∃ s : Session, s.Built ∧ s.graph = g := by
  by_cases hlinking : l.linking = true
  · rw [if_pos hlinking] at hg
    cases hg
    exact h.built hlinking
  · rw [if_neg hlinking] at hg
    obtain ⟨hreachable, hlinks, _⟩ := h.unlinked (Bool.eq_false_of_not_eq_true hlinking)
    obtain ⟨s, hs, hgraph⟩ := ofGraph_of_evaluated hg
    exact ⟨s, .of_unlinked hreachable hlinks hs, hgraph⟩

theorem Underway.connect {s : Session} (h : s.Built) {source target : NodeId} {slot : Option Nat}
    {edge : EdgeId} (hc : s.graph.connect source target slot = .ok (edge, g))
    (hg : evaluated g = .ok g') : ∃ s' : Session, s'.Built ∧ s'.graph = g' := by
  obtain ⟨s', hs', hgraph⟩ := ofGraph_of_evaluated hg
  have ha : s.graph.apply (.connect source target slot) ⟨0⟩ = .ok (.connection edge, g) := by
    rw [Graph.apply, hc]
    rfl
  have happly : s.apply (.connect source target slot) ⟨0⟩ = .ok (.connection edge, s') := by
    simp only [Session.apply, ha, h.order, hs']
  exact ⟨s', h.apply happly, hgraph⟩

theorem Underway.node (h : Underway l) (hlinking : l.linking = false) {r : NodeRecord}
    {handle : Handle} {id : NodeId} (ha : addNode l.graph r handle = .ok (id, g)) :
    Underway { l with graph := g, records := l.records ++ [id] } := by
  obtain ⟨hreachable, hlinks, next, hpool⟩ := h.unlinked hlinking
  have hnext := addNode_pool (t := ⟨l.records, next⟩) hpool ha
  rw [addNode_eq (t := ⟨l.records, next⟩) hpool] at ha
  obtain ⟨g', hcarry, he⟩ := except_map_eq_ok.mp ha
  cases he
  obtain ⟨hreachable, hlinks⟩ :=
    carry_unlinked (furnishes_commands r _) hcarry hreachable hlinks
  exact ⟨fun _ => ⟨hreachable, hlinks, _, hnext⟩, by simp [hlinking]⟩

theorem Underway.addLine {line : List Char × Nat} (h : Underway l)
    (ha : l.addLine handles line = .ok l') : Underway l' := by
  cases adds_of_addLine ha with
  | blank => exact h
  | link _ hfirst _ hconnect hlast =>
    obtain ⟨s, hs, rfl⟩ := h.pass hfirst
    exact ⟨by simp, fun _ => Underway.connect hs hconnect hlast⟩
  | node _ _ hlinking _ hadd => exact h.node hlinking hadd

/-- A session on a loaded graph is one that a run of commands comes to. -/
theorem built_of_load {text : String} {s : Session} (h : load handles text = .ok g)
    (hs : Session.ofGraph g .topological = .ok s) : s.Built := by
  obtain ⟨l, hlines, hlast⟩ := except_bind_eq_ok.mp h
  have hstart : Underway ⟨Graph.new (handles 0) (handles 1), [], false⟩ :=
    ⟨fun _ => ⟨.new _ _, rfl, _, rfl⟩, by simp⟩
  have hunderway := foldlM_keeps (P := Underway) (fun _ _ _ hl ha => hl.addLine ha) hstart hlines
  obtain ⟨s', hbuilt, rfl⟩ := hunderway.pass hlast
  have hsettled := hbuilt.reachable.settled hbuilt.order
  rw [Session.recompute, hbuilt.order, hs] at hsettled
  cases hsettled
  exact hbuilt

end SavedGraph

namespace Session

variable {s : Session} {id : NodeId}

/-- The link rules are sound for evaluation. Take any commands from a time when nothing is linked
into a node, some carried out and some refused, such that each source had a value when it was linked
into the node and keeps its shape while it stays. After each of them the node has a value exactly
when the slots that it needs are connected. The shapes of literals and of what a stage reads never
change, and a session on a loaded graph has been built by such commands. -/
theorem valid_iff_connected (hs : s.Reachable) (ho : s.order = .topological)
    (hfree : ∀ l ∈ s.graph.links, l.target ≠ id) (steps : List (Command × Handle))
    (hsteady : ∀ k < steps.length, KeepsSources id (s.after steps k) (s.after steps (k + 1))) :
    (∀ k ≤ steps.length, ∀ n, (s.after steps k).graph.node? id = some n →
      (n.isValid = true ↔ n.kind.requirement.Connected ((s.after steps k).graph.inputsOf id))) ∧
    (∀ k ≤ steps.length, ∀ n ∈ (s.after steps k).graph.nodes,
      n.kind.family = .environment ∨ n.kind.family = .literal →
        n.output.shape = n.kind.naturalShape ∧ n.isValid = true) ∧
    ∀ handles text g s', SavedGraph.load handles text = .ok g →
      ofGraph g .topological = .ok s' → s'.Built := by
  have hreachable := reachable_after hs steps
  have horder := fun k => (order_after hs steps k).trans ho
  refine ⟨fun k hk n hn => ?_, fun k _ n hn => ?_, fun _ _ _ _ => SavedGraph.built_of_load⟩
  · obtain ⟨hmem, rfl⟩ := Graph.mem_of_node? hn
    have he := (hreachable k).evaluated (horder k)
    have hfed := feeding_after hs ho hfree hsteady hk n hmem rfl
    exact hfed.isValid_iff (hreachable k).graph.wellFormed he hmem
  · exact (hreachable k).constant_shape (horder k) hn

/-- A vector is multiplied by a matrix, then without it, at another place and by a number. A smaller
vector is refused at first and taken once the other one is gone. -/
def products : List (Command × Handle) :=
  [.createNode .vector4 .standard, .createNode .matrix4 .standard, .createNode .float .standard,
    .createNode .multiply (.arity 3), .createNode .vector2 .standard, .connect 2 5 (some 1),
    .connect 3 5 none, .connect 6 5 none, .destroyNode 3, .connect 2 5 (some 2), .beginLink 4,
    .finishLink 1 5 none, .destroyNode 2, .connect 6 5 none, .destroyNode 4,
    .destroyNode 6].map fun c => (c, ⟨0⟩)

theorem products_valid_iff_connected :
    (∀ k < products.length, KeepsSources 5 ((Session.new ⟨0⟩ ⟨1⟩).after products k)
      ((Session.new ⟨0⟩ ⟨1⟩).after products (k + 1))) ∧
    (List.range' 4 13).map (fun k =>
      (((Session.new ⟨0⟩ ⟨1⟩).after products k).graph.output? 5).map Value.size) =
        [0, 0, 4, 4, 4, 4, 4, 4, 4, 1, 2, 2, 0].map some ∧
    ∀ k ≤ products.length, ∀ n, ((Session.new ⟨0⟩ ⟨1⟩).after products k).graph.node? 5 = some n →
      (n.isValid = true ↔ n.kind.requirement.Connected
        (((Session.new ⟨0⟩ ⟨1⟩).after products k).graph.inputsOf 5)) := by
  have hsteady : ∀ k < products.length, KeepsSources 5 ((Session.new ⟨0⟩ ⟨1⟩).after products k)
      ((Session.new ⟨0⟩ ⟨1⟩).after products (k + 1)) := by decide +kernel
  refine ⟨hsteady, by decide +kernel, ?_⟩
  exact (valid_iff_connected (.new ⟨0⟩ ⟨1⟩) (by decide +kernel) (by decide +kernel) products
    hsteady).1

end Session

end ShaderGraph

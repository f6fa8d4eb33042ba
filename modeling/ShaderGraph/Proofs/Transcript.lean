import ShaderGraph.Proofs.Following

namespace ShaderGraph

theorem Kind.isSink_iff (k : Kind) :
    k.isSink = true ↔ k = .vertexOutput ∨ k = .fragmentOutput := by
  cases k <;> decide

namespace SavedGraph

def NodeRecord.parameters (r : NodeRecord) (id : NodeId) : List Command :=
  (if r.kind.isLiteral then [.setProperty id r.property] else []) ++
    (if r.kind = .textureSample ∧ .zero < r.data.headD .zero then
      [.setAlphaClip id (some (r.data.headD .zero))]
    else [])

/-- What makes the node of a record. A stage output is there already. -/
def NodeRecord.creation (r : NodeRecord) (id : NodeId) : List Command :=
  if r.kind.isSink then [] else .createNode r.kind r.init :: r.parameters id

def NodeRecord.commands (r : NodeRecord) (id : NodeId) : List Command :=
  r.creation id ++ [.setPosition id r.position]

/-- What is known of the nodes at a line: those of the records so far, and the next id. -/
structure Numbering where
  records : List NodeId
  next : NodeId

namespace Numbering

/-- The stage outputs have the first two ids. -/
def start : Numbering := ⟨[], 2⟩

def idOf (t : Numbering) (r : NodeRecord) : NodeId :=
  match r.kind with
  | .vertexOutput => Graph.vertexSink
  | .fragmentOutput => Graph.fragmentSink
  | _ => t.next

def withNode (t : Numbering) (r : NodeRecord) : Numbering :=
  ⟨t.records ++ [t.idOf r], if r.kind.isSink then t.next else t.next + 1⟩

/-- The commands of a line and the numbering after it. A blank line has no commands, nor has one
that cannot be read. -/
def read (t : Numbering) (line : List Char) : List Command × Numbering :=
  match Text.trim line with
  | [] => ([], t)
  | '?' :: rest =>
    match readEdge t.records.length rest with
    | .ok r => ([.connect (t.records.getD r.source 0) (t.records.getD r.target 0) r.slot], t)
    | .error _ => ([], t)
  | record =>
    match readNode record with
    | .ok r => (r.commands (t.idOf r), t.withNode r)
    | .error _ => ([], t)

def readAll (t : Numbering) : List (List Char) → List Command × Numbering
  | [] => ([], t)
  | line :: lines =>
    let (cs, t) := t.read line
    let (ds, t) := t.readAll lines
    (cs ++ ds, t)

theorem read_node {t : Numbering} {line : List Char} {r : NodeRecord}
    (hblank : Text.trim line ≠ []) (hmark : ∀ rest, Text.trim line ≠ '?' :: rest)
    (hr : readNode (Text.trim line) = .ok r) :
    t.read line = (r.commands (t.idOf r), t.withNode r) := by
  unfold read
  split
  · exact absurd ‹_› hblank
  · exact absurd ‹_› (hmark _)
  · rw [hr]

theorem read_edge {t : Numbering} {line rest : List Char} {r : EdgeRecord}
    (hline : Text.trim line = '?' :: rest) (hr : readEdge t.records.length rest = .ok r) :
    t.read line =
      ([.connect (t.records.getD r.source 0) (t.records.getD r.target 0) r.slot], t) := by
  simp only [read, hline, hr]

end Numbering

theorem furnishes_commands (r : NodeRecord) (id : NodeId) :
    ∀ c ∈ r.commands id, c.furnishes = true := by
  intro c hc
  simp only [NodeRecord.commands, NodeRecord.creation, NodeRecord.parameters, List.mem_append,
    List.mem_ite_nil_left, List.mem_ite_nil_right, List.mem_cons, List.not_mem_nil, or_false] at hc
  rcases hc with ⟨_, rfl | ⟨_, rfl⟩ | ⟨_, rfl⟩⟩ | rfl <;> rfl

variable {g g' : Graph} {r : NodeRecord} {handle : Handle} {id : NodeId}

theorem carry_ite {p : Prop} [Decidable p] {c : Command} {x : Except GraphError Graph}
    (hx : (g.apply c handle).map Prod.snd = x) :
    g.carry handle (if p then [c] else []) = if p then x else pure g := by
  split
  · rw [Graph.carry_cons, hx]
    cases x <;> rfl
  · rfl

theorem map_snd_updated (x : Except GraphError Graph) :
    (x.map fun g => (Outcome.updated, g)).map Prod.snd = x := by
  cases x <;> rfl

theorem setParameters_eq (g : Graph) (id : NodeId) (r : NodeRecord) (handle : Handle) :
    setParameters g id r = g.carry handle (r.parameters id) := by
  unfold setParameters NodeRecord.parameters
  rw [Graph.carry_append, carry_ite (c := .setProperty id r.property) (map_snd_updated _)]
  congr 1
  funext g'
  exact (carry_ite (c := .setAlphaClip id (some (r.data.headD .zero))) (map_snd_updated _)).symm

theorem createNode_pool {kind : Kind} {init : Init} {next : NodeId}
    (hpool : g.nodeIds = ⟨Graph.maxNodes, next, []⟩)
    (h : g.createNode kind init handle = .ok (id, g')) :
    id = next ∧ g'.nodeIds = ⟨Graph.maxNodes, next + 1, []⟩ := by
  unfold Graph.createNode IdPool.allocate? at h
  rw [hpool] at h
  grind

theorem placeNode_sink (hsink : r.kind.isSink = true) (t : Numbering) :
    placeNode g r handle = .ok (t.idOf r, g) := by
  rcases (Kind.isSink_iff r.kind).mp hsink with hk | hk
  · simp only [placeNode, Numbering.idOf, hk]
    rfl
  · simp only [placeNode, Numbering.idOf, hk]
    rfl

theorem idOf_new (hsink : ¬ r.kind.isSink = true) (t : Numbering) : t.idOf r = t.next := by
  unfold Numbering.idOf
  split
  · exact absurd ((Kind.isSink_iff r.kind).mpr (.inl ‹_›)) hsink
  · exact absurd ((Kind.isSink_iff r.kind).mpr (.inr ‹_›)) hsink
  · rfl

theorem placeNode_new (hsink : ¬ r.kind.isSink = true) : placeNode g r handle =
    (g.createNode r.kind r.init handle >>= fun (id, g₁) =>
      (setParameters g₁ id r).map fun g₂ => (id, g₂)) := by
  unfold placeNode
  split
  · exact absurd ((Kind.isSink_iff r.kind).mpr (.inl ‹_›)) hsink
  · exact absurd ((Kind.isSink_iff r.kind).mpr (.inr ‹_›)) hsink
  · rfl

theorem placeNode_eq {t : Numbering} (hpool : g.nodeIds = ⟨Graph.maxNodes, t.next, []⟩) :
    placeNode g r handle =
      (g.carry handle (r.creation (t.idOf r))).map fun g' => (t.idOf r, g') := by
  unfold NodeRecord.creation
  by_cases hsink : r.kind.isSink = true
  · rw [if_pos hsink, placeNode_sink hsink t]
    rfl
  · rw [if_neg hsink, placeNode_new hsink, idOf_new hsink, Graph.carry_cons]
    simp only [Graph.apply]
    cases hcreate : g.createNode r.kind r.init handle with
    | error e => rfl
    | ok p =>
      obtain ⟨id, g₁⟩ := p
      obtain ⟨rfl, _⟩ := createNode_pool hpool hcreate
      change (setParameters g₁ _ r).map _ = (g₁.carry handle (r.parameters _)).map _
      rw [setParameters_eq]

/-- Adding a record is carrying its commands out. -/
theorem addNode_eq {t : Numbering} (hpool : g.nodeIds = ⟨Graph.maxNodes, t.next, []⟩) :
    addNode g r handle =
      (g.carry handle (r.commands (t.idOf r))).map fun g' => (t.idOf r, g') := by
  unfold addNode NodeRecord.commands
  rw [placeNode_eq hpool, Graph.carry_append]
  cases g.carry handle (r.creation (t.idOf r)) with
  | error e => rfl
  | ok g₁ =>
    change (g₁.setPosition (t.idOf r) r.position >>= fun g₂ => pure (t.idOf r, g₂)) =
      (((g₁.setPosition (t.idOf r) r.position).map fun g => (Outcome.updated, g)).map Prod.snd >>=
        fun g₂ => g₂.carry handle []).map _
    rw [map_snd_updated]
    cases g₁.setPosition (t.idOf r) r.position <;> rfl

theorem setParameter_nodeIds {parameter : Parameter} {has : Kind → Bool}
    {f : Node → Except GraphError Node} (h : g.setParameter id parameter has f = .ok g') :
    g'.nodeIds = g.nodeIds := by
  unfold Graph.setParameter at h
  split at h
  · cases h
  split at h
  · split at h
    · cases h
    · cases h
      rfl
  · cases h

theorem setPosition_nodeIds {position : Scalar × Scalar}
    (h : g.setPosition id position = .ok g') : g'.nodeIds = g.nodeIds := by
  unfold Graph.setPosition at h
  split at h
  · cases h
  · cases h
    rfl

theorem setParameters_nodeIds (h : setParameters g id r = .ok g') : g'.nodeIds = g.nodeIds := by
  obtain ⟨g₁, hproperty, hclip⟩ := except_bind_eq_ok.mp h
  have hfirst : g₁.nodeIds = g.nodeIds := by
    split at hproperty
    · exact setParameter_nodeIds hproperty
    · cases hproperty
      rfl
  dsimp only at hclip
  split at hclip
  · exact (setParameter_nodeIds hclip).trans hfirst
  · cases hclip
    exact hfirst

/-- Only the creation of a node takes an id. -/
theorem addNode_pool {t : Numbering} (hpool : g.nodeIds = ⟨Graph.maxNodes, t.next, []⟩)
    (h : addNode g r handle = .ok (id, g')) :
    g'.nodeIds = ⟨Graph.maxNodes, (t.withNode r).next, []⟩ := by
  obtain ⟨⟨id₁, g₁⟩, hplace, hmove⟩ := except_bind_eq_ok.mp h
  obtain ⟨g₂, hposition, he⟩ := except_bind_eq_ok.mp hmove
  cases he
  rw [setPosition_nodeIds hposition]
  unfold Numbering.withNode
  by_cases hsink : r.kind.isSink = true
  · rw [placeNode_sink hsink t] at hplace
    cases hplace
    rw [if_pos hsink, hpool]
  · rw [placeNode_new hsink] at hplace
    obtain ⟨⟨id₂, g₃⟩, hcreate, hset⟩ := except_bind_eq_ok.mp hplace
    obtain ⟨g₄, hset, he⟩ := except_map_eq_ok.mp hset
    cases he
    rw [if_neg hsink, setParameters_nodeIds hset]
    exact (createNode_pool hpool hcreate).2

/-- A graph on its way in, the numbering of its nodes, and a session that was given the commands. -/
structure Follows (l : Loading) (t : Numbering) (s : Session) : Prop where
  shown : s.At l.graph
  wellFormed : l.graph.WellFormed
  settled : l.linking = true → l.graph.Evaluated
  records : l.records = t.records
  pool : l.graph.nodeIds = ⟨Graph.maxNodes, t.next, []⟩

variable {l l' : Loading} {t : Numbering} {s : Session} {handles : Nat → Handle} {line : List Char}
  {number : Nat}

theorem Follows.start (vertexHandle fragmentHandle : Handle) (handles : Nat → Handle) :
    Follows ⟨Graph.new (handles 0) (handles 1), [], false⟩ .start
      (Session.new vertexHandle fragmentHandle) := by
  obtain ⟨horder, hr⟩ := Session.ofGraph_ok (Session.ofGraph_new vertexHandle fragmentHandle)
  have hnames : (Graph.new vertexHandle fragmentHandle).outline =
      (Graph.new (handles 0) (handles 1)).outline := rfl
  exact {
    shown := ⟨.new _ _, horder, (Graph.outline_of_core (Graph.core_recompute hr)).trans hnames⟩
    wellFormed := Graph.wellFormed_new _ _
    settled := by simp
    records := rfl
    pool := rfl }

theorem Follows.node (h : Follows l t s) (hlinking : l.linking = false) {r : NodeRecord}
    {g : Graph} (ha : addNode l.graph r handle = .ok (id, g)) :
    s.Completes (r.commands (t.idOf r))
      (Follows { l with graph := g, records := l.records ++ [id] } (t.withNode r)) := by
  have hcarry := ha
  rw [addNode_eq h.pool] at hcarry
  obtain ⟨g', hcarry, he⟩ := except_map_eq_ok.mp hcarry
  cases he
  refine (h.shown.carry_ok (furnishes_commands r _) hcarry).mono fun s' hat => ?_
  exact {
    shown := hat
    wellFormed := addNode_keeps Graph.stable_wellFormed h.wellFormed ha
    settled := by
      intro hl
      rw [hlinking] at hl
      cases hl
    records := by rw [Numbering.withNode, h.records]
    pool := addNode_pool h.pool ha }

theorem Follows.node_error (h : Follows l t s) {r : NodeRecord} {e : GraphError}
    (ha : addNode l.graph r handle = .error e) : s.Refuses (r.commands (t.idOf r)) e := by
  rw [addNode_eq h.pool] at ha
  cases hcarry : l.graph.carry handle (r.commands (t.idOf r)) with
  | ok g =>
    rw [hcarry] at ha
    cases ha
  | error e' =>
    rw [hcarry] at ha
    cases ha
    exact h.shown.carry_error (furnishes_commands r _) hcarry

theorem connect_nodeIds {source target : NodeId} {slot : Option Nat} {edge : EdgeId}
    (h : g.connect source target slot = .ok (edge, g')) : g'.nodeIds = g.nodeIds := by
  unfold Graph.connect at h
  split at h
  · cases h
  simp only at h
  split at h
  · cases h
  · cases h
    rfl

/-- A pass over the graph on its way in is none for the session, which has made it already. -/
theorem Follows.pass (h : Follows l t s) (hg : evaluated l.graph = .ok g) :
    Follows { l with graph := g, linking := true } t s := by
  obtain ⟨report, hr⟩ := evaluated_ok hg
  have hcore := Graph.core_recompute hr
  exact {
    shown := ⟨h.shown.reachable, h.shown.order,
      h.shown.outline.trans (Graph.outline_of_core hcore).symm⟩
    wellFormed := h.wellFormed.recompute hr
    settled := fun _ => Graph.evaluated_of_recompute h.wellFormed hr
    records := h.records
    pool := (Graph.core_nodeIds hcore).trans h.pool }

theorem Follows.edge (h : Follows l t s) (hlinking : l.linking = true) {source target : NodeId}
    {slot : Option Nat} {edge : EdgeId} (hc : l.graph.connect source target slot = .ok (edge, g))
    (hg : evaluated g = .ok g') :
    s.Completes [.connect source target slot]
      (Follows { l with graph := g', linking := true } t) := by
  have happly : l.graph.apply (.connect source target slot) ⟨0⟩ = .ok (.connection edge, g) := by
    rw [Graph.apply, hc]
    rfl
  refine .cons fun handle => ?_
  obtain ⟨s', hs', hat⟩ := h.shown.apply_ok (h.shown.answer_connect h.wellFormed
    (h.settled hlinking) source target slot ⟨0⟩ handle) happly
  have hlinked : Follows { l with graph := g, linking := false } t s' := {
    shown := hat
    wellFormed := h.wellFormed.connect hc
    settled := by simp
    records := h.records
    pool := (connect_nodeIds hc).trans h.pool }
  exact ⟨_, s', hs', .nil (hlinked.pass hg)⟩

theorem Follows.edge_error (h : Follows l t s) (hlinking : l.linking = true)
    {source target : NodeId} {slot : Option Nat} {e : GraphError}
    (hc : l.graph.connect source target slot = .error e) :
    s.Refuses [.connect source target slot] e := by
  have happly : l.graph.apply (.connect source target slot) ⟨0⟩ = .error e := by
    rw [Graph.apply, hc]
    rfl
  refine ⟨[], _, [], rfl, .nil fun handle => ?_⟩
  exact Session.apply_error (h.shown.answer_connect h.wellFormed (h.settled hlinking) source target
    slot ⟨0⟩ handle) happly

/-- Before the first link the graph is evaluated. -/
theorem Follows.unlinked (h : Follows l t s)
    (hg : (if l.linking then pure l.graph else evaluated l.graph) = .ok g) :
    Follows { l with graph := g, linking := true } t s := by
  by_cases hlinking : l.linking = true
  · rw [if_pos hlinking] at hg
    cases hg
    rw [← hlinking]
    exact h
  · rw [if_neg hlinking] at hg
    exact h.pass hg

theorem Follows.addLine_ok (h : Follows l t s)
    (hl : l.addLine handles (line, number) = .ok l') :
    s.Completes (t.read line).1 (Follows l' (t.read line).2) := by
  have hadds : Adds handles l line l' := adds_of_addLine hl
  cases hadds with
  | blank hline =>
    simp only [Numbering.read, hline]
    exact .nil h
  | link hline hfirst hread hconnect hlast =>
    rw [h.records] at hread hconnect
    rw [Numbering.read_edge hline hread]
    exact (h.unlinked hfirst).edge rfl hconnect hlast
  | node hblank hmark hlinking hread hadd =>
    rw [Numbering.read_node hblank hmark hread]
    exact h.node hlinking hadd

theorem evaluated_ne_graph {e : GraphError} : evaluated g ≠ .error (.graph number e) := by
  intro h
  unfold evaluated at h
  split at h <;> cases h

theorem Follows.addLine_error (h : Follows l t s) {k : Nat} {e : GraphError}
    (hl : l.addLine handles (line, number) = .error (.graph k e)) :
    k = number ∧ s.Refuses (t.read line).1 e := by
  unfold Loading.addLine at hl
  simp only at hl
  split at hl
  · cases hl
  · rename_i rest hline
    rcases except_bind_eq_error.mp hl with hfirst | ⟨g₁, hfirst, hl⟩
    · split at hfirst
      · cases hfirst
      · exact absurd hfirst evaluated_ne_graph
    rcases except_bind_eq_error.mp hl with hread | ⟨r, hread, hl⟩
    · obtain ⟨_, _, he⟩ := except_mapError_eq_error.mp hread
      cases he
    rcases except_bind_eq_error.mp hl with hconnect | ⟨⟨edge, g₂⟩, _, hl⟩
    · obtain ⟨_, hconnect, he⟩ := except_mapError_eq_error.mp hconnect
      cases he
      rw [h.records] at hread hconnect
      rw [Numbering.read_edge hline (except_mapError_eq_ok.mp hread)]
      exact ⟨rfl, (h.unlinked hfirst).edge_error rfl hconnect⟩
    · rcases except_bind_eq_error.mp hl with hlast | ⟨_, _, hl⟩
      · exact absurd hlast evaluated_ne_graph
      · cases hl
  · rename_i hblank hmark
    split at hl
    · cases hl
    rcases except_bind_eq_error.mp hl with hread | ⟨r, hread, hl⟩
    · obtain ⟨_, _, he⟩ := except_mapError_eq_error.mp hread
      cases he
    rcases except_bind_eq_error.mp hl with hadd | ⟨_, _, hl⟩
    · obtain ⟨_, hadd, he⟩ := except_mapError_eq_error.mp hadd
      cases he
      rw [Numbering.read_node hblank hmark (except_mapError_eq_ok.mp hread)]
      exact ⟨rfl, h.node_error hadd⟩
    · cases hl

/-- The session is taken along line after line. -/
theorem Follows.addLines {lines : List (List Char)} (h : Follows l t s)
    (hl : (lines.zipIdx number).foldlM (Loading.addLine handles) l = .ok l') :
    s.Completes (t.readAll lines).1 (Follows l' (t.readAll lines).2) := by
  induction lines generalizing l t s number with
  | nil =>
    cases hl
    exact .nil h
  | cons line lines ih =>
    obtain ⟨l₁, hline, hlines⟩ := except_bind_eq_ok.mp hl
    refine .append ((h.addLine_ok hline).mono fun s' hs' => ?_)
    exact ih hs' hlines

/-- The session shows the loaded graph. -/
theorem Follows.loaded (h : Follows l t s)
    (hg : (if l.linking then pure l.graph else evaluated l.graph) = .ok g) :
    s.graph.unnamed = g.unnamed := by
  have hlast := h.unlinked hg
  exact ((hlast.settled rfl).unnamed_eq hlast.wellFormed
    (h.shown.reachable.evaluated h.shown.order) hlast.shown.outline.symm).symm

/-- A text that can be loaded is a list of commands, one part a line, that a new session carries out
one after the other and that bring it to the loaded graph, handles apart. Where loading a line is
refused by the graph, so is one of the commands of this line, after those of all lines before. -/
theorem loading_replays_commands (handles : Nat → Handle) (vertexHandle fragmentHandle : Handle)
    (text : String) :
    (∀ g, load handles text = .ok g →
      (Session.new vertexHandle fragmentHandle).Completes
        (Numbering.start.readAll (Text.splitOn '\n' text.toList)).1
        fun s => s.graph.unnamed = g.unnamed) ∧
    ∀ number e, load handles text = .error (.graph number e) →
      ∃ before line after, Text.splitOn '\n' text.toList = before ++ line :: after ∧
        number = before.length + 1 ∧
        (Session.new vertexHandle fragmentHandle).Completes (Numbering.start.readAll before).1
          fun s => s.Refuses ((Numbering.start.readAll before).2.read line).1 e := by
  have hstart := Follows.start vertexHandle fragmentHandle handles
  refine ⟨?_, ?_⟩
  · intro g hload
    obtain ⟨l, hlines, hlast⟩ := except_bind_eq_ok.mp hload
    exact (hstart.addLines hlines).mono fun s hs => hs.loaded hlast
  · intro number e hload
    rcases except_bind_eq_error.mp hload with hlines | ⟨l, _, hlast⟩
    · obtain ⟨done, record, rest, l, hsplit, hdone, hline⟩ := foldlM_eq_error hlines
      obtain ⟨before, remaining, hbefore, rfl, hremaining⟩ := List.zipIdx_eq_append_iff.mp hsplit
      obtain ⟨line, after, rfl, rfl, rfl⟩ := List.zipIdx_eq_cons_iff.mp hremaining.symm
      have hfollows := hstart.addLines hdone
      obtain ⟨_, _, _, hs⟩ := hfollows handles
      refine ⟨before, line, after, hbefore, ?_, hfollows.mono fun s hs => ?_⟩
      · exact (hs.addLine_error hline).1.trans (Nat.add_comm 1 before.length)
      · exact (hs.addLine_error hline).2
    · split at hlast
      · cases hlast
      · exact absurd hlast evaluated_ne_graph

/-- A uniform, a blank line, a stage output that has been moved, and a link from one to the
other. -/
def smallText : String :=
  "10,1,-1,-1,-1,-1,0,0,1,0.5,0,0,0,0,0,0,0,0,0,0,0,0,0,0,0,7,0,\n\n" ++
    "91,0,-1,-1,-1,-1,0,1,4,0,0,0,0,0,0,0,0,0,0,0,0,0,0,0,0,400,250,\n?0?1"

def refusedText : String := smallText ++ "\n?1?0"

theorem small_replayed :
    ((Numbering.start.readAll (Text.splitOn '\n' smallText.toList)).1.map Command.description =
        ["Create node", "Set property", "Set position", "Set position", "Connect"] ∧
      ∃ g, load Handle.mk smallText = .ok g ∧
        (Session.new ⟨7⟩ ⟨8⟩).Completes
          (Numbering.start.readAll (Text.splitOn '\n' smallText.toList)).1
          fun s => s.graph.unnamed = g.unnamed) ∧
    load Handle.mk refusedText = .error (.graph 5 (.link (.sinkSource 1))) ∧
      ∃ before line after, Text.splitOn '\n' refusedText.toList = before ++ line :: after ∧
        5 = before.length + 1 ∧
        (Session.new ⟨7⟩ ⟨8⟩).Completes (Numbering.start.readAll before).1
          fun s => s.Refuses ((Numbering.start.readAll before).2.read line).1
            (.link (.sinkSource 1)) := by
  have hrefused : load Handle.mk refusedText = .error (.graph 5 (.link (.sinkSource 1))) := by
    decide +kernel
  refine ⟨⟨by decide +kernel, ?_⟩, hrefused, ?_⟩
  · have hloads : (load Handle.mk smallText).toOption.isSome = true := by decide +kernel
    cases hload : load Handle.mk smallText with
    | error e =>
      rw [hload] at hloads
      cases hloads
    | ok g => exact ⟨g, rfl, (loading_replays_commands Handle.mk ⟨7⟩ ⟨8⟩ smallText).1 g hload⟩
  · exact (loading_replays_commands Handle.mk ⟨7⟩ ⟨8⟩ refusedText).2 5 _ hrefused

end SavedGraph

end ShaderGraph

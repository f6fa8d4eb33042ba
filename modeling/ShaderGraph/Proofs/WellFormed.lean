import Mathlib.Data.List.Perm.Basic
import ShaderGraph.Evaluation
import ShaderGraph.Graph.Edit
import ShaderGraph.Proofs.Dependence
import ShaderGraph.Proofs.Inputs
import ShaderGraph.Proofs.Pool

namespace ShaderGraph

structure Node.Formed (n : Node) : Prop where
  literal_shape : n.kind.isLiteral = true → n.literal.shape = n.kind.naturalShape
  literal_empty : n.kind.isLiteral = false → n.literal = .empty
  limit : n.limit = n.kind.inputLimit ∨ n.kind.isVariadic = true ∧ 2 ≤ n.limit ∧ n.limit ≤ 4
  property : n.property = true → n.kind.isLiteral = true
  alphaClip : n.alphaClip.isSome = true → n.kind = .textureSample

theorem Kind.inputLimit_le (k : Kind) : k.inputLimit ≤ 4 := by
  cases k <;> decide

theorem Node.Formed.limit_le {n : Node} (h : n.Formed) : n.limit ≤ 4 := by
  rcases h.limit with he | ⟨_, _, hle⟩
  · exact he ▸ n.kind.inputLimit_le
  · exact hle

theorem Node.Formed.limit_eq {n : Node} (h : n.Formed) (hv : n.kind.isVariadic = false) :
    n.limit = n.kind.inputLimit := by
  rcases h.limit with he | ⟨hyes, _⟩
  · exact he
  · rw [hv] at hyes
    cases hyes

theorem Node.Formed.limit_le_inputLimit {n : Node} (h : n.Formed) :
    n.limit ≤ n.kind.inputLimit := by
  rcases h.limit with he | ⟨hv, _, hle⟩
  · exact Nat.le_of_eq he
  · unfold Kind.inputLimit
    rwa [if_pos hv]

/-- Links between these nodes, as the link checks let them through. -/
structure Wired (nodes : List Node) (links : List Link) : Prop where
  source : ∀ l ∈ links, ∃ n ∈ nodes, n.id = l.source ∧ n.kind.isSink = false
  target : ∀ l ∈ links, ∃ n ∈ nodes, n.id = l.target ∧ l.slot < n.limit
  ends_once : (links.map Link.ends).Nodup
  socket_once : (links.map Link.socket).Nodup
  acyclic : Acyclic links

namespace Graph

structure WellFormed (g : Graph) : Prop where
  id_once : g.ids.Nodup
  edge_once : (g.edges.map Edge.id).Nodup
  /-- The stage outputs come first, and no other node is one. -/
  sinks : ∃ v f rest, g.nodes = v :: f :: rest ∧ v.id = vertexSink ∧ v.kind = .vertexOutput ∧
    f.id = fragmentSink ∧ f.kind = .fragmentOutput ∧ ∀ n ∈ rest, n.kind.isSink = false
  formed : ∀ n ∈ g.nodes, n.Formed
  /-- Pending edges included. -/
  source : ∀ e ∈ g.edges, ∃ n ∈ g.nodes, n.id = e.source ∧ n.kind.isSink = false
  wired : Wired g.nodes g.links
  nodePool : g.nodeIds.Holds maxNodes g.ids
  edgePool : g.edgeIds.Holds maxEdges (g.edges.map Edge.id)

end Graph

namespace Graph

variable {g : Graph}

theorem mem_of_node? {id : NodeId} {n : Node} (h : g.node? id = some n) :
    n ∈ g.nodes ∧ n.id = id :=
  ⟨List.mem_of_find?_eq_some h, by simpa using List.find?_some h⟩

theorem mem_of_edge? {id : EdgeId} {e : Edge} (h : g.edge? id = some e) :
    e ∈ g.edges ∧ e.id = id :=
  ⟨List.mem_of_find?_eq_some h, by simpa using List.find?_some h⟩

/-- With keys used once, the first of a kind in a list is the only one. -/
theorem find?_key {α κ : Type} [DecidableEq κ] (key : α → κ) {xs : List α}
    (hu : (xs.map key).Nodup) {x : α} (hx : x ∈ xs) :
    xs.find? (fun y => decide (key y = key x)) = some x := by
  cases h : xs.find? (fun y => decide (key y = key x)) with
  | none =>
    rw [List.find?_eq_none] at h
    exact absurd (h x hx) (by simp)
  | some y =>
    have hy := List.mem_of_find?_eq_some h
    have he : key y = key x := by simpa using List.find?_some h
    rw [List.inj_on_of_nodup_map hu hy hx he]

theorem node?_of_mem (hu : g.ids.Nodup) {n : Node} (hn : n ∈ g.nodes) : g.node? n.id = some n :=
  find?_key Node.id hu hn

theorem output?_of_mem (hu : g.ids.Nodup) {n : Node} (hn : n ∈ g.nodes) :
    g.output? n.id = some n.output := by
  rw [output?, node?_of_mem hu hn]
  rfl

theorem edge?_of_mem (hu : (g.edges.map Edge.id).Nodup) {e : Edge} (he : e ∈ g.edges) :
    g.edge? e.id = some e :=
  find?_key Edge.id hu he

/-- The node that is found is the only one with its id. -/
theorem eq_of_node? (hu : g.ids.Nodup) {id : NodeId} {n m : Node} (hn : g.node? id = some n)
    (hm : m ∈ g.nodes) (hid : m.id = id) : m = n := by
  rw [← hid, node?_of_mem hu hm] at hn
  exact Option.some.inj hn

theorem mem_ids {id : NodeId} : id ∈ g.ids ↔ ∃ n ∈ g.nodes, n.id = id := by
  simp [ids]

theorem node?_of_notMem {id : NodeId} (h : id ∉ g.ids) : g.node? id = none := by
  rw [node?, List.find?_eq_none]
  intro n hn
  simpa using fun he => h (mem_ids.mpr ⟨n, hn, he⟩)

theorem mem_links {l : Link} :
    l ∈ g.links ↔ ∃ e ∈ g.edges, e.source = l.source ∧ e.target = some l.socket := by
  simp only [links, List.mem_filterMap, Edge.link?, Option.map_eq_some_iff]
  constructor
  · rintro ⟨e, he, p, hp, rfl⟩
    exact ⟨e, he, rfl, hp⟩
  · rintro ⟨e, he, hs, ht⟩
    exact ⟨e, he, l.socket, ht, by rw [hs]; rfl⟩

end Graph

namespace Wired

variable {nodes : List Node} {links : List Link}

theorem slot_lt (h : Wired nodes links) (hf : ∀ n ∈ nodes, n.Formed) :
    ∀ l ∈ links, l.slot < 4 := by
  intro l hl
  obtain ⟨n, hn, _, hlt⟩ := h.target l hl
  exact Nat.lt_of_lt_of_le hlt (hf n hn).limit_le

/-- Acyclicity already keeps a link from leading back to where it starts. -/
theorem apart (h : Wired nodes links) : ∀ l ∈ links, l.source ≠ l.target := by
  intro l hl he
  exact h.acyclic l.target (.single ⟨l, hl, he, rfl⟩)

theorem sublist {less : List Link} (h : Wired nodes links) (hs : less.Sublist links) :
    Wired nodes less where
  source l hl := h.source l (hs.subset hl)
  target l hl := h.target l (hs.subset hl)
  ends_once := (hs.map Link.ends).nodup h.ends_once
  socket_once := (hs.map Link.socket).nodup h.socket_once
  acyclic := h.acyclic.subset hs.subset

theorem perm {others : List Link} (h : Wired nodes links) (hp : links.Perm others) :
    Wired nodes others where
  source l hl := h.source l (hp.mem_iff.mpr hl)
  target l hl := h.target l (hp.mem_iff.mpr hl)
  ends_once := (hp.map Link.ends).nodup_iff.mp h.ends_once
  socket_once := (hp.map Link.socket).nodup_iff.mp h.socket_once
  acyclic := h.acyclic.subset hp.symm.subset

/-- Nodes may change as long as each keeps its id, its kind and its limit. -/
theorem onNodes {others : List Node} (h : Wired nodes links)
    (ho : ∀ n ∈ nodes, (∃ l ∈ links, l.source = n.id ∨ l.target = n.id) →
      ∃ m ∈ others, m.id = n.id ∧ m.kind = n.kind ∧ m.limit = n.limit) :
    Wired others links where
  source l hl := by
    obtain ⟨n, hn, hid, hk⟩ := h.source l hl
    obtain ⟨m, hm, hmid, hmk, _⟩ := ho n hn ⟨l, hl, .inl hid.symm⟩
    exact ⟨m, hm, hmid.trans hid, hmk ▸ hk⟩
  target l hl := by
    obtain ⟨n, hn, hid, hlt⟩ := h.target l hl
    obtain ⟨m, hm, hmid, _, hml⟩ := ho n hn ⟨l, hl, .inr hid.symm⟩
    exact ⟨m, hm, hmid.trans hid, hml ▸ hlt⟩
  ends_once := h.ends_once
  socket_once := h.socket_once
  acyclic := h.acyclic

end Wired

end ShaderGraph

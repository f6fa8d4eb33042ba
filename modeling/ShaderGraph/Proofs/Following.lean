import ShaderGraph.Proofs.Handles
import ShaderGraph.Proofs.Sessions

namespace ShaderGraph

namespace Session

variable {s s₁ s₂ : Session} {c : Command} {cs ds : List Command} {P Q : Session → Prop}

theorem applyAll_append {handles : Nat → Handle} {first second : List Outcome}
    (hcs : s.applyAll (fun n => handles (n + ds.length)) cs = (.ok first, s₁))
    (hds : s₁.applyAll handles ds = (.ok second, s₂)) :
    s.applyAll handles (cs ++ ds) = (.ok (first ++ second), s₂) := by
  induction cs generalizing s first with
  | nil =>
    cases hcs
    exact hds
  | cons c cs ih =>
    cases hc : s.apply c (handles (cs.length + ds.length)) with
    | error e =>
      rw [applyAll_cons_error hc] at hcs
      cases hcs
    | ok r =>
      obtain ⟨outcome, s'⟩ := r
      cases hrest : s'.applyAll (fun n => handles (n + ds.length)) cs with
      | mk result s'' =>
        rw [applyAll_cons_ok hc hrest] at hcs
        cases result with
        | error e => cases hcs
        | ok outcomes =>
          cases hcs
          rw [← List.length_append] at hc
          exact applyAll_cons_ok hc (ih hrest)

/-- The commands are all carried out, whatever handles new nodes get, and `P` holds in the end. -/
def Completes (s : Session) (cs : List Command) (P : Session → Prop) : Prop :=
  ∀ handles, ∃ outcomes s', s.applyAll handles cs = (.ok outcomes, s') ∧ P s'

def Refuses (s : Session) (cs : List Command) (e : GraphError) : Prop :=
  ∃ done c rest, cs = done ++ c :: rest ∧
    s.Completes done fun s' => ∀ handle, s'.apply c handle = .error (.graph e)

namespace Completes

theorem nil (h : P s) : s.Completes [] P := fun _ => ⟨[], s, rfl, h⟩

theorem cons (h : ∀ handle, ∃ outcome s', s.apply c handle = .ok (outcome, s') ∧
    s'.Completes cs P) : s.Completes (c :: cs) P := by
  intro handles
  obtain ⟨outcome, s', hc, hcs⟩ := h (handles cs.length)
  obtain ⟨outcomes, s'', hrest, hp⟩ := hcs handles
  exact ⟨outcome :: outcomes, s'', applyAll_cons_ok hc hrest, hp⟩

theorem append (h : s.Completes cs fun s' => s'.Completes ds P) : s.Completes (cs ++ ds) P := by
  intro handles
  obtain ⟨first, s', hcs, hrest⟩ := h fun n => handles (n + ds.length)
  obtain ⟨second, s'', hds, hp⟩ := hrest handles
  exact ⟨first ++ second, s'', applyAll_append hcs hds, hp⟩

theorem mono (h : s.Completes cs P) (hpq : ∀ s', P s' → Q s') : s.Completes cs Q := by
  intro handles
  obtain ⟨outcomes, s', hcs, hp⟩ := h handles
  exact ⟨outcomes, s', hcs, hpq s' hp⟩

end Completes

/-- The session shows `g`, up to handles and to what passes write. -/
structure At (s : Session) (g : Graph) : Prop where
  reachable : s.Reachable
  order : s.order = .topological
  outline : s.graph.outline = g.outline

/-- A command to which the two graphs give one answer takes the session along. -/
theorem At.apply_ok {g g' : Graph} (h : s.At g) {handle handle' : Handle} {outcome : Outcome}
    (hsame : s.graph.answer c handle' = g.answer c handle)
    (hg : g.apply c handle = .ok (outcome, g')) :
    ∃ s', s.apply c handle' = .ok (outcome, s') ∧ s'.At g' := by
  obtain ⟨_, _, he⟩ | ⟨⟨outcome', g₁⟩, _, hs, hg', heq⟩ := except_map_eq_map.mp hsame
  · rw [hg] at he
    cases he
  · rw [hg] at hg'
    cases hg'
    obtain ⟨rfl, houtline⟩ := Prod.mk.inj heq
    obtain ⟨g₂, report, hr⟩ := Graph.recompute_ok (h.reachable.graph.wellFormed.apply hs) s.order
    have happly : s.apply c handle' = .ok (outcome', ⟨g₂, s.order, report⟩) := by
      simp only [Session.apply, hs, ofGraph, hr]
    refine ⟨_, happly, h.reachable.apply happly, h.order, ?_⟩
    exact (Graph.outline_of_core (Graph.core_recompute hr)).trans houtline

theorem apply_error {g : Graph} {handle handle' : Handle} {e : GraphError}
    (hsame : s.graph.answer c handle' = g.answer c handle) (hg : g.apply c handle = .error e) :
    s.apply c handle' = .error (.graph e) := by
  obtain ⟨_, hs, he⟩ | ⟨_, _, _, hg', _⟩ := except_map_eq_map.mp hsame
  · rw [hg] at he
    cases he
    simp only [Session.apply, hs]
  · rw [hg] at hg'
    cases hg'

theorem At.answer_furnish {g : Graph} (h : s.At g) (hc : c.furnishes = true)
    (handle handle' : Handle) : s.graph.answer c handle' = g.answer c handle := by
  rw [Graph.answer_outline hc, Graph.answer_outline hc g handle, h.outline]

/-- The check of a link looks at values, so both graphs have to be evaluated. -/
theorem At.answer_connect {g : Graph} (h : s.At g) (hw : g.WellFormed) (he : g.Evaluated)
    (source target : NodeId) (slot : Option Nat) (handle handle' : Handle) :
    s.graph.answer (.connect source target slot) handle' =
      g.answer (.connect source target slot) handle := by
  have hsame := he.unnamed_eq hw (h.reachable.evaluated h.order) h.outline.symm
  rw [Graph.answer_connect, Graph.answer_connect g, hsame]

end Session

namespace Graph

def carry (g : Graph) (handle : Handle) (cs : List Command) : Except GraphError Graph :=
  cs.foldlM (fun g c => (g.apply c handle).map Prod.snd) g

variable {g g' : Graph} {handle : Handle} {c : Command} {cs ds : List Command}

theorem carry_cons : g.carry handle (c :: cs) =
    (g.apply c handle).map Prod.snd >>= fun g' => g'.carry handle cs := List.foldlM_cons

theorem carry_append : g.carry handle (cs ++ ds) =
    g.carry handle cs >>= fun g' => g'.carry handle ds := List.foldlM_append

end Graph

namespace Session

variable {s : Session} {g g' : Graph} {handle : Handle} {cs : List Command}

theorem At.carry_ok (h : s.At g) (hcs : ∀ c ∈ cs, c.furnishes = true)
    (hg : g.carry handle cs = .ok g') : s.Completes cs (·.At g') := by
  induction cs generalizing s g with
  | nil =>
    cases hg
    exact .nil h
  | cons c cs ih =>
    rw [Graph.carry_cons] at hg
    obtain ⟨g₁, hfirst, hrest⟩ := except_bind_eq_ok.mp hg
    obtain ⟨⟨outcome, _⟩, hc, rfl⟩ := except_map_eq_ok.mp hfirst
    refine .cons fun handle' => ?_
    obtain ⟨s', hs', hat⟩ := h.apply_ok (h.answer_furnish (hcs c (by simp)) handle handle') hc
    exact ⟨outcome, s', hs', ih hat (fun d hd => hcs d (by simp [hd])) hrest⟩

theorem At.carry_error (h : s.At g) (hcs : ∀ c ∈ cs, c.furnishes = true) {e : GraphError}
    (hg : g.carry handle cs = .error e) : s.Refuses cs e := by
  obtain ⟨done, c, rest, g', rfl, hdone, hlast⟩ := foldlM_eq_error hg
  have hc : g'.apply c handle = .error e := by
    cases hc : g'.apply c handle with
    | ok r =>
      rw [hc] at hlast
      cases hlast
    | error e' =>
      rw [hc] at hlast
      cases hlast
      rfl
  refine ⟨done, c, rest, rfl, (h.carry_ok (fun d hd => hcs d (by simp [hd])) hdone).mono ?_⟩
  intro s' hat handle'
  exact apply_error (hat.answer_furnish (hcs c (by simp)) handle handle') hc

end Session

end ShaderGraph

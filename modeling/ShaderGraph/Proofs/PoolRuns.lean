import Mathlib.Data.Finset.Basic
import Mathlib.Data.Finset.Range
import ShaderGraph.IdPool.Words
import ShaderGraph.Proofs.Pool

namespace ShaderGraph.IdPool

def used (p : IdPool) : Finset Nat := (Finset.range p.next).filter (· ∉ p.released)

@[simp] theorem mem_used {p : IdPool} {id : Nat} : id ∈ p.used ↔ p.inUse id := by
  simp [used, inUse]

/-- What a call does to a set of ids below a capacity: the lowest id that is missing is handed out,
if there is one, and an id that is taken back goes. -/
def Call.onSet (capacity : Nat) : Call → StateM (Finset Nat) (Option Nat)
  | .allocate => fun ids =>
    match (List.range capacity).find? (· ∉ ids) with
    | some id => (some id, ids ∪ {id})
    | none => (none, ids)
  | .release id => fun ids => (none, ids.erase id.toNat)

section

variable {p q : IdPool} {id : Nat}

theorem perform_allocate_some (h : p.allocate? = some (id, q)) :
    (perform .allocate).run p = (some id, q) := by
  simp [perform, StateT.run, h]

theorem perform_allocate_none (h : p.allocate? = none) :
    (perform .allocate).run p = (none, p) := by
  simp [perform, StateT.run, h]

theorem inUse_of_allocate?_eq_none (h : p.allocate? = none) (hid : id < p.capacity) :
    p.inUse id := by
  unfold allocate? at h
  split at h
  · cases h
  · rename_i hr
    split at h
    · cases h
    · exact ⟨by omega, by simp [hr]⟩

/-- One call on a pool is that call on the set of its ids. -/
theorem Tidy.perform (h : p.Tidy) (c : Call) :
    ∃ answer q, (perform c).run p = (answer, q) ∧ q.Tidy ∧ q.capacity = p.capacity ∧
      (c.onSet p.capacity).run p.used = (answer, q.used) := by
  cases c with
  | release id =>
    obtain ⟨ht, hu⟩ := h.release id.toNat
    refine ⟨none, p.release id.toNat, rfl, ht, release_capacity p _, ?_⟩
    have hset : p.used.erase id.toNat = (p.release id.toNat).used := by
      ext x
      simp [hu x, and_comm]
    simp [Call.onSet, StateT.run, hset]
  | allocate =>
    cases ha : p.allocate? with
    | none =>
      refine ⟨none, p, perform_allocate_none ha, h, rfl, ?_⟩
      have hfind : (List.range p.capacity).find? (· ∉ p.used) = none := by
        rw [List.find?_eq_none]
        intro id hid
        simpa using inUse_of_allocate?_eq_none ha (List.mem_range.mp hid)
      simp only [Call.onSet, StateT.run, hfind]
    | some r =>
      obtain ⟨id, q⟩ := r
      obtain ⟨ht, hc, hlt, hfree, hlower, hu⟩ := h.allocate ha
      refine ⟨some id, q, perform_allocate_some ha, ht, hc, ?_⟩
      have hfind : (List.range p.capacity).find? (· ∉ p.used) = some id := by
        rw [List.find?_range_eq_some]
        refine ⟨by simpa using hfree, List.mem_range.mpr hlt, ?_⟩
        intro x hx
        simpa using hlower x hx
      have hset : p.used ∪ {id} = q.used := by
        ext x
        rw [Finset.mem_union, Finset.mem_singleton, mem_used, mem_used, hu x, or_comm]
      simp only [Call.onSet, StateT.run, hfind, hset]

theorem insert_of_mem {ids : List Nat} (h : id ∈ ids) (ha : ids.Pairwise (· < ·)) :
    insert id ids = ids := by
  induction ids with
  | nil => cases h
  | cons a as ih =>
    obtain ⟨hfirst, hrest⟩ := List.pairwise_cons.mp ha
    unfold insert
    rcases List.mem_cons.mp h with rfl | hm
    · simp
    · have hlt := hfirst id hm
      rw [if_neg (by omega), if_neg (by omega), ih hm hrest]

theorem insert_eq_filter (id : Nat) {ids : List Nat} (ha : ids.Pairwise (· < ·)) :
    insert id ids = ids.filter (· < id) ++ id :: ids.filter (id < ·) := by
  induction ids with
  | nil => rfl
  | cons a as ih =>
    obtain ⟨hfirst, hrest⟩ := List.pairwise_cons.mp ha
    -- what comes behind `a` is above `id` as soon as `a` is not below it
    have habove : id ≤ a → as.filter (· < id) = [] ∧ as.filter (id < ·) = as := by
      intro hle
      simp only [List.filter_eq_nil_iff, List.filter_eq_self, decide_eq_true_eq]
      constructor
      all_goals
        intro x hx
        have := hfirst x hx
        omega
    unfold insert
    split
    · rename_i hlt
      obtain ⟨h₁, h₂⟩ := habove hlt.le
      simp [h₁, h₂, hlt, Nat.not_lt.mpr hlt.le]
    · split
      · rename_i he
        obtain ⟨h₁, h₂⟩ := habove he.le
        subst he
        simp [h₁, h₂]
      · have hlt : a < id := by omega
        rw [ih hrest]
        simp [hlt, Nat.not_lt.mpr hlt.le]

/-- Taking back an id that is not in use changes nothing. -/
theorem Tidy.release_of_not_inUse (h : p.Tidy) (hid : ¬ p.inUse id) : p.release id = p := by
  unfold IdPool.release
  split
  · rfl
  · rename_i hlt
    have hm : id ∈ p.released := by
      by_contra hn
      exact hid ⟨by omega, hn⟩
    have hclear := h.clear id hm
    rw [if_neg (by omega), insert_of_mem hm h.ascending]

end

theorem increment?_eq {a : UInt16} {n : Nat} (h : a.toNat < n) (hn : n < UInt16.size) :
    ∃ b, increment? a = some b ∧ b.toNat = a.toNat + 1 := by
  refine ⟨a + 1, if_pos (by omega), ?_⟩
  rw [UInt16.toNat_add]
  change (a.toNat + 1) % 2 ^ 16 = _
  change n < 2 ^ 16 at hn
  omega

theorem decrement?_eq {a : UInt16} (h : 0 < a.toNat) :
    ∃ b, decrement? a = some b ∧ b.toNat + 1 = a.toNat := by
  have hne : a ≠ 0 := by
    rintro rfl
    exact absurd h (by decide)
  have hle : (1 : UInt16) ≤ a := UInt16.le_iff_toNat_le.mpr h
  refine ⟨a - 1, if_neg hne, ?_⟩
  rw [UInt16.toNat_sub_of_le _ _ hle]
  exact Nat.sub_add_cancel h

namespace Words

variable {w w' : Words} {id : UInt16}

theorem toPool_injective (h : w.toPool = w'.toPool) : w = w' := by
  obtain ⟨capacity, next, released⟩ := w
  obtain ⟨capacity', next', released'⟩ := w'
  simp only [toPool, IdPool.mk.injEq, UInt16.toNat_inj] at h
  obtain ⟨rfl, rfl, hr⟩ := h
  rw [List.map_injective_iff.mpr (fun a b => UInt16.toNat_inj.mp) hr]

/-- The loop leaves behind what folding back the released ids leaves, and no word overflows. -/
theorem foldBack_eq {rs : List UInt16} (hr : w.released = rs.reverse)
    (hd : (rs.map UInt16.toNat).Pairwise (· > ·))
    (hb : ∀ id ∈ rs.map UInt16.toNat, id < w.next.toNat) :
    ∃ w', w.foldBack = some w' ∧
      w'.toPool = ⟨w.capacity.toNat, (IdPool.foldBack w.next.toNat (rs.map UInt16.toNat)).1,
        (IdPool.foldBack w.next.toNat (rs.map UInt16.toNat)).2.reverse⟩ := by
  -- each turn drops the highest released id, the head of `rs`
  induction rs generalizing w with
  | nil =>
    refine ⟨w, ?_, ?_⟩
    · simp [foldBack, hr]
    · simp [toPool, hr, IdPool.foldBack]
  | cons last rs ih =>
    rw [List.map_cons] at hd hb
    obtain ⟨hlast, hrest⟩ := List.pairwise_cons.mp hd
    have hlt := hb last.toNat (by simp)
    obtain ⟨above, habove, hval⟩ := increment?_eq hlt w.next.toNat_lt
    have hmark : above = w.next ↔ last.toNat + 1 = w.next.toNat := by
      rw [← UInt16.toNat_inj, hval]
    have hne : w.released ≠ [] := by simp [hr]
    have hturn : w.released.getLast hne = last := by simp [hr]
    rw [foldBack, dif_neg hne, hturn]
    simp only [habove, Option.bind_eq_bind, Option.bind_some, hmark, List.map_cons,
      IdPool.foldBack]
    split
    · rename_i he
      obtain ⟨next, hnext, hlower⟩ := decrement?_eq (a := w.next) (by omega)
      have hdown : next.toNat = last.toNat := by omega
      rw [hnext, Option.bind_some, ← hdown]
      exact ih (w := ⟨w.capacity, next, w.released.dropLast⟩) (by simp [hr]) hrest
        (fun id hid => hdown ▸ hlast id hid)
    · refine ⟨w, rfl, ?_⟩
      simp [toPool, hr]

theorem perform_allocate_eq (w : Words) :
    ∃ answer w', (perform .allocate).run w = some (answer, w') ∧
      (IdPool.perform .allocate).run w.toPool = (answer.map UInt16.toNat, w'.toPool) := by
  change ∃ answer w', w.allocate = some (answer, w') ∧ _
  unfold allocate
  split
  · rename_i id rest hr
    exact ⟨_, _, rfl, perform_allocate_some (by simp [allocate?, toPool, hr])⟩
  · rename_i hr
    split
    · rename_i hlt
      have hlt : w.next.toNat < w.capacity.toNat := UInt16.lt_iff_toNat_lt.mp hlt
      obtain ⟨next, hnext, hval⟩ := increment?_eq hlt w.capacity.toNat_lt
      obtain ⟨id, hid, hback⟩ := decrement?_eq (a := next) (by omega)
      have heq : id.toNat = w.next.toNat := by omega
      refine ⟨some id, ⟨w.capacity, next, w.released⟩, by simp [hnext, hid], ?_⟩
      exact perform_allocate_some (by simp [allocate?, toPool, hr, hlt, heq, hval])
    · rename_i hfull
      have hfull : ¬ w.next.toNat < w.capacity.toNat := mt UInt16.lt_iff_toNat_lt.mpr hfull
      exact ⟨none, w, rfl, perform_allocate_none (by simp [allocate?, toPool, hr, hfull])⟩

theorem release_eq (h : w.toPool.Tidy) (id : UInt16) :
    ∃ w', w.release id = some w' ∧ w'.toPool = w.toPool.release id.toNat := by
  have hmark : w.next ≤ id ↔ w.toPool.next ≤ id.toNat := UInt16.le_iff_toNat_le
  unfold release IdPool.release
  simp only [hmark]
  split
  · exact ⟨w, rfl, rfl⟩
  · rename_i hbelow
    have hbelow : id.toNat < w.next.toNat := Nat.lt_of_not_le hbelow
    obtain ⟨above, habove, hval⟩ := increment?_eq hbelow w.next.toNat_lt
    have hmark : above = w.next ↔ id.toNat + 1 = w.toPool.next := by
      rw [← UInt16.toNat_inj, hval]
      rfl
    simp only [habove, Option.bind_eq_bind, Option.bind_some, hmark]
    split
    · rename_i he
      obtain ⟨next, hnext, hlower⟩ := decrement?_eq (a := w.next) (by omega)
      have he : id.toNat + 1 = w.next.toNat := he
      have hdown : next.toNat = id.toNat := by omega
      have hreverse : w.released.reverse.map UInt16.toNat = w.toPool.released.reverse :=
        List.map_reverse
      rw [hnext, Option.bind_some, ← hdown, ← hreverse]
      refine foldBack_eq (w := ⟨w.capacity, next, w.released⟩) (by simp) ?_ ?_
      · rw [hreverse]
        exact List.pairwise_reverse.mpr h.ascending
      · intro x hx
        rw [hreverse, List.mem_reverse] at hx
        have : x + 1 < w.next.toNat := h.clear x hx
        change x < next.toNat
        omega
    · refine ⟨_, rfl, ?_⟩
      rw [insert_eq_filter _ h.ascending]
      simp only [toPool, List.map_append, List.map_cons, List.filter_map]
      congr

/-- One call on words never fails, and it is that call on the pool they stand for. -/
theorem perform_eq (h : w.toPool.Tidy) (c : Call) :
    ∃ answer w', (perform c).run w = some (answer, w') ∧
      (IdPool.perform c).run w.toPool = (answer.map UInt16.toNat, w'.toPool) := by
  cases c with
  | allocate => exact perform_allocate_eq w
  | release id =>
    obtain ⟨w', hw, hp⟩ := release_eq h id
    exact ⟨none, w', by simp [perform, StateT.run, hw], by simp [IdPool.perform, StateT.run, hp]⟩

/-- The first step of a run and the run of the others. -/
theorem run_mapM_cons {σ α β : Type} {f : α → StateM σ β} {a : α} {as : List α} {s t u : σ} {b : β}
    {bs : List β} (h : (f a).run s = (b, t)) (hs : (as.mapM f).run t = (bs, u)) :
    ((a :: as).mapM f).run s = (b :: bs, u) := by
  rw [List.mapM_cons, StateT.run_bind, h]
  change StateT.run (as.mapM f >>= fun bs => pure (b :: bs)) t = _
  rw [StateT.run_bind, hs]
  rfl

/-- Every sequence of calls is carried out to its end, with the answers of the pool and of its set.
-/
theorem run_eq (h : w.toPool.Tidy) (calls : List Call) :
    ∃ answers w', (calls.mapM perform).run w = some (answers, w') ∧ w'.toPool.Tidy ∧
      w'.capacity = w.capacity ∧
      (calls.mapM IdPool.perform).run w.toPool =
        (answers.map (Option.map UInt16.toNat), w'.toPool) ∧
      (calls.mapM (Call.onSet w.toPool.capacity)).run w.toPool.used =
        (answers.map (Option.map UInt16.toNat), w'.toPool.used) := by
  induction calls generalizing w with
  | nil => exact ⟨[], w, rfl, h, rfl, rfl, rfl⟩
  | cons c calls ih =>
    obtain ⟨answer, w₁, hwords, hpool⟩ := perform_eq h c
    obtain ⟨answer', p, hpool', htidy, hcapacity, hset⟩ := h.perform c
    rw [hpool, Prod.mk.injEq] at hpool'
    obtain ⟨rfl, rfl⟩ := hpool'
    obtain ⟨answers, w', hwords', htidy', hcapacity', hpool', hset'⟩ := ih htidy
    refine ⟨answer :: answers, w', ?_, htidy', ?_, ?_, ?_⟩
    · simp [List.mapM_cons, hwords, hwords']
    · exact hcapacity'.trans (UInt16.toNat_inj.mp hcapacity)
    · exact run_mapM_cons hpool hpool'
    · exact run_mapM_cons hset (hcapacity ▸ hset')

end Words

/-- A new pool answers every sequence of calls as the empty set would, and has the ids of that set
in use at the end. In words of sixteen bits it does so without overflow. The released ids keep away
from the mark, which stays within the capacity. A call that hands nothing out and one that takes
back what is not in use leave the pool as it was. -/
theorem runs_refine_set (capacity : UInt16) (calls : List Call) :
    ∃ answers w, (calls.mapM Words.perform).run (.new capacity) = some (answers, w) ∧
      (calls.mapM perform).run (.new capacity.toNat) =
        (answers.map (Option.map UInt16.toNat), w.toPool) ∧
      (calls.mapM (Call.onSet capacity.toNat)).run ∅ =
        (answers.map (Option.map UInt16.toNat), w.toPool.used) ∧
      (∀ id ∈ w.released, id.toNat + 1 < w.next.toNat) ∧ w.next ≤ capacity ∧
      (∀ w', (Words.perform .allocate).run w = some (none, w') → w' = w) ∧
      ∀ id : UInt16, ¬ w.toPool.inUse id.toNat →
        (Words.perform (.release id)).run w = some (none, w) := by
  obtain ⟨answers, w, hwords, htidy, hcapacity, hpool, hset⟩ :=
    Words.run_eq (w := .new capacity) (tidy_new capacity.toNat) calls
  refine ⟨answers, w, hwords, hpool, hset, ?_, ?_, ?_, ?_⟩
  · intro id hid
    exact htidy.clear id.toNat (List.mem_map_of_mem hid)
  · rw [← show w.capacity = capacity from hcapacity]
    exact UInt16.le_iff_toNat_le.mpr htidy.bounded
  · intro w' hw
    obtain ⟨answer, w₁, hw₁, hp⟩ := Words.perform_allocate_eq w
    rw [hw, Option.some_inj, Prod.mk.injEq] at hw₁
    obtain ⟨rfl, rfl⟩ := hw₁
    cases ha : w.toPool.allocate? with
    | none =>
      rw [perform_allocate_none ha, Prod.mk.injEq] at hp
      exact Words.toPool_injective hp.2.symm
    | some r =>
      rw [perform_allocate_some ha, Prod.mk.injEq] at hp
      cases hp.1
  · intro id hid
    obtain ⟨w', hw, hp⟩ := Words.release_eq htidy id
    rw [htidy.release_of_not_inUse hid] at hp
    rw [Words.toPool_injective hp] at hw
    simp [Words.perform, StateT.run, hw]

end ShaderGraph.IdPool

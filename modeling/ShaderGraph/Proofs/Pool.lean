import Mathlib.Data.List.Perm.Subperm
import ShaderGraph.IdPool

namespace ShaderGraph.IdPool

structure Tidy (p : IdPool) : Prop where
  ascending : p.released.Pairwise (· < ·)
  clear : ∀ id ∈ p.released, id + 1 < p.next
  bounded : p.next ≤ p.capacity

theorem tidy_new (capacity : Nat) : (new capacity).Tidy :=
  ⟨.nil, by simp [new], Nat.zero_le _⟩

theorem mem_insert (id x : Nat) (ids : List Nat) : x ∈ insert id ids ↔ x = id ∨ x ∈ ids := by
  induction ids with
  | nil => simp [insert]
  | cons a as ih =>
    unfold insert
    split
    · simp
    · split
      · rename_i he
        subst he
        simp
      · simp only [List.mem_cons, ih]
        exact or_left_comm

theorem insert_ascending (id : Nat) (ids : List Nat) (h : ids.Pairwise (· < ·)) :
    (insert id ids).Pairwise (· < ·) := by
  induction ids with
  | nil => simp [insert]
  | cons a as ih =>
    obtain ⟨ha, has⟩ := List.pairwise_cons.mp h
    unfold insert
    split
    · rename_i hlt
      refine List.pairwise_cons.mpr ⟨?_, h⟩
      intro x hx
      rcases List.mem_cons.mp hx with rfl | hx
      · exact hlt
      · exact Nat.lt_trans hlt (ha x hx)
    · split
      · exact h
      · refine List.pairwise_cons.mpr ⟨?_, ih has⟩
        intro x hx
        rcases (mem_insert id x as).mp hx with rfl | hx
        · omega
        · exact ha x hx

/-- Folding back keeps the ids in use and leaves the mark clear of the released ones. -/
theorem foldBack_spec (next : Nat) (ids : List Nat) (hd : ids.Pairwise (· > ·))
    (hb : ∀ x ∈ ids, x < next) :
    (foldBack next ids).1 ≤ next ∧ (foldBack next ids).2.Pairwise (· > ·) ∧
      (∀ x ∈ (foldBack next ids).2, x + 1 < (foldBack next ids).1) ∧
      ∀ x, x < (foldBack next ids).1 ∧ x ∉ (foldBack next ids).2 ↔ x < next ∧ x ∉ ids := by
  induction ids generalizing next with
  | nil => simp [foldBack]
  | cons a as ih =>
    obtain ⟨ha, has⟩ := List.pairwise_cons.mp hd
    have hlt := hb a (by simp)
    unfold foldBack
    split
    · rename_i he
      obtain ⟨hle, hp, hc, hu⟩ := ih a has ha
      refine ⟨by omega, hp, hc, fun x => (hu x).trans ?_⟩
      rw [List.mem_cons, not_or]
      exact ⟨fun ⟨hx, hn⟩ => ⟨by omega, by omega, hn⟩, fun ⟨hx, hne, hn⟩ => ⟨by omega, hn⟩⟩
    · refine ⟨Nat.le_refl _, hd, ?_, fun x => Iff.rfl⟩
      intro x hx
      rcases List.mem_cons.mp hx with rfl | hx
      · omega
      · have : x < a := ha x hx
        omega

theorem release_capacity (p : IdPool) (id : Nat) : (p.release id).capacity = p.capacity := by
  unfold release
  split
  · rfl
  · split <;> rfl

/-- Taking an id back frees that id and no other. -/
theorem Tidy.release {p : IdPool} (h : p.Tidy) (id : Nat) :
    (p.release id).Tidy ∧ ∀ x, (p.release id).inUse x ↔ p.inUse x ∧ x ≠ id := by
  unfold IdPool.release
  split
  · refine ⟨h, fun x => ⟨fun hx => ⟨hx, ?_⟩, And.left⟩⟩
    have := hx.1
    omega
  · split
    · rename_i hmark
      have hd : p.released.reverse.Pairwise (· > ·) := List.pairwise_reverse.mpr h.ascending
      have hb : ∀ x ∈ p.released.reverse, x < id := by
        intro x hx
        have := h.clear x (List.mem_reverse.mp hx)
        omega
      obtain ⟨hle, hp, hc, hu⟩ := foldBack_spec id p.released.reverse hd hb
      refine ⟨⟨List.pairwise_reverse.mpr hp, ?_, ?_⟩, fun x => ?_⟩
      · intro x hx
        exact hc x (List.mem_reverse.mp hx)
      · have := h.bounded
        simp only
        omega
      · simp only [inUse, List.mem_reverse] at hu ⊢
        rw [hu x]
        constructor
        · rintro ⟨hx, hn⟩
          exact ⟨⟨by omega, hn⟩, by omega⟩
        · rintro ⟨⟨hx, hn⟩, hne⟩
          exact ⟨by omega, hn⟩
    · refine ⟨⟨insert_ascending id _ h.ascending, ?_, h.bounded⟩, fun x => ?_⟩
      · intro x hx
        rcases (mem_insert id x _).mp hx with rfl | hx
        · simp only
          omega
        · exact h.clear x hx
      · simp only [inUse, mem_insert, not_or]
        exact ⟨fun ⟨hx, hne, hn⟩ => ⟨⟨hx, hn⟩, hne⟩, fun ⟨⟨hx, hn⟩, hne⟩ => ⟨hx, hne, hn⟩⟩

/-- Taking back several ids frees these and no other. -/
theorem Tidy.releaseAll {p : IdPool} (h : p.Tidy) (ids : List Nat) :
    (ids.foldl IdPool.release p).Tidy ∧
      ∀ x, (ids.foldl IdPool.release p).inUse x ↔ p.inUse x ∧ x ∉ ids := by
  induction ids generalizing p with
  | nil => exact ⟨h, by simp⟩
  | cons id ids ih =>
    obtain ⟨hr, hu⟩ := h.release id
    obtain ⟨ht, hv⟩ := ih hr
    refine ⟨ht, fun x => ?_⟩
    rw [List.foldl_cons, hv x, hu x, List.mem_cons, not_or, and_assoc]

theorem releaseAll_capacity (p : IdPool) (ids : List Nat) :
    (ids.foldl IdPool.release p).capacity = p.capacity := by
  induction ids generalizing p with
  | nil => rfl
  | cons id ids ih => rw [List.foldl_cons, ih, release_capacity]

/-- What is handed out is the lowest id not in use, and from then on it is. -/
theorem Tidy.allocate {p q : IdPool} {id : Nat} (h : p.Tidy) (ha : p.allocate? = some (id, q)) :
    q.Tidy ∧ q.capacity = p.capacity ∧ id < p.capacity ∧ ¬ p.inUse id ∧ (∀ x < id, p.inUse x) ∧
      ∀ x, q.inUse x ↔ x = id ∨ p.inUse x := by
  unfold allocate? at ha
  split at ha
  · rename_i first rest hr
    simp only [Option.some.injEq, Prod.mk.injEq] at ha
    obtain ⟨rfl, rfl⟩ := ha
    have hasc := h.ascending
    have hclear := h.clear
    rw [hr] at hasc hclear
    obtain ⟨hfirst, hrest⟩ := List.pairwise_cons.mp hasc
    have hmark := hclear first (by simp)
    have hbound := h.bounded
    have hnot : first ∉ rest := fun hm => absurd (hfirst first hm) (Nat.lt_irrefl _)
    refine ⟨⟨hrest, fun x hx => hclear x (by simp [hx]), hbound⟩, rfl, by omega, ?_, ?_, ?_⟩
    · simp [inUse, hr]
    · intro x hx
      refine ⟨by omega, ?_⟩
      rw [hr]
      intro hm
      rcases List.mem_cons.mp hm with rfl | hm
      · exact absurd hx (Nat.lt_irrefl _)
      · have := hfirst x hm
        omega
    · intro x
      simp only [inUse, hr, List.mem_cons, not_or]
      constructor
      · rintro ⟨hx, hn⟩
        by_cases he : x = first
        · exact .inl he
        · exact .inr ⟨hx, he, hn⟩
      · rintro (rfl | ⟨hx, -, hn⟩)
        · exact ⟨by omega, hnot⟩
        · exact ⟨hx, hn⟩
  · rename_i hr
    split at ha
    · rename_i hlt
      simp only [Option.some.injEq, Prod.mk.injEq] at ha
      obtain ⟨rfl, rfl⟩ := ha
      refine ⟨⟨by simp [hr], by simp [hr], hlt⟩, rfl, hlt, by simp [inUse], ?_, ?_⟩
      · intro x hx
        exact ⟨hx, by simp [hr]⟩
      · intro x
        simp only [inUse, hr, List.not_mem_nil, not_false_eq_true, and_true]
        omega
    · cases ha

/-- Handing an id out and taking it back is as if nothing had happened. -/
theorem Tidy.release_allocated {p q : IdPool} {id : Nat} (h : p.Tidy)
    (ha : p.allocate? = some (id, q)) : q.release id = p := by
  unfold allocate? at ha
  split at ha
  · rename_i first rest hr
    simp only [Option.some.injEq, Prod.mk.injEq] at ha
    obtain ⟨rfl, rfl⟩ := ha
    have hasc := h.ascending
    rw [hr, List.pairwise_cons] at hasc
    have hmark := h.clear first (by simp [hr])
    have hback : insert first rest = p.released := by
      rw [hr]
      cases rest with
      | nil => rfl
      | cons a as => simp [insert, hasc.1 a (by simp)]
    unfold IdPool.release
    simp only
    rw [if_neg (by omega), if_neg (by omega), hback]
  · rename_i hr
    split at ha
    · simp only [Option.some.injEq, Prod.mk.injEq] at ha
      obtain ⟨rfl, rfl⟩ := ha
      unfold IdPool.release
      rw [if_neg (by simp), if_pos rfl]
      simp only [hr, List.reverse_nil, foldBack]
      rw [← hr]
    · cases ha

/-- A pool that has taken an id back has one to hand out. -/
theorem Tidy.allocate_released {p : IdPool} {id : Nat} (h : p.Tidy) (hu : p.inUse id) :
    (p.release id).allocate? ≠ none := by
  obtain ⟨ht, hfree⟩ := h.release id
  intro hnone
  unfold allocate? at hnone
  split at hnone
  · cases hnone
  · rename_i hr
    split at hnone
    · cases hnone
    · rename_i hfull
      have hlt : id < (p.release id).next := by
        have := hu.1
        have := h.bounded
        rw [release_capacity] at hfull
        omega
      have hused : (p.release id).inUse id := ⟨hlt, by simp [hr]⟩
      exact ((hfree id).mp hused).2 rfl

structure Holds (p : IdPool) (capacity : Nat) (ids : List Nat) : Prop where
  tidy : p.Tidy
  capacity_eq : p.capacity = capacity
  inUse_iff : ∀ id, p.inUse id ↔ id ∈ ids

theorem Holds.length_le {p : IdPool} {capacity : Nat} {ids : List Nat} (h : p.Holds capacity ids)
    (hu : ids.Nodup) : ids.length ≤ capacity := by
  have hsub : ids ⊆ List.range capacity := by
    intro id hid
    have hlt := ((h.inUse_iff id).mpr hid).1
    have hbound := h.tidy.bounded
    rw [h.capacity_eq] at hbound
    exact List.mem_range.mpr (Nat.lt_of_lt_of_le hlt hbound)
  simpa using (hu.subperm hsub).length_le

/-- A pool that is not used up has an id to hand out. -/
theorem Holds.allocate_of_lt {p : IdPool} {capacity : Nat} {ids : List Nat}
    (h : p.Holds capacity ids) (hroom : ids.length < capacity) :
    ∃ id q, p.allocate? = some (id, q) := by
  cases ha : p.allocate? with
  | some r => exact ⟨r.1, r.2, rfl⟩
  | none =>
    -- nothing is released and the mark has come to the end, so every id is in use
    unfold allocate? at ha
    split at ha
    · cases ha
    rename_i hr
    split at ha
    · cases ha
    rename_i hmark
    have hfull : List.range capacity ⊆ ids := by
      intro id hid
      rw [← h.capacity_eq, List.mem_range] at hid
      exact (h.inUse_iff id).mp ⟨by omega, by simp [hr]⟩
    have hlength := (List.nodup_range.subperm hfull).length_le
    rw [List.length_range] at hlength
    omega

theorem Holds.allocate {p q : IdPool} {capacity id : Nat} {ids : List Nat}
    (h : p.Holds capacity ids) (ha : p.allocate? = some (id, q)) :
    id ∉ ids ∧ q.Holds capacity (ids ++ [id]) := by
  obtain ⟨ht, hc, _, hfree, _, hu⟩ := h.tidy.allocate ha
  refine ⟨fun hm => hfree ((h.inUse_iff id).mpr hm), ht, hc.trans h.capacity_eq, fun x => ?_⟩
  rw [hu x, h.inUse_iff x, List.mem_append, List.mem_singleton, or_comm]

theorem Holds.releaseAll {p : IdPool} {capacity : Nat} {ids : List Nat}
    (h : p.Holds capacity ids) (gone rest : List Nat)
    (hr : ∀ id, id ∈ rest ↔ id ∈ ids ∧ id ∉ gone) :
    (gone.foldl IdPool.release p).Holds capacity rest := by
  obtain ⟨ht, hu⟩ := h.tidy.releaseAll gone
  refine ⟨ht, (releaseAll_capacity p gone).trans h.capacity_eq, fun x => ?_⟩
  rw [hu x, h.inUse_iff x, hr x]

end ShaderGraph.IdPool

import ShaderGraph.Proofs.Scalars

namespace ShaderGraph.Scalar

theorem pow_toNat_div {a : ℚ} (ha : a ≠ 0) (k : Int) : a ^ k.toNat / a ^ (-k).toNat = a ^ k := by
  rw [← zpow_natCast, ← zpow_natCast, ← zpow_sub₀ ha]
  congr 1
  omega

theorem roundHalfEven_eq {a b m : Nat} (hb : 0 < b) (hlow : 2 * (m * b) ≤ 2 * a + b)
    (hhigh : 2 * a ≤ 2 * (m * b) + b)
    (hodd : m % 2 = 1 → 2 * (m * b) < 2 * a + b ∧ 2 * a < 2 * (m * b) + b) :
    roundHalfEven a b = m := by
  have hdiv := Nat.div_add_mod a b
  have hmod := Nat.mod_lt a hb
  generalize hq : a / b = q at hdiv
  generalize hr : a % b = r at hdiv hmod
  unfold roundHalfEven
  rw [hq, hr]
  -- the quotient is `m`, or just below it
  have hcase : q = m ∨ q + 1 = m := by
    have hq₁ : q < m + 1 := by
      by_contra hn
      have := Nat.mul_le_mul_left b (Nat.le_of_not_lt hn)
      rw [Nat.mul_add, Nat.mul_comm b m] at this
      omega
    have hq₂ : m < q + 2 := by
      by_contra hn
      have := Nat.mul_le_mul_left b (Nat.le_of_not_lt hn)
      rw [Nat.mul_add, Nat.mul_comm b m] at this
      omega
    omega
  rcases hcase with rfl | rfl
  · rw [Nat.mul_comm q b] at *
    rw [if_pos (by omega)]
  · rw [Nat.add_mul, Nat.mul_comm q b] at *
    rw [if_neg (by omega)]

/-- The last place kept of a number follows from the power of two below it. -/
theorem lastPlace_eq {n d : Nat} (hn : 0 < n) (hd : 0 < d) {t : Int}
    (hlow : (2 : ℚ) ^ t ≤ n / d) (hhigh : (n / d : ℚ) < 2 ^ (t + 1)) :
    lastPlace n d = max (t - 23) (-149) := by
  have hd' : (0 : ℚ) < d := by exact_mod_cast hd
  have h2 : (1 : ℚ) < 2 := by norm_num
  have hnlog := (Nat.log2_eq_iff hn.ne').mp rfl
  have hdlog := (Nat.log2_eq_iff hd.ne').mp rfl
  have hn₁ : (2 : ℚ) ^ (n.log2 : Int) ≤ n := by exact_mod_cast hnlog.1
  have hn₂ : (n : ℚ) < 2 ^ ((n.log2 : Int) + 1) := by exact_mod_cast hnlog.2
  have hd₁ : (2 : ℚ) ^ (d.log2 : Int) ≤ d := by exact_mod_cast hdlog.1
  have hd₂ : (d : ℚ) < 2 ^ ((d.log2 : Int) + 1) := by exact_mod_cast hdlog.2
  unfold lastPlace
  generalize hk : (n.log2 : Int) - d.log2 = k
  -- the quotient of the leading bits is off by at most one place
  have habove : (n / d : ℚ) < 2 ^ (k + 1) := by
    rw [div_lt_iff₀ hd']
    calc (n : ℚ) < 2 ^ ((n.log2 : Int) + 1) := hn₂
      _ = 2 ^ (k + 1) * 2 ^ (d.log2 : Int) := by
        rw [← zpow_add₀ (by norm_num)]
        congr 1
        omega
      _ ≤ 2 ^ (k + 1) * d := by gcongr
  have hbelow : (2 : ℚ) ^ (k - 1) < n / d := by
    rw [lt_div_iff₀ hd']
    calc (2 : ℚ) ^ (k - 1) * d < 2 ^ (k - 1) * 2 ^ ((d.log2 : Int) + 1) := by gcongr
      _ = 2 ^ (n.log2 : Int) := by
        rw [← zpow_add₀ (by norm_num)]
        congr 1
        omega
      _ ≤ n := hn₁
  have htest : n * 2 ^ (-k).toNat < d * 2 ^ k.toNat ↔ (n / d : ℚ) < 2 ^ k := by
    rw [← pow_toNat_div (by norm_num) k, div_lt_div_iff₀ hd' (by positivity), mul_comm _ (d : ℚ)]
    exact_mod_cast Iff.rfl
  simp only [Nat.pow_eq, htest]
  split
  · rename_i hlt
    have h₁ := (zpow_lt_zpow_iff_right₀ h2).mp (hlow.trans_lt hlt)
    have h₂ := (zpow_lt_zpow_iff_right₀ h2).mp (hbelow.trans hhigh)
    rw [show k - 1 = t by omega]
  · rename_i hge
    have h₁ := (zpow_lt_zpow_iff_right₀ h2).mp (hlow.trans_lt habove)
    have h₂ := (zpow_lt_zpow_iff_right₀ h2).mp ((not_lt.mp hge).trans_lt hhigh)
    rw [show k = t by omega]

/-- Rounding at a place gives `s` for whatever lies within half a unit of it. -/
theorem roundHalfEven_place {n d s : Nat} (hd : 0 < d) {p : Int}
    (hlow : (2 * s - 1) * (2 : ℚ) ^ p ≤ 2 * (n / d))
    (hhigh : 2 * (n / d) ≤ (2 * s + 1) * (2 : ℚ) ^ p)
    (hodd : s % 2 = 1 → (2 * s - 1) * (2 : ℚ) ^ p < 2 * (n / d) ∧
      2 * (n / d) < (2 * s + 1) * (2 : ℚ) ^ p) :
    roundHalfEven (n * 2 ^ (-p).toNat) (d * 2 ^ p.toNat) = s := by
  have hd' : (0 : ℚ) < d := by exact_mod_cast hd
  have hp : (0 : ℚ) < 2 ^ p := by positivity
  -- both sides times the denominator, so that only whole numbers are left
  have hscale : (n : ℚ) * 2 ^ (-p).toNat * 2 ^ p = n / d * (d * 2 ^ p.toNat) := by
    rw [← pow_toNat_div (by norm_num) p]
    field_simp
  have hb : (0 : ℚ) < d * 2 ^ p.toNat := by positivity
  generalize hbd : (d : ℚ) * 2 ^ p.toNat = b at hb hscale
  generalize hx : (n / d : ℚ) = x at *
  have hcastb : ((d * 2 ^ p.toNat : Nat) : ℚ) = b := by rw [← hbd]; push_cast; ring
  have hcasta : ((n * 2 ^ (-p).toNat : Nat) : ℚ) * 2 ^ p = x * b := by
    rw [← hscale]
    push_cast
    ring
  generalize (n * 2 ^ (-p).toNat : Nat) = a at hcasta ⊢
  generalize (d * 2 ^ p.toNat : Nat) = c at hcastb ⊢
  subst hcastb
  apply roundHalfEven_eq (by exact_mod_cast hb)
  · have h : (2 * (s * c) : ℚ) * 2 ^ p ≤ (2 * a + c) * 2 ^ p := by nlinarith
    exact_mod_cast (mul_le_mul_iff_left₀ hp).mp h
  · have h : (2 * a : ℚ) * 2 ^ p ≤ (2 * (s * c) + c) * 2 ^ p := by nlinarith
    exact_mod_cast (mul_le_mul_iff_left₀ hp).mp h
  · intro hs
    obtain ⟨h₁, h₂⟩ := hodd hs
    constructor
    · have h : (2 * (s * c) : ℚ) * 2 ^ p < (2 * a + c) * 2 ^ p := by nlinarith
      exact_mod_cast (mul_lt_mul_iff_left₀ hp).mp h
    · have h : (2 * a : ℚ) * 2 ^ p < (2 * (s * c) + c) * 2 ^ p := by nlinarith
      exact_mod_cast (mul_lt_mul_iff_left₀ hp).mp h

open Decimal (below)

/-- The numbers that round to `m * 2 ^ e`; the ends do so when `m` is even. -/
structure Rounds (m : Nat) (e : Int) (x : ℚ) : Prop where
  low : (4 * m - below m e) * (2 : ℚ) ^ e ≤ 4 * x
  high : 4 * x ≤ (4 * m + 2) * (2 : ℚ) ^ e
  odd : m % 2 = 1 → (4 * m - below m e) * (2 : ℚ) ^ e < 4 * x ∧ 4 * x < (4 * m + 2) * (2 : ℚ) ^ e

theorem below_le (m : Nat) (e : Int) : (below m e : ℚ) ≤ 2 := by
  unfold below
  split <;> norm_num

theorem magnitude_le {m : Nat} {e : Int} (h : Regular m e) : magnitude m e < 255 * 2 ^ 23 := by
  have := h.lt
  have := h.high
  unfold magnitude
  omega

theorem nearest_place {n d : Nat} (hn : 0 < n) {negative : Bool} {p : Int} {s k : Nat}
    (hplace : lastPlace n d = p)
    (hround : roundHalfEven (n * 2 ^ (-p).toNat) (d * 2 ^ p.toNat) = s)
    (hk : (p + 149).toNat * 2 ^ 23 + s = k) (hle : k ≤ 255 * 2 ^ 23) :
    nearest negative n d = ofMagnitude negative k := by
  unfold nearest
  rw [if_neg hn.ne', hplace]
  simp only [Nat.pow_eq, hround, hk]
  rw [Nat.min_eq_left hle]

theorem two_zpow_add (e : Int) (k : Nat) : (2 : ℚ) ^ (e + k) = 2 ^ k * 2 ^ e := by
  rw [zpow_add₀ (by norm_num), zpow_natCast, mul_comm]

/-- A number that rounds to a scalar keeps its places, unless the scalar is a power of two and the
number lies below it: then it keeps one place more. -/
theorem Rounds.place {m : Nat} {e : Int} (hr : Regular m e) {n d : Nat} (hn : 0 < n) (hd : 0 < d)
    (hx : Rounds m e (n / d)) :
    lastPlace n d = e ∨
      lastPlace n d = e - 1 ∧ m = 2 ^ 23 ∧ -149 < e ∧ (n / d : ℚ) < 2 ^ 23 * 2 ^ e := by
  by_cases hlast : lastPlace n d = e
  · exact .inl hlast
  have hunit : (0 : ℚ) < 2 ^ e := by positivity
  have hpos : (0 : ℚ) < n / d := by positivity
  have h2 : (1 : ℚ) < 2 := by norm_num
  have hmlt : (m : ℚ) + 1 ≤ 2 ^ 24 := by exact_mod_cast hr.lt
  have hbelow := below_le m e
  obtain ⟨t, ht₁, ht₂⟩ := exists_mem_Ico_zpow hpos h2
  have hplace := lastPlace_eq hn hd ht₁ ht₂
  have htop : t < e + 24 := by
    refine (zpow_lt_zpow_iff_right₀ h2).mp (ht₁.trans_lt ?_)
    have := two_zpow_add e 24
    push_cast at this
    rw [this]
    nlinarith [hx.high]
  have hlow : t < e + 23 ∧ -149 < e := by
    have := hr.low
    omega
  have hunder : (n / d : ℚ) < 2 ^ 23 * 2 ^ e := by
    have hle : (2 : ℚ) ^ (t + 1) ≤ 2 ^ (e + 23) := zpow_le_zpow_right₀ h2.le (by omega)
    have := two_zpow_add e 23
    push_cast at this
    exact ht₂.trans_le (hle.trans_eq this)
  have hfull : 2 ^ 23 ≤ m := by
    rcases hr.full with h | h
    · exact h
    · omega
  have hm : m = 2 ^ 23 := by
    by_contra hne
    have hmore : (2 ^ 23 : ℚ) + 1 ≤ m := by exact_mod_cast (by omega : 2 ^ 23 + 1 ≤ m)
    nlinarith [hx.low]
  have hbottom : e + 22 < t + 1 := by
    refine (zpow_lt_zpow_iff_right₀ h2).mp (lt_of_le_of_lt ?_ ht₂)
    have hmcast : (m : ℚ) = 2 ^ 23 := by exact_mod_cast hm
    have hxlow := hx.low
    rw [hmcast] at hxlow
    have := two_zpow_add e 22
    push_cast at this
    rw [this]
    nlinarith
  refine .inr ⟨?_, hm, hlow.2, hunder⟩
  rw [hplace]
  omega

/-- Rounding takes every number of the interval to its scalar. -/
theorem nearest_eq {m : Nat} {e : Int} (hr : Regular m e) {n d : Nat} (hn : 0 < n) (hd : 0 < d)
    (hx : Rounds m e (n / d)) (negative : Bool) :
    nearest negative n d = ofMagnitude negative (magnitude m e) := by
  have hunit : (0 : ℚ) < 2 ^ e := by positivity
  have hbelow := below_le m e
  have hle := (magnitude_le hr).le
  rcases hx.place hr hn hd with hlast | ⟨hlast, hm, he, hunder⟩
  · -- the places kept are those of the scalar itself
    refine nearest_place hn hlast (roundHalfEven_place hd (s := m) ?_ ?_ ?_) rfl hle
    · nlinarith [hx.low]
    · nlinarith [hx.high]
    · intro hodd
      obtain ⟨h₁, h₂⟩ := hx.odd hodd
      constructor <;> nlinarith
  · -- one place more is kept, and rounding goes up to the power of two
    have hhalf : (2 : ℚ) ^ e = 2 ^ (e - 1) * 2 := by
      rw [← zpow_add_one₀ (by norm_num)]
      congr 1
      omega
    have hquarter : below m e = 1 := if_pos ⟨hm, he⟩
    have hxlow := hx.low
    rw [hquarter, hm] at hxlow
    push_cast at hxlow
    rw [hhalf] at hunder hxlow
    refine nearest_place hn hlast (roundHalfEven_place hd (s := 2 ^ 24) ?_ ?_ ?_) ?_ hle
    · push_cast
      nlinarith
    · push_cast
      have : (0 : ℚ) < 2 ^ (e - 1) := by positivity
      nlinarith
    · simp
    · unfold magnitude
      omega

end ShaderGraph.Scalar

import Mathlib.Data.Rat.Floor
import Mathlib.Data.Sign.Basic
import ShaderGraph.Proofs.Rounding
import ShaderGraph.Scalar.Integral

namespace ShaderGraph.Scalar

def signed (negative : Bool) (q : ℚ) : ℚ := if negative then -q else q

def toRat? (x : Scalar) : Option ℚ :=
  match parts x with
  | .finite negative m e => some (signed negative (m * 2 ^ e))
  | _ => none

theorem toRat?_of_parts {x : Scalar} {negative : Bool} {m : Nat} {e : Int}
    (h : parts x = .finite negative m e) : toRat? x = some (signed negative (m * 2 ^ e)) := by
  simp [toRat?, h]

theorem parts_ofMagnitude {m : Nat} {e : Int} (h : Regular m e) (negative : Bool) :
    parts (ofMagnitude negative (magnitude m e)) = .finite negative m e := by
  have hle := magnitude_le h
  have hlt := h.lt
  have hlow := h.low
  have hfull := h.full
  generalize hk : magnitude m e = k at hle
  unfold magnitude at hk
  have hnat : (UInt32.ofNat (if negative then 2 ^ 31 + k else k)).toNat =
      if negative then 2 ^ 31 + k else k := by
    rw [UInt32.toNat_ofNat']
    split <;> omega
  have hbits : (ofMagnitude negative k).toBits.toNat = if negative then 2 ^ 31 + k else k := by
    rw [ofMagnitude, Nat.pow_eq, toBits_ofBits, hnat]
    apply valid_of_le
    change (UInt32.ofNat _).toNat % 2 ^ 31 ≤ _
    rw [hnat]
    split <;> omega
  unfold parts
  simp only [hbits, Nat.pow_eq]
  have hfield : (if negative then 2 ^ 31 + k else k) / 2 ^ 23 % 256 = k / 2 ^ 23 := by
    split <;> omega
  have hfraction : (if negative then 2 ^ 31 + k else k) % 2 ^ 23 = k % 2 ^ 23 := by
    split <;> omega
  have hsign : decide (2 ^ 31 ≤ if negative then 2 ^ 31 + k else k) = negative := by
    cases negative <;> simp
    omega
  rw [hfield, hfraction, hsign, if_neg (by omega)]
  split
  · have he : -149 = e := by omega
    have hm : k % 2 ^ 23 = m := by omega
    rw [he, hm]
  · have he : ((k / 2 ^ 23 : Nat) : Int) - 150 = e := by omega
    have hm : 2 ^ 23 + k % 2 ^ 23 = m := by omega
    rw [he, hm]

theorem regular_zero : Regular 0 (-149) :=
  ⟨by norm_num, by norm_num, by norm_num, .inr rfl⟩

/-- Whole numbers that are scalars are not rounded. -/
theorem toRat?_nearest {m n : Nat} {e : Int} (h : Regular m e) (hn : (n : ℚ) = m * 2 ^ e)
    (negative : Bool) : toRat? (nearest negative n 1) = some (signed negative n) := by
  have hunit : (0 : ℚ) < 2 ^ e := by positivity
  rcases Nat.eq_zero_or_pos n with rfl | hpos
  · have hparts : parts (nearest negative 0 1) = _ := parts_ofMagnitude regular_zero negative
    rw [toRat?_of_parts hparts]
    simp
  · have hrounds : Rounds m e ((n : ℚ) / (1 : Nat)) := by
      have hbelow : (1 : ℚ) ≤ Decimal.below m e := by
        unfold Decimal.below
        split <;> norm_num
      rw [Nat.cast_one, div_one, hn]
      refine ⟨?_, ?_, fun _ => ⟨?_, ?_⟩⟩ <;> nlinarith
    rw [nearest_eq h hpos Nat.one_pos hrounds, toRat?_of_parts (parts_ofMagnitude h negative), hn]

theorem exists_regular_of_le {n : Nat} (hn : n ≤ 2 ^ 24) :
    ∃ m e, Regular m e ∧ (n : ℚ) = m * 2 ^ e := by
  rcases Nat.eq_zero_or_pos n with rfl | hpos
  · exact ⟨0, -149, regular_zero, by simp⟩
  · rcases hn.eq_or_lt with rfl | hlt
    · exact ⟨2 ^ 23, 1, ⟨by norm_num, by norm_num, by norm_num, .inl le_rfl⟩, by norm_num⟩
    · -- shifted up until it has all its places
      obtain ⟨hlow, hhigh⟩ := (Nat.log2_eq_iff hpos.ne').mp rfl
      generalize n.log2 = k at hlow hhigh
      have hk : k < 24 := (Nat.pow_lt_pow_iff_right (by norm_num)).mp (hlow.trans_lt hlt)
      have hsplit : 2 ^ k * 2 ^ (23 - k) = 2 ^ 23 := by
        rw [← pow_add]
        congr 1
        omega
      refine ⟨n * 2 ^ (23 - k), (k : Int) - 23, ⟨?_, by omega, by omega, .inl ?_⟩, ?_⟩
      · rw [pow_succ] at hhigh
        nlinarith [Nat.pow_pos (n := 23 - k) (by norm_num : 0 < 2)]
      · nlinarith [Nat.pow_pos (n := 23 - k) (by norm_num : 0 < 2)]
      · have hcast : ((23 - k : Nat) : Int) + (k - 23) = 0 := by omega
        rw [Nat.cast_mul, mul_assoc, Nat.cast_pow, Nat.cast_ofNat, ← zpow_natCast,
          ← zpow_add₀ (by norm_num), hcast, zpow_zero, mul_one]

/-- Every whole number next to a scalar is a scalar. -/
theorem exists_regular_near {m n : Nat} {e : Int} (h : Regular m e)
    (hlow : (m * 2 ^ e : ℚ) < n + 1) (hhigh : (n : ℚ) < m * 2 ^ e + 1) :
    ∃ m' e', Regular m' e' ∧ (n : ℚ) = m' * 2 ^ e' := by
  rcases le_or_gt 0 e with he | he
  · -- the scalar is whole
    obtain ⟨k, rfl⟩ := Int.eq_ofNat_of_zero_le he
    refine ⟨m, k, h, ?_⟩
    rw [zpow_natCast] at *
    have h₁ : m * 2 ^ k < n + 1 := by exact_mod_cast hlow
    have h₂ : n < m * 2 ^ k + 1 := by exact_mod_cast hhigh
    exact_mod_cast (by omega : n = m * 2 ^ k)
  · apply exists_regular_of_le
    have hunit : (2 : ℚ) ^ e ≤ 1 := zpow_le_one_of_nonpos₀ (by norm_num) he.le
    have hm : (m : ℚ) + 1 ≤ 2 ^ 24 := by exact_mod_cast h.lt
    have hn : (n : ℚ) < 2 ^ 24 := by nlinarith [(Nat.cast_nonneg m : (0 : ℚ) ≤ m)]
    exact_mod_cast hn.le

/-- A magnitude is its whole part and its fraction. -/
theorem magnitude_split (m : Nat) (e : Int) :
    (m * 2 ^ e : ℚ) = (m * 2 ^ e.toNat / 2 ^ (-e).toNat : Nat) +
      (m % 2 ^ (-e).toNat : Nat) / (2 ^ (-e).toNat : Nat) := by
  rcases le_or_gt 0 e with he | he
  · obtain ⟨k, rfl⟩ := Int.eq_ofNat_of_zero_le he
    simp [Nat.mod_one]
  · have hd : ((2 ^ (-e).toNat : Nat) : ℚ) ≠ 0 := by positivity
    have hpow : (2 : ℚ) ^ e = 1 / (2 ^ (-e).toNat : Nat) := by
      rw [← pow_toNat_div (by norm_num) e, Int.toNat_of_nonpos he.le]
      simp
    rw [hpow, Int.toNat_of_nonpos he.le, pow_zero, mul_one, mul_one_div, div_eq_iff hd, add_mul,
      div_mul_cancel₀ _ hd]
    exact_mod_cast (Nat.div_add_mod' m (2 ^ (-e).toNat)).symm

theorem fraction_lt_one (m : Nat) (e : Int) :
    ((m % 2 ^ (-e).toNat : Nat) : ℚ) / (2 ^ (-e).toNat : Nat) < 1 := by
  have hd : 0 < 2 ^ (-e).toNat := by positivity
  exact (div_lt_one (by exact_mod_cast hd)).mpr (by exact_mod_cast Nat.mod_lt m hd)

/-- Adding one from a certain fraction on is adding what is missing before the fraction is dropped;
the whole number meant is the one that comes out. -/
theorem toRat?_integral {x : Scalar} {negative : Bool} {m : Nat} {e : Int}
    (hx : parts x = .finite negative m e) {up : (negative : Bool) → (r d : Nat) → Bool} {h : ℚ}
    (h0 : 0 ≤ h) (h1 : h < 1) (hup : up negative (m % 2 ^ (-e).toNat) (2 ^ (-e).toNat) = true ↔
      1 ≤ ((m % 2 ^ (-e).toNat : Nat) : ℚ) / (2 ^ (-e).toNat : Nat) + h) :
    toRat? (integral up x) = some (signed negative ⌊(m * 2 ^ e : ℚ) + h⌋) := by
  have hsplit := magnitude_split m e
  have hf1 := fraction_lt_one m e
  have hexact (n : Nat) := exists_regular_near (n := n) (eq_ofMagnitude hx).1
  simp only [integral, hx, Nat.pow_eq]
  generalize 2 ^ (-e).toNat = d at *
  generalize m * 2 ^ e.toNat / d = whole at *
  generalize m % d = r at *
  generalize (m * 2 ^ e : ℚ) = q at *
  have hf0 : (0 : ℚ) ≤ r / d := by positivity
  generalize (r / d : ℚ) = f at *
  generalize hn : (if up negative r d = true then whole + 1 else whole) = n
  -- `n` is next to the magnitude, and it is the floor
  have hnear : (n : ℚ) ≤ q + h ∧ q + h < n + 1 ∧ q < n + 1 ∧ (n : ℚ) < q + 1 := by
    subst hn
    split
    · rename_i hif
      have hcarry := hup.mp hif
      push_cast
      refine ⟨?_, ?_, ?_, ?_⟩ <;> linarith
    · rename_i hif
      have hcarry := not_le.mp (mt hup.mpr hif)
      refine ⟨?_, ?_, ?_, ?_⟩ <;> linarith
  obtain ⟨hlow, hhigh, hlow', hhigh'⟩ := hnear
  obtain ⟨m', e', hr, hn'⟩ := hexact n hlow' hhigh'
  have hfloor : ⌊q + h⌋ = (n : Int) := by
    rw [Int.floor_eq_iff]
    exact_mod_cast And.intro hlow hhigh
  rw [toRat?_nearest hr hn' negative, hfloor, Int.cast_natCast]

theorem exists_parts {x : Scalar} {q : ℚ} (hx : toRat? x = some q) :
    ∃ negative m e, parts x = .finite negative m e ∧ q = signed negative (m * 2 ^ e) := by
  unfold toRat? at hx
  split at hx
  · rename_i negative m e hparts
    exact ⟨negative, m, e, hparts, (Option.some.inj hx).symm⟩
  · cases hx

/-- A sign put back is a sign carried over. -/
theorem signed_eq_sign_mul (negative : Bool) {a : ℚ} (ha : 0 ≤ a) {f : ℚ → ℚ} (hf : f 0 = 0) :
    signed negative (f a) = SignType.sign (signed negative a) * f |signed negative a| := by
  rcases ha.eq_or_lt with rfl | hpos
  · cases negative <;> simp [signed, hf]
  · cases negative <;> simp [signed, sign_neg, sign_pos, hpos, abs_of_pos]

section

variable {x : Scalar} {q : ℚ}

/-- Truncation goes towards zero. -/
theorem toRat?_trunc (hx : toRat? x = some q) :
    toRat? (trunc x) = some (SignType.sign q * ⌊|q|⌋ : ℚ) := by
  obtain ⟨negative, m, e, hparts, rfl⟩ := exists_parts hx
  rw [← signed_eq_sign_mul negative (f := fun a => (⌊a⌋ : ℚ)) (by positivity) (by simp), trunc,
    toRat?_integral hparts le_rfl one_pos (by simpa using fraction_lt_one m e), add_zero]

/-- Rounding goes to the nearest whole number, a half away from zero. -/
theorem toRat?_round (hx : toRat? x = some q) :
    toRat? (round x) = some (SignType.sign q * ⌊|q| + 1 / 2⌋ : ℚ) := by
  obtain ⟨negative, m, e, hparts, rfl⟩ := exists_parts hx
  have hd : 0 < 2 ^ (-e).toNat := by positivity
  rw [← signed_eq_sign_mul negative (f := fun a => (⌊a + 1 / 2⌋ : ℚ)) (by positivity) (by norm_num),
    round, toRat?_integral hparts (h := 1 / 2) (by norm_num) (by norm_num) ?_]
  generalize 2 ^ (-e).toNat = d at *
  generalize m % d = r
  rw [← sub_le_iff_le_add, le_div_iff₀ (by exact_mod_cast hd)]
  simp only [Bool.and_eq_true, bne_iff_ne, ne_eq, decide_eq_true_eq]
  constructor
  · rintro ⟨_, hle⟩
    have : (d : ℚ) ≤ 2 * r := by exact_mod_cast hle
    linarith
  · intro hle
    have : (d : ℚ) ≤ 2 * r := by linarith
    have : d ≤ 2 * r := by exact_mod_cast this
    omega

end

/-- Adding a half and dropping down rounds a half up, which below zero is not away from it. -/
theorem floor_add_half (q : ℚ) :
    (⌊q + 1 / 2⌋ : ℚ) = SignType.sign q * ⌊|q| + 1 / 2⌋ +
      if q < 0 ∧ Int.fract (q + 1 / 2) = 0 then 1 else 0 := by
  rcases lt_trichotomy q 0 with hneg | rfl | hpos
  · have hceil : ⌊-q + 1 / 2⌋ = -⌈q + 1 / 2⌉ + 1 := by
      rw [← Int.floor_neg, ← Int.floor_add_one]
      congr 1
      ring
    rw [sign_neg hneg, SignType.coe_neg_one, abs_of_neg hneg, hceil]
    have hfract := Int.self_sub_floor (q + 1 / 2)
    by_cases hwhole : Int.fract (q + 1 / 2) = 0
    · have hsame : ⌈q + 1 / 2⌉ = ⌊q + 1 / 2⌋ := by
        rw [Int.ceil_eq_iff]
        constructor <;> linarith
      rw [hsame, if_pos ⟨hneg, hwhole⟩]
      push_cast
      ring
    · have hpos := (Int.fract_nonneg (q + 1 / 2)).lt_of_ne' hwhole
      have hnext : ⌈q + 1 / 2⌉ = ⌊q + 1 / 2⌋ + 1 := by
        rw [Int.ceil_eq_iff]
        push_cast
        constructor <;> linarith [Int.lt_floor_add_one (q + 1 / 2)]
      rw [hnext, if_neg (by simp only [hwhole, and_false, not_false_eq_true])]
      push_cast
      ring
  · norm_num
  · rw [sign_pos hpos, abs_of_pos hpos, if_neg (by simp [hpos.le])]
    simp

end ShaderGraph.Scalar

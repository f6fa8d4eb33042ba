import Mathlib
import ShaderGraph.Scalar.Decimal

namespace ShaderGraph.Scalar

open Float.Model Float.Model.UnpackedFloat

theorem toNat_packComponents (s : Sign) (e : BitVec 8) (m : BitVec 23) :
    (packComponents .binary32 s e m).toNat =
      s.toBitVec.toNat * 2 ^ 31 + e.toNat * 2 ^ 23 + m.toNat := by
  unfold packComponents
  rw [BitVec.toNat_append, ← Nat.shiftLeft_add_eq_or_of_lt m.isLt, BitVec.toNat_append,
    ← Nat.shiftLeft_add_eq_or_of_lt e.isLt]
  simp only [Nat.shiftLeft_eq]
  ring

theorem toNat_unpackMantissa (b : BitVec 32) :
    (@unpackMantissa .binary32 b).toNat = b.toNat % 2 ^ 23 := by
  simp [unpackMantissa, BitVec.extractLsb]

theorem toNat_unpackExponent (b : BitVec 32) :
    (@unpackExponent .binary32 b).toNat = b.toNat / 2 ^ 23 % 2 ^ 8 := by
  simp [unpackExponent, BitVec.extractLsb, Nat.shiftRight_eq_div_pow]

theorem toNat_unpackSign (b : BitVec 32) :
    (@unpackSign .binary32 b).toNat = b.toNat / 2 ^ 31 := by
  have := b.isLt
  simp only [unpackSign, BitVec.extractLsb, BitVec.toNat_cast, BitVec.extractLsb'_toNat,
    Nat.shiftRight_eq_div_pow]
  omega

theorem toBitVec_ofBitVec (b : BitVec 1) : (Sign.ofBitVec b).toBitVec = b := by
  revert b
  decide

theorem packComponents_unpack (b : BitVec 32) :
    packComponents .binary32 (.ofBitVec (@unpackSign .binary32 b)) (@unpackExponent .binary32 b)
      (@unpackMantissa .binary32 b) = b := by
  apply BitVec.eq_of_toNat_eq
  rw [toNat_packComponents, toBitVec_ofBitVec, toNat_unpackMantissa, toNat_unpackExponent,
    toNat_unpackSign]
  have := b.isLt
  omega

theorem toNat_implicit (m : BitVec 23) : (1#1 ++ m).toNat = 2 ^ 23 + m.toNat := by
  rw [BitVec.toNat_append, ← Nat.shiftLeft_add_eq_or_of_lt m.isLt]
  simp [Nat.shiftLeft_eq]

/-- Packing gives back what was unpacked, for every pattern that is no NaN in disguise. -/
theorem pack_unpack {b : BitVec 32} (hb : Format.Valid .binary32 b) :
    UnpackedFloat.pack .binary32 (UnpackedFloat.unpack .binary32 b) = b := by
  have hwhole := packComponents_unpack b
  generalize he : @unpackExponent .binary32 b = e at hwhole
  generalize hm : @unpackMantissa .binary32 b = m at hwhole
  generalize hs : Sign.ofBitVec (@unpackSign .binary32 b) = s at hwhole
  have hmlt : m.toNat < 2 ^ 23 := m.isLt
  have helt : e.toNat < 2 ^ 8 := e.isLt
  simp only [UnpackedFloat.unpack, he, hm, hs]
  split
  · rename_i htop
    split
    · rename_i hzero
      rw [← hwhole, htop, hzero]
      rfl
    · rename_i hne
      exact (hb.eq_packedNaN (he.trans htop) (by rw [hm]; exact hne)).symm
  · rename_i htop
    have htop : e.toNat ≠ 255 := fun h => htop (BitVec.eq_of_toNat_eq h)
    split
    · rename_i hlow
      split
      · rename_i hzero
        rw [← hwhole, hlow, hzero]
        rfl
      · -- subnormal: too few bits for the implicit one
        rename_i hne
        have hpos : m.toNat ≠ 0 := fun h => hne (BitVec.eq_of_toNat_eq h)
        have hlog : m.toNat.log2 < 23 := (Nat.log2_lt hpos).mpr hmlt
        rw [UnpackedFloat.pack, ← hwhole, hlow, if_neg (by decide),
          if_neg (by change ¬ _ = 24; omega)]
        simp
    · rename_i hlow
      have hlow : e.toNat ≠ 0 := fun h => hlow (BitVec.eq_of_toNat_eq h)
      have hlog : (1#1 ++ m).toNat.log2 = 23 := by
        rw [toNat_implicit]
        have hlt := (Nat.log2_lt (n := 2 ^ 23 + m.toNat) (k := 24) (by omega)).mpr (by omega)
        have hge := (Nat.le_log2 (n := 2 ^ 23 + m.toNat) (k := 23) (by omega)).mpr (by omega)
        omega
      have hexp : ((e.toNat : Int) - ((Format.exponentBias .binary32 : Nat) +
          (Format.mantissaBitsWithoutImplicit .binary32 : Nat)) +
          (Format.exponentBias .binary32 : Nat) +
          (Format.mantissaBitsWithoutImplicit .binary32 : Nat)).toNat = e.toNat := by
        omega
      unfold UnpackedFloat.pack
      dsimp only
      rw [hexp, if_neg (by change ¬ 256 ≤ _; omega), if_pos (by rw [hlog]; rfl), ← hwhole]
      congr 1
      · exact BitVec.eq_of_toNat_eq (by simp)
      · apply BitVec.eq_of_toNat_eq
        rw [toNat_implicit, BitVec.toNat_ofNat]
        change (2 ^ 23 + m.toNat) % 2 ^ 23 = _
        omega

theorem ext_bits {x y : Scalar} (h : x.toBits = y.toBits) : x = y := by
  obtain ⟨⟨b, hb⟩⟩ := x
  obtain ⟨⟨c, hc⟩⟩ := y
  cases h
  rfl

/-- The pattern of a scalar, unless it is a NaN that is not the one in use. -/
theorem toBits_ofBits {b : UInt32} (hb : Format.Valid .binary32 b.toBitVec) :
    (Float32.ofBits b).toBits = b := by
  change UInt32.ofBitVec
    (UnpackedFloat.pack .binary32 (UnpackedFloat.unpack .binary32 b.toBitVec)) = b
  rw [pack_unpack hb]

theorem ofBits_toBits (x : Scalar) : Float32.ofBits x.toBits = x :=
  ext_bits (toBits_ofBits x.toModel.valid)

/-- The significand and exponent of a finite scalar: as many places as there are, and fewer only
next to zero. -/
structure Regular (m : Nat) (e : Int) : Prop where
  lt : m < 2 ^ 24
  low : -149 ≤ e
  high : e ≤ 104
  full : 2 ^ 23 ≤ m ∨ e = -149

def magnitude (m : Nat) (e : Int) : Nat := (e + 149).toNat * 2 ^ 23 + m

theorem eq_nan {x : Scalar} (h : parts x = .nan) : x = nan := by
  have hb := x.toModel.valid.eq_packedNaN
  unfold parts at h
  simp only at h
  split at h
  · rename_i htop
    split at h
    · cases h
    · rename_i hne
      have hexp : @unpackExponent .binary32 x.toModel.toBits.toBitVec = -1#_ :=
        BitVec.eq_of_toNat_eq ((toNat_unpackExponent _).trans htop)
      have hmant : @unpackMantissa .binary32 x.toModel.toBits.toBitVec ≠ 0#_ := by
        intro hz
        apply hne
        have := congrArg BitVec.toNat hz
        rw [toNat_unpackMantissa] at this
        exact this
      apply ext_bits
      have hbits := congrArg UInt32.ofBitVec (hb hexp hmant)
      exact hbits.trans (by decide)
  · split at h <;> cases h

theorem eq_infinity {x : Scalar} {negative : Bool} (h : parts x = .infinite negative) :
    x = infinity negative := by
  rw [← ofBits_toBits x, infinity, ofMagnitude]
  congr 1
  apply UInt32.toNat_inj.mp
  have hlt := x.toBits.toNat_lt
  unfold parts at h
  simp only at h
  split at h
  · split at h
    · cases h
      simp only [UInt32.toNat_ofNat']
      split <;> simp_all <;> omega
    · cases h
  · split at h <;> cases h

theorem eq_ofMagnitude {x : Scalar} {negative : Bool} {m : Nat} {e : Int}
    (h : parts x = .finite negative m e) :
    Regular m e ∧ x = ofMagnitude negative (magnitude m e) := by
  have hlt := x.toBits.toNat_lt
  unfold parts at h
  simp only [Nat.pow_eq] at h
  have hx : ∀ k, x.toBits.toNat = (if negative then 2 ^ 31 + k else k) →
      x = ofMagnitude negative k := by
    intro k hk
    rw [← ofBits_toBits x, ofMagnitude, Nat.pow_eq, ← hk]
    simp
  split at h
  · split at h <;> cases h
  · split at h
    · cases h
      refine ⟨⟨by omega, by omega, by omega, .inr rfl⟩, hx _ ?_⟩
      simp only [magnitude, decide_eq_true_eq]
      split <;> omega
    · cases h
      refine ⟨⟨by omega, by omega, by omega, .inl (by omega)⟩, hx _ ?_⟩
      simp only [magnitude, decide_eq_true_eq]
      split <;> omega

theorem parts_of_isFinite {x : Scalar} (h : x.isFinite = true) :
    ∃ negative m e, parts x = .finite negative m e := by
  cases hp : parts x with
  | nan =>
    rw [eq_nan hp] at h
    exact absurd h (by decide)
  | infinite negative =>
    rw [eq_infinity hp] at h
    cases negative <;> exact absurd h (by decide)
  | finite negative m e => exact ⟨negative, m, e, rfl⟩

theorem valid_of_le {b : BitVec 32} (h : b.toNat % 2 ^ 31 ≤ 255 * 2 ^ 23) :
    Format.Valid .binary32 b where
  eq_packedNaN he hm := by
    have he := congrArg BitVec.toNat he
    rw [toNat_unpackExponent] at he
    change _ = 255 at he
    exact absurd (BitVec.eq_of_toNat_eq (by rw [toNat_unpackMantissa]; change _ = 0; omega)) hm

/-- Setting the sign bit turns the sign around. -/
theorem unpack_signed {b c : BitVec 32} (hb : b.toNat < 2 ^ 31) (hc : c.toNat = 2 ^ 31 + b.toNat) :
    UnpackedFloat.unpack .binary32 c = (UnpackedFloat.unpack .binary32 b).neg := by
  have he : @unpackExponent .binary32 c = @unpackExponent .binary32 b := by
    apply BitVec.eq_of_toNat_eq
    rw [toNat_unpackExponent, toNat_unpackExponent]
    omega
  have hm : @unpackMantissa .binary32 c = @unpackMantissa .binary32 b := by
    apply BitVec.eq_of_toNat_eq
    rw [toNat_unpackMantissa, toNat_unpackMantissa]
    omega
  have hs : @unpackSign .binary32 b = 0#1 := by
    apply BitVec.eq_of_toNat_eq
    rw [toNat_unpackSign]
    change _ = 0
    omega
  have hs' : @unpackSign .binary32 c = 1#1 := by
    apply BitVec.eq_of_toNat_eq
    rw [toNat_unpackSign]
    have := c.isLt
    change _ = 1
    omega
  simp only [UnpackedFloat.unpack, he, hm, hs, hs']
  split
  · split <;> rfl
  · split
    · split <;> rfl
    · rfl

theorem neg_ofMagnitude {k : Nat} (hk : k ≤ 255 * 2 ^ 23) :
    -ofMagnitude false k = ofMagnitude true k := by
  have hb : (UInt32.ofNat k).toBitVec.toNat = k := by
    change k % 2 ^ 32 = k
    omega
  have hc : (UInt32.ofNat (2 ^ 31 + k)).toBitVec.toNat = 2 ^ 31 + k := by
    change (2 ^ 31 + k) % 2 ^ 32 = 2 ^ 31 + k
    omega
  have hvalid : Format.Valid .binary32 (UInt32.ofNat k).toBitVec := by
    apply valid_of_le
    rw [hb]
    omega
  have hsigned := unpack_signed (b := (UInt32.ofNat k).toBitVec)
    (c := (UInt32.ofNat (2 ^ 31 + k)).toBitVec) (by rw [hb]; omega) (by rw [hb, hc])
  simp only [ofMagnitude, Nat.pow_eq, Bool.false_eq_true, ↓reduceIte]
  apply ext_bits
  change UInt32.ofBitVec (UnpackedFloat.pack .binary32 (UnpackedFloat.unpack .binary32
    (UnpackedFloat.pack .binary32
      (UnpackedFloat.unpack .binary32 (UInt32.ofNat k).toBitVec))).neg) =
    UInt32.ofBitVec (UnpackedFloat.pack .binary32
      (UnpackedFloat.unpack .binary32 (UInt32.ofNat (2 ^ 31 + k)).toBitVec))
  rw [pack_unpack hvalid, hsigned]

theorem unpack_regular {b : BitVec 32} {s : Sign} {m : Nat} {e : Int} {hm : 0 < m}
    (h : UnpackedFloat.unpack .binary32 b = .finite s m e hm) : Regular m e := by
  have hme := (@unpackMantissa .binary32 b).isLt
  have hee := (@unpackExponent .binary32 b).isLt
  simp only [UnpackedFloat.unpack] at h
  split at h
  · split at h <;> cases h
  · rename_i htop
    have htop : (@unpackExponent .binary32 b).toNat ≠ 255 :=
      fun h => htop (BitVec.eq_of_toNat_eq h)
    split at h
    · rename_i hlow
      split at h
      · cases h
      · injection h with _ hm he
        subst hm he
        rw [hlow]
        refine ⟨?_, ?_, ?_, .inr ?_⟩
        · change _ < 2 ^ 23 at hme
          omega
        all_goals decide
    · rename_i hlow
      have hlow : (@unpackExponent .binary32 b).toNat ≠ 0 :=
        fun h => hlow (BitVec.eq_of_toNat_eq h)
      injection h with _ hm he
      subst hm he
      change _ < 2 ^ 23 at hme
      change _ < 2 ^ 8 at hee
      have hbias : ((Format.exponentBias .binary32 : Nat) +
          (Format.mantissaBitsWithoutImplicit .binary32 : Nat) : Int) = 150 := by decide
      have hi := toNat_implicit (@unpackMantissa .binary32 b)
      refine ⟨?_, ?_, ?_, .inl ?_⟩
      · rw [hi]; omega
      · rw [hbias]; omega
      · rw [hbias]; omega
      · rw [hi]; omega

theorem unpack_neg_one : (-one).toModel.unpack = .finite .negative (2 ^ 23) (-23) (by decide) := by
  have : (-one).toModel.toBits = 0xBF800000 := by decide
  unfold Float32.Model.unpack
  rw [this]
  rfl

theorem shiftRight_exact (m : Nat) (k : Nat) :
    ExtendedMantissa.mk (m * 2 ^ k) false false >>> k = ExtendedMantissa.mk m false false := by
  change k.repeat ExtendedMantissa.shiftRightOne _ = _
  induction k generalizing m with
  | zero => simp [Nat.repeat]
  | succ k ih =>
    rw [Nat.pow_succ']
    rw [Nat.repeat, show m * (2 * 2 ^ k) = (m * 2) * 2 ^ k by ring, ih]
    simp [ExtendedMantissa.shiftRightOne]

theorem targetExponent_regular {m : Nat} {e : Int} (h : Regular m e) (hm : 0 < m) (k : Nat) :
    Format.targetExponent .binary32 (totalExponent (m * 2 ^ k) (e - k)) = e := by
  have hlog : (m * 2 ^ k).log2 = m.log2 + k := by
    have hpos : 0 < 2 ^ k := Nat.two_pow_pos k
    have hlog := (Nat.log2_eq_iff hm.ne').mp rfl
    refine (Nat.log2_eq_iff (Nat.mul_pos hm hpos).ne').mpr ⟨?_, ?_⟩
    · rw [Nat.pow_add]
      exact Nat.mul_le_mul_right _ hlog.1
    · rw [show m.log2 + k + 1 = m.log2 + 1 + k by omega, Nat.pow_add]
      exact Nat.mul_lt_mul_of_pos_right hlog.2 hpos
  have hlt := (Nat.log2_lt hm.ne').mpr h.lt
  have hmin : Format.minExponent .binary32 = -149 := by decide
  have hbits : (Format.mantissaBits .binary32 : Int) = 24 := by decide
  unfold Format.targetExponent totalExponent
  rw [hlog, hmin, hbits]
  have := h.low
  rcases h.full with hf | hf
  · have := (Nat.le_log2 hm.ne').mpr hf
    omega
  · omega

theorem shiftToTargetExponent_regular {m : Nat} {e : Int} (h : Regular m e) (hm : 0 < m) (k : Nat) :
    shiftToTargetExponent .binary32 (m * 2 ^ k) (e - k) .exact = (⟨m, false, false⟩, e) := by
  have hk : (e - (e - k)).toNat = k := by omega
  have he : e - (k : Int) + k = e := by omega
  simp only [shiftToTargetExponent, shiftToExponent, targetExponent_regular h hm k, hk,
    ExtendedMantissa.ofMantissaAndAccuracy, shiftRight_exact, he]

/-- What has the places of a scalar is not rounded. -/
theorem roundWithAccuracy_regular {m : Nat} {e : Int} (h : Regular m e) (hm : 0 < m) (k : Nat)
    (s : Sign) :
    roundWithAccuracy .binary32 s (m * 2 ^ k) (e - k) .exact = .finite s m e hm := by
  have hagain := shiftToTargetExponent_regular h hm 0
  simp only [pow_zero, Nat.mul_one, Nat.cast_zero, Int.sub_zero] at hagain
  have hround : (ExtendedMantissa.mk m false false).roundedMantissa = m := rfl
  simp only [roundWithAccuracy, shiftToTargetExponent_regular h hm k, hround, hagain]
  exact dif_neg hm.ne'

theorem mul_neg_one (x : Scalar) : x * -one = -x := by
  change Float32.ofModel
      (.pack (UnpackedFloat.mul .binary32 x.toModel.unpack (-one).toModel.unpack)) =
    Float32.ofModel (.pack x.toModel.unpack.neg)
  rw [unpack_neg_one]
  congr 2
  cases hx : x.toModel.unpack with
  | notANumber => rfl
  | infinity s => cases s <;> rfl
  | zero s => cases s <;> rfl
  | finite s m e hm =>
    have hr := unpack_regular hx
    change roundWithAccuracy .binary32 (s * .negative) (m * 2 ^ 23) (e + -23) .exact = _
    rw [show e + -23 = e - (23 : Nat) by omega, roundWithAccuracy_regular hr hm]
    cases s <;> rfl

protected theorem mul_comm (x y : Scalar) : x * y = y * x := by
  have hsign : ∀ s t : Sign, s * t = t * s := by
    intro s t
    cases s <;> cases t <;> rfl
  change Float32.ofModel (.pack (UnpackedFloat.mul .binary32 x.toModel.unpack y.toModel.unpack)) =
    Float32.ofModel (.pack (UnpackedFloat.mul .binary32 y.toModel.unpack x.toModel.unpack))
  congr 2
  cases x.toModel.unpack <;> cases y.toModel.unpack <;>
    simp [UnpackedFloat.mul, hsign, Nat.mul_comm, Int.add_comm]

end ShaderGraph.Scalar

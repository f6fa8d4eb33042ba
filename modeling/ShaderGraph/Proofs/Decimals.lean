import ShaderGraph.Proofs.Rounding

namespace ShaderGraph.Scalar

open Decimal (below)

namespace Decimal

/-- The two sides of every comparison on a grid, as numbers. -/
theorem unit_grid (e place : Int) : ∃ k : ℚ, 0 < k ∧ (unit e place : ℚ) = 2 ^ e * k ∧
    (grid e place : ℚ) = 4 * 10 ^ place * k := by
  refine ⟨2 ^ (-e).toNat * 10 ^ (-place).toNat, by positivity, ?_, ?_⟩
  · simp only [unit, Nat.pow_eq]
    rw [← pow_toNat_div (by norm_num : (2 : ℚ) ≠ 0) e]
    push_cast
    field_simp
  · simp only [grid, Nat.pow_eq]
    rw [← pow_toNat_div (by norm_num : (10 : ℚ) ≠ 0) place]
    push_cast
    field_simp

theorem inside_iff {m : Nat} (hm : 0 < m) (e place : Int) (c : Nat) :
    inside m e place c = true ↔ Rounds m e (c * 10 ^ place) := by
  obtain ⟨k, hk, hunit, hgrid⟩ := unit_grid e place
  have hle : below m e ≤ 4 * m := by
    unfold below
    split <;> omega
  have hlow : (((4 * m - below m e) * unit e place : Nat) : ℚ) =
      (4 * m - below m e) * 2 ^ e * k := by
    rw [Nat.cast_mul, Nat.cast_sub hle, hunit]
    push_cast
    ring
  have hhigh : (((4 * m + 2) * unit e place : Nat) : ℚ) = (4 * m + 2) * 2 ^ e * k := by
    rw [Nat.cast_mul, hunit]
    push_cast
    ring
  have hpoint : ((c * grid e place : Nat) : ℚ) = 4 * (c * 10 ^ place) * k := by
    rw [Nat.cast_mul, hgrid]
    ring
  unfold inside
  simp only
  split
  · rename_i heven
    simp only [Bool.and_eq_true, decide_eq_true_eq]
    rw [← Nat.cast_le (α := ℚ), ← Nat.cast_le (α := ℚ), hlow, hhigh, hpoint,
      mul_le_mul_iff_left₀ hk, mul_le_mul_iff_left₀ hk]
    exact ⟨fun ⟨h₁, h₂⟩ => ⟨h₁, h₂, by omega⟩, fun h => ⟨h.low, h.high⟩⟩
  · rename_i hodd
    simp only [Bool.and_eq_true, decide_eq_true_eq]
    rw [← Nat.cast_lt (α := ℚ), ← Nat.cast_lt (α := ℚ), hlow, hhigh, hpoint,
      mul_lt_mul_iff_left₀ hk, mul_lt_mul_iff_left₀ hk]
    exact ⟨fun ⟨h₁, h₂⟩ => ⟨h₁.le, h₂.le, fun _ => ⟨h₁, h₂⟩⟩, fun h => h.odd (by omega)⟩

/-- What a grid offers rounds to the scalar. -/
theorem onGrid?_rounds {tie : Tie} {m : Nat} (hm : 0 < m) {e place : Int} {d : Decimal}
    (h : onGrid? tie m e place = some d) :
    d.place = place ∧ Rounds m e (d.digits * 10 ^ d.place) := by
  unfold onGrid? at h
  simp only at h
  split at h
  · rename_i hdown hup
    split at h
    · cases h
      exact ⟨rfl, (inside_iff hm e place _).mp hdown⟩
    · cases h
      exact ⟨rfl, (inside_iff hm e place _).mp hup⟩
  · rename_i hdown _
    cases h
    exact ⟨rfl, (inside_iff hm e place _).mp hdown⟩
  · rename_i _ hup
    cases h
    exact ⟨rfl, (inside_iff hm e place _).mp hup⟩
  · cases h

/-- The finest grid always has a decimal to offer: its points are far closer together than the
interval is wide. -/
theorem onGrid?_finest {tie : Tie} {m : Nat} (hm : 0 < m) {e : Int} (he : -149 ≤ e) :
    onGrid? tie m e (-60) ≠ none := by
  have hdown : inside m e (-60) (4 * m * unit e (-60) / grid e (-60)) = true := by
    rw [inside_iff hm]
    obtain ⟨k, hk, hunit, hgrid⟩ := unit_grid e (-60)
    have hpos : 0 < grid e (-60) := by
      simp only [grid, Nat.pow_eq]
      positivity
    have hdown : ((4 * m * unit e (-60) / grid e (-60) : Nat) : ℚ) * grid e (-60) ≤
        4 * m * unit e (-60) := by
      exact_mod_cast Nat.div_mul_le_self _ _
    have hup : (4 * m * unit e (-60) : ℚ) <
        ((4 * m * unit e (-60) / grid e (-60) : Nat) + 1) * grid e (-60) := by
      exact_mod_cast (Nat.div_lt_iff_lt_mul hpos).mp (Nat.lt_succ_self _)
    generalize ((4 * m * unit e (-60) / grid e (-60) : Nat) : ℚ) = c at *
    rw [hunit, hgrid] at hdown hup
    have hfine : 4 * (10 : ℚ) ^ (-60 : Int) < 2 ^ e := by
      have : (2 : ℚ) ^ (-149 : Int) ≤ 2 ^ e := zpow_le_zpow_right₀ (by norm_num) he
      exact lt_of_lt_of_le (by norm_num) this
    have hdown : 4 * (c * (10 : ℚ) ^ (-60 : Int)) ≤ 4 * m * 2 ^ e := by nlinarith
    have hup : 4 * (m : ℚ) * 2 ^ e < 4 * (c * 10 ^ (-60 : Int)) + 4 * 10 ^ (-60 : Int) := by
      nlinarith
    have hone : (1 : ℚ) ≤ below m e := by
      unfold below
      split <;> norm_num
    have hunit : (0 : ℚ) < 2 ^ e := by positivity
    have hlow : (4 * m - below m e) * (2 : ℚ) ^ e < 4 * (c * 10 ^ (-60 : Int)) := by nlinarith
    have hhigh : 4 * (c * (10 : ℚ) ^ (-60 : Int)) < (4 * m + 2) * 2 ^ e := by nlinarith
    exact ⟨hlow.le, hhigh.le, fun _ => ⟨hlow, hhigh⟩⟩
  unfold onGrid?
  simp only [hdown]
  split
  · split <;> simp
  · simp
  · simp_all
  · simp_all

theorem shortest_rounds (tie : Tie) {m : Nat} (hm : 0 < m) {e : Int} (hr : Regular m e) :
    -60 ≤ (shortest tie m e).place ∧ Rounds m e
      ((shortest tie m e).digits * 10 ^ (shortest tie m e).place) := by
  unfold shortest
  cases h : grids.findSome? (onGrid? tie m e) with
  | none =>
    rw [List.findSome?_eq_none_iff] at h
    exact absurd (h (-60) (by decide)) (onGrid?_finest hm hr.low)
  | some d =>
    obtain ⟨place, hplace, hd⟩ := List.exists_of_findSome?_eq_some h
    obtain ⟨hp, hrounds⟩ := onGrid?_rounds hm hd
    refine ⟨?_, hrounds⟩
    simp only [grids, List.mem_map, List.mem_range] at hplace
    obtain ⟨i, hi, rfl⟩ := hplace
    simp only [Option.getD_some, hp]
    omega

end Decimal

structure Spells (whole fraction : List Char) (x : ℚ) : Prop where
  whole_ne : whole ≠ []
  whole_digits : ∀ c ∈ whole, c.isDigit = true
  fraction_digits : ∀ c ∈ fraction, c.isDigit = true
  value : (digitsValue (whole ++ fraction) : ℚ) * 10 ^ (-(fraction.length : Int)) = x

theorem digitsValue_append_zeros (cs : List Char) (n : Nat) :
    digitsValue (cs ++ List.replicate n '0') = 10 ^ n * digitsValue cs := by
  change Nat.ofDigitChars 10 (cs ++ List.replicate n '0') 0 = 10 ^ n * Nat.ofDigitChars 10 cs 0
  rw [Nat.ofDigitChars_append, Nat.ofDigitChars_replicate_zero]

theorem digitsValue_zeros_append (cs : List Char) (n : Nat) :
    digitsValue (List.replicate n '0' ++ cs) = digitsValue cs := by
  change Nat.ofDigitChars 10 (List.replicate n '0' ++ cs) 0 = Nat.ofDigitChars 10 cs 0
  rw [Nat.ofDigitChars_append, Nat.ofDigitChars_replicate_zero, Nat.mul_zero]

theorem Decimal.text_digits (d : Decimal) : ∀ c ∈ d.text, c.isDigit = true := by
  intro c hc
  exact Nat.isDigit_of_mem_toDigits (by decide) (by decide) hc

theorem Decimal.digitsValue_text (d : Decimal) : digitsValue d.text = d.digits :=
  Nat.ofDigitChars_ten_toDigits

/-- A decimal in plain spelling, with its point when there is a fraction. -/
theorem Decimal.plain_spells (d : Decimal) : ∃ whole fraction,
    d.plain = (if fraction = [] then whole else whole ++ '.' :: fraction) ∧
      Spells whole fraction (d.digits * 10 ^ d.place) := by
  have hzeros : ∀ n, ∀ c ∈ List.replicate n '0', c.isDigit = true := by
    intro n c hc
    rw [List.eq_of_mem_replicate hc]
    rfl
  have hne : d.text ≠ [] := Nat.toDigits_ne_nil
  unfold plain
  simp only
  split
  · rename_i hplace
    refine ⟨d.text ++ List.replicate d.place.toNat '0', [], rfl, by simp [hne], ?_, by simp, ?_⟩
    · intro c hc
      rcases List.mem_append.mp hc with hc | hc
      · exact d.text_digits c hc
      · exact hzeros _ c hc
    · rw [List.append_nil, digitsValue_append_zeros, d.digitsValue_text]
      have hpow : (10 : ℚ) ^ d.place = 10 ^ d.place.toNat := by
        rw [← zpow_natCast, Int.toNat_of_nonneg hplace]
      rw [hpow]
      push_cast
      simp [mul_comm]
  · rename_i hplace
    split
    · rename_i hlen
      refine ⟨_, _, (if_neg ?_).symm, ?_, ?_, ?_, ?_⟩
      · rw [List.drop_eq_nil_iff]
        omega
      · rw [Ne, List.take_eq_nil_iff]
        simp only [hne, or_false]
        omega
      · intro c hc
        exact d.text_digits c (List.mem_of_mem_take hc)
      · intro c hc
        exact d.text_digits c (List.mem_of_mem_drop hc)
      · rw [List.take_append_drop, d.digitsValue_text]
        congr 2
        simp
        omega
    · rename_i hlen
      refine ⟨['0'], List.replicate ((-d.place).toNat - d.text.length) '0' ++ d.text, ?_, by simp,
        ?_, ?_, ?_⟩
      · rw [if_neg (by simp [hne])]
        rfl
      · simp
      · intro c hc
        rcases List.mem_append.mp hc with hc | hc
        · exact hzeros _ c hc
        · exact d.text_digits c hc
      · rw [← List.append_assoc, show ['0'] = List.replicate 1 '0' from rfl,
          ← List.replicate_add, digitsValue_zeros_append, d.digitsValue_text]
        congr 2
        simp
        omega

theorem takeWhile_digits {whole : List Char} (rest : List Char) (h : ∀ c ∈ whole, c.isDigit = true)
    (hrest : ∀ c ∈ rest.head?, c.isDigit = false) :
    (whole ++ rest).takeWhile Char.isDigit = whole ∧
      (whole ++ rest).dropWhile Char.isDigit = rest := by
  rw [List.takeWhile_append_of_pos h, List.dropWhile_append_of_pos h]
  cases rest with
  | nil => simp
  | cons c rest =>
    have hc := hrest c (by simp)
    simp [hc]

theorem unsigned?_spelled {whole fraction : List Char} {x : ℚ} (h : Spells whole fraction x)
    (negative : Bool) : unsigned? negative (whole ++ '.' :: fraction) =
      some (ofDecimal negative (digitsValue (whole ++ fraction)) (-(fraction.length : Int))) := by
  obtain ⟨hw₁, hw₂⟩ := takeWhile_digits ('.' :: fraction) h.whole_digits (by simp)
  obtain ⟨hf₁, hf₂⟩ := takeWhile_digits [] h.fraction_digits (by simp)
  rw [List.append_nil] at hf₁ hf₂
  have hne : whole.isEmpty = false := by simpa using h.whole_ne
  unfold unsigned?
  simp [hw₁, hw₂, hf₁, hf₂, hne, exponent?]

theorem unsigned?_whole {whole : List Char} {x : ℚ} (h : Spells whole [] x) (negative : Bool) :
    unsigned? negative whole = some (ofDecimal negative (digitsValue whole) 0) := by
  obtain ⟨hw₁, hw₂⟩ := takeWhile_digits [] h.whole_digits (by simp)
  rw [List.append_nil] at hw₁ hw₂
  have hne : whole.isEmpty = false := by simpa using h.whole_ne
  unfold unsigned?
  simp [hw₁, hw₂, hne, exponent?]

/-- Reading a decimal of the interval: none of the shortcuts for numbers out of range is taken. -/
theorem ofDecimal_eq {m : Nat} {e : Int} (hr : Regular m e) (hm : 0 < m) {n : Nat} {k : Int}
    (hk : k ≤ 0) (hx : Rounds m e (n * 10 ^ k)) (negative : Bool) :
    ofDecimal negative n k = ofMagnitude negative (magnitude m e) := by
  have hten : (0 : ℚ) < 10 ^ k := by positivity
  have hfloor : (2 : ℚ) ^ (-149 : Int) ≤ 2 ^ e := zpow_le_zpow_right₀ (by norm_num) hr.low
  have hmq : (1 : ℚ) ≤ m := by exact_mod_cast hm
  have hbig : (2 : ℚ) ^ (-149 : Int) ≤ 2 * (n * 10 ^ k) := by
    have hleast : (2 : ℚ) * 2 ^ e ≤ (4 * m - below m e) * 2 ^ e := by
      gcongr
      linarith [below_le m e]
    linarith [hx.low]
  have hn : 0 < n := by
    rcases Nat.eq_zero_or_pos n with h0 | h0
    · rw [h0] at hbig
      norm_num at hbig
    · exact h0
  simp only [ofDecimal, Nat.pow_eq]
  rw [if_neg hn.ne', if_neg (by omega), if_neg ?_]
  · refine nearest_eq hr (by positivity) (by positivity) ?_ negative
    have hcast : ((n * 10 ^ k.toNat : Nat) : ℚ) / ((10 ^ (-k).toNat : Nat) : ℚ) = n * 10 ^ k := by
      rw [← pow_toNat_div (by norm_num : (10 : ℚ) ≠ 0) k]
      push_cast
      ring
    rw [hcast]
    exact hx
  · -- a number this small would have too few digits
    intro hsmall
    have hlen : n < 10 ^ (Nat.toDigits 10 n).length :=
      (Nat.length_toDigits_le_iff (by decide) Nat.length_toDigits_pos).mp (Nat.le_refl _)
    have hlt : (n : ℚ) < 10 ^ ((Nat.toDigits 10 n).length : Int) := by exact_mod_cast hlen
    have htop : (n : ℚ) * 10 ^ k < 10 ^ (-50 : Int) := by
      calc (n : ℚ) * 10 ^ k < 10 ^ ((Nat.toDigits 10 n).length : Int) * 10 ^ k := by gcongr
        _ = 10 ^ (((Nat.toDigits 10 n).length : Int) + k) := (zpow_add₀ (by norm_num) _ _).symm
        _ ≤ 10 ^ (-50 : Int) := zpow_le_zpow_right₀ (by norm_num) (by omega)
    norm_num at htop hbig
    linarith

def spelling (m : Nat) (e : Int) : List Char :=
  if m = 0 then ['0'] else (Decimal.shortest .up m e).plain

/-- Digits that read back to the scalar `± m * 2 ^ e`, with any number of them behind the point. -/
structure Recalls (whole fraction : List Char) (m : Nat) (e : Int) : Prop where
  spells : ∃ x, Spells whole fraction x
  read : ∀ negative, ofDecimal negative (digitsValue (whole ++ fraction))
    (-(fraction.length : Int)) = ofMagnitude negative (magnitude m e)

theorem Spells.recalls {whole fraction : List Char} {x : ℚ} (h : Spells whole fraction x) {m : Nat}
    {e : Int} (hr : Regular m e) (hx : if m = 0 then x = 0 else Rounds m e x) :
    Recalls whole fraction m e := by
  refine ⟨⟨x, h⟩, fun negative => ?_⟩
  split at hx
  · rename_i hm
    have hvalue := h.value
    rw [hx, mul_eq_zero] at hvalue
    have hz : digitsValue (whole ++ fraction) = 0 := by
      rcases hvalue with hv | hv
      · exact_mod_cast hv
      · exact absurd hv (by positivity)
    have he : e = -149 := by
      rcases hr.full with hf | hf
      · omega
      · exact hf
    rw [hz, hm, he]
    rfl
  · rename_i hm
    exact ofDecimal_eq hr (Nat.pos_of_ne_zero hm) (by omega) (h.value ▸ hx) negative

/-- The spelling of a finite scalar, and the same with a zero behind a point it lacks. -/
theorem spelling_recalls {m : Nat} {e : Int} (hr : Regular m e) : ∃ whole fraction,
    spelling m e = (if fraction = [] then whole else whole ++ '.' :: fraction) ∧
      Recalls whole fraction m e ∧ (fraction = [] → Recalls whole ['0'] m e) := by
  obtain ⟨whole, fraction, x, htext, hspells, hx⟩ : ∃ whole fraction x,
      spelling m e = (if fraction = [] then whole else whole ++ '.' :: fraction) ∧
        Spells whole fraction x ∧ if m = 0 then x = 0 else Rounds m e x := by
    unfold spelling
    split
    · exact ⟨['0'], [], 0, rfl, ⟨by simp, by simp, by simp, by simp [digitsValue]⟩, rfl⟩
    · rename_i hm
      obtain ⟨whole, fraction, htext, hspells⟩ := (Decimal.shortest .up m e).plain_spells
      exact ⟨whole, fraction, _, htext, hspells,
        (Decimal.shortest_rounds .up (Nat.pos_of_ne_zero hm) hr).2⟩
  refine ⟨whole, fraction, htext, hspells.recalls hr hx, fun hf => ?_⟩
  subst hf
  refine Spells.recalls (x := x) ⟨hspells.whole_ne, hspells.whole_digits, by simp, ?_⟩ hr hx
  have hvalue := hspells.value
  rw [List.append_nil] at hvalue
  rw [show ['0'] = List.replicate 1 '0' from rfl, digitsValue_append_zeros, ← hvalue]
  push_cast
  simp only [List.length_cons, List.length_nil, zpow_neg]
  norm_num
  ring

theorem unsigned?_spelling {m : Nat} {e : Int} (hr : Regular m e) (negative : Bool) :
    unsigned? negative (spelling m e) = some (ofMagnitude negative (magnitude m e)) := by
  obtain ⟨whole, fraction, htext, ⟨⟨x, hspells⟩, hread⟩, _⟩ := spelling_recalls hr
  rw [htext, ← hread]
  split
  · rename_i hf
    subst hf
    rw [List.append_nil]
    exact unsigned?_whole hspells negative
  · exact unsigned?_spelled hspells negative

theorem takeSign_digit {c : Char} (hc : c.isDigit = true) (cs : List Char) :
    takeSign (c :: cs) = (false, c :: cs) := by
  unfold takeSign
  split
  · rename_i h
    cases h
    cases hc
  · rename_i h
    cases h
    cases hc
  · rfl

theorem takeSign_spelling {m : Nat} {e : Int} (hr : Regular m e) :
    takeSign (spelling m e) = (false, spelling m e) := by
  obtain ⟨whole, fraction, htext, ⟨⟨x, hspells⟩, _⟩, _⟩ := spelling_recalls hr
  rw [htext]
  obtain ⟨c, cs, hw⟩ := List.exists_cons_of_ne_nil hspells.whole_ne
  have hc := hspells.whole_digits c (by simp [hw])
  subst hw
  split
  · exact takeSign_digit hc cs
  · exact takeSign_digit hc (cs ++ '.' :: fraction)

/-- The text of a scalar reads back to it. -/
theorem ofChars?_toText (x : Scalar) : ofChars? (toText x).toList = some x := by
  unfold toText
  cases hp : parts x with
  | nan =>
    rw [eq_nan hp]
    decide
  | infinite negative =>
    rw [eq_infinity hp]
    cases negative <;> decide
  | finite negative m e =>
    obtain ⟨hr, hx⟩ := eq_ofMagnitude hp
    change ofChars? (String.ofList
      (if negative then '-' :: spelling m e else spelling m e)).toList = _
    rw [String.toList_ofList]
    unfold ofChars?
    cases negative with
    | false =>
      simp only [Bool.false_eq_true, ↓reduceIte, takeSign_spelling hr, unsigned?_spelling hr]
      rw [hx]
    | true =>
      simp only [↓reduceIte, takeSign, unsigned?_spelling hr]
      rw [hx]

end ShaderGraph.Scalar

import ChangeRelay.Number.Shortest
import ChangeRelay.Proofs.Number.Rounding

/-!
# Decimals of doubles

A decimal that is read is rounded to the nearest double. The shortest decimal of a double lies in
its rounding interval, so it is rounded to that double.
-/

namespace ChangeRelay

namespace Decimal

/-- The number that a decimal stands for. -/
def value (d : Decimal) : ℚ := d.digits * 10 ^ d.exponent

theorem ten_zpow_pos (p : Int) : (0 : ℚ) < 10 ^ p := zpow_pos (by norm_num) p

/-! ## Points of the grid -/

/-- The number lies in the interval. -/
def Interval.Has (i : Interval) (r : ℚ) : Prop :=
  (i.low / i.den : ℚ) < r ∧ r < i.high / i.den ∨
    i.closed = true ∧ (i.low / i.den : ℚ) ≤ r ∧ r ≤ i.high / i.den

section Grid

variable {i : Interval} {n : Nat} {p : Int}

/-- A point of the grid as a fraction of whole numbers. -/
theorem grid_eq_div (n : Nat) (p : Int) :
    (n * 10 ^ p : ℚ) = ((if p < 0 then n else n * pow10 p.toNat : Nat) : ℚ) /
      (if p < 0 then pow10 (-p).toNat else 1 : Nat) := by
  split_ifs with hneg
  · have hscale : (10 : ℚ) ^ (-p).toNat = (10 ^ p)⁻¹ := Double.pow_toNat_neg hneg
    rw [pow10_eq, Nat.cast_pow, Nat.cast_ofNat, hscale, div_inv_eq_mul]
  · have hscale : (10 : ℚ) ^ p.toNat = 10 ^ p := Double.pow_toNat (Int.not_lt.1 hneg)
    rw [pow10_eq, Nat.cast_mul, Nat.cast_pow, Nat.cast_ofNat, hscale, Nat.cast_one, div_one]

theorem Interval.contains_iff (hden : 0 < i.den) :
    i.contains n p = true ↔ i.Has (n * 10 ^ p) := by
  have hden' : (0 : ℚ) < i.den := by exact_mod_cast hden
  have hs : 0 < (if p < 0 then pow10 (-p).toNat else 1) := by
    split_ifs
    · exact Nat.pow_pos (by norm_num)
    · exact Nat.one_pos
  rw [Interval.Has, grid_eq_div]
  simp only [Interval.contains]
  generalize (if p < 0 then n else n * pow10 p.toNat) = a
  generalize (if p < 0 then pow10 (-p).toNat else 1) = s at hs ⊢
  have hs' : (0 : ℚ) < s := by exact_mod_cast hs
  -- multiplied across, both sides compare the same whole numbers
  rw [div_lt_div_iff₀ hden' hs', div_lt_div_iff₀ hs' hden', div_le_div_iff₀ hden' hs',
    div_le_div_iff₀ hs' hden']
  norm_cast
  cases i.closed
  · simp
  · simp
    omega

theorem Interval.gridBelow_le (hden : 0 < i.den) (p : Int) :
    ((i.gridBelow p).1 * 10 ^ p : ℚ) ≤ i.value / i.den ∧
      (i.value / i.den : ℚ) < ((i.gridBelow p).1 + 1 : Nat) * 10 ^ p := by
  have hpos := ten_zpow_pos p
  have hden' : (0 : ℚ) < i.den := by exact_mod_cast hden
  -- the value in units of the grid
  have hunits : (i.value / i.den : ℚ) =
      ((if p < 0 then i.value * pow10 (-p).toNat else i.value : Nat) : ℚ) /
        (if p < 0 then i.den else i.den * pow10 p.toNat : Nat) * 10 ^ p := by
    split_ifs with hneg
    · have hscale : (10 : ℚ) ^ (-p).toNat = (10 ^ p)⁻¹ := Double.pow_toNat_neg hneg
      rw [pow10_eq, Nat.cast_mul, Nat.cast_pow, Nat.cast_ofNat, hscale,
        div_mul_eq_mul_div, inv_mul_cancel_right₀ hpos.ne']
    · have hscale : (10 : ℚ) ^ p.toNat = 10 ^ p := Double.pow_toNat (Int.not_lt.1 hneg)
      rw [pow10_eq, Nat.cast_mul, Nat.cast_pow, Nat.cast_ofNat, hscale, ← div_div,
        div_mul_cancel₀ _ hpos.ne']
  have hunit : 0 < (if p < 0 then i.den else i.den * pow10 p.toNat) := by
    split_ifs
    · exact hden
    · exact Nat.mul_pos hden (Nat.pow_pos (by norm_num))
  rw [hunits]
  simp only [Interval.gridBelow]
  generalize (if p < 0 then i.value * pow10 (-p).toNat else i.value) = num
  generalize (if p < 0 then i.den else i.den * pow10 p.toNat) = den at hunit ⊢
  have hunit' : (0 : ℚ) < den := by exact_mod_cast hunit
  rw [mul_le_mul_iff_left₀ hpos, mul_lt_mul_iff_left₀ hpos, le_div_iff₀ hunit',
    div_lt_iff₀ hunit']
  constructor
  · exact_mod_cast Nat.div_mul_le_self num den
  · exact_mod_cast Nat.lt_mul_of_div_lt (Nat.lt_succ_self (num / den)) hunit

theorem Interval.onGrid?_eq_some (hden : 0 < i.den) (h : i.onGrid? p = some n) :
    n ≠ 0 ∧ i.Has (n * 10 ^ p) := by
  rw [← Interval.contains_iff hden]
  simp only [Interval.onGrid?, Bool.and_eq_true, decide_eq_true_eq] at h
  split_ifs at h with hboth hup hbelow habove
  · cases h
    exact ⟨Nat.succ_ne_zero _, hboth.2⟩
  · cases h
    exact ⟨hboth.1.2, hboth.1.1⟩
  · cases h
    exact ⟨hbelow.2, hbelow.1⟩
  · cases h
    exact ⟨Nat.succ_ne_zero _, habove⟩

/-- A grid that is finer than the gap above the value has a point in the interval. -/
theorem Interval.isSome_onGrid? (hden : 0 < i.den) (hlow : i.low < i.value)
    (hfine : (i.value / i.den + 10 ^ p : ℚ) < i.high / i.den) : (i.onGrid? p).isSome = true := by
  obtain ⟨hle, hlt⟩ := i.gridBelow_le hden p
  have hden' : (0 : ℚ) < i.den := by exact_mod_cast hden
  have hlow' : (i.low / i.den : ℚ) < i.value / i.den := by
    rw [div_lt_div_iff_of_pos_right hden']
    exact_mod_cast hlow
  -- the point next to the greatest one that is not above the value
  have habove : i.contains ((i.gridBelow p).1 + 1) p = true := by
    rw [Interval.contains_iff hden]
    left
    constructor
    · exact lt_trans hlow' hlt
    · push_cast
      linarith
  simp only [Interval.onGrid?, habove]
  split_ifs <;> simp_all

/-! ## Searching -/

theorem value_stripZeros (fuel n : Nat) (e : Int) : (stripZeros fuel n e).value = n * 10 ^ e := by
  induction fuel generalizing n e with
  | zero => rfl
  | succ fuel ih =>
    rw [stripZeros]
    split_ifs with hzero
    · have hn : n = n / 10 * 10 := by omega
      have hcast : (n : ℚ) = (n / 10 : Nat) * 10 := by exact_mod_cast hn
      rw [ih, zpow_add_one₀ (by norm_num), hcast]
      ring
    · rfl

theorem digits_stripZeros {n : Nat} (hn : n ≠ 0) (fuel : Nat) (e : Int) :
    (stripZeros fuel n e).digits ≠ 0 := by
  induction fuel generalizing n e with
  | zero => exact hn
  | succ fuel ih =>
    rw [stripZeros]
    split_ifs with hzero
    · exact ih (by omega) (e + 1)
    · exact hn

/-- The search ends in the interval, if one of the grids that it tries has a point there. -/
theorem Interval.search_spec (hden : 0 < i.den) (fuel : Nat) (p : Int) {t : Nat} (ht : t < fuel)
    (hsome : (i.onGrid? (p - t)).isSome = true) :
    (i.search fuel p).digits ≠ 0 ∧ i.Has (i.search fuel p).value := by
  -- on the fuel: where a grid has no point, the one that has is a step nearer
  induction fuel generalizing p t with
  | zero => omega
  | succ fuel ih =>
    rw [Interval.search]
    split
    · rename_i n hn
      obtain ⟨hne, hhas⟩ := onGrid?_eq_some hden hn
      rw [value_stripZeros]
      exact ⟨digits_stripZeros hne 400 p, hhas⟩
    · rename_i hnone
      cases t with
      | zero =>
        rw [Nat.cast_zero, sub_zero, hnone] at hsome
        cases hsome
      | succ t =>
        have hnext : p - (t + 1 : Nat) = p - 1 - t := by
          push_cast
          ring
        rw [hnext] at hsome
        exact ih (p - 1) (by omega) hsome

end Grid

/-! ## Where the search begins -/

theorem digitCount_pos (n : Nat) : 0 < digitCount n := Nat.length_toDigits_pos

theorem lt_pow_digitCount (n : Nat) : n < 10 ^ digitCount n :=
  (Nat.length_toDigits_le_iff (by norm_num) (digitCount_pos n)).1 (Nat.le_refl _)

theorem pow_digitCount_le {n : Nat} (hn : 0 < n) : 10 ^ (digitCount n - 1) ≤ n := by
  rcases Nat.eq_zero_or_pos (digitCount n - 1) with hzero | hpos
  · rw [hzero]
    omega
  · by_contra hlt
    have hle := (Nat.length_toDigits_le_iff (b := 10) (by norm_num) hpos).2 (Nat.not_le.1 hlt)
    change digitCount n ≤ digitCount n - 1 at hle
    omega

/-- The power of ten from which the search goes down is not above the value. -/
theorem Interval.pow_magnitude_le {i : Interval} (hden : 0 < i.den) (hvalue : 0 < i.value) :
    (10 ^ i.magnitude : ℚ) ≤ i.value / i.den := by
  have hden' : (0 : ℚ) < i.den := by exact_mod_cast hden
  rw [le_div_iff₀ hden']
  simp only [Interval.magnitude]
  split_ifs with hge hguess
  · -- by the digits of the quotient
    have hquotient : 0 < i.value / i.den := Nat.div_pos hge hden
    have hpow := pow_digitCount_le hquotient
    have hcount := digitCount_pos (i.value / i.den)
    have hcast : ((digitCount (i.value / i.den) : Nat) : Int) - 1 =
        ((digitCount (i.value / i.den) - 1 : Nat) : Int) := by omega
    rw [hcast, zpow_natCast]
    exact_mod_cast (Nat.le_div_iff_mul_le hden).1 hpow
  · -- by those of its reciprocal
    have hlt : i.den < 10 ^ digitCount (i.den / i.value) * i.value :=
      (Nat.div_lt_iff_lt_mul hvalue).1 (lt_pow_digitCount _)
    have hcast : (i.den : ℚ) < 10 ^ digitCount (i.den / i.value) * i.value := by exact_mod_cast hlt
    rw [zpow_neg, zpow_natCast, inv_mul_le_iff₀ (by positivity)]
    exact hcast.le
  · -- one less where the reciprocal is a power of ten
    have hcount := digitCount_pos (i.den / i.value)
    have hle : i.den ≤ i.value * 10 ^ (digitCount (i.den / i.value) - 1) := Nat.not_lt.1 hguess
    have hcast : (i.den : ℚ) ≤ i.value * 10 ^ (digitCount (i.den / i.value) - 1) := by
      exact_mod_cast hle
    have hexponent : ((digitCount (i.den / i.value) : Nat) : Int) - 1 =
        ((digitCount (i.den / i.value) - 1 : Nat) : Int) := by omega
    rw [hexponent, zpow_neg, zpow_natCast, inv_mul_le_iff₀ (by positivity), mul_comm]
    exact hcast

/-! ## The rounding interval -/

section Around

variable {m : Nat} {q : Int}

/-- Half the gap below the value, in quarters of a unit in the last place; it is narrower where the
value is the first of its exponent. -/
def Interval.gapBelow (m : Nat) (q : Int) : Nat := if m = pow2 52 ∧ -1074 < q then 1 else 2

theorem Interval.gapBelow_le (m : Nat) (q : Int) : gapBelow m q ≤ 2 := by
  rw [gapBelow]
  split_ifs <;> omega

theorem Interval.around_of_neg (h : q < 0) : Interval.around m q =
    ⟨4 * m - gapBelow m q * 1, 4 * m, 4 * m + 2 * 1, 4 * 2 ^ (-q).toNat, m % 2 = 0⟩ := by
  simp only [Interval.around, if_pos h]
  rfl

theorem Interval.around_of_nonneg (h : ¬ q < 0) : Interval.around m q =
    ⟨4 * (m * 2 ^ q.toNat) - gapBelow m q * 2 ^ q.toNat, 4 * (m * 2 ^ q.toNat),
      4 * (m * 2 ^ q.toNat) + 2 * 2 ^ q.toNat, 4 * 1, m % 2 = 0⟩ := by
  simp only [Interval.around, if_neg h]
  rfl

theorem Interval.den_around (m : Nat) (q : Int) : 0 < (Interval.around m q).den := by
  by_cases hneg : q < 0
  · rw [around_of_neg hneg]
    positivity
  · rw [around_of_nonneg hneg]
    norm_num

theorem Interval.value_around (m : Nat) (q : Int) :
    ((Interval.around m q).value / (Interval.around m q).den : ℚ) = m * 2 ^ q := by
  by_cases hneg : q < 0
  · rw [around_of_neg hneg]
    push_cast
    rw [Double.pow_toNat_neg hneg, mul_div_mul_left _ _ (by norm_num), div_inv_eq_mul]
  · rw [around_of_nonneg hneg]
    push_cast
    rw [Double.pow_toNat (Int.not_lt.1 hneg)]
    ring

theorem Interval.high_around (m : Nat) (q : Int) :
    ((Interval.around m q).high / (Interval.around m q).den : ℚ) = m * 2 ^ q + 2 ^ q / 2 := by
  by_cases hneg : q < 0
  · rw [around_of_neg hneg]
    push_cast
    rw [Double.pow_toNat_neg hneg, div_mul_eq_div_div, div_inv_eq_mul]
    ring
  · rw [around_of_nonneg hneg]
    push_cast
    rw [Double.pow_toNat (Int.not_lt.1 hneg)]
    ring

theorem Interval.low_around (hm : 0 < m) (q : Int) :
    ((Interval.around m q).low / (Interval.around m q).den : ℚ) =
      m * 2 ^ q - gapBelow m q * 2 ^ q / 4 := by
  have hgap := gapBelow_le m q
  by_cases hneg : q < 0
  · rw [around_of_neg hneg, Nat.cast_sub (by omega)]
    push_cast
    rw [Double.pow_toNat_neg hneg, div_mul_eq_div_div, div_inv_eq_mul]
    ring
  · have hbelow : gapBelow m q * 2 ^ q.toNat ≤ 4 * (m * 2 ^ q.toNat) := by
      rw [← Nat.mul_assoc]
      exact Nat.mul_le_mul_right _ (by omega)
    rw [around_of_nonneg hneg, Nat.cast_sub hbelow]
    push_cast
    rw [Double.pow_toNat (Int.not_lt.1 hneg)]
    ring

/-- The interval reaches below the value. -/
theorem Interval.low_lt_value (hm : 0 < m) (q : Int) :
    (Interval.around m q).low < (Interval.around m q).value := by
  have hgap : 0 < gapBelow m q := by
    rw [gapBelow]
    split_ifs <;> omega
  by_cases hneg : q < 0
  · rw [around_of_neg hneg]
    change 4 * m - gapBelow m q * 1 < 4 * m
    omega
  · have hunit : 0 < gapBelow m q * 2 ^ q.toNat := by positivity
    have hvalue : 0 < 4 * (m * 2 ^ q.toNat) := by positivity
    rw [around_of_nonneg hneg]
    exact Nat.sub_lt hvalue hunit

end Around

end Decimal

namespace Double

open Decimal

variable {k : Nat}

/-- The point halfway below a magnitude is nearer where that is the first of its exponent. -/
theorem halfway_eq_sub (k : Nat) :
    halfway k = magnitude (k + 1) -
      Interval.gapBelow (significand (k + 1)) (scale (k + 1)) * 2 ^ scale (k + 1) / 4 := by
  rw [halfway_eq, magnitude_succ, Interval.gapBelow, pow2_eq]
  have htwo : (2 : ℚ) ≠ 0 := by norm_num
  split_ifs with hfirst
  · -- the magnitude before it stands on the finer grid
    have hscale : scale (k + 1) = scale k + 1 := by
      obtain ⟨hsignificand, hnormal⟩ := hfirst
      rw [significand] at hsignificand
      rw [scale] at hnormal ⊢
      rw [scale]
      split_ifs at * <;> omega
    rw [hscale, zpow_add_one₀ htwo]
    push_cast
    ring
  · have hscale : scale (k + 1) = scale k := by
      rw [significand, scale] at hfirst
      rw [scale, scale]
      split_ifs at * <;> omega
    rw [hscale]
    push_cast
    ring

theorem significand_pos (hk : k ≠ 0) : 0 < significand k := by
  rw [significand]
  split_ifs <;> omega

/-- What lies in the rounding interval of a magnitude is rounded to it. -/
theorem rounds_of_has {r : ℚ} (hk : k ≠ 0)
    (h : (Interval.around (significand k) (scale k)).Has r) : Rounds r k := by
  obtain ⟨j, rfl⟩ := Nat.exists_eq_succ_of_ne_zero hk
  have hclosed : (Interval.around (significand (j + 1)) (scale (j + 1))).closed =
      decide ((j + 1) % 2 = 0) := by
    rw [← significand_mod_two]
    rfl
  have hlow := Interval.low_around (significand_pos hk) (scale (j + 1))
  rw [← magnitude, ← halfway_eq_sub] at hlow
  have hhigh := Interval.high_around (significand (j + 1)) (scale (j + 1))
  rw [← magnitude, ← halfway_eq] at hhigh
  rw [Interval.Has, hclosed, hlow, hhigh, decide_eq_true_iff] at h
  apply Rounds.of_within
  · rcases h with ⟨_, hlt⟩ | ⟨heven, _, hle⟩
    · exact .inl hlt
    · rcases eq_or_lt_of_le hle with heq | hlt
      · exact .inr ⟨heq, heven⟩
      · exact .inl hlt
  · intro i hi hwithin
    obtain rfl : j = i := by omega
    have hle := hwithin.le_halfway
    -- on the lower end itself the two neighbours would both have to be even
    rcases h with ⟨hlt, _⟩ | ⟨heven, hge, _⟩
    · linarith
    · rcases hwithin with hlt | ⟨_, hodd⟩
      · linarith
      · omega

/-- The shortest decimal of a magnitude is rounded to it. -/
theorem rounds_shortest (hk : k ≠ 0) :
    (shortest (significand k) (scale k)).digits ≠ 0 ∧
      Rounds (shortest (significand k) (scale k)).value k := by
  have hden := Interval.den_around (significand k) (scale k)
  have hvalue := Interval.value_around (significand k) (scale k)
  have hhigh := Interval.high_around (significand k) (scale k)
  have hlow := Interval.low_lt_value (significand_pos hk) (scale k)
  have hmagnitude := Interval.pow_magnitude_le hden (Nat.lt_of_le_of_lt (Nat.zero_le _) hlow)
  have hhas : ∀ r, (Interval.around (significand k) (scale k)).Has r → Rounds r k :=
    fun r => rounds_of_has hk
  rw [hvalue] at hmagnitude
  rw [shortest]
  generalize Interval.around (significand k) (scale k) = i at *
  -- seventeen digits are finer than half a unit in the last place
  have hfine : (10 : ℚ) ^ (i.magnitude - (17 : Nat)) < 2 ^ scale k / 2 := by
    have hsignificand : (significand k : ℚ) < 2 ^ 53 := by exact_mod_cast significand_lt k
    have htwo := two_zpow_pos (scale k)
    rw [zpow_sub₀ (by norm_num), zpow_natCast, div_lt_iff₀ (by norm_num)]
    calc (10 : ℚ) ^ i.magnitude ≤ significand k * 2 ^ scale k := hmagnitude
      _ < 2 ^ 53 * 2 ^ scale k := mul_lt_mul_of_pos_right hsignificand htwo
      _ ≤ 2 ^ scale k / 2 * 10 ^ 17 := by linarith
  have hinside : (i.value / i.den + 10 ^ (i.magnitude - (17 : Nat)) : ℚ) < i.high / i.den := by
    rw [hvalue, hhigh]
    linarith only [hfine]
  obtain ⟨hdigits, hin⟩ := Interval.search_spec hden 20 i.magnitude (by norm_num)
    (Interval.isSome_onGrid? hden hlow hinside)
  exact ⟨hdigits, hhas _ hin⟩

/-! ## Reading a decimal -/

/-- Infinity has the number of the magnitude that would come next. -/
theorem magnitude_infinityBits : magnitude infinityBits = 2 ^ 1024 := by
  have hbits : infinityBits = 2046 * 2 ^ 52 + 2 ^ 52 := by
    rw [infinityBits, pow2_eq]
    norm_num
  have hexponent : ((2046 : Nat) : Int) - 1074 = (972 : Nat) := by norm_num
  rw [hbits, magnitude_grid (by norm_num) (.inr (Nat.le_refl _)), hexponent, zpow_natCast,
    Nat.cast_pow, Nat.cast_ofNat, ← pow_add]

theorem halfway_zero : halfway 0 = 2 ^ (-1075 : Int) := by
  have hhalf : (2 : ℚ) ^ (-1074 - 1 : Int) = 2 ^ (-1074 : Int) * 2⁻¹ :=
    zpow_sub_one₀ (by norm_num) _
  rw [halfway_eq, magnitude_zero, zero_add, scale, if_pos (by norm_num), div_eq_mul_inv, ← hhalf]
  rfl

section OfDecimal

variable {digits : Nat} {exponent : Int}

/-- A decimal that is cut off as too great is beyond the range. -/
theorem magnitude_infinityBits_le (hpos : 0 < digits)
    (h : 400 < (digits.log2 : Int) / 4 + exponent) :
    magnitude infinityBits ≤ digits * 10 ^ exponent := by
  obtain ⟨hlow, -⟩ := two_zpow_log2_le hpos
  -- four binary digits for each decimal one
  have hsixteen : (10 : ℚ) ^ ((digits.log2 : Int) / 4) ≤ 2 ^ (digits.log2 : Int) := by
    have hexponent : ((digits.log2 / 4 : Nat) : Int) = (digits.log2 : Int) / 4 := by omega
    calc (10 : ℚ) ^ ((digits.log2 : Int) / 4) = 10 ^ (digits.log2 / 4) := by
          rw [← hexponent, zpow_natCast]
      _ ≤ (2 ^ 4) ^ (digits.log2 / 4) := pow_le_pow_left₀ (by norm_num) (by norm_num) _
      _ = 2 ^ (4 * (digits.log2 / 4)) := (pow_mul 2 4 _).symm
      _ ≤ 2 ^ digits.log2 := pow_le_pow_right₀ (by norm_num) (by omega)
      _ = 2 ^ (digits.log2 : Int) := (zpow_natCast 2 _).symm
  rw [magnitude_infinityBits]
  calc (2 : ℚ) ^ 1024 = (2 ^ 256) ^ 4 := pow_mul 2 256 4
    _ ≤ (10 ^ 100) ^ 4 := pow_le_pow_left₀ (by norm_num) (by norm_num) 4
    _ = 10 ^ ((400 : Nat) : Int) := by rw [zpow_natCast, ← pow_mul]
    _ ≤ 10 ^ ((digits.log2 : Int) / 4 + exponent) := zpow_le_zpow_right₀ (by norm_num) (by omega)
    _ = 10 ^ ((digits.log2 : Int) / 4) * 10 ^ exponent := zpow_add₀ (by norm_num) _ _
    _ ≤ digits * 10 ^ exponent :=
        mul_le_mul_of_nonneg_right (le_trans hsixteen hlow) (ten_zpow_pos exponent).le

/-- A decimal that is cut off as too small is less than half of the least magnitude. -/
theorem lt_halfway_zero (hpos : 0 < digits) (h : (digits.log2 : Int) + exponent < -400) :
    (digits * 10 ^ exponent : ℚ) < halfway 0 := by
  obtain ⟨-, hhigh⟩ := two_zpow_log2_le hpos
  have hten := ten_zpow_pos exponent
  have hbase : (2 : ℚ) ^ ((digits.log2 : Int) + 1) ≤ 10 ^ ((digits.log2 : Int) + 1) :=
    zpow_le_zpow_left₀ (by omega) (by norm_num) (by norm_num)
  rw [halfway_zero]
  calc (digits * 10 ^ exponent : ℚ) < 2 ^ ((digits.log2 : Int) + 1) * 10 ^ exponent :=
        mul_lt_mul_of_pos_right hhigh hten
    _ ≤ 10 ^ ((digits.log2 : Int) + 1) * 10 ^ exponent := mul_le_mul_of_nonneg_right hbase hten.le
    _ = 10 ^ ((digits.log2 : Int) + 1 + exponent) := (zpow_add₀ (by norm_num) _ _).symm
    _ ≤ 10 ^ (-(400 : Nat) : Int) := zpow_le_zpow_right₀ (by norm_num) (by omega)
    _ = ((10 ^ 80) ^ 5)⁻¹ := by rw [zpow_neg, zpow_natCast, ← pow_mul]
    _ ≤ ((2 ^ 215) ^ 5)⁻¹ :=
        inv_anti₀ (by positivity) (pow_le_pow_left₀ (by norm_num) (by norm_num) 5)
    _ = 2 ^ (-(1075 : Nat) : Int) := by rw [zpow_neg, zpow_natCast, ← pow_mul]

/-- A decimal is rounded to the nearest double. -/
theorem nearest_ofDecimal (neg : Bool) (digits : Nat) (exponent : Int) :
    Nearest neg (digits * 10 ^ exponent) (ofDecimal neg digits exponent) := by
  rcases Nat.eq_zero_or_pos digits with rfl | hpos
  · rw [Nat.cast_zero, zero_mul, ofDecimal, if_pos rfl]
    exact nearest_zero neg
  have hratio : Nearest neg (digits * 10 ^ exponent)
      (if exponent < 0 then ofRatio neg digits (pow10 (-exponent).toNat)
        else ofRatio neg (digits * pow10 exponent.toNat) 1) := by
    rw [grid_eq_div]
    split_ifs
    · exact nearest_ofRatio neg digits (Nat.pow_pos (by norm_num))
    · exact nearest_ofRatio neg _ Nat.one_pos
  simp only [ofDecimal, if_neg hpos.ne']
  split_ifs with hhuge htiny hneg
  · obtain ⟨k, hrounds, -⟩ := hratio
    have hk : infinityBits ≤ k :=
      (rounds_magnitude infinityBits).le_of_le hrounds (magnitude_infinityBits_le hpos hhuge)
    refine ⟨k, hrounds, ?_⟩
    rw [if_neg (Nat.not_lt.2 hk)]
    rfl
  · have hrounds : Rounds (digits * 10 ^ exponent : ℚ) 0 :=
      .of_within (.inl (lt_halfway_zero hpos htiny)) fun j hj => absurd hj (Nat.zero_ne_add_one j)
    exact ⟨0, hrounds, rfl⟩
  · rw [if_pos hneg] at hratio
    exact hratio
  · rw [if_neg hneg] at hratio
    exact hratio

end OfDecimal

/-- What is rounded to the magnitude of a double, with its sign, is rounded to that double. -/
theorem Nearest.eq_of_rounds {neg : Bool} {r : ℚ} {x y : Double} (h : Nearest neg r x)
    (hfinite : y.isFinite = true) (hneg : y.isNegative = neg) (hrounds : Rounds r y.magnitudeBits) :
    x = y := by
  obtain ⟨k, hk, rfl⟩ := h
  obtain rfl := hk.unique hrounds
  rw [if_pos ((isFinite_iff y).1 hfinite), ← hneg]
  exact y.ofMagnitudeBits_magnitudeBits

/-- The shortest decimal of a double is read as that double, by any digits and exponent that stand
for the same number. -/
theorem ofDecimal_of_shortest {x : Double} {digits : Nat} {exponent : Int}
    (hfinite : x.isFinite = true) (hne : x.magnitudeBits ≠ 0)
    (h : (digits * 10 ^ exponent : ℚ) =
      (shortest (significand x.magnitudeBits) (scale x.magnitudeBits)).value) :
    ofDecimal x.isNegative digits exponent = x := by
  have hnearest := nearest_ofDecimal x.isNegative digits exponent
  rw [h] at hnearest
  exact hnearest.eq_of_rounds hfinite rfl (rounds_shortest hne).2

end Double

end ChangeRelay

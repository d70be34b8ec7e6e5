import ChangeRelay.Number.Double
import Mathlib.Algebra.Order.Field.Power
import Mathlib.Data.Rat.Cast.Order
import Mathlib.Order.Monotone.Basic
import Mathlib.Tactic.Linarith
import Mathlib.Tactic.NormNum
import Mathlib.Tactic.Positivity
import Mathlib.Tactic.Ring

/-!
# Magnitudes of doubles

The lower sixty-three bits of a double number the magnitudes: a greater number stands for a greater
magnitude, and the next number for the next magnitude there is. Two finite doubles compare as the
magnitudes that their bits stand for.
-/

namespace ChangeRelay

theorem pow2_eq (n : Nat) : pow2 n = 2 ^ n := rfl

theorem pow10_eq (n : Nat) : pow10 n = 10 ^ n := rfl

namespace Double

/-! ## Magnitudes by number -/

/-- The significand of magnitude number `k`; one that is not subnormal has its leading bit added. -/
def significand (k : Nat) : Nat := if k / 2 ^ 52 = 0 then k else k % 2 ^ 52 + 2 ^ 52

/-- The exponent of two that goes with it. -/
def scale (k : Nat) : Int := if k / 2 ^ 52 = 0 then -1074 else (k / 2 ^ 52 : Nat) - 1075

/-- Magnitude number `k`. -/
def magnitude (k : Nat) : ℚ := significand k * 2 ^ scale k

theorem two_zpow_pos (q : Int) : (0 : ℚ) < 2 ^ q := zpow_pos (by norm_num) q

/-- Magnitudes of one exponent follow one another, up to the first of the next exponent. -/
theorem magnitude_grid {e t : Nat} (hle : t ≤ 2 ^ 53) (hnormal : e = 0 ∨ 2 ^ 52 ≤ t) :
    magnitude (e * 2 ^ 52 + t) = t * 2 ^ ((e : Int) - 1074) := by
  rcases Nat.lt_or_ge t (2 ^ 52) with hlt | hge
  · -- subnormal
    have he : e = 0 := by omega
    subst he
    have hzero : (0 * 2 ^ 52 + t) / 2 ^ 52 = 0 := by omega
    rw [magnitude, significand, scale, if_pos hzero, if_pos hzero]
    simp
  rcases Nat.lt_or_ge t (2 ^ 53) with hlt | hge'
  · have hdiv : (e * 2 ^ 52 + t) / 2 ^ 52 = e + 1 := by omega
    have hmod : (e * 2 ^ 52 + t) % 2 ^ 52 + 2 ^ 52 = t := by omega
    rw [magnitude, significand, scale, hdiv, hmod, if_neg (by omega), if_neg (by omega)]
    congr 2
    push_cast
    ring
  · -- the first of the next exponent
    have ht : t = 2 ^ 53 := by omega
    subst ht
    have hdiv : (e * 2 ^ 52 + 2 ^ 53) / 2 ^ 52 = e + 2 := by omega
    have hmod : (e * 2 ^ 52 + 2 ^ 53) % 2 ^ 52 + 2 ^ 52 = 2 ^ 52 := by omega
    have hscale : ((e + 2 : Nat) : Int) - 1075 = ((e : Int) - 1074) + 1 := by
      push_cast
      ring
    rw [magnitude, significand, scale, hdiv, hmod, if_neg (by omega), if_neg (by omega), hscale,
      zpow_add_one₀ (by norm_num)]
    push_cast
    ring

/-- Every magnitude stands on the grid of its exponent. -/
theorem exists_grid (k : Nat) :
    ∃ e t, k = e * 2 ^ 52 + t ∧ t < 2 ^ 53 ∧ (e = 0 ∨ 2 ^ 52 ≤ t) ∧
      significand k = t ∧ scale k = (e : Int) - 1074 := by
  by_cases hzero : k / 2 ^ 52 = 0
  · refine ⟨0, k, by omega, by omega, .inl rfl, ?_, ?_⟩
    · rw [significand, if_pos hzero]
    · rw [scale, if_pos hzero]
      rfl
  · refine ⟨k / 2 ^ 52 - 1, k % 2 ^ 52 + 2 ^ 52, by omega, by omega, .inr (by omega), ?_, ?_⟩
    · rw [significand, if_neg hzero]
    · rw [scale, if_neg hzero]
      omega

/-- The next magnitude is one unit in the last place greater. -/
theorem magnitude_succ (k : Nat) : magnitude (k + 1) = magnitude k + 2 ^ scale k := by
  obtain ⟨e, t, hk, hlt, hnormal, hsignificand, hscale⟩ := exists_grid k
  have hnext : magnitude (e * 2 ^ 52 + (t + 1)) = (t + 1 : Nat) * 2 ^ ((e : Int) - 1074) :=
    magnitude_grid (by omega) (by omega)
  have hself : magnitude k = t * 2 ^ ((e : Int) - 1074) := by
    rw [magnitude, hsignificand, hscale]
  have hsucc : k + 1 = e * 2 ^ 52 + (t + 1) := by omega
  rw [hsucc, hnext, hself, hscale]
  push_cast
  ring

theorem magnitude_strictMono : StrictMono magnitude := by
  apply strictMono_nat_of_lt_succ
  intro k
  have hpos := two_zpow_pos (scale k)
  rw [magnitude_succ]
  linarith

theorem magnitude_zero : magnitude 0 = 0 := by simp [magnitude, significand]

theorem magnitude_nonneg (k : Nat) : 0 ≤ magnitude k := by
  rw [← magnitude_zero]
  exact magnitude_strictMono.monotone (Nat.zero_le k)

/-- The number of a magnitude is even exactly if its significand is. -/
theorem significand_mod_two (k : Nat) : significand k % 2 = k % 2 := by
  rw [significand]
  split <;> omega

theorem significand_lt (k : Nat) : significand k < 2 ^ 53 := by
  rw [significand]
  split <;> omega

/-- A magnitude from `2 ^ p` on has its last place at `2 ^ (p - 52)` or above. -/
theorem sub_le_scale {k : Nat} {p : Int} (h : 2 ^ p ≤ magnitude k) : p - 52 ≤ scale k := by
  have hsignificand : (significand k : ℚ) < 2 ^ (53 : Int) := by exact_mod_cast significand_lt k
  have hlt : (2 : ℚ) ^ p < 2 ^ (53 + scale k) :=
    calc (2 : ℚ) ^ p ≤ significand k * 2 ^ scale k := h
      _ < 2 ^ (53 : Int) * 2 ^ scale k := mul_lt_mul_of_pos_right hsignificand (two_zpow_pos _)
      _ = 2 ^ (53 + scale k) := (zpow_add₀ (by norm_num) _ _).symm
  have hexponent := (zpow_lt_zpow_iff_right₀ (by norm_num : (1 : ℚ) < 2)).1 hlt
  omega

/-- A number of at most fifty-three binary digits, at an exponent that there is, is a magnitude. -/
theorem exists_magnitude_eq {u : Nat} (hu : u ≤ 2 ^ 53) (e : Nat) :
    ∃ k ≤ e * 2 ^ 52 + u, magnitude k = u * 2 ^ ((e : Int) - 1074) := by
  -- on the exponent: a significand that is too short is doubled
  induction e generalizing u with
  | zero =>
    have hgrid := magnitude_grid (e := 0) hu (.inl rfl)
    rw [Nat.zero_mul, Nat.zero_add] at hgrid
    exact ⟨u, by omega, hgrid⟩
  | succ e ih =>
    rcases Nat.lt_or_ge u (2 ^ 52) with hlt | hge
    · obtain ⟨k, hk, hmagnitude⟩ := ih (u := 2 * u) (by omega)
      have hscale : ((e + 1 : Nat) : Int) - 1074 = ((e : Int) - 1074) + 1 := by
        push_cast
        ring
      refine ⟨k, by linarith, ?_⟩
      rw [hmagnitude, hscale, zpow_add_one₀ (by norm_num)]
      push_cast
      ring
    · have hgrid := magnitude_grid (e := e + 1) hu (.inr hge)
      exact ⟨_, Nat.le_refl _, hgrid⟩

/-- The whole numbers up to `2 ^ 53` are magnitudes. -/
theorem exists_magnitude_eq_natCast {n : Nat} (hn : n ≤ 2 ^ 53) :
    ∃ k < infinityBits, magnitude k = n := by
  obtain ⟨k, hk, hmagnitude⟩ := exists_magnitude_eq hn 1074
  refine ⟨k, ?_, ?_⟩
  · rw [infinityBits, pow2_eq]
    omega
  · rw [hmagnitude]
    norm_num

/-- A significand on a finer grid. -/
theorem natCast_mul_zpow {m : Nat} {q p : Int} (h : p ≤ q) :
    ((m * 2 ^ (q - p).toNat : Nat) : ℚ) * 2 ^ p = m * 2 ^ q := by
  have hscale : (2 : ℚ) ^ (q - p).toNat * 2 ^ p = 2 ^ q := by
    rw [← zpow_natCast, ← zpow_add₀ (by norm_num)]
    congr 1
    omega
  push_cast
  rw [mul_assoc, hscale]

/-- What a magnitude has beyond its whole part is a magnitude. -/
theorem exists_magnitude_eq_sub {k s : Nat} (hlow : (s : ℚ) ≤ magnitude k)
    (hhigh : magnitude k < s + 1) : ∃ j, magnitude j = magnitude k - s := by
  rcases Nat.eq_zero_or_pos s with rfl | hpos
  · refine ⟨k, ?_⟩
    rw [Nat.cast_zero, sub_zero]
  -- from one on, a magnitude is a multiple of `2 ^ -52`
  have hone : (2 : ℚ) ^ (0 : Int) ≤ magnitude k := by
    have hcast : (1 : ℚ) ≤ s := by exact_mod_cast hpos
    rw [zpow_zero]
    linarith
  have hscale := sub_le_scale hone
  have hgrid := natCast_mul_zpow (m := significand k) (q := scale k) (p := -52) (by omega)
  generalize significand k * 2 ^ (scale k - -52).toNat = m at hgrid
  change _ = magnitude k at hgrid
  have hunit : (2 : ℚ) ^ (-52 : Int) = 1 / 2 ^ 52 := by norm_num
  rw [hunit] at hgrid
  have hm : (m : ℚ) = magnitude k * 2 ^ 52 := by
    rw [← hgrid]
    ring
  have hle : s * 2 ^ 52 ≤ m := by
    have hcast : (s : ℚ) * 2 ^ 52 ≤ m := by
      rw [hm]
      linarith
    exact_mod_cast hcast
  have hlt : m < (s + 1) * 2 ^ 52 := by
    have hcast : (m : ℚ) < (s + 1) * 2 ^ 52 := by
      rw [hm]
      linarith
    exact_mod_cast hcast
  obtain ⟨j, _, hj⟩ := exists_magnitude_eq (u := m - s * 2 ^ 52) (by omega) 1022
  refine ⟨j, ?_⟩
  rw [hj, Nat.cast_sub hle, ← hgrid]
  push_cast
  norm_num
  ring

/-! ## Bits -/

/-- The bits but for the sign. -/
def magnitudeBits (x : Double) : Nat := x.bits.toNat % 2 ^ 63

theorem exponentBits_eq (x : Double) : x.exponentBits = x.magnitudeBits / 2 ^ 52 := by
  rw [exponentBits, magnitudeBits, pow2_eq, pow2_eq]
  omega

theorem fractionBits_eq (x : Double) : x.fractionBits = x.magnitudeBits % 2 ^ 52 := by
  rw [fractionBits, magnitudeBits, pow2_eq]
  omega

theorem isFinite_iff (x : Double) : x.isFinite = true ↔ x.magnitudeBits < infinityBits := by
  have hlt : x.magnitudeBits < 2 ^ 63 := Nat.mod_lt _ (by norm_num)
  rw [isFinite, decide_eq_true_iff, exponentBits_eq, infinityBits, pow2_eq]
  omega

/-- A finite double is read as its magnitude. -/
theorem reading_of_isFinite {x : Double} (h : x.isFinite = true) :
    x.reading = .finite x.isNegative (significand x.magnitudeBits) (scale x.magnitudeBits) := by
  have hne : ¬ x.magnitudeBits / 2 ^ 52 = 2047 := by
    rw [← exponentBits_eq]
    exact of_decide_eq_true h
  simp only [reading, exponentBits_eq, fractionBits_eq, if_neg hne, pow2_eq]
  by_cases hzero : x.magnitudeBits / 2 ^ 52 = 0
  · rw [if_pos hzero, significand, scale, if_pos hzero, if_pos hzero]
    have hself : x.magnitudeBits % 2 ^ 52 = x.magnitudeBits := by omega
    rw [hself]
  · rw [if_neg hzero, significand, scale, if_neg hzero, if_neg hzero]

section OfMagnitudeBits

variable {neg : Bool} {k : Nat}

theorem toNat_ofMagnitudeBits (hk : k < 2 ^ 63) :
    (ofMagnitudeBits neg k).bits.toNat = (if neg then 2 ^ 63 else 0) + k := by
  rw [ofMagnitudeBits, UInt64.toNat_ofNat', pow2_eq]
  cases neg
  · simp
    omega
  · simp
    omega

theorem isNegative_ofMagnitudeBits (hk : k < 2 ^ 63) :
    (ofMagnitudeBits neg k).isNegative = neg := by
  rw [isNegative, toNat_ofMagnitudeBits hk, pow2_eq]
  cases neg
  · simp
    omega
  · simp

theorem magnitudeBits_ofMagnitudeBits (hk : k < 2 ^ 63) :
    (ofMagnitudeBits neg k).magnitudeBits = k := by
  rw [magnitudeBits, toNat_ofMagnitudeBits hk]
  cases neg
  · simp
    omega
  · simp
    omega

/-- A double is made of its sign and the bits of its magnitude. -/
theorem ofMagnitudeBits_magnitudeBits (x : Double) :
    ofMagnitudeBits x.isNegative x.magnitudeBits = x := by
  have hlt : x.bits.toNat < 2 ^ 64 := x.bits.toNat_lt
  have hmagnitude : x.magnitudeBits < 2 ^ 63 := Nat.mod_lt _ (by norm_num)
  have hbits : (ofMagnitudeBits x.isNegative x.magnitudeBits).bits = x.bits := by
    rw [← UInt64.toNat_inj, toNat_ofMagnitudeBits hmagnitude, isNegative, magnitudeBits, pow2_eq]
    split
    · rename_i h
      have hle := of_decide_eq_true h
      omega
    · rename_i h
      have hlt := Nat.not_le.1 (fun hle => h (decide_eq_true hle))
      omega
  cases x
  exact congrArg Double.mk hbits

end OfMagnitudeBits

theorem infinityBits_lt : infinityBits < 2 ^ 63 := by
  rw [infinityBits, pow2_eq]
  norm_num

/-- A double is its sign and its magnitude. -/
theorem eq_of_magnitudeBits_eq {x y : Double} (hsign : x.isNegative = y.isNegative)
    (hbits : x.magnitudeBits = y.magnitudeBits) : x = y := by
  rw [← x.ofMagnitudeBits_magnitudeBits, ← y.ofMagnitudeBits_magnitudeBits, hsign, hbits]

/-! ## Comparing -/

/-- The number that a finite double stands for. -/
def value (x : Double) : ℚ :=
  (if x.isNegative then -1 else 1) * magnitude x.magnitudeBits

theorem signed_mul_zpow (neg : Bool) {m : Nat} {q p : Int} (h : p ≤ q) :
    (signed neg (m * pow2 (q - p).toNat) : ℚ) * 2 ^ p =
      (if neg then -1 else 1) * (m * 2 ^ q) := by
  have hgrid := natCast_mul_zpow (m := m) h
  rw [signed, pow2_eq]
  cases neg
  · simp only [Bool.false_eq_true, if_false, Int.cast_natCast, hgrid, one_mul]
  · simp only [if_true, Int.cast_neg, Int.cast_natCast, neg_mul, hgrid, one_mul]

/-- Finite doubles compare as the numbers that they stand for. -/
theorem compare?_of_isFinite {x y : Double} (hx : x.isFinite = true) (hy : y.isFinite = true) :
    x.compare? y =
      some (if x.value < y.value then .lt else if x.value = y.value then .eq else .gt) := by
  simp only [compare?, reading_of_isFinite hx, reading_of_isFinite hy]
  -- both numbers on the finer of their grids
  generalize hp : (if scale x.magnitudeBits ≤ scale y.magnitudeBits then scale x.magnitudeBits
    else scale y.magnitudeBits) = p
  have hpx : p ≤ scale x.magnitudeBits := by split at hp <;> omega
  have hpy : p ≤ scale y.magnitudeBits := by split at hp <;> omega
  have hvx := signed_mul_zpow x.isNegative (m := significand x.magnitudeBits) hpx
  have hvy := signed_mul_zpow y.isNegative (m := significand y.magnitudeBits) hpy
  change _ = x.value at hvx
  change _ = y.value at hvy
  have hpos := two_zpow_pos p
  have hlt : ∀ a b : Int, (a : ℚ) * 2 ^ p < b * 2 ^ p ↔ a < b := fun a b => by
    rw [mul_lt_mul_iff_left₀ hpos, Int.cast_lt]
  have heq : ∀ a b : Int, (a : ℚ) * 2 ^ p = b * 2 ^ p ↔ a = b := fun a b => by
    rw [mul_left_inj' hpos.ne', Int.cast_inj]
  simp only [← hvx, ← hvy, hlt, heq]

/-- Of finite doubles without a sign, the one with the greater bits is the greater. -/
theorem le_iff_of_isFinite {x y : Double} (hx : x.isFinite = true) (hy : y.isFinite = true)
    (hposx : x.isNegative = false) (hposy : y.isNegative = false) :
    x.le y = true ↔ x.magnitudeBits ≤ y.magnitudeBits := by
  have hvalue : ∀ {z : Double}, z.isNegative = false → z.value = magnitude z.magnitudeBits := by
    intro z hz
    rw [value, hz]
    simp
  rw [le, compare?_of_isFinite hx hy, hvalue hposx, hvalue hposy]
  simp only [magnitude_strictMono.lt_iff_lt, magnitude_strictMono.injective.eq_iff]
  rcases Nat.lt_trichotomy x.magnitudeBits y.magnitudeBits with hlt | heq | hgt
  · simp [hlt, Nat.le_of_lt hlt]
  · simp [heq]
  · rw [if_neg (by omega), if_neg (by omega)]
    simp
    omega

/-- Finite doubles are the same if they compare as equal and have the same sign. -/
theorem eq_iff_compare? {x y : Double} (hx : x.isFinite = true) (hy : y.isFinite = true) :
    x = y ↔ x.compare? y = some .eq ∧ x.isNegative = y.isNegative := by
  constructor
  · rintro rfl
    refine ⟨?_, rfl⟩
    rw [compare?_of_isFinite hx hx, if_neg (lt_irrefl _), if_pos rfl]
  · rintro ⟨heq, hsign⟩
    apply eq_of_magnitudeBits_eq hsign
    apply magnitude_strictMono.injective
    have hvalue : x.value = y.value := by
      rw [compare?_of_isFinite hx hy] at heq
      by_contra hne
      rw [if_neg hne] at heq
      split at heq <;> cases heq
    rw [value, value, hsign] at hvalue
    split at hvalue <;> linarith

end Double

end ChangeRelay

import ChangeRelay.Proofs.Number.Magnitude

/-!
# Rounding of doubles

A positive number rounds to a magnitude number `k` exactly if it lies between the midpoints on
either side of magnitude `k`, the midpoints belonging to the even one of the two. Every operation
rounds its exact result in this way.
-/

namespace ChangeRelay

namespace Double

/-! ## The nearest magnitude -/

/-- Halfway between a magnitude and the next one. -/
def halfway (k : Nat) : ℚ := (magnitude k + magnitude (k + 1)) / 2

theorem halfway_eq (k : Nat) : halfway k = magnitude k + 2 ^ scale k / 2 := by
  rw [halfway, magnitude_succ]
  ring

/-- A number that rounds to magnitude number `k` or a lower one. -/
def RoundsWithin (r : ℚ) (k : Nat) : Prop := r < halfway k ∨ r = halfway k ∧ k % 2 = 0

/-- Magnitude number `k` is the nearest to `r`, the even one of two. -/
def Rounds (r : ℚ) (k : Nat) : Prop := ∀ j, k ≤ j ↔ RoundsWithin r j

section Rounds

variable {r r' : ℚ} {j k k' : Nat}

theorem magnitude_lt_halfway (k : Nat) : magnitude k < halfway k := by
  have hlt := magnitude_strictMono (Nat.lt_succ_self k)
  rw [halfway]
  linarith

theorem halfway_lt_magnitude (k : Nat) : halfway k < magnitude (k + 1) := by
  have hlt := magnitude_strictMono (Nat.lt_succ_self k)
  rw [halfway]
  linarith

theorem halfway_lt (h : j < k) : halfway j < halfway k :=
  calc halfway j < magnitude (j + 1) := halfway_lt_magnitude j
    _ ≤ magnitude k := magnitude_strictMono.monotone h
    _ < halfway k := magnitude_lt_halfway k

theorem RoundsWithin.le_halfway (h : RoundsWithin r k) : r ≤ halfway k := by
  rcases h with hlt | ⟨heq, _⟩
  · exact le_of_lt hlt
  · exact le_of_eq heq

theorem RoundsWithin.trans (h : RoundsWithin r j) (hle : j ≤ k) : RoundsWithin r k := by
  rcases Nat.eq_or_lt_of_le hle with rfl | hlt
  · exact h
  · exact .inl (lt_of_le_of_lt h.le_halfway (halfway_lt hlt))

theorem RoundsWithin.of_le (hle : r ≤ r') (h : RoundsWithin r' k) : RoundsWithin r k := by
  rcases eq_or_lt_of_le hle with rfl | hlt
  · exact h
  · exact .inl (lt_of_lt_of_le hlt h.le_halfway)

theorem roundsWithin_of_le_magnitude (h : r ≤ magnitude k) : RoundsWithin r k :=
  .inl (lt_of_le_of_lt h (magnitude_lt_halfway k))

theorem not_roundsWithin_of_magnitude_le (h : magnitude (k + 1) ≤ r) : ¬ RoundsWithin r k := by
  intro hwithin
  have hle := hwithin.le_halfway
  have hlt := halfway_lt_magnitude k
  linarith

theorem Rounds.of_within (hwithin : RoundsWithin r k)
    (hbeyond : ∀ j, k = j + 1 → ¬ RoundsWithin r j) : Rounds r k := by
  intro j
  constructor
  · intro hle
    exact hwithin.trans hle
  · intro h
    rcases Nat.lt_or_ge j k with hlt | hge
    · have hk : k = (k - 1) + 1 := by omega
      exact absurd (h.trans (by omega)) (hbeyond _ hk)
    · exact hge

theorem Rounds.within (h : Rounds r k) : RoundsWithin r k := (h k).1 (Nat.le_refl k)

theorem Rounds.le_of_le (h : Rounds r k) (h' : Rounds r' k') (hle : r ≤ r') : k ≤ k' :=
  (h k').2 (h'.within.of_le hle)

theorem Rounds.unique (h : Rounds r k) (h' : Rounds r k') : k = k' :=
  Nat.le_antisymm (h.le_of_le h' (le_refl r)) (h'.le_of_le h (le_refl r))

/-- A magnitude rounds to itself. -/
theorem rounds_magnitude (k : Nat) : Rounds (magnitude k) k := by
  apply Rounds.of_within
  · exact roundsWithin_of_le_magnitude (le_refl _)
  · rintro j rfl
    exact not_roundsWithin_of_magnitude_le (le_refl _)

theorem Rounds.le_of_le_magnitude (h : Rounds r k) (hle : r ≤ magnitude j) : k ≤ j :=
  h.le_of_le (rounds_magnitude j) hle

end Rounds

/-! ## Rounding to integers and to binary digits -/

theorem roundDiv_le_iff {num den u : Nat} (hden : 0 < den) :
    roundDiv num den ≤ u ↔
      2 * num < (2 * u + 1) * den ∨ 2 * num = (2 * u + 1) * den ∧ u % 2 = 0 := by
  have hdiv : den * (num / den) + num % den = num := Nat.div_add_mod num den
  have hmod : num % den < den := Nat.mod_lt num hden
  rw [roundDiv]
  generalize num / den = t at hdiv ⊢
  generalize num % den = rest at hdiv hmod ⊢
  rcases Nat.lt_trichotomy u t with hlt | rfl | hgt
  · -- below the quotient
    have hge : t ≤ (if 2 * rest < den then t else if den < 2 * rest then t + 1
        else if t % 2 = 0 then t else t + 1) := by
      split_ifs <;> omega
    have hmul : den * (u + 1) ≤ den * t := Nat.mul_le_mul_left den hlt
    constructor
    · intro hle
      omega
    · intro h
      exfalso
      rcases h with h | ⟨h, _⟩ <;> nlinarith
  · -- at the quotient the rest decides
    have hexpand : (2 * u + 1) * den = 2 * (den * u) + den := by ring
    rw [hexpand]
    split_ifs <;> omega
  · -- above it
    have hle : (if 2 * rest < den then t else if den < 2 * rest then t + 1
        else if t % 2 = 0 then t else t + 1) ≤ u := by
      split_ifs <;> omega
    have hmul : den * (t + 1) ≤ den * u := Nat.mul_le_mul_left den hgt
    constructor
    · intro _
      left
      nlinarith
    · intro _
      exact hle

theorem roundDiv_le_of_le_mul {num den n : Nat} (hden : 0 < den) (h : num ≤ n * den) :
    roundDiv num den ≤ n := by
  rw [roundDiv_le_iff hden]
  left
  nlinarith

theorem le_roundDiv_of_mul_le {num den n : Nat} (hden : 0 < den) (h : n * den ≤ num) :
    n ≤ roundDiv num den := by
  rcases Nat.eq_zero_or_pos n with rfl | hn
  · exact Nat.zero_le _
  by_contra hlt
  have hround : roundDiv num den ≤ n - 1 := by omega
  rw [roundDiv_le_iff hden] at hround
  have hodd : 2 * (n - 1) + 1 + 1 = 2 * n := by omega
  generalize 2 * (n - 1) + 1 = a at hround hodd
  rcases hround with hround | ⟨hround, _⟩ <;> nlinarith

theorem pow_toNat {b : ℚ} {q : Int} (h : 0 ≤ q) : b ^ q.toNat = b ^ q := by
  rw [← zpow_natCast, Int.toNat_of_nonneg h]

theorem pow_toNat_neg {b : ℚ} {q : Int} (h : q < 0) : b ^ (-q).toNat = (b ^ q)⁻¹ := by
  rw [pow_toNat (by omega), zpow_neg]

section ScaleBy

variable {num den : Nat} {q : Int}

theorem scaleBy_snd_pos (hden : 0 < den) : 0 < (scaleBy num den q).2 := by
  rw [scaleBy]
  split_ifs
  · exact hden
  · exact Nat.mul_pos hden (Nat.two_pow_pos _)

theorem scaleBy_fst_div_snd (num den : Nat) (q : Int) :
    ((scaleBy num den q).1 : ℚ) / (scaleBy num den q).2 = num / den / 2 ^ q := by
  rw [scaleBy]
  split_ifs with hneg
  · simp only [pow2_eq, Nat.cast_mul, Nat.cast_pow, Nat.cast_ofNat, pow_toNat_neg hneg]
    ring
  · simp only [pow2_eq, Nat.cast_mul, Nat.cast_pow, Nat.cast_ofNat,
      pow_toNat (Int.not_lt.1 hneg)]
    rw [div_div]

/-- Comparing the parts of a scaled fraction with a multiple. -/
theorem scaleBy_lt_iff (num : Nat) (hden : 0 < den) {a b : Nat} (hb : 0 < b) :
    b * (scaleBy num den q).1 < a * (scaleBy num den q).2 ↔
      (num : ℚ) / den < a / b * 2 ^ q := by
  have hsnd : (0 : ℚ) < (scaleBy num den q).2 := by exact_mod_cast scaleBy_snd_pos hden
  have hb' : (0 : ℚ) < b := by exact_mod_cast hb
  have hpos := two_zpow_pos q
  rw [← div_lt_iff₀ hpos, ← scaleBy_fst_div_snd, div_lt_div_iff₀ hsnd hb']
  constructor
  · intro h
    have h' : (b : ℚ) * (scaleBy num den q).1 < a * (scaleBy num den q).2 := by exact_mod_cast h
    linarith
  · intro h
    have h' : (b : ℚ) * (scaleBy num den q).1 < a * (scaleBy num den q).2 := by linarith
    exact_mod_cast h'

theorem scaleBy_eq_iff (num : Nat) (hden : 0 < den) {a b : Nat} (hb : 0 < b) :
    b * (scaleBy num den q).1 = a * (scaleBy num den q).2 ↔
      (num : ℚ) / den = a / b * 2 ^ q := by
  have hsnd : ((scaleBy num den q).2 : ℚ) ≠ 0 := by
    exact_mod_cast (scaleBy_snd_pos hden).ne'
  have hb' : (b : ℚ) ≠ 0 := by exact_mod_cast hb.ne'
  have hpos := (two_zpow_pos q).ne'
  rw [← div_eq_iff hpos, ← scaleBy_fst_div_snd, div_eq_div_iff hsnd hb']
  constructor
  · intro h
    have h' : (b : ℚ) * (scaleBy num den q).1 = a * (scaleBy num den q).2 := by exact_mod_cast h
    linarith
  · intro h
    have h' : (b : ℚ) * (scaleBy num den q).1 = a * (scaleBy num den q).2 := by linarith
    exact_mod_cast h'

end ScaleBy

section BinaryExponent

variable {num den : Nat}

theorem two_zpow_log2_le {n : Nat} (hn : 0 < n) :
    (2 : ℚ) ^ (n.log2 : Int) ≤ n ∧ (n : ℚ) < 2 ^ ((n.log2 : Int) + 1) := by
  have hlow : 2 ^ n.log2 ≤ n := Nat.log2_self_le (by omega)
  have hhigh : n < 2 ^ (n.log2 + 1) := Nat.lt_log2_self
  constructor
  · rw [zpow_natCast]
    exact_mod_cast hlow
  · have hcast : ((n.log2 : Int) + 1) = ((n.log2 + 1 : Nat) : Int) := by push_cast; rfl
    rw [hcast, zpow_natCast]
    exact_mod_cast hhigh

theorem two_zpow_binaryExponent_le (hnum : 0 < num) (hden : 0 < den) :
    (2 : ℚ) ^ binaryExponent num den ≤ num / den ∧
      (num : ℚ) / den < 2 ^ (binaryExponent num den + 1) := by
  obtain ⟨hnumLow, hnumHigh⟩ := two_zpow_log2_le hnum
  obtain ⟨hdenLow, hdenHigh⟩ := two_zpow_log2_le hden
  have hdenPos : (0 : ℚ) < den := by exact_mod_cast hden
  have htwo : (2 : ℚ) ≠ 0 := by norm_num
  generalize ha : (num.log2 : Int) = a at *
  generalize hb : (den.log2 : Int) = b at *
  -- the quotient of the leading powers is off by less than a factor of two
  have hlow : (2 : ℚ) ^ (a - b - 1) ≤ num / den := by
    rw [le_div_iff₀ hdenPos]
    calc (2 : ℚ) ^ (a - b - 1) * den ≤ 2 ^ (a - b - 1) * 2 ^ (b + 1) :=
          mul_le_mul_of_nonneg_left (le_of_lt hdenHigh) (two_zpow_pos _).le
      _ = 2 ^ a := by rw [← zpow_add₀ htwo]; congr 1; ring
      _ ≤ num := hnumLow
  have hhigh : (num : ℚ) / den < 2 ^ (a - b + 1) := by
    rw [div_lt_iff₀ hdenPos]
    calc (num : ℚ) < 2 ^ (a + 1) := hnumHigh
      _ = 2 ^ (a - b + 1) * 2 ^ b := by rw [← zpow_add₀ htwo]; congr 1; ring
      _ ≤ 2 ^ (a - b + 1) * den := mul_le_mul_of_nonneg_left hdenLow (two_zpow_pos _).le
  have hscale := scaleBy_lt_iff num (q := a - b) hden (a := 1) (b := 1) (by norm_num)
  simp only [one_mul, Nat.cast_one, div_one] at hscale
  simp only [binaryExponent, ha, hb, hscale]
  split_ifs with hlt
  · refine ⟨hlow, ?_⟩
    rw [sub_add_cancel]
    exact hlt
  · exact ⟨not_lt.1 hlt, hhigh⟩

end BinaryExponent

/-! ## Operations round to the nearest -/

/-- The double nearest to `± r`; from the bits of infinity on, infinity. -/
def Nearest (neg : Bool) (r : ℚ) (x : Double) : Prop :=
  ∃ k, Rounds r k ∧ x = ofMagnitudeBits neg (if k < infinityBits then k else infinityBits)

section Nearest

variable {neg : Bool} {r : ℚ} {x y : Double}

theorem nearest_zero (neg : Bool) : Nearest neg 0 (zero neg) := by
  have hrounds := rounds_magnitude 0
  rw [magnitude_zero] at hrounds
  exact ⟨0, hrounds, rfl⟩

/-- On the grid of one exponent, rounding is rounding of the significand. -/
theorem roundsWithin_grid_iff (num : Nat) {den e u : Nat} (hden : 0 < den) (hu : u < 2 ^ 53)
    (hnormal : e = 0 ∨ 2 ^ 52 ≤ u) :
    RoundsWithin (num / den : ℚ) (e * 2 ^ 52 + u) ↔
      roundDiv (scaleBy num den ((e : Int) - 1074)).1 (scaleBy num den ((e : Int) - 1074)).2 ≤ u
        := by
  have hself := magnitude_grid (e := e) (t := u) (by omega) hnormal
  have hnext := magnitude_grid (e := e) (t := u + 1) (by omega) (by omega)
  have hhalfway : halfway (e * 2 ^ 52 + u) =
      ((2 * u + 1 : Nat) : ℚ) / (2 : Nat) * 2 ^ ((e : Int) - 1074) := by
    rw [halfway, Nat.add_assoc, hself, hnext]
    push_cast
    ring
  have hparity : (e * 2 ^ 52 + u) % 2 = u % 2 := by omega
  rw [RoundsWithin, hhalfway, hparity, roundDiv_le_iff (scaleBy_snd_pos hden),
    ← scaleBy_lt_iff num hden (by norm_num), ← scaleBy_eq_iff num hden (by norm_num)]

/-- The exponent of the last place that a fraction is rounded at: the significand then has at most
fifty-three binary digits, and no fewer unless the exponent is the least one. -/
theorem exists_lastPlace {num den : Nat} (hnum : 0 < num) (hden : 0 < den) :
    ∃ e : Nat, (if binaryExponent num den - 52 < -1074 then -1074
        else binaryExponent num den - 52) = (e : Int) - 1074 ∧
      (num / den : ℚ) < 2 ^ 53 * 2 ^ ((e : Int) - 1074) ∧
      (e = 0 ∨ 2 ^ 52 * 2 ^ ((e : Int) - 1074) ≤ (num / den : ℚ)) := by
  obtain ⟨hlow, hhigh⟩ := two_zpow_binaryExponent_le hnum hden
  generalize hq : (if binaryExponent num den - 52 < -1074 then -1074
    else binaryExponent num den - 52) = q
  obtain ⟨e, rfl⟩ : ∃ e : Nat, q = (e : Int) - 1074 := by
    refine ⟨(q + 1074).toNat, ?_⟩
    split_ifs at hq <;> omega
  refine ⟨e, rfl, ?_, ?_⟩
  · refine lt_of_lt_of_le hhigh ?_
    rw [← zpow_natCast, ← zpow_add₀ (by norm_num)]
    apply zpow_le_zpow_right₀ (by norm_num)
    push_cast
    split_ifs at hq <;> omega
  · rw [or_iff_not_imp_left]
    intro hne
    refine le_trans ?_ hlow
    rw [← zpow_natCast, ← zpow_add₀ (by norm_num)]
    apply zpow_le_zpow_right₀ (by norm_num)
    push_cast
    split_ifs at hq <;> omega

/-- A fraction on the grid of its last place is rounded by its significand. -/
theorem rounds_roundDiv {num den e : Nat} (hden : 0 < den)
    (hbelow : (num / den : ℚ) < 2 ^ 53 * 2 ^ ((e : Int) - 1074))
    (habove : e = 0 ∨ 2 ^ 52 * 2 ^ ((e : Int) - 1074) ≤ (num / den : ℚ)) :
    Rounds (num / den : ℚ) (e * 2 ^ 52 +
      roundDiv (scaleBy num den ((e : Int) - 1074)).1 (scaleBy num den ((e : Int) - 1074)).2) := by
  have hsnd : 0 < (scaleBy num den ((e : Int) - 1074)).2 := scaleBy_snd_pos hden
  have hgrid := fun u => roundsWithin_grid_iff num (e := e) (u := u) hden
  have hscale := fun a : Nat =>
    scaleBy_lt_iff num (q := (e : Int) - 1074) hden (a := a) (b := 1) (by norm_num)
  simp only [one_mul, Nat.cast_one, div_one] at hscale
  have hle : roundDiv (scaleBy num den ((e : Int) - 1074)).1
      (scaleBy num den ((e : Int) - 1074)).2 ≤ 2 ^ 53 :=
    roundDiv_le_of_le_mul hsnd ((hscale (2 ^ 53)).2 (by push_cast; exact hbelow)).le
  have hge : e = 0 ∨ 2 ^ 52 ≤ roundDiv (scaleBy num den ((e : Int) - 1074)).1
      (scaleBy num den ((e : Int) - 1074)).2 := by
    apply habove.imp_right
    intro hle
    apply le_roundDiv_of_mul_le hsnd
    rw [← Nat.not_lt, hscale (2 ^ 52), not_lt]
    push_cast
    exact hle
  generalize roundDiv (scaleBy num den ((e : Int) - 1074)).1
    (scaleBy num den ((e : Int) - 1074)).2 = t at hgrid hle hge ⊢
  apply Rounds.of_within
  · rcases Nat.eq_or_lt_of_le hle with rfl | hlt
    · -- rounded up to the next exponent
      apply roundsWithin_of_le_magnitude
      rw [magnitude_grid (Nat.le_refl _) (.inr (by norm_num))]
      push_cast
      exact le_of_lt hbelow
    · exact (hgrid t hlt hge).2 (Nat.le_refl t)
  · intro j hj
    by_cases hfirst : e ≠ 0 ∧ t = 2 ^ 52
    · -- the first of its exponent has its lower neighbour on another grid
      obtain ⟨hne, rfl⟩ := hfirst
      apply not_roundsWithin_of_magnitude_le
      rw [← hj, magnitude_grid (by norm_num) (.inr (Nat.le_refl _))]
      push_cast
      exact habove.resolve_left hne
    · have hj' : j = e * 2 ^ 52 + (t - 1) := by omega
      rw [hj', hgrid (t - 1) (by omega) (by omega)]
      omega

/-- A fraction is rounded to the nearest double. -/
theorem nearest_ofRatio (neg : Bool) (num : Nat) {den : Nat} (hden : 0 < den) :
    Nearest neg (num / den) (ofRatio neg num den) := by
  rcases Nat.eq_zero_or_pos num with rfl | hnum
  · rw [Nat.cast_zero, zero_div, ofRatio, if_pos rfl]
    exact nearest_zero neg
  obtain ⟨e, he, hbelow, habove⟩ := exists_lastPlace hnum hden
  have hexponent : ((e : Int) - 1074 + 1074).toNat = e := by omega
  simp only [ofRatio, if_neg hnum.ne', he, hexponent, pow2_eq]
  exact ⟨_, rounds_roundDiv hden hbelow habove, rfl⟩

theorem nearest_ofNat (n : Nat) : Nearest false n (ofNat n) := by
  have h := nearest_ofRatio false n Nat.one_pos
  rw [Nat.cast_one, div_one] at h
  exact h

theorem nearest_ofScaled (neg : Bool) (m : Nat) (q : Int) :
    Nearest neg (m * 2 ^ q) (ofScaled neg m q) := by
  rw [ofScaled]
  split_ifs with hneg
  · have h := nearest_ofRatio neg m (Nat.two_pow_pos (-q).toNat)
    rw [Nat.cast_pow, Nat.cast_ofNat, pow_toNat_neg hneg, div_inv_eq_mul] at h
    exact h
  · have h := nearest_ofRatio neg (m * 2 ^ q.toNat) Nat.one_pos
    rw [Nat.cast_mul, Nat.cast_pow, Nat.cast_ofNat, pow_toNat (Int.not_lt.1 hneg),
      Nat.cast_one, div_one] at h
    exact h

theorem Nearest.isNegative_eq (h : Nearest neg r x) : x.isNegative = neg := by
  obtain ⟨k, _, rfl⟩ := h
  have hlt := infinityBits_lt
  apply isNegative_ofMagnitudeBits
  split <;> omega

/-- What rounds to a finite magnitude, by the bits of the double. -/
theorem Nearest.rounds (h : Nearest neg r x) {j : Nat} (hj : j < infinityBits)
    (hle : r ≤ magnitude j) : x.isFinite = true ∧ Rounds r x.magnitudeBits := by
  obtain ⟨k, hrounds, rfl⟩ := h
  have hk : k < infinityBits := Nat.lt_of_le_of_lt (hrounds.le_of_le_magnitude hle) hj
  have hbits : (ofMagnitudeBits neg k).magnitudeBits = k :=
    magnitudeBits_ofMagnitudeBits (Nat.lt_trans hk infinityBits_lt)
  rw [if_pos hk, isFinite_iff, hbits]
  exact ⟨hk, hrounds⟩

/-- A number that is a finite magnitude is kept. -/
theorem Nearest.magnitude_eq (h : Nearest neg r x) {j : Nat} (hj : j < infinityBits)
    (heq : magnitude j = r) : x.isFinite = true ∧ magnitude x.magnitudeBits = r := by
  obtain ⟨hfinite, hrounds⟩ := h.rounds hj (le_of_eq heq.symm)
  subst heq
  rw [hrounds.unique (rounds_magnitude j)]
  exact ⟨hfinite, rfl⟩

/-- Whole numbers up to `2 ^ 53` are kept. -/
theorem magnitude_ofNat {n : Nat} (hn : n ≤ 2 ^ 53) :
    (ofNat n).isFinite = true ∧ magnitude (ofNat n).magnitudeBits = n := by
  obtain ⟨j, hj, hmagnitude⟩ := exists_magnitude_eq_natCast hn
  exact (nearest_ofNat n).magnitude_eq hj hmagnitude

/-- The sum of two finite doubles without a sign. -/
theorem nearest_add (hx : x.isFinite = true) (hy : y.isFinite = true)
    (hposx : x.isNegative = false) (hposy : y.isNegative = false) :
    Nearest false (magnitude x.magnitudeBits + magnitude y.magnitudeBits) (x.add y) := by
  simp only [add, reading_of_isFinite hx, reading_of_isFinite hy, hposx, hposy]
  generalize hp : (if scale x.magnitudeBits ≤ scale y.magnitudeBits then scale x.magnitudeBits
    else scale y.magnitudeBits) = p
  have hpx : p ≤ scale x.magnitudeBits := by split at hp <;> omega
  have hpy : p ≤ scale y.magnitudeBits := by split at hp <;> omega
  have hmx := natCast_mul_zpow (m := significand x.magnitudeBits) hpx
  have hmy := natCast_mul_zpow (m := significand y.magnitudeBits) hpy
  simp only [signed, Bool.false_eq_true, if_false, pow2_eq]
  generalize significand x.magnitudeBits * 2 ^ (scale x.magnitudeBits - p).toNat = a at hmx ⊢
  generalize significand y.magnitudeBits * 2 ^ (scale y.magnitudeBits - p).toNat = b at hmy ⊢
  have hsum : magnitude x.magnitudeBits + magnitude y.magnitudeBits = ((a + b : Nat) : ℚ) * 2 ^ p
      := by
    rw [magnitude, magnitude, ← hmx, ← hmy]
    push_cast
    ring
  rw [hsum]
  split_ifs with hzero
  · have hnone : a + b = 0 := by omega
    rw [hnone, Nat.cast_zero, zero_mul]
    exact nearest_zero false
  · have hneg : decide ((a : Int) + (b : Int) < 0) = false := by
      rw [decide_eq_false_iff_not]
      omega
    have habs : ((a : Int) + (b : Int)).natAbs = a + b := by omega
    rw [hneg, habs]
    exact nearest_ofScaled false (a + b) p

/-- The quotient of two finite doubles without a sign. -/
theorem nearest_div (hx : x.isFinite = true) (hy : y.isFinite = true)
    (hposx : x.isNegative = false) (hposy : y.isNegative = false)
    (hne : magnitude y.magnitudeBits ≠ 0) :
    Nearest false (magnitude x.magnitudeBits / magnitude y.magnitudeBits) (x.div y) := by
  have hsignificand : significand y.magnitudeBits ≠ 0 := by
    intro hzero
    rw [magnitude, hzero, Nat.cast_zero, zero_mul] at hne
    exact hne rfl
  simp only [div, reading_of_isFinite hx, reading_of_isFinite hy, hposx, hposy, if_neg hsignificand,
    bne_self_eq_false]
  have hquotient : magnitude x.magnitudeBits / magnitude y.magnitudeBits =
      significand x.magnitudeBits / significand y.magnitudeBits *
        2 ^ (scale x.magnitudeBits - scale y.magnitudeBits) := by
    rw [magnitude, magnitude, zpow_sub₀ (by norm_num), mul_div_mul_comm]
  rw [hquotient]
  generalize scale x.magnitudeBits - scale y.magnitudeBits = p
  split_ifs with hneg
  · have h := nearest_ofRatio false (significand x.magnitudeBits)
      (Nat.mul_pos (Nat.pos_of_ne_zero hsignificand) (Nat.two_pow_pos (-p).toNat))
    rw [Nat.cast_mul, Nat.cast_pow, Nat.cast_ofNat, pow_toNat_neg hneg, ← div_div,
      div_inv_eq_mul] at h
    exact h
  · have h := nearest_ofRatio false (significand x.magnitudeBits * 2 ^ p.toNat)
      (Nat.pos_of_ne_zero hsignificand)
    rw [Nat.cast_mul, Nat.cast_pow, Nat.cast_ofNat, pow_toNat (Int.not_lt.1 hneg),
      mul_div_right_comm] at h
    exact h

end Nearest

/-- Counting a double in units and rounding does not exceed a count that the double is within. -/
theorem roundTimes_le {x : Double} {unit n : Nat} (hfinite : x.isFinite = true)
    (h : magnitude x.magnitudeBits * unit ≤ n) : x.roundTimes unit ≤ n := by
  rw [magnitude] at h
  simp only [roundTimes, reading_of_isFinite hfinite, pow2_eq]
  generalize significand x.magnitudeBits = m at h ⊢
  generalize scale x.magnitudeBits = q at h ⊢
  split_ifs with hneg
  · apply roundDiv_le_of_le_mul (Nat.two_pow_pos _)
    have hcast : (m * unit : ℚ) ≤ n * 2 ^ (-q).toNat := by
      rw [pow_toNat_neg hneg, ← div_eq_mul_inv, le_div_iff₀ (two_zpow_pos q)]
      linarith
    exact_mod_cast hcast
  · have hcast : (m * unit * 2 ^ q.toNat : ℚ) ≤ n := by
      rw [pow_toNat (Int.not_lt.1 hneg)]
      linarith
    exact_mod_cast hcast

/-! ## Signs -/

section Sign

variable {x y : Double}

@[simp] theorem isNegative_infinity (neg : Bool) : (infinity neg).isNegative = neg :=
  isNegative_ofMagnitudeBits infinityBits_lt

@[simp] theorem isNegative_zero (neg : Bool) : (zero neg).isNegative = neg :=
  (nearest_zero neg).isNegative_eq

@[simp] theorem isNegative_nan : nan.isNegative = false := rfl

@[simp] theorem isNegative_ofNat (n : Nat) : (ofNat n).isNegative = false :=
  (nearest_ofNat n).isNegative_eq

@[simp] theorem isNegative_ofScaled (neg : Bool) (m : Nat) (q : Int) :
    (ofScaled neg m q).isNegative = neg :=
  (nearest_ofScaled neg m q).isNegative_eq

@[simp] theorem isNegative_ofRatio (neg : Bool) (num : Nat) {den : Nat} (hden : 0 < den) :
    (ofRatio neg num den).isNegative = neg :=
  (nearest_ofRatio neg num hden).isNegative_eq

/-- What a double without a sign is read as. -/
theorem reading_of_not_isNegative (h : x.isNegative = false) :
    x.reading = .nan ∨ x.reading = .infinite false ∨ ∃ m q, x.reading = .finite false m q := by
  simp only [reading, h]
  split_ifs
  · exact .inr (.inl rfl)
  · exact .inl rfl
  · exact .inr (.inr ⟨_, _, rfl⟩)
  · exact .inr (.inr ⟨_, _, rfl⟩)

theorem isNegative_mul (hx : x.isNegative = false) (hy : y.isNegative = false) :
    (x.mul y).isNegative = false := by
  rcases reading_of_not_isNegative hx with hrx | hrx | ⟨m, q, hrx⟩ <;>
    rcases reading_of_not_isNegative hy with hry | hry | ⟨n, r, hry⟩ <;>
    simp only [mul, hrx, hry, bne_self_eq_false] <;>
    (try split_ifs) <;>
    simp

theorem isNegative_div (hx : x.isNegative = false) (hy : y.isNegative = false) :
    (x.div y).isNegative = false := by
  rcases reading_of_not_isNegative hx with hrx | hrx | ⟨m, q, hrx⟩ <;>
    rcases reading_of_not_isNegative hy with hry | hry | ⟨n, r, hry⟩ <;>
    simp only [div, hrx, hry, bne_self_eq_false] <;>
    (try split_ifs with hn) <;>
    simp [Nat.pos_of_ne_zero, pow2_eq, *]

theorem isNegative_add (hx : x.isNegative = false) (hy : y.isNegative = false) :
    (x.add y).isNegative = false := by
  rcases reading_of_not_isNegative hx with hrx | hrx | ⟨m, q, hrx⟩ <;>
    rcases reading_of_not_isNegative hy with hry | hry | ⟨n, r, hry⟩ <;>
    simp only [add, hrx, hry, signed, Bool.false_eq_true, if_false, Bool.and_self] <;>
    (try split_ifs) <;>
    simp <;>
    positivity

theorem isNegative_powerTimes (acc x : Double) (n : Nat) (hacc : acc.isNegative = false)
    (hx : x.isNegative = false) : (powerTimes acc x n).isNegative = false := by
  fun_induction powerTimes acc x n with
  | case1 acc x n acc' hlast =>
    have hacc' : acc'.isNegative = false := by
      simp only [acc']
      split_ifs
      · exact isNegative_mul hacc hx
      · exact hacc
    exact hacc'
  | case2 acc x n acc' hmore ih =>
    have hacc' : acc'.isNegative = false := by
      simp only [acc']
      split_ifs
      · exact isNegative_mul hacc hx
      · exact hacc
    exact ih hacc' (isNegative_mul hx hx)

/-- The powers of a double without a sign have none. -/
theorem isNegative_power (n : Nat) (hx : x.isNegative = false) : (x.power n).isNegative = false :=
  isNegative_powerTimes one x n (isNegative_ofNat 1) hx

/-- What is at least one has no sign. -/
theorem isNegative_of_one_le (h : (ofNat 1).le x = true) : x.isNegative = false := by
  obtain ⟨hfinite, hone⟩ := magnitude_ofNat (n := 1) (by norm_num)
  rw [← Bool.not_eq_true]
  intro hneg
  rcases Bool.eq_false_or_eq_true x.isFinite with hx | hx
  · have hnonneg := magnitude_nonneg x.magnitudeBits
    have hbelow : x.value < (ofNat 1).value := by
      rw [value, value, hone, hneg, isNegative_ofNat]
      norm_num
      linarith
    rw [le, compare?_of_isFinite hfinite hx, if_neg (not_lt.2 hbelow.le), if_neg hbelow.ne'] at h
    cases h
  · have hexponent : x.exponentBits = 2047 := by
      rw [isFinite, decide_eq_false_iff_not, not_not] at hx
      exact hx
    simp only [le, compare?, reading, if_pos hexponent, hneg] at h
    split_ifs at h <;> cases h

end Sign

end Double

end ChangeRelay

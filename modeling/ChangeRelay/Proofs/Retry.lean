import ChangeRelay.Proofs.Number.Rounding
import ChangeRelay.Retry

/-!
# The ceiling of delays

A delay is computed in doubles and compared with the ceiling in doubles, both rounded. The delay
stays under the ceiling nevertheless, to the nanosecond: the seconds of a span never round past a
double that the span lies below.
-/

namespace ChangeRelay

open Double

/-! ## Seconds of a span -/

namespace Duration

/-- Nanoseconds below a second, as a fraction of it, stay below a second when they are rounded. -/
theorem fraction_lt_one {rest : Nat} (h : rest < perSecond) :
    let fraction := (Double.ofNat rest).div (Double.ofNat perSecond)
    fraction.isFinite = true ∧ fraction.isNegative = false ∧
      Rounds (rest / perSecond : ℚ) fraction.magnitudeBits ∧
      magnitude fraction.magnitudeBits < 1 := by
  intro fraction
  have hsmall : perSecond ≤ 2 ^ 53 := by decide
  obtain ⟨hrestFinite, hrest⟩ := magnitude_ofNat (n := rest) (by omega)
  obtain ⟨hunitFinite, hunit⟩ := magnitude_ofNat hsmall
  have hne : magnitude (Double.ofNat perSecond).magnitudeBits ≠ 0 := by
    rw [hunit]
    norm_num [perSecond]
  have hnearest := nearest_div hrestFinite hunitFinite (isNegative_ofNat _) (isNegative_ofNat _) hne
  rw [hrest, hunit] at hnearest
  -- the greatest double below one
  obtain ⟨j, hj, hmagnitude⟩ := exists_magnitude_eq (u := 2 ^ 53 - 1) (by norm_num) 1021
  have hle : (rest / perSecond : ℚ) ≤ magnitude j := by
    have hlast : (rest : ℚ) ≤ perSecond - 1 := by
      have hle : rest + 1 ≤ perSecond := h
      have hcast : (rest : ℚ) + 1 ≤ perSecond := by exact_mod_cast hle
      linarith
    rw [hmagnitude, div_le_iff₀ (by norm_num [perSecond])]
    refine le_trans hlast ?_
    norm_num [perSecond]
  have hbound : j < infinityBits := by
    rw [infinityBits, pow2_eq]
    omega
  obtain ⟨hfinite, hrounds⟩ := hnearest.rounds hbound hle
  refine ⟨hfinite, hnearest.isNegative_eq, hrounds, ?_⟩
  calc magnitude fraction.magnitudeBits ≤ magnitude j :=
        magnitude_strictMono.monotone (hrounds.le_of_le_magnitude hle)
    _ < 1 := by rw [hmagnitude]; norm_num

/-- The seconds of a span never round past a magnitude that the span lies below. -/
theorem seconds_le_of_lt {d : Duration} {k : Nat} (hk : k < infinityBits)
    (hlt : (d.nanos : ℚ) < magnitude k * perSecond) :
    d.seconds.isFinite = true ∧ d.seconds.isNegative = false ∧ d.seconds.magnitudeBits ≤ k := by
  obtain ⟨hfracFinite, hfracSign, hfracRounds, hfracLt⟩ :=
    fraction_lt_one (Nat.mod_lt d.nanos (by decide : 0 < perSecond))
  have hsplit : (d.nanos : ℚ) =
      (d.nanos / perSecond : Nat) * perSecond + (d.nanos % perSecond : Nat) := by
    exact_mod_cast (Nat.div_add_mod' d.nanos perSecond).symm
  rw [seconds]
  generalize (Double.ofNat (d.nanos % perSecond)).div (Double.ofNat perSecond) = fraction at *
  generalize d.nanos / perSecond = s at *
  generalize d.nanos % perSecond = rest at *
  have hunit : (0 : ℚ) < perSecond := by norm_num [perSecond]
  have hbelow : (s : ℚ) + rest / perSecond < magnitude k := by
    rw [← mul_lt_mul_iff_left₀ hunit, add_mul, div_mul_cancel₀ _ hunit.ne', ← hsplit]
    exact hlt
  have hrest : (0 : ℚ) ≤ rest / perSecond := by positivity
  have hwhole : (s : ℚ) ≤ magnitude k := by linarith
  obtain ⟨hwholeFinite, hwholeRounds⟩ := (nearest_ofNat s).rounds hk hwhole
  have hnearest := nearest_add hwholeFinite hfracFinite (isNegative_ofNat s) hfracSign
  have hwithin : RoundsWithin (magnitude (Double.ofNat s).magnitudeBits +
      magnitude fraction.magnitudeBits) k := by
    rcases Nat.lt_or_ge (2 ^ 53) s with hlarge | hsmall
    · -- the magnitudes are at least two apart
      have hcast : (2 : ℚ) ^ (53 : Int) < s := by exact_mod_cast hlarge
      have hscale := sub_le_scale (le_trans hcast.le hwhole)
      have hgap : (2 : ℚ) ^ (1 : Int) ≤ 2 ^ scale k :=
        zpow_le_zpow_right₀ (by norm_num) (by omega)
      have hmono := magnitude_strictMono.monotone (hwholeRounds.le_of_le_magnitude hwhole)
      left
      rw [halfway, magnitude_succ]
      rw [zpow_one] at hgap
      linarith
    · -- the whole seconds are exact, and what lies between them and the magnitude is one itself
      obtain ⟨_, hexact⟩ := magnitude_ofNat hsmall
      apply roundsWithin_of_le_magnitude
      rw [hexact]
      by_contra hbeyond
      obtain ⟨j, hj⟩ := exists_magnitude_eq_sub hwhole (by linarith)
      have hle : (rest / perSecond : ℚ) ≤ magnitude j := by
        rw [hj]
        linarith
      have hmono := magnitude_strictMono.monotone (hfracRounds.le_of_le_magnitude hle)
      rw [hj] at hmono
      linarith
  obtain ⟨c, hrounds, hsum⟩ := hnearest
  have hc : c ≤ k := (hrounds k).2 hwithin
  have hlimit := infinityBits_lt
  rw [hsum, if_pos (by omega), isFinite_iff, magnitudeBits_ofMagnitudeBits (by omega),
    isNegative_ofMagnitudeBits (by omega)]
  exact ⟨by omega, rfl, hc⟩

theorem isNegative_seconds (d : Duration) : d.seconds.isNegative = false :=
  isNegative_add (isNegative_ofNat _) (isNegative_div (isNegative_ofNat _) (isNegative_ofNat _))

/-- A double that is not as long as a span, in doubles, is no longer than it when it is rounded to
nanoseconds. -/
theorem ofSecondsDouble_le {d : Duration} {x : Double} (hfinite : x.isFinite = true)
    (hsign : x.isNegative = false) (hle : ¬ d.seconds.le x = true) :
    (ofSecondsDouble x).nanos ≤ d.nanos := by
  have hbits := (isFinite_iff x).1 hfinite
  have hmagnitude : magnitude x.magnitudeBits * perSecond ≤ d.nanos := by
    by_contra hlt
    obtain ⟨hsecFinite, hsecSign, hsecBits⟩ := seconds_le_of_lt hbits (not_le.1 hlt)
    exact hle ((le_iff_of_isFinite hsecFinite hfinite hsecSign hsign).2 hsecBits)
  exact roundTimes_le hfinite hmagnitude

end Duration

namespace Retry

/-- Delays from the first attempt on stay under the ceiling. -/
theorem delay_le_maxDelay {r : Retry} {attempt : Nat}
    (hfactor : (Double.ofNat 1).le r.factor = true) (hattempt : attempt ≠ 0) :
    (r.delay attempt).nanos ≤ r.maxDelay.nanos := by
  simp only [delay, if_neg hattempt]
  generalize (if attempt - 1 < maxExponent then attempt - 1 else maxExponent) = exponent
  have hsign : (r.initialDelay.seconds.mul (r.factor.power exponent)).isNegative = false :=
    isNegative_mul r.initialDelay.isNegative_seconds
      (isNegative_power exponent (isNegative_of_one_le hfactor))
  generalize r.initialDelay.seconds.mul (r.factor.power exponent) = secs at hsign ⊢
  split_ifs with hcapped
  · exact Nat.le_refl _
  · simp only [Bool.or_eq_true, Bool.not_eq_true', not_or, Bool.not_eq_false] at hcapped
    exact Duration.ofSecondsDouble_le hcapped.1 hsign hcapped.2

theorem shorter_le (a b : Duration) : (Duration.shorter a b).nanos ≤ b.nanos := by
  rw [Duration.shorter]
  split_ifs with hle
  · exact hle
  · exact Nat.le_refl _

/-- The plain delay is at most the ceiling exactly if the attempt is not zero or the initial delay
is at most the ceiling. The delay with a random part, whatever the part is, is then at most the
ceiling too, and also if there is jitter. -/
theorem delay_le_maxDelay_iff (r : Retry) (attempt : Nat)
    (hfactor : (Double.ofNat 1).le r.factor = true) :
    ((r.delay attempt).nanos ≤ r.maxDelay.nanos ↔
      attempt ≠ 0 ∨ r.initialDelay.nanos ≤ r.maxDelay.nanos) ∧
    ∀ spread, (r.jitteredDelay attempt spread).nanos ≤ r.maxDelay.nanos ↔
      attempt ≠ 0 ∨ r.initialDelay.nanos ≤ r.maxDelay.nanos ∨ r.isSteady = false := by
  have hplain : (r.delay attempt).nanos ≤ r.maxDelay.nanos ↔
      attempt ≠ 0 ∨ r.initialDelay.nanos ≤ r.maxDelay.nanos := by
    rcases Nat.eq_zero_or_pos attempt with rfl | hpos
    · have hinitial : r.delay 0 = r.initialDelay := if_pos rfl
      rw [hinitial]
      simp
    · have hle := delay_le_maxDelay hfactor hpos.ne'
      simp [hle, hpos.ne']
  refine ⟨hplain, ?_⟩
  intro spread
  cases hsteady : r.isSteady with
  | true =>
    have hbase : r.jitteredDelay attempt spread = r.delay attempt := by
      simp only [jitteredDelay, if_pos hsteady]
    rw [hbase, hplain]
    simp
  | false =>
    have hle : (r.jitteredDelay attempt spread).nanos ≤ r.maxDelay.nanos := by
      simp only [jitteredDelay, hsteady, Bool.false_eq_true, if_false]
      exact shorter_le _ _
    simp [hle]

/-- An initial delay above the ceiling: attempt zero waits longer than the ceiling allows, any
other one does not. -/
theorem delay_le_maxDelay_iff_initial_above :
    let r : Retry := { testing with initialDelay := .ofSeconds 5, maxDelay := .ofSeconds 1 }
    (Double.ofNat 1).le r.factor = true ∧ r.isSteady = true ∧
      ¬ (r.delay 0).nanos ≤ r.maxDelay.nanos ∧ (r.delay 7).nanos ≤ r.maxDelay.nanos ∧
      ∀ spread, ¬ (r.jitteredDelay 0 spread).nanos ≤ r.maxDelay.nanos := by
  intro r
  have hfactor : (Double.ofNat 1).le r.factor = true := by decide +kernel
  have hsteady : r.isSteady = true := by decide +kernel
  have habove : ¬ r.initialDelay.nanos ≤ r.maxDelay.nanos := by decide
  refine ⟨hfactor, hsteady, ?_, ?_, ?_⟩
  · rw [(delay_le_maxDelay_iff r 0 hfactor).1]
    simp [habove]
  · rw [(delay_le_maxDelay_iff r 7 hfactor).1]
    exact .inl (by decide)
  · intro spread
    rw [(delay_le_maxDelay_iff r 0 hfactor).2]
    simp [habove, hsteady]

end Retry

end ChangeRelay

import ChangeRelay.Proofs.Json.RoundTrip
import ChangeRelay.Proofs.Number.Shortest

/-!
# Doubles read back

However a decimal is laid out, with zeros on either side of its digits, with a point inside them or
with an exponent, the parts that are read stand for the same number. So a finite double is read
back from its text, and with it every value that can be written.
-/

namespace ChangeRelay.Json.Reader

open Decimal

/-! ## Layouts -/

/-- The number that a numeral stands for. -/
def Numeral.value (n : Numeral) : ℚ :=
  Nat.ofDigitChars 10 (n.whole ++ n.fraction.getD []) 0 *
    10 ^ (n.exponent.getD 0 - (n.fraction.getD []).length)

section Layout

variable {ds : List Char}

theorem isDigit_of_mem_zeros {k : Nat} {c : Char} (hc : c ∈ List.replicate k '0') :
    c.isDigit = true := by
  rw [List.eq_of_mem_replicate hc]
  rfl

/-- The digits with a point among them, or with zeros between them and the point. -/
theorem layoutPositional_eq (hds : ∀ c ∈ ds, c.isDigit = true) (hne : ds ≠ [])
    (hlead : ds.head? ≠ some '0') (point : Int) :
    ∃ n : Numeral, layoutPositional doubleStyle ds point = n.text ∧ n.fraction.isSome = true ∧
      n.value = Nat.ofDigitChars 10 ds 0 * 10 ^ (point - ds.length) := by
  by_cases hbelow : point ≤ 0
  · -- nothing but zeros before the digits
    simp only [layoutPositional, if_pos hbelow]
    refine ⟨⟨['0'], some (List.replicate (-point).toNat '0' ++ ds), none, by simp, by simp, by simp,
      by simp [hne], ?_⟩, ?_, rfl, ?_⟩
    · rintro _ ⟨⟩ c hc
      rcases List.mem_append.1 hc with hzeros | hdigits
      · exact isDigit_of_mem_zeros hzeros
      · exact hds c hdigits
    · simp [Numeral.text, fractionText, exponentText]
    · have hexponent : (0 : Int) - ((-point).toNat + ds.length : Nat) = point - ds.length := by
        omega
      simp only [Numeral.value, Option.getD_some, Option.getD_none, List.length_append,
        List.length_replicate, hexponent]
      simp [Nat.ofDigitChars_append, Nat.ofDigitChars_replicate_zero, Nat.ofDigitChars_cons]
  obtain ⟨n, rfl⟩ := Int.eq_ofNat_of_zero_le (Int.le_of_lt (Int.not_le.1 hbelow))
  by_cases hlong : ds.length ≤ n
  · -- zeros up to the point
    simp only [layoutPositional, if_neg hbelow, Int.toNat_natCast, if_pos hlong]
    refine ⟨⟨ds ++ List.replicate (n - ds.length) '0', some ['0'], none, by simp [hne], ?_,
      ?_, by simp, by simp⟩, ?_, rfl, ?_⟩
    · intro c hc
      rcases List.mem_append.1 hc with hdigits | hzeros
      · exact hds c hdigits
      · exact isDigit_of_mem_zeros hzeros
    · intro _
      rw [List.head?_append_of_ne_nil _ hne]
      exact hlead
    · simp [Numeral.text, fractionText, exponentText, doubleStyle]
    · have hexponent : (n : Int) - ds.length = (n - ds.length : Nat) := by omega
      rw [hexponent, zpow_natCast]
      simp [Numeral.value, Nat.ofDigitChars_append, Nat.ofDigitChars_replicate_zero,
        Nat.ofDigitChars_cons]
      ring
  · -- the point among the digits
    have hn : 0 < n := by omega
    have hshort : n < ds.length := by omega
    simp only [layoutPositional, if_neg hbelow, Int.toNat_natCast, if_neg hlong]
    refine ⟨⟨ds.take n, some (ds.drop n), none, ?_, fun c hc => hds c (List.mem_of_mem_take hc),
      ?_, ?_, ?_⟩, ?_, rfl, ?_⟩
    · simp [hne]
      omega
    · intro _
      rw [List.head?_take, if_neg (by omega)]
      exact hlead
    · rintro _ ⟨⟩
      simp
      omega
    · rintro _ ⟨⟩ c hc
      exact hds c (List.mem_of_mem_drop hc)
    · simp [Numeral.text, fractionText, exponentText]
    · have hexponent : (0 : Int) - (ds.length - n : Nat) = n - ds.length := by omega
      simp only [Numeral.value, Option.getD_some, Option.getD_none, List.length_drop, hexponent,
        List.take_append_drop]

/-- One digit before the point, and an exponent. -/
theorem layoutScientific_eq (hds : ∀ c ∈ ds, c.isDigit = true) (hne : ds ≠ []) (power : Int) :
    ∃ n : Numeral, layoutScientific ds power = n.text ∧ n.exponent.isSome = true ∧
      n.value = Nat.ofDigitChars 10 ds 0 * 10 ^ (power + 1 - ds.length) := by
  obtain ⟨d, rest, rfl⟩ := List.exists_cons_of_ne_nil hne
  have hd : d.isDigit = true := hds d List.mem_cons_self
  cases rest with
  | nil =>
    refine ⟨⟨[d], none, some power, by simp, by simp [hd], by simp, by simp, by simp⟩, ?_, rfl, ?_⟩
    · simp [layoutScientific, Numeral.text, fractionText, exponentText]
    · simp [Numeral.value]
  | cons e rest =>
    refine ⟨⟨[d], some (e :: rest), some power, by simp, by simp [hd], by simp, by simp, ?_⟩, ?_,
      rfl, ?_⟩
    · rintro _ ⟨⟩ c hc
      exact hds c (List.mem_cons_of_mem _ hc)
    · simp [layoutScientific, Numeral.text, fractionText, exponentText]
    · have hexponent :
          power - ((e :: rest).length : Int) = power + 1 - (d :: e :: rest).length := by
        simp only [List.length_cons]
        omega
      simp only [Numeral.value, Option.getD_some, hexponent, List.singleton_append]

/-- A decimal is laid out as a numeral of its own value, which is not that of an integer. -/
theorem layout_eq {d : Decimal} (hd : d.digits ≠ 0) :
    ∃ n : Numeral, d.layout doubleStyle = n.text ∧
      (n.fraction.isSome = true ∨ n.exponent.isSome = true) ∧ n.value = d.value := by
  have hds : ∀ c ∈ Nat.toDigits 10 d.digits, c.isDigit = true := fun _ => isDigit_of_mem_toDigits
  have hne : Nat.toDigits 10 d.digits ≠ [] := Nat.toDigits_ne_nil
  have hlead := head?_toDigits (Nat.pos_of_ne_zero hd)
  have hvalue : d.value = Nat.ofDigitChars 10 (Nat.toDigits 10 d.digits) 0 * 10 ^ d.exponent := by
    rw [Nat.ofDigitChars_ten_toDigits, Decimal.value]
  have hlayout : d.layout doubleStyle =
      if -5 ≤ d.exponent + (Nat.toDigits 10 d.digits).length - 1 ∧
          d.exponent + (Nat.toDigits 10 d.digits).length - 1 < 16 then
        layoutPositional doubleStyle (Nat.toDigits 10 d.digits)
          (d.exponent + (Nat.toDigits 10 d.digits).length - 1 + 1)
      else layoutScientific (Nat.toDigits 10 d.digits)
        (d.exponent + (Nat.toDigits 10 d.digits).length - 1) := rfl
  rw [hvalue, hlayout]
  generalize Nat.toDigits 10 d.digits = ds at *
  have hexponent : d.exponent + ds.length - 1 + 1 - ds.length = d.exponent := by omega
  split_ifs
  · obtain ⟨n, htext, hfraction, hn⟩ :=
      layoutPositional_eq hds hne hlead (d.exponent + ds.length - 1 + 1)
    rw [hexponent] at hn
    exact ⟨n, htext, .inl hfraction, hn⟩
  · obtain ⟨n, htext, hexp, hn⟩ := layoutScientific_eq hds hne (d.exponent + ds.length - 1)
    rw [hexponent] at hn
    exact ⟨n, htext, .inr hexp, hn⟩

end Layout

/-! ## Doubles -/

/-- What is written with a fraction or an exponent is read as a double. -/
theorem numberOf?_of_isSome {n : Numeral} (neg : Bool)
    (h : n.fraction.isSome = true ∨ n.exponent.isSome = true) :
    numberOf? neg n.whole n.fraction n.exponent =
      let x := Double.ofDecimal neg (Nat.ofDigitChars 10 (n.whole ++ n.fraction.getD []) 0)
        (n.exponent.getD 0 - (n.fraction.getD []).length)
      if x.isFinite then some (.double x) else none := by
  have hint : (n.fraction.isNone && n.exponent.isNone) = false := by
    cases hfraction : n.fraction <;> cases hexponent : n.exponent <;> simp_all
  simp only [numberOf?, hint, Bool.false_and, Bool.false_eq_true, if_false, digitsValue_eq]

/-- Zero, with its point. -/
def Numeral.zero : Numeral where
  whole := ['0']
  fraction := some ['0']
  exponent := none
  whole_ne_nil := by decide
  isDigit_whole := by simp
  no_leading_zero := by simp
  fraction_ne_nil := by simp
  isDigit_fraction := by simp

theorem doubleText_of_isFinite {x : Double} (h : x.isFinite = true) :
    doubleText x = (if x.isNegative then ['-'] else []) ++
      if Double.significand x.magnitudeBits = 0 then ['0', '.', '0']
      else (shortest (Double.significand x.magnitudeBits) (Double.scale x.magnitudeBits)).layout
        doubleStyle := by
  rw [doubleText, if_pos h, Double.render, Double.reading_of_isFinite h]
  rfl

/-- The text of a finite double is a signed numeral that is read as it. -/
theorem exists_numeral {x : Double} (h : x.isFinite = true) :
    ∃ n : Numeral, (Value.double x).textChars = signedText x.isNegative n ∧
      numberOf? x.isNegative n.whole n.fraction n.exponent = some (.double x) := by
  rw [Value.textChars, doubleText_of_isFinite h]
  by_cases hzero : x.magnitudeBits = 0
  · -- zero has no shortest decimal
    have hself : Double.zero x.isNegative = x := by
      rw [Double.zero, ← hzero]
      exact x.ofMagnitudeBits_magnitudeBits
    refine ⟨.zero, ?_, ?_⟩
    · have hsignificand : Double.significand x.magnitudeBits = 0 := by
        rw [hzero]
        rfl
      rw [if_pos hsignificand]
      rfl
    · have hdigits : Nat.ofDigitChars 10 ['0', '0'] 0 = 0 := rfl
      rw [numberOf?_of_isSome _ (.inl rfl)]
      simp [Numeral.zero, hdigits, Double.ofDecimal, hself, h]
  · obtain ⟨hdigits, -⟩ := Double.rounds_shortest hzero
    obtain ⟨n, htext, hsome, hvalue⟩ := layout_eq hdigits
    refine ⟨n, ?_, ?_⟩
    · rw [if_neg (Double.significand_pos hzero).ne', htext]
      rfl
    · have hread := Double.ofDecimal_of_shortest h hzero hvalue
      rw [numberOf?_of_isSome _ hsome]
      simp only [hread, if_pos h]

theorem begins_double {x : Double} (h : x.isFinite = true) : Begins (.double x) := by
  obtain ⟨n, htext, _⟩ := exists_numeral h
  exact begins_number htext

theorem reads_double {depth : Nat} {x : Double} (h : x.isFinite = true) :
    Reads depth (.double x) := by
  obtain ⟨n, htext, hnumber⟩ := exists_numeral h
  exact reads_number htext hnumber

end ChangeRelay.Json.Reader

namespace ChangeRelay.Json.Value

open Reader

/-- The values that there are: integers that fit a word, signed if they are negative, and finite
doubles. -/
inductive Sound : Value → Prop
  | null : Sound .null
  | bool (b : Bool) : Sound (.bool b)
  | int {n : Int} (hlow : -(pow2 63 : Int) ≤ n) (hhigh : n < wordLimit) : Sound (.int n)
  | double {x : Double} (h : x.isFinite = true) : Sound (.double x)
  | string (s : String) : Sound (.string s)
  | array {items : List Value} (h : ∀ v ∈ items, Sound v) : Sound (.array items)
  | object {fields : Fields} (h : ∀ p ∈ fields, Sound p.2) : Sound (.object fields)

namespace Sound

variable {v w : Value}

theorem begins (h : v.Sound) : Begins v := by
  cases h with
  | null => exact begins_null
  | bool b => exact begins_bool b
  | int hlow hhigh => exact begins_int _
  | double h => exact begins_double h
  | string s => exact begins_string s
  | array h => exact begins_array _
  | object h => exact begins_object _

/-- A value is read back from its text, if containers may nest deep enough. -/
theorem reads (h : v.Sound) : ∀ {depth : Nat}, sizeOf v ≤ depth → Reads depth v := by
  -- what a container holds is smaller than the container, so one level less is enough for it
  induction h with
  | null =>
    intro depth _
    exact reads_null
  | bool b =>
    intro depth _
    exact reads_bool b
  | int hlow hhigh =>
    intro depth _
    exact reads_int hlow hhigh
  | double h =>
    intro depth _
    exact reads_double h
  | string s =>
    intro depth _
    exact reads_string s
  | @array items h ih =>
    intro depth hdepth
    rw [array.sizeOf_spec] at hdepth
    obtain ⟨depth, rfl⟩ : ∃ k, depth = k + 1 := ⟨depth - 1, by omega⟩
    apply reads_array
    · intro v hv
      exact (h v hv).begins
    · intro v hv
      have hsize := List.sizeOf_lt_of_mem hv
      exact ih v hv (by omega)
  | @object fields h ih =>
    intro depth hdepth
    rw [object.sizeOf_spec] at hdepth
    obtain ⟨depth, rfl⟩ : ∃ k, depth = k + 1 := ⟨depth - 1, by omega⟩
    apply reads_object
    intro p hp
    have hsize := List.sizeOf_lt_of_mem hp
    have hpair : sizeOf p = 1 + sizeOf p.1 + sizeOf p.2 := by cases p; rfl
    exact ih p hp (by omega)

/-- Values of one text are the same. -/
theorem eq_of_textChars_eq (hv : v.Sound) (hw : w.Sound) (h : v.textChars = w.textChars) :
    v = w := by
  have hreadv := hv.reads (Nat.le_add_right (sizeOf v) (sizeOf w)) _ [] (Nat.le_refl _) Ends.nil
  have hreadw := hw.reads (Nat.le_add_left (sizeOf w) (sizeOf v)) _ [] (Nat.le_refl _) Ends.nil
  rw [h] at hreadv
  have heq := hreadv.symm.trans hreadw
  cases heq
  rfl

end Sound

end ChangeRelay.Json.Value

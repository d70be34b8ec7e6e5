import ChangeRelay.Text.Bytes
import ChangeRelay.Text.Decimal

/-!
# Numerals and octets read back

A word is read back from its decimal numeral, and texts of the same octets are the same.
-/

namespace ChangeRelay.Text

theorem digitValue?_of_isDigit {c : Char} (h : c.isDigit = true) :
    digitValue? c = some (c.toNat - '0'.toNat) := by
  rw [digitValue?, if_pos]
  simpa [Char.isDigit, Char.le_def] using h

/-- A run of digits is read as the number that it stands for. -/
theorem readDigits?_of_isDigit {cs : List Char} (h : ∀ c ∈ cs, c.isDigit = true) (acc : Nat) :
    readDigits? acc cs = some (Nat.ofDigitChars 10 cs acc) := by
  induction cs generalizing acc with
  | nil => rfl
  | cons c cs ih =>
    rw [readDigits?, digitValue?_of_isDigit (h c List.mem_cons_self), Nat.ofDigitChars_cons]
    simp only [Option.bind_some]
    rw [ih (fun d hd => h d (List.mem_cons_of_mem _ hd)), Nat.mul_comm]

theorem readUnsigned?_toDigits (n : Nat) : readUnsigned? (Nat.toDigits 10 n) = some n := by
  have hdigits : ∀ c ∈ Nat.toDigits 10 n, c.isDigit = true := fun c hc =>
    Nat.isDigit_of_mem_toDigits (by decide) (by decide) hc
  cases hcs : Nat.toDigits 10 n with
  | nil => exact absurd hcs Nat.toDigits_ne_nil
  | cons c cs =>
    rw [hcs] at hdigits
    have hplus : c ≠ '+' := by
      rintro rfl
      exact absurd (hdigits '+' List.mem_cons_self) (by decide)
    have hread : readUnsigned? (c :: cs) = readDigits? 0 (c :: cs) := by
      unfold readUnsigned?
      split
      · rename_i heq
        cases heq
        exact absurd rfl hplus
      · rfl
    rw [hread, readDigits?_of_isDigit hdigits, ← hcs, Nat.ofDigitChars_ten_toDigits]

theorem wordOfNat?_toNat (w : UInt64) : wordOfNat? w.toNat = some w := by
  have hlt : w.toNat < wordLimit := w.toNat_lt
  rw [wordOfNat?, if_pos hlt, UInt64.ofNat_toNat]

/-! ## Octets -/

section Sequences

variable {a b c d : UInt8} (index : Nat) (rest : Bytes)

/-- The octets that continue a sequence. -/
def Tail (b : UInt8) : Prop := 128 ≤ b.toNat ∧ b.toNat ≤ 191

theorem Tail.isTail (h : Tail b) : isTail b = true := by
  simp only [Text.isTail, UInt8.le_iff_toNat_le, UInt8.reduceToNat, Bool.and_eq_true,
    decide_eq_true_eq]
  exact h

/-- The tests that tell the leading octets apart compare values. -/
theorem within_iff (low high : UInt8) :
    (decide (low ≤ a) && decide (a ≤ high)) = true ↔
      low.toNat ≤ a.toNat ∧ a.toNat ≤ high.toNat := by
  simp only [UInt8.le_iff_toNat_le, Bool.and_eq_true, decide_eq_true_eq]

theorem not_within (low high : UInt8) (h : high.toNat < a.toNat) :
    ¬ (decide (low ≤ a) && decide (a ≤ high)) = true := fun hw =>
  absurd ((within_iff low high).1 hw).2 (Nat.not_le.2 h)

theorem not_ascii (ha : 128 ≤ a.toNat) : ¬ a < 0x80 := fun h =>
  absurd (UInt8.lt_iff_toNat_lt.1 h) (Nat.not_lt.2 ha)

theorem decode_one (ha : a.toNat < 128) :
    decodeUtf8From index (a :: rest) =
      (decodeUtf8From (index + 1) rest).map (Char.ofNat a.toNat :: ·) := by
  have hlead : a < 0x80 := UInt8.lt_iff_toNat_lt.2 ha
  rw [decodeUtf8From.eq_def]
  dsimp only
  rw [if_pos hlead]
  cases decodeUtf8From (index + 1) rest <;> rfl

theorem decode_two (ha : 194 ≤ a.toNat ∧ a.toNat ≤ 223) (hb : Tail b) :
    decodeUtf8From index (a :: b :: rest) = (decodeUtf8From (index + 2) rest).map
      (Char.ofNat ((a.toNat - 192) * 64 + b.toNat % 64) :: ·) := by
  rw [decodeUtf8From.eq_def]
  dsimp only
  rw [if_neg (not_ascii (by omega)), if_pos ((within_iff 0xC2 0xDF).2 ha), hb.isTail]
  cases decodeUtf8From (index + 2) rest <;> rfl

theorem decode_three (ha : 224 ≤ a.toNat ∧ a.toNat ≤ 239) (hb : secondOfThree a b = true)
    (hc : Tail c) :
    decodeUtf8From index (a :: b :: c :: rest) = (decodeUtf8From (index + 3) rest).map
      (Char.ofNat (((a.toNat - 224) * 64 + b.toNat % 64) * 64 + c.toNat % 64) :: ·) := by
  have htwo := not_within 0xC2 0xDF (a := a) (by simp only [UInt8.reduceToNat]; omega)
  rw [decodeUtf8From.eq_def]
  dsimp only
  rw [if_neg (not_ascii (by omega)), if_neg htwo,
    if_pos ((within_iff 0xE0 0xEF).2 ha), hb, hc.isTail]
  cases decodeUtf8From (index + 3) rest <;> rfl

theorem decode_four (ha : 240 ≤ a.toNat ∧ a.toNat ≤ 244) (hb : secondOfFour a b = true)
    (hc : Tail c) (hd : Tail d) :
    decodeUtf8From index (a :: b :: c :: d :: rest) = (decodeUtf8From (index + 4) rest).map
      (Char.ofNat ((((a.toNat - 240) * 64 + b.toNat % 64) * 64 + c.toNat % 64) * 64 +
        d.toNat % 64) :: ·) := by
  have htwo := not_within 0xC2 0xDF (a := a) (by simp only [UInt8.reduceToNat]; omega)
  have hthree := not_within 0xE0 0xEF (a := a) (by simp only [UInt8.reduceToNat]; omega)
  rw [decodeUtf8From.eq_def]
  dsimp only
  rw [if_neg (not_ascii (by omega)), if_neg htwo, if_neg hthree,
    if_pos ((within_iff 0xF0 0xF4).2 ha), hb, hc.isTail, hd.isTail]
  cases decodeUtf8From (index + 4) rest <;> rfl

/-- The second octet of three rules out what two octets could say and surrogates. -/
theorem secondOfThree_of_tail (hb : Tail b) (hlow : a.toNat = 224 → 160 ≤ b.toNat)
    (hhigh : a.toNat = 237 → b.toNat ≤ 159) : secondOfThree a b = true := by
  unfold secondOfThree
  split
  · rename_i ha
    exact (within_iff 0xA0 0xBF).2 ⟨hlow (by rw [ha]; rfl), hb.2⟩
  · split
    · rename_i ha
      exact (within_iff 0x80 0x9F).2 ⟨hb.1, hhigh (by rw [ha]; rfl)⟩
    · exact hb.isTail

/-- The second octet of four rules out what three octets could say and what lies beyond all
characters. -/
theorem secondOfFour_of_tail (hb : Tail b) (hlow : a.toNat = 240 → 144 ≤ b.toNat)
    (hhigh : a.toNat = 244 → b.toNat ≤ 143) : secondOfFour a b = true := by
  unfold secondOfFour
  split
  · rename_i ha
    exact (within_iff 0x90 0xBF).2 ⟨hlow (by rw [ha]; rfl), hb.2⟩
  · split
    · rename_i ha
      exact (within_iff 0x80 0x8F).2 ⟨hb.1, hhigh (by rw [ha]; rfl)⟩
    · exact hb.isTail

end Sequences

/-- The octets of a character are read as that character. -/
theorem decode_encodeChar (c : Char) (index : Nat) (rest : Bytes) :
    ∃ next, decodeUtf8From index (String.utf8EncodeChar c ++ rest) =
      (decodeUtf8From next rest).map (c :: ·) := by
  have hvalid : c.val.toNat < 55296 ∨ 57343 < c.val.toNat ∧ c.val.toNat < 1114112 := c.valid
  have hc : Char.ofNat c.val.toNat = c := Char.ofNat_toNat c
  have hoctet : ∀ {n : Nat}, n < 256 → (UInt8.ofNat n).toNat = n := UInt8.toNat_ofNat_of_lt'
  have htail : ∀ n, Tail (UInt8.ofNat (n % 64 + 128)) := fun n => by
    rw [Tail, hoctet (by omega)]
    omega
  unfold String.utf8EncodeChar
  generalize c.val.toNat = n at *
  dsimp only
  split
  · refine ⟨index + 1, (decode_one index rest ?_).trans ?_⟩
    · rw [hoctet (by omega)]
      omega
    · rw [hoctet (by omega), hc]
  · split
    · refine ⟨index + 2, (decode_two index rest ?_ (htail n)).trans ?_⟩
      · rw [hoctet (by omega)]
        omega
      · rw [hoctet (by omega), hoctet (by omega)]
        have hn : (n / 64 % 32 + 192 - 192) * 64 + (n % 64 + 128) % 64 = n := by omega
        rw [hn, hc]
    · split
      · refine ⟨index + 3, (decode_three index rest ?_ ?_ (htail n)).trans ?_⟩
        · rw [hoctet (by omega)]
          omega
        · apply secondOfThree_of_tail (htail (n / 64)) <;>
            rw [hoctet (by omega), hoctet (by omega)] <;> omega
        · rw [hoctet (by omega), hoctet (by omega), hoctet (by omega)]
          have hn : ((n / 4096 % 16 + 224 - 224) * 64 + (n / 64 % 64 + 128) % 64) * 64 +
              (n % 64 + 128) % 64 = n := by omega
          rw [hn, hc]
      · refine ⟨index + 4, (decode_four index rest ?_ ?_ (htail (n / 64)) (htail n)).trans ?_⟩
        · rw [hoctet (by omega)]
          omega
        · apply secondOfFour_of_tail (htail (n / 4096)) <;>
            rw [hoctet (by omega), hoctet (by omega)] <;> omega
        · rw [hoctet (by omega), hoctet (by omega), hoctet (by omega), hoctet (by omega)]
          have hn : (((n / 262144 % 8 + 240 - 240) * 64 + (n / 4096 % 64 + 128) % 64) * 64 +
              (n / 64 % 64 + 128) % 64) * 64 + (n % 64 + 128) % 64 = n := by omega
          rw [hn, hc]

/-- A text is read back from its octets. -/
theorem decodeUtf8_encodeUtf8 (s : String) : decodeUtf8 (encodeUtf8 s) = .ok s := by
  have hchars : ∀ (cs : List Char) (index : Nat),
      decodeUtf8From index (cs.flatMap String.utf8EncodeChar) = .ok cs := by
    intro cs
    induction cs with
    | nil => intro index; rfl
    | cons c cs ih =>
      intro index
      obtain ⟨next, hnext⟩ := decode_encodeChar c index (cs.flatMap String.utf8EncodeChar)
      rw [List.flatMap_cons, hnext, ih next]
      rfl
  rw [decodeUtf8, encodeUtf8, hchars]
  exact congrArg Except.ok String.ofList_toList

/-- Texts of the same octets are the same. -/
theorem encodeUtf8_inj {s t : String} (h : encodeUtf8 s = encodeUtf8 t) : s = t := by
  have hread := congrArg decodeUtf8 h
  rw [decodeUtf8_encodeUtf8, decodeUtf8_encodeUtf8] at hread
  exact Except.ok.inj hread

/-! ## Hexadecimal -/

theorem hexValue?_digitChar : ∀ n, n < 16 → hexValue? (Nat.digitChar n) = some n := by
  decide

/-- Octets are read back from hexadecimal. -/
theorem ofHex?_hex (bytes : Bytes) : ofHex? (hex bytes) = some bytes := by
  rw [ofHex?, hex, String.toList_ofList]
  induction bytes with
  | nil => rfl
  | cons b bytes ih =>
    have hb : b.toNat < 256 := b.toNat_lt
    have hhigh := hexValue?_digitChar (b.toNat / 16) (by omega)
    have hlow := hexValue?_digitChar (b.toNat % 16) (by omega)
    have hself : b.toNat / 16 * 16 + b.toNat % 16 = b.toNat := by omega
    rw [List.flatMap_cons, List.cons_append, List.singleton_append, ofHexChars?, hhigh, hlow, ih]
    simp only [Option.bind_eq_bind, Option.bind_some, hself, UInt8.ofNat_toNat]
    rfl

/-- Octets of the same hexadecimal digits are the same. -/
theorem hex_inj {a b : Bytes} (h : hex a = hex b) : a = b := by
  have hread := congrArg ofHex? h
  rw [ofHex?_hex, ofHex?_hex] at hread
  exact Option.some.inj hread

end ChangeRelay.Text

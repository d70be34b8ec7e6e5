import ChangeRelay.Json.Reader
import ChangeRelay.Proofs.Text.RoundTrip
import Mathlib.Data.List.TakeWhile

/-!
# Canonical text read back

A value without doubles is read back from its canonical text, whatever comes behind it. Numbers
have no end of their own: what comes behind one must not go on with it.
-/

namespace ChangeRelay.Json

namespace Reader

open Text (hexValue? hexValue?_digitChar)

/-! ## Strings -/

/-- An escaped code unit stands for its character, if it is no surrogate. -/
theorem readString_unit {a b c d : Char} {n : Nat} (hunit : unit? a b c d = some n)
    (hhigh : isHighSurrogate n = false) (hlow : isLowSurrogate n = false) (acc rest : List Char) :
    readString acc ('\\' :: 'u' :: a :: b :: c :: d :: rest) =
      readString (Char.ofNat n :: acc) rest := by
  rw [readString.eq_def]
  split <;> simp_all
  · -- it is no escape of one letter
    rename_i hshort heq
    obtain ⟨rfl, rfl⟩ := heq
    exact absurd rfl (hshort a b c d rest rfl)
  · -- nor a backslash that stands for itself
    rename_i hend heq
    obtain ⟨rfl, rfl⟩ := heq
    exact absurd rfl (hend 'u' _ rfl)

/-- A character is read back from its escape. -/
theorem readString_escapedChar (c : Char) (acc rest : List Char) :
    readString acc (escapedChar c ++ rest) = readString (c :: acc) rest := by
  have hself : ∀ {n : Nat}, c.toNat = n → Char.ofNat n = c := fun h => h ▸ Char.ofNat_toNat c
  unfold escapedChar
  -- seven characters have an escape of one letter
  split
  · rename_i hc; subst hc; simp [readString, escape?]
  split
  · rename_i hc; subst hc; simp [readString, escape?]
  split
  · rename_i hc; subst hc; simp [readString, escape?]
  split
  · rename_i hc; subst hc; simp [readString, escape?]
  split
  · rename_i hc; subst hc; simp [readString, escape?]
  split
  · rename_i hc
    simp [readString, escape?, ← hself hc]
  split
  · rename_i hc
    simp [readString, escape?, ← hself hc]
  split
  · -- what else is below the blank is written with four hexadecimal digits
    rename_i hc
    have hunit : unit? '0' '0' (Nat.digitChar (c.toNat / 16)) (Nat.digitChar (c.toNat % 16)) =
        some c.toNat := by
      have hzero : hexValue? '0' = some 0 := by decide
      simp only [unit?, hzero, hexValue?_digitChar (c.toNat / 16) (by omega),
        hexValue?_digitChar (c.toNat % 16) (by omega)]
      simp
      omega
    have hhigh : isHighSurrogate c.toNat = false := by simp [isHighSurrogate]; omega
    have hlow : isLowSurrogate c.toNat = false := by simp [isLowSurrogate]; omega
    exact (readString_unit hunit hhigh hlow acc rest).trans (by rw [Char.ofNat_toNat])
  · -- all others stand for themselves
    rename_i hquote hback _ _ _ _ _ hlarge
    have hplain : ¬ (c.toNat < 32 || decide (c = '\\')) = true := by
      simp [hback]
      omega
    rw [List.singleton_append, readString, if_neg hplain]
    · exact hquote
    · exact fun _ _ _ _ _ _ _ _ _ h _ => hback h
    · exact fun _ _ _ _ _ h _ => hback h
    · exact fun _ _ h _ => hback h

/-- A string is read back after its opening quote. -/
theorem readString_text (s : String) (rest : List Char) :
    readString [] (s.toList.flatMap escapedChar ++ '"' :: rest) = some (s, rest) := by
  have hchars : ∀ (cs acc : List Char), readString acc (cs.flatMap escapedChar ++ '"' :: rest) =
      some (String.ofList (acc.reverse ++ cs), rest) := by
    intro cs
    induction cs with
    | nil => intro acc; simp [readString]
    | cons c cs ih =>
        intro acc
        rw [List.flatMap_cons, List.append_assoc, readString_escapedChar, ih]
        simp
  rw [hchars]
  simp

/-! ## Numbers -/

/-- What cannot go on with a number. -/
def Ends (rest : List Char) : Prop :=
  ∀ c ∈ rest.head?, c.isDigit = false ∧ c ≠ '.' ∧ c ≠ 'e' ∧ c ≠ 'E'

theorem Ends.nil : Ends [] := fun _ h => nomatch h

theorem splitDigits_append {ds rest : List Char} (hds : ∀ c ∈ ds, c.isDigit = true)
    (hrest : ∀ c ∈ rest.head?, c.isDigit = false) : splitDigits (ds ++ rest) = (ds, rest) := by
  rw [splitDigits, List.takeWhile_append_of_pos hds, List.dropWhile_append_of_pos hds]
  cases rest with
  | nil => simp
  | cons c rest => simp [hrest c rfl]

theorem digitsValue_eq (ds : List Char) : digitsValue ds = Nat.ofDigitChars 10 ds 0 := by
  simp [digitsValue, Nat.ofDigitChars, Nat.mul_comm]

/-- A numeral has no leading zero, unless it is zero. -/
theorem head?_toDigits {n : Nat} (h : 0 < n) : (Nat.toDigits 10 n).head? ≠ some '0' := by
  induction n using Nat.strongRecOn with
  | ind n ih =>
      rcases Nat.lt_or_ge n 10 with hlt | hge
      · have hdigit : ∀ n < 10, 0 < n → n.digitChar ≠ '0' := by decide
        rw [Nat.toDigits_of_lt_base hlt]
        simpa using hdigit n hlt h
      · have hfront := ih (n / 10) (by omega) (by omega)
        rw [Nat.toDigits_of_base_le (by decide) hge]
        cases hds : Nat.toDigits 10 (n / 10) with
        | nil => exact absurd hds Nat.toDigits_ne_nil
        | cons d ds =>
            rw [hds] at hfront
            exact hfront

theorem isDigit_of_mem_toDigits {n : Nat} {c : Char} (h : c ∈ Nat.toDigits 10 n) :
    c.isDigit = true :=
  Nat.isDigit_of_mem_toDigits (by decide) (by decide) h

/-- A number as it is written: whole digits, and a fraction and an exponent if there are any. -/
structure Numeral where
  whole : List Char
  fraction : Option (List Char)
  exponent : Option Int
  whole_ne_nil : whole ≠ []
  isDigit_whole : ∀ c ∈ whole, c.isDigit = true
  no_leading_zero : whole.length ≠ 1 → whole.head? ≠ some '0'
  fraction_ne_nil : ∀ ds ∈ fraction, ds ≠ []
  isDigit_fraction : ∀ ds ∈ fraction, ∀ c ∈ ds, c.isDigit = true

/-- The fraction with its point. -/
def fractionText : Option (List Char) → List Char
  | none => []
  | some ds => '.' :: ds

/-- The signed exponent with its letter. -/
def exponentText : Option Int → List Char
  | none => []
  | some p => 'e' :: (if p < 0 then '-' else '+') :: Nat.toDigits 10 p.natAbs

namespace Numeral

def text (n : Numeral) : List Char :=
  n.whole ++ (fractionText n.fraction ++ exponentText n.exponent)

/-- The numeral of a whole number. -/
def ofNat (n : Nat) : Numeral where
  whole := Nat.toDigits 10 n
  fraction := none
  exponent := none
  whole_ne_nil := Nat.toDigits_ne_nil
  isDigit_whole _ := isDigit_of_mem_toDigits
  no_leading_zero hlong := by
    rcases Nat.eq_zero_or_pos n with rfl | hpos
    · exact absurd rfl hlong
    · exact head?_toDigits hpos
  fraction_ne_nil := by simp
  isDigit_fraction := by simp

theorem text_ofNat (n : Nat) : (ofNat n).text = Nat.toDigits 10 n := by
  simp [text, ofNat, fractionText, exponentText]

end Numeral

section Parts

variable {rest : List Char}

theorem Ends.not_isDigit (h : Ends rest) : ∀ c ∈ rest.head?, c.isDigit = false :=
  fun c hc => (h c hc).1

theorem not_isDigit_exponentText (hrest : Ends rest) (e : Option Int) :
    ∀ c ∈ (exponentText e ++ rest).head?, c.isDigit = false := by
  cases e with
  | none => exact hrest.not_isDigit
  | some p =>
    rintro c hc
    cases hc
    decide

theorem readExponent?_text (p : Int) (hrest : Ends rest) :
    readExponent? ((if p < 0 then '-' else '+') :: (Nat.toDigits 10 p.natAbs ++ rest)) =
      some (p, rest) := by
  have hsplit : splitDigits (Nat.toDigits 10 p.natAbs ++ rest) =
      (Nat.toDigits 10 p.natAbs, rest) :=
    splitDigits_append (fun _ => isDigit_of_mem_toDigits) hrest.not_isDigit
  have hvalue : digitsValue (Nat.toDigits 10 p.natAbs) = p.natAbs := by
    rw [digitsValue_eq, Nat.ofDigitChars_ten_toDigits]
  have hne : Nat.toDigits 10 p.natAbs ≠ [] := Nat.toDigits_ne_nil
  generalize Nat.toDigits 10 p.natAbs = ds at hsplit hvalue hne ⊢
  split_ifs with hneg
  · simp only [readExponent?, hsplit]
    cases ds with
    | nil => exact absurd rfl hne
    | cons d ds =>
      simp only [hvalue, if_true]
      congr 2
      omega
  · simp only [readExponent?, hsplit]
    cases ds with
    | nil => exact absurd rfl hne
    | cons d ds =>
      simp only [hvalue, Bool.false_eq_true, if_false]
      congr 2
      omega

/-- A numeral is read as the number that its parts make. -/
theorem readNumber?_text {neg : Bool} {n : Numeral} {v : Value} (hrest : Ends rest)
    (hv : numberOf? neg n.whole n.fraction n.exponent = some v) :
    readNumber? neg (n.text ++ rest) = some (v, rest) := by
  obtain ⟨whole, fraction, exponent, hne, hwhole, hzero, hfne, hfraction⟩ := n
  have hbegin : ∀ c ∈ (fractionText fraction ++ exponentText exponent ++ rest).head?,
      c.isDigit = false := by
    cases fraction with
    | none => exact not_isDigit_exponentText hrest exponent
    | some ds =>
      rintro c hc
      cases hc
      decide
  have hleading : ¬ (decide (whole = []) || decide (whole.length ≠ 1) &&
      decide (whole.head? = some '0')) = true := by
    simpa [hne] using hzero
  -- what comes behind a number without exponent opens none
  have hend : ∀ c ∈ rest.head?, c ≠ '.' ∧ c ≠ 'e' ∧ c ≠ 'E' := fun c hc => (hrest c hc).2
  rw [Numeral.text, List.append_assoc, readNumber?, splitDigits_append hwhole hbegin]
  simp only [if_neg hleading]
  cases fraction with
  | none =>
    cases exponent with
    | none => cases rest <;> simp_all [fractionText, exponentText]
    | some p => simp [fractionText, exponentText, readExponent?_text p hrest, hv]
  | some ds =>
    have hsplit := splitDigits_append (hfraction ds rfl) (not_isDigit_exponentText hrest exponent)
    obtain ⟨d, ds, rfl⟩ := List.exists_cons_of_ne_nil (hfne ds rfl)
    simp only [fractionText, List.append_assoc, List.cons_append] at hsplit ⊢
    simp only [hsplit]
    cases exponent with
    | none => cases rest <;> simp_all [exponentText]
    | some p => simp [exponentText, readExponent?_text p hrest, hv]

end Parts

/-- A whole number that fits is read back. -/
theorem numberOf?_toDigits {neg : Bool} {n : Nat}
    (hfits : if neg then n ≠ 0 ∧ n ≤ pow2 63 else n < wordLimit) :
    numberOf? neg (Nat.toDigits 10 n) none none = some (.int (if neg then -(n : Int) else n)) := by
  rw [numberOf?, digitsValue_eq, Nat.ofDigitChars_ten_toDigits]
  cases neg <;> simp_all

/-! ## Values -/

theorem skipSpaces_cons {c : Char} (h : isSpace c = false) (rest : List Char) :
    skipSpaces (c :: rest) = c :: rest := by
  rw [skipSpaces, List.dropWhile_cons_of_neg (by simp [h])]

/-- A value is read back from its text, whatever comes behind it. -/
def Reads (depth : Nat) (v : Value) : Prop :=
  ∀ fuel rest, v.textChars.length ≤ fuel → Ends rest →
    readValue fuel depth (v.textChars ++ rest) = some (v, rest)

/-- A text begins with what is no blank and closes no array. -/
def Begins (v : Value) : Prop :=
  ∃ c cs, v.textChars = c :: cs ∧ isSpace c = false ∧ c ≠ ']'

variable {depth : Nat}

theorem isDigit_ne {c d : Char} (hc : c.isDigit = true) (hd : d.isDigit = false) : c ≠ d := by
  rintro rfl
  rw [hc] at hd
  cases hd

theorem isSpace_of_isDigit {c : Char} (h : c.isDigit = true) : isSpace c = false := by
  simp [isSpace, isDigit_ne h (show ' '.isDigit = false by decide),
    isDigit_ne h (show '\n'.isDigit = false by decide),
    isDigit_ne h (show '\t'.isDigit = false by decide),
    isDigit_ne h (show '\r'.isDigit = false by decide)]

/-- A digit opens a number. -/
theorem readValue_of_isDigit {fuel : Nat} {c : Char} (h : c.isDigit = true) (rest : List Char) :
    readValue (fuel + 1) depth (c :: rest) = readNumber? false (c :: rest) := by
  have hbrace : c ≠ openBrace := isDigit_ne h (by decide)
  rw [readValue, skipSpaces_cons (isSpace_of_isDigit h)]
  split <;> simp_all

/-- There is no reading without fuel, and no value without a text. -/
theorem Reads.of_succ {v : Value} (hbegins : Begins v)
    (h : ∀ fuel rest, v.textChars.length ≤ fuel + 1 → Ends rest →
      readValue (fuel + 1) depth (v.textChars ++ rest) = some (v, rest)) : Reads depth v := by
  intro fuel rest hfuel hrest
  obtain ⟨c, cs, hcs, -⟩ := hbegins
  cases fuel with
  | zero => simp [hcs] at hfuel
  | succ fuel => exact h fuel rest hfuel hrest

/-- A numeral with its sign. -/
def signedText (neg : Bool) (n : Numeral) : List Char := (if neg then ['-'] else []) ++ n.text

/-- A numeral begins with a digit. -/
theorem Numeral.exists_text_eq (n : Numeral) : ∃ c cs, n.text = c :: cs ∧ c.isDigit = true := by
  obtain ⟨c, cs, hcs⟩ := List.exists_cons_of_ne_nil n.whole_ne_nil
  have hc : c.isDigit = true := n.isDigit_whole c (hcs ▸ List.mem_cons_self)
  refine ⟨c, cs ++ (fractionText n.fraction ++ exponentText n.exponent), ?_, hc⟩
  rw [text, hcs, List.cons_append]

theorem begins_number {v : Value} {neg : Bool} {n : Numeral}
    (htext : v.textChars = signedText neg n) : Begins v := by
  rw [Begins, htext, signedText]
  cases neg with
  | true => exact ⟨_, _, rfl, by decide, by decide⟩
  | false =>
    obtain ⟨c, cs, hcs, hc⟩ := n.exists_text_eq
    exact ⟨c, cs, hcs, isSpace_of_isDigit hc, isDigit_ne hc (by decide)⟩

/-- A value that is written as a number is read back if the parts of the number make it. -/
theorem reads_number {v : Value} {neg : Bool} {n : Numeral}
    (htext : v.textChars = signedText neg n)
    (hv : numberOf? neg n.whole n.fraction n.exponent = some v) : Reads depth v := by
  refine .of_succ (begins_number htext) fun fuel rest _ hrest => ?_
  have hread := readNumber?_text hrest hv
  rw [htext, signedText]
  cases neg with
  | true =>
    rw [if_pos rfl, List.append_assoc, List.singleton_append, readValue,
      skipSpaces_cons (by decide)]
    exact hread
  | false =>
    obtain ⟨c, cs, hcs, hc⟩ := n.exists_text_eq
    rw [if_neg (by decide), List.nil_append, ← hread, hcs, List.cons_append,
      readValue_of_isDigit hc]

theorem textChars_int (n : Int) :
    (Value.int n).textChars = signedText (decide (n < 0)) (.ofNat n.natAbs) := by
  rw [Value.textChars, intText, signedText, Numeral.text_ofNat]
  by_cases hneg : n < 0 <;> simp [hneg]

theorem begins_int (n : Int) : Begins (.int n) := begins_number (textChars_int n)

theorem reads_int {n : Int} (hlow : -(pow2 63 : Int) ≤ n) (hhigh : n < wordLimit) :
    Reads depth (.int n) := by
  apply reads_number (textChars_int n)
  have hfits : if decide (n < 0) then n.natAbs ≠ 0 ∧ n.natAbs ≤ pow2 63
      else n.natAbs < wordLimit := by
    split_ifs with hneg
    · rw [decide_eq_true_eq] at hneg
      omega
    · rw [decide_eq_true_eq] at hneg
      omega
  refine (numberOf?_toDigits hfits).trans ?_
  congr 2
  split_ifs with hneg
  · rw [decide_eq_true_eq] at hneg
    omega
  · rw [decide_eq_true_eq] at hneg
    omega

theorem begins_null : Begins .null := ⟨'n', _, rfl, by decide, by decide⟩

theorem reads_null : Reads depth .null := by
  refine .of_succ begins_null fun fuel rest _ _ => ?_
  rw [readValue]
  simp [Value.textChars, skipSpaces_cons (show isSpace 'n' = false by decide)]

theorem begins_bool (b : Bool) : Begins (.bool b) := by
  cases b <;> exact ⟨_, _, rfl, by decide, by decide⟩

theorem reads_bool (b : Bool) : Reads depth (.bool b) := by
  cases b with
  | false =>
      refine .of_succ (begins_bool false) fun fuel rest _ _ => ?_
      rw [readValue]
      simp [Value.textChars, skipSpaces_cons (show isSpace 'f' = false by decide)]
  | true =>
      refine .of_succ (begins_bool true) fun fuel rest _ _ => ?_
      rw [readValue]
      simp [Value.textChars, skipSpaces_cons (show isSpace 't' = false by decide)]

theorem begins_string (s : String) : Begins (.string s) := ⟨'"', _, rfl, by decide, by decide⟩

theorem reads_string (s : String) : Reads depth (.string s) := by
  refine .of_succ (begins_string s) fun fuel rest _ _ => ?_
  have htext : (Value.string s).textChars ++ rest =
      '"' :: (s.toList.flatMap escapedChar ++ '"' :: rest) := by
    simp [Value.textChars, stringText]
  rw [htext, readValue, skipSpaces_cons (by decide)]
  simp [readString_text]

/-! ## Containers -/

theorem Ends.cons {c : Char} (h : c.isDigit = false ∧ c ≠ '.' ∧ c ≠ 'e' ∧ c ≠ 'E')
    (rest : List Char) : Ends (c :: rest) := by
  intro d hd
  cases hd
  exact h

theorem ends_itemsText (vs : List Value) (rest : List Char) :
    Ends (Value.itemsText vs ++ rest) := by
  cases vs <;> exact Ends.cons (by decide) _

theorem ends_fieldsText (fs : Fields) (rest : List Char) :
    Ends (Value.fieldsText fs ++ rest) := by
  rcases fs with _ | ⟨⟨k, v⟩, fs⟩ <;> exact Ends.cons (by decide) _

theorem one_le_itemsText (vs : List Value) : 1 ≤ (Value.itemsText vs).length := by
  cases vs <;> simp [Value.itemsText]

theorem one_le_fieldsText (fs : Fields) : 1 ≤ (Value.fieldsText fs).length := by
  rcases fs with _ | ⟨⟨k, v⟩, fs⟩ <;> simp [Value.fieldsText]

/-- The items of an array are read up to its end. -/
theorem readItems_text {v : Value} {vs : List Value} (h : ∀ w ∈ v :: vs, Reads depth w)
    (acc : List Value) (fuel : Nat) (rest : List Char)
    (hfuel : v.textChars.length + (Value.itemsText vs).length ≤ fuel) :
    readItems fuel depth acc (v.textChars ++ (Value.itemsText vs ++ rest)) =
      some (.array (acc.reverse ++ v :: vs), rest) := by
  induction vs generalizing v acc fuel with
  | nil =>
      rw [Value.itemsText, List.length_singleton] at hfuel
      obtain ⟨fuel, rfl⟩ : ∃ k, fuel = k + 1 := ⟨fuel - 1, by omega⟩
      have hv := h v List.mem_cons_self fuel _ (by omega) (ends_itemsText [] rest)
      rw [readItems, hv]
      simp [Value.itemsText, skipSpaces_cons (show isSpace ']' = false by decide)]
  | cons w vs ih =>
      have hone := one_le_itemsText vs
      rw [Value.itemsText, List.length_append, List.length_cons] at hfuel
      obtain ⟨fuel, rfl⟩ : ∃ k, fuel = k + 1 := ⟨fuel - 1, by omega⟩
      have hv := h v List.mem_cons_self fuel _ (by omega) (ends_itemsText (w :: vs) rest)
      have hvs := ih (fun u hu => h u (List.mem_cons_of_mem _ hu)) (v :: acc) fuel (by omega)
      rw [readItems, hv]
      simp only [Value.itemsText, List.cons_append, List.append_assoc]
      rw [skipSpaces_cons (by decide)]
      simp only [hvs]
      simp

/-- The characters of a field from its name on, without the opening quote. -/
def fieldText (k : String) (v : Value) : List Char :=
  k.toList.flatMap escapedChar ++ '"' :: ':' :: v.textChars

theorem readString_fieldText (k : String) (v : Value) (rest : List Char) :
    readString [] (fieldText k v ++ rest) = some (k, ':' :: (v.textChars ++ rest)) := by
  rw [fieldText, List.append_assoc, List.cons_append, readString_text, List.cons_append]

theorem fieldsText_cons (j : String) (w : Value) (fs : Fields) :
    Value.fieldsText ((j, w) :: fs) = ',' :: '"' :: (fieldText j w ++ Value.fieldsText fs) := by
  simp [Value.fieldsText, stringText, fieldText]

theorem length_fieldText (k : String) (v : Value) :
    v.textChars.length < (fieldText k v).length := by
  simp [fieldText]
  omega

/-- The fields of an object are read up to its end. -/
theorem readFields_text {k : String} {v : Value} {fs : Fields}
    (h : ∀ p ∈ (k, v) :: fs, Reads depth p.2) (acc : Fields) (fuel : Nat) (rest : List Char)
    (hfuel : v.textChars.length + (Value.fieldsText fs).length ≤ fuel) :
    readFields fuel depth acc (fieldText k v ++ (Value.fieldsText fs ++ rest)) =
      some (.object (acc.reverse ++ (k, v) :: fs), rest) := by
  have hcolon : isSpace ':' = false := by decide
  have hcomma : isSpace ',' = false := by decide
  have hquote : isSpace '"' = false := by decide
  have hclose : isSpace closeBrace = false := by decide
  induction fs generalizing k v acc fuel with
  | nil =>
      rw [Value.fieldsText, List.length_singleton] at hfuel
      obtain ⟨fuel, rfl⟩ : ∃ k, fuel = k + 1 := ⟨fuel - 1, by omega⟩
      have hlength : v.textChars.length ≤ fuel := by omega
      have hv := h (k, v) List.mem_cons_self fuel _ hlength (ends_fieldsText [] rest)
      rw [readFields, readString_fieldText]
      simp only [skipSpaces_cons hcolon, hv]
      rw [Value.fieldsText, List.singleton_append, skipSpaces_cons hclose]
      simp [closeBrace]
  | cons p fs ih =>
      obtain ⟨j, w⟩ := p
      have hone := one_le_fieldsText fs
      have hnext := length_fieldText j w
      rw [fieldsText_cons, List.length_cons, List.length_cons, List.length_append] at hfuel
      obtain ⟨fuel, rfl⟩ : ∃ k, fuel = k + 1 := ⟨fuel - 1, by omega⟩
      have hlength : v.textChars.length ≤ fuel := by omega
      have hv := h (k, v) List.mem_cons_self fuel _ hlength (ends_fieldsText ((j, w) :: fs) rest)
      have hfs := ih (fun q hq => h q (List.mem_cons_of_mem _ hq)) ((k, v) :: acc) fuel (by omega)
      rw [readFields, readString_fieldText]
      simp only [skipSpaces_cons hcolon, hv]
      simp only [fieldsText_cons, List.cons_append, List.append_assoc, skipSpaces_cons hcomma,
        skipSpaces_cons hquote, hfs]
      simp

theorem readValue_bracket {fuel : Nat} {v : Value} (h : Begins v) (rest : List Char) :
    readValue (fuel + 1) (depth + 1) ('[' :: (v.textChars ++ rest)) =
      readItems fuel depth [] (v.textChars ++ rest) := by
  obtain ⟨c, cs, hcs, hspace, hclose⟩ := h
  rw [readValue, skipSpaces_cons (by decide), hcs, List.cons_append]
  simp [skipSpaces_cons hspace, hclose]

theorem readValue_brace (fuel : Nat) (rest : List Char) :
    readValue (fuel + 1) (depth + 1) (openBrace :: '"' :: rest) =
      readFields fuel depth [] rest := by
  rw [readValue, skipSpaces_cons (by decide)]
  simp [openBrace, skipSpaces_cons (show isSpace '"' = false by decide)]

theorem begins_array (items : List Value) : Begins (.array items) := by
  cases items <;> exact ⟨_, _, rfl, by decide, by decide⟩

theorem begins_object (fields : Fields) : Begins (.object fields) := by
  rcases fields with _ | ⟨⟨k, v⟩, fs⟩ <;> exact ⟨_, _, rfl, by decide, by decide⟩

/-- An array is read back if its items are. -/
theorem reads_array {items : List Value} (hbegins : ∀ v ∈ items, Begins v)
    (h : ∀ v ∈ items, Reads depth v) : Reads (depth + 1) (.array items) := by
  refine .of_succ (begins_array items) fun fuel rest hfuel _ => ?_
  cases items with
  | nil =>
      rw [readValue]
      simp [Value.textChars, skipSpaces_cons (show isSpace '[' = false by decide),
        skipSpaces_cons (show isSpace ']' = false by decide)]
  | cons v vs =>
      have htext : (Value.array (v :: vs)).textChars ++ rest =
          '[' :: (v.textChars ++ (Value.itemsText vs ++ rest)) := by simp [Value.textChars]
      have hitems : v.textChars.length + (Value.itemsText vs).length ≤ fuel := by
        simpa [Value.textChars] using hfuel
      rw [htext, readValue_bracket (hbegins v List.mem_cons_self),
        readItems_text h [] fuel rest hitems]
      rfl

/-- An object is read back if the values of its fields are. -/
theorem reads_object {fields : Fields} (h : ∀ p ∈ fields, Reads depth p.2) :
    Reads (depth + 1) (.object fields) := by
  refine .of_succ (begins_object fields) fun fuel rest hfuel _ => ?_
  rcases fields with _ | ⟨⟨k, v⟩, fs⟩
  · rw [readValue]
    simp [Value.textChars, openBrace, closeBrace,
      skipSpaces_cons (show isSpace (Char.ofNat 0x7B) = false by decide),
      skipSpaces_cons (show isSpace (Char.ofNat 0x7D) = false by decide)]
  · have htext : (Value.object ((k, v) :: fs)).textChars =
        openBrace :: '"' :: (fieldText k v ++ Value.fieldsText fs) := by
      simp [Value.textChars, stringText, fieldText]
    have hnext := length_fieldText k v
    rw [htext, List.length_cons, List.length_cons, List.length_append] at hfuel
    rw [htext, List.cons_append, List.cons_append, List.append_assoc, readValue_brace,
      readFields_text h [] fuel rest (by omega)]
    rfl

end Reader

/-- Values that are read back: no doubles, integers that fit a word, and containers that nest at
most `depth` deep. -/
inductive Value.Plain : Nat → Value → Prop
  | null {depth : Nat} : Plain depth .null
  | bool {depth : Nat} (b : Bool) : Plain depth (.bool b)
  | int {depth : Nat} {n : Int} (hlow : -(pow2 63 : Int) ≤ n) (hhigh : n < wordLimit) :
      Plain depth (.int n)
  | string {depth : Nat} (s : String) : Plain depth (.string s)
  | array {depth : Nat} {items : List Value} (h : ∀ v ∈ items, Plain depth v) :
      Plain (depth + 1) (.array items)
  | object {depth : Nat} {fields : Fields} (h : ∀ p ∈ fields, Plain depth p.2) :
      Plain (depth + 1) (.object fields)

namespace Value.Plain

variable {depth : Nat} {v : Value}

open Reader

theorem begins (h : v.Plain depth) : Begins v := by
  cases h with
  | null => exact begins_null
  | bool b => exact begins_bool b
  | int hlow hhigh => exact begins_int _
  | string s => exact begins_string s
  | array h => exact begins_array _
  | object h => exact begins_object _

/-- A plain value is read back from its text. -/
theorem reads (h : v.Plain depth) : Reads depth v := by
  induction h with
  | null => exact reads_null
  | bool b => exact reads_bool b
  | int hlow hhigh => exact reads_int hlow hhigh
  | string s => exact reads_string s
  | array h ih => exact reads_array (fun v hv => begins (h v hv)) ih
  | object h ih => exact reads_object ih

end Value.Plain

/-- The text of a plain value is read as that value. -/
theorem Value.read?_text {v : Value} (h : v.Plain maxDepth) : Value.read? v.text = some v := by
  have hread := h.reads (2 * v.textChars.length + 2) [] (by omega) Reader.Ends.nil
  rw [List.append_nil] at hread
  simp [Value.read?, Value.text, hread, Reader.skipSpaces]

end ChangeRelay.Json

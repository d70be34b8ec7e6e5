import ChangeRelay.Assoc
import ChangeRelay.Number.Double

/-!
# JSON values

Numbers are of two kinds, integers and doubles, which never equal one another. The fields of an
object are kept in the order of their names.
-/

namespace ChangeRelay.Json

/-- A JSON value. -/
inductive Value where
  | null
  | bool (b : Bool)
  | int (n : Int)
  | double (x : Double)
  | string (s : String)
  | array (items : List Value)
  | object (fields : List (String × Value))

/-- The fields of an object. -/
abbrev Fields := List (String × Value)

namespace Value

mutual

/-- Whether two values are the same: kind by kind, and doubles bit by bit. -/
def same : Value → Value → Bool
  | .null, .null => true
  | .bool a, .bool b => a = b
  | .int a, .int b => a = b
  | .double a, .double b => a = b
  | .string a, .string b => a = b
  | .array a, .array b => sameItems a b
  | .object a, .object b => sameFields a b
  | _, _ => false

def sameItems : List Value → List Value → Bool
  | [], [] => true
  | a :: as, b :: bs => same a b && sameItems as bs
  | _, _ => false

def sameFields : List (String × Value) → List (String × Value) → Bool
  | [], [] => true
  | (j, a) :: as, (k, b) :: bs => decide (j = k) && same a b && sameFields as bs
  | _, _ => false

end

mutual

theorem eq_of_same : ∀ {a b : Value}, same a b = true → a = b
  | .null, b, h => by cases b <;> simp_all [same]
  | .bool _, b, h => by cases b <;> simp_all [same]
  | .int _, b, h => by cases b <;> simp_all [same]
  | .double _, b, h => by cases b <;> simp_all [same]
  | .string _, b, h => by cases b <;> simp_all [same]
  | .array as, b, h => by
    cases b <;> simp only [same, Bool.false_eq_true] at h
    rw [eq_of_sameItems h]
  | .object fs, b, h => by
    cases b <;> simp only [same, Bool.false_eq_true] at h
    rw [eq_of_sameFields h]

theorem eq_of_sameItems : ∀ {as bs : List Value}, sameItems as bs = true → as = bs
  | [], bs, h => by cases bs <;> simp_all [sameItems]
  | a :: as, bs, h => by
    cases bs with
    | nil => simp [sameItems] at h
    | cons b bs =>
      simp only [sameItems, Bool.and_eq_true] at h
      rw [eq_of_same h.1, eq_of_sameItems h.2]

theorem eq_of_sameFields :
    ∀ {as bs : List (String × Value)}, sameFields as bs = true → as = bs
  | [], bs, h => by cases bs <;> simp_all [sameFields]
  | (j, a) :: as, bs, h => by
    cases bs with
    | nil => simp [sameFields] at h
    | cons p bs =>
      obtain ⟨k, b⟩ := p
      simp only [sameFields, Bool.and_eq_true, decide_eq_true_eq] at h
      rw [h.1.1, eq_of_same h.1.2, eq_of_sameFields h.2]

end

mutual

theorem same_refl : ∀ a : Value, same a a = true
  | .null | .bool _ | .int _ | .double _ | .string _ => by simp [same]
  | .array as => by simp only [same]; exact sameItems_refl as
  | .object fs => by simp only [same]; exact sameFields_refl fs

theorem sameItems_refl : ∀ as : List Value, sameItems as as = true
  | [] => rfl
  | a :: as => by simp [sameItems, same_refl a, sameItems_refl as]

theorem sameFields_refl : ∀ fs : List (String × Value), sameFields fs fs = true
  | [] => rfl
  | (k, a) :: fs => by simp [sameFields, same_refl a, sameFields_refl fs]

end

instance : DecidableEq Value := fun a b =>
  if h : same a b = true then .isTrue (eq_of_same h)
  else .isFalse fun e => h (e ▸ same_refl a)

/-- An object of these fields, of which the last of a name counts. -/
def ofFields (fields : List (String × Value)) : Value := .object (Assoc.ofList fields)

mutual

/-- A value with the fields of its objects in order, of which the last of a name counts. -/
def canonical : Value → Value
  | .array items => .array (canonicalItems items)
  | .object fields => ofFields (canonicalFields fields)
  | v => v

def canonicalItems : List Value → List Value
  | [] => []
  | v :: vs => canonical v :: canonicalItems vs

def canonicalFields : Fields → Fields
  | [] => []
  | (k, v) :: fs => (k, canonical v) :: canonicalFields fs

end

def ofWord (n : UInt64) : Value := .int n.toNat

def ofStrings (items : List String) : Value := .array (items.map .string)

/-- A field of an object. -/
def get? (name : String) : Value → Option Value
  | .object fields => Assoc.find? name fields
  | _ => none

def asString? : Value → Option String
  | .string s => some s
  | _ => none

def asArray? : Value → Option (List Value)
  | .array items => some items
  | _ => none

def asObject? : Value → Option Fields
  | .object fields => some fields
  | _ => none

/-- The word an integer is; a double is none. -/
def asWord? : Value → Option UInt64
  | .int n => if 0 ≤ n ∧ n < wordLimit then some (UInt64.ofNat n.toNat) else none
  | _ => none

theorem asWord?_ofWord (n : UInt64) : (ofWord n).asWord? = some n := by
  have hlt : n.toNat < wordLimit := n.toNat_lt
  rw [ofWord, asWord?, if_pos ⟨Int.natCast_nonneg _, Int.ofNat_lt.2 hlt⟩, Int.toNat_natCast,
    UInt64.ofNat_toNat]

def isNull : Value → Bool
  | .null => true
  | _ => false

end Value

end ChangeRelay.Json

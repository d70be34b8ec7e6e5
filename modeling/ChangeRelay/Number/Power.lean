/-!
# Powers of two and ten

The powers that positional notation is built from, and the bounds of machine words.
-/

namespace ChangeRelay

/-- The power `2 ^ n`. -/
def pow2 (n : Nat) : Nat := Nat.pow 2 n

/-- The power `10 ^ n`. -/
def pow10 (n : Nat) : Nat := Nat.pow 10 n

/-- The first number that is no 64-bit word. -/
def wordLimit : Nat := 18446744073709551616

/-- The first number that is no 32-bit word. -/
def halfWordLimit : Nat := 4294967296

end ChangeRelay

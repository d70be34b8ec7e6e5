import ChangeRelay.Number.Power

/-!
# Bit streams of the Zstandard format

Headers are read forwards. Entropy coded streams are read backwards: the highest bit that is set
in the last octet marks where they begin.
-/

namespace ChangeRelay.Zstd

/-- The number that `n` octets from offset `i` on make up, the least significant first. -/
def littleEndian (data : Array UInt8) (i n : Nat) : Nat :=
  (List.range n).foldr (fun k acc => acc * 256 + (data.getD (i + k) 0).toNat) 0

/-- The `n` bits from bit `offset` on; bits beyond the data are zero. -/
def bitsAt (data : Array UInt8) (offset n : Nat) : Nat :=
  littleEndian data (offset / 8) ((offset % 8 + n + 7) / 8) / pow2 (offset % 8) % pow2 n

/-- A stream read backwards, from bit `start + left` down to bit `start`. -/
structure BackwardBits where
  data : Array UInt8
  start : Nat
  /-- Bits not yet read. -/
  left : Nat

namespace BackwardBits

/-- The stream in `size` octets from offset `i` on; none if it has no beginning. -/
def open? (data : Array UInt8) (i size : Nat) : Option BackwardBits :=
  if size = 0 ∨ data.size < i + size then none
  else
    let last := (data.getD (i + size - 1) 0).toNat
    if last = 0 then none
    else some { data, start := 8 * i, left := 8 * (size - 1) + last.log2 }

/-- The next `n` bits, filled up with zeros at the end of the stream. -/
def peek (b : BackwardBits) (n : Nat) : Nat :=
  if n ≤ b.left then bitsAt b.data (b.start + (b.left - n)) n
  else bitsAt b.data b.start b.left * pow2 (n - b.left)

/-- The stream after `n` more bits; none if it has fewer. -/
def skip? (b : BackwardBits) (n : Nat) : Option BackwardBits :=
  if n ≤ b.left then some { b with left := b.left - n } else none

/-- Reads `n` bits; none if there are fewer. -/
def read? (b : BackwardBits) (n : Nat) : Option (Nat × BackwardBits) :=
  (b.skip? n).map fun rest => (b.peek n, rest)

end BackwardBits

end ChangeRelay.Zstd

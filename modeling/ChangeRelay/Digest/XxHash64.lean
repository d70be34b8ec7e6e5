/-!
# XXH64

The 64-bit xxHash of an octet string, with seed zero.
-/

namespace ChangeRelay.XxHash64

def prime1 : UInt64 := 0x9E3779B185EBCA87
def prime2 : UInt64 := 0xC2B2AE3D27D4EB4F
def prime3 : UInt64 := 0x165667B19E3779F9
def prime4 : UInt64 := 0x85EBCA77C2B2AE63
def prime5 : UInt64 := 0x27D4EB2F165667C5

def rotateLeft (x n : UInt64) : UInt64 := (x <<< n) ||| (x >>> (64 - n))

/-- The number that `n` octets from offset `i` on make up, the least significant first. -/
def littleEndian (data : Array UInt8) (i n : Nat) : UInt64 :=
  (List.range n).foldr (fun k acc => (acc <<< 8) ||| (data.getD (i + k) 0).toUInt64) 0

def round (acc lane : UInt64) : UInt64 := rotateLeft (acc + lane * prime2) 31 * prime1

/-- The four accumulators. -/
structure State where
  v1 : UInt64 := prime1 + prime2
  v2 : UInt64 := prime2
  v3 : UInt64 := 0
  v4 : UInt64 := 0 - prime1

/-- Takes in one stripe of 32 octets. -/
def State.stripe (s : State) (data : Array UInt8) (i : Nat) : State :=
  { v1 := round s.v1 (littleEndian data i 8)
    v2 := round s.v2 (littleEndian data (i + 8) 8)
    v3 := round s.v3 (littleEndian data (i + 16) 8)
    v4 := round s.v4 (littleEndian data (i + 24) 8) }

def mergeLane (h v : UInt64) : UInt64 := (h ^^^ round 0 v) * prime1 + prime4

def State.merged (s : State) : UInt64 :=
  let h := rotateLeft s.v1 1 + rotateLeft s.v2 7 + rotateLeft s.v3 12 + rotateLeft s.v4 18
  mergeLane (mergeLane (mergeLane (mergeLane h s.v1) s.v2) s.v3) s.v4

/-- Takes in the octets after the last stripe; `fuel` bounds their number. -/
def tail (data : Array UInt8) : Nat → Nat → UInt64 → UInt64
  | 0, _, h => h
  | fuel + 1, i, h =>
    if i + 8 ≤ data.size then
      tail data fuel (i + 8)
        (rotateLeft (h ^^^ round 0 (littleEndian data i 8)) 27 * prime1 + prime4)
    else if i + 4 ≤ data.size then
      tail data fuel (i + 4)
        (rotateLeft (h ^^^ littleEndian data i 4 * prime1) 23 * prime2 + prime3)
    else if i < data.size then
      tail data fuel (i + 1) (rotateLeft (h ^^^ (data.getD i 0).toUInt64 * prime5) 11 * prime1)
    else h

def avalanche (h : UInt64) : UInt64 :=
  let h := (h ^^^ (h >>> 33)) * prime2
  let h := (h ^^^ (h >>> 29)) * prime3
  h ^^^ (h >>> 32)

def digest (data : Array UInt8) : UInt64 :=
  let stripes := data.size / 32
  let h := if stripes = 0 then prime5
    else ((List.range stripes).foldl (fun s k => s.stripe data (32 * k)) ({} : State)).merged
  avalanche (tail data 32 (32 * stripes) (h + UInt64.ofNat data.size))

end ChangeRelay.XxHash64

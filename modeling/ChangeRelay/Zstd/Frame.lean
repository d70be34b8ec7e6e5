import ChangeRelay.Digest.XxHash64
import ChangeRelay.Text.Bytes
import ChangeRelay.Zstd.Block

/-!
# Zstandard frames

Data that starts with the magic number of a frame has to be complete frames to the end; frames
that carry no data are skipped. Any other data is not compressed and stands for itself.
-/

namespace ChangeRelay.Zstd

/-- What a frame says about itself. -/
structure Header where
  window : Nat
  contentSize : Option Nat
  checksum : Bool
  next : Nat

/-- The largest window that is decoded. -/
def maxWindow : Nat := 134217729

/-- Reads the header after the magic number. -/
def readHeader? (data : Array UInt8) (i : Nat) : Option Header := do
  let d := (data.getD i 0).toNat
  if data.size ≤ i ∨ d / 8 % 2 ≠ 0 then none
  let single := d / 32 % 2 = 1
  let windowSize := if single then 0 else 1
  let dictSize := #[0, 1, 2, 4].getD (d % 4) 0
  let sizeSize := if d / 64 = 0 then (if single then 1 else 0) else pow2 (d / 64)
  let next := i + 1 + windowSize + dictSize + sizeSize
  if data.size < next then none
  if littleEndian data (i + 1 + windowSize) dictSize ≠ 0 then none
  let size := littleEndian data (i + 1 + windowSize + dictSize) sizeSize +
    (if sizeSize = 2 then 256 else 0)
  let contentSize := if sizeSize = 0 then none else some size
  let w := (data.getD (i + 1) 0).toNat
  let window := if single then size
    else pow2 (10 + w / 8) + pow2 (10 + w / 8) / 8 * (w % 8)
  if maxWindow < window then none
  return { window, contentSize, checksum := d / 4 % 2 = 1, next }

/-- Decodes blocks up to the last one of a frame; `fuel` bounds their number. -/
def decodeBlocks? (data : Array UInt8) (limit : Nat) :
    Nat → Nat → Context → Array UInt8 → Option (Array UInt8 × Nat)
  | 0, _, _, _ => none
  | fuel + 1, i, c, out => do
    if data.size < i + 3 then none
    let header := littleEndian data i 3
    let size := header / 8
    let last := header % 2 = 1
    let i := i + 3
    if limit < size then none
    let (out', c, next) ← match header / 2 % 4 with
      | 0 =>
        if data.size < i + size then none
        else some (out ++ data.extract i (i + size), c, i + size)
      | 1 =>
        if data.size < i + 1 then none
        else some (out ++ Array.replicate size (data.getD i 0), c, i + 1)
      | 2 =>
        if data.size < i + size then none
        else (decodeBlock? data i (i + size) limit c out).map fun p => (p.1, p.2, i + size)
      | _ => none
    if limit < out'.size - out.size then none
    if last then return (out', next) else decodeBlocks? data limit fuel next c out'

/-- Decodes the frame after its magic number; answers the offset after it, too. -/
def decodeFrame? (data : Array UInt8) (i : Nat) : Option (Array UInt8 × Nat) := do
  let h ← readHeader? data i
  let limit := if h.window < maxBlockSize then h.window else maxBlockSize
  let (out, next) ← decodeBlocks? data limit (data.size + 1) h.next {} #[]
  match h.contentSize with
  | some n => if out.size ≠ n then none
  | none => pure ()
  if h.checksum then
    if data.size < next + 4 then none
    if littleEndian data next 4 ≠ (XxHash64.digest out).toNat % pow2 32 then none
    return (out, next + 4)
  else return (out, next)

/-- The magic number of a frame with data. -/
def magic : Nat := 0xFD2FB528

/-- The first magic number of frames without data; there are sixteen in a row. -/
def skippableMagic : Nat := 0x184D2A50

/-- Decodes frames to the end of the data; `fuel` bounds their number. -/
def decodeFrames? (data : Array UInt8) : Nat → Nat → Array UInt8 → Option (Array UInt8)
  | 0, _, _ => none
  | fuel + 1, i, out => do
    if i = data.size then return out
    if data.size < i + 4 then none
    let m := littleEndian data i 4
    if m = magic then
      let (more, next) ← decodeFrame? data (i + 4)
      decodeFrames? data fuel next (out ++ more)
    else if m / 16 = skippableMagic / 16 then
      if data.size < i + 8 then none
      let next := i + 8 + littleEndian data (i + 4) 4
      if data.size < next then none
      decodeFrames? data fuel next out
    else none

/-- The first octets of compressed data. -/
def magicBytes : Bytes := [0x28, 0xB5, 0x2F, 0xFD]

/-- Whether data claims to be compressed. -/
def isCompressed (bytes : Bytes) : Bool := magicBytes.isPrefixOf bytes

/-- The data that octets stand for, compressed or not; none if compressed data is damaged. -/
def expand? (bytes : Bytes) : Option Bytes :=
  if isCompressed bytes then
    let data := bytes.toArray
    (decodeFrames? data (data.size + 1) 0 #[]).map Array.toList
  else some bytes

/-- A number as `n` octets, the least significant first. -/
def littleEndianBytes (n value : Nat) : Bytes :=
  (List.range n).map fun k => UInt8.ofNat (value / pow2 (8 * k))

/-- Blocks that hold data as it is; `fuel` bounds their number. -/
def storedBlocks : Nat → Bytes → Bytes
  | 0, _ => []
  | fuel + 1, bytes =>
    let block := bytes.take maxBlockSize
    let rest := bytes.drop maxBlockSize
    let last := if rest = [] then 1 else 0
    littleEndianBytes 3 (block.length * 8 + last) ++ block ++
      (if rest = [] then [] else storedBlocks fuel rest)

/-- A frame that holds data as it is: no size, a window of two mebibytes, and stored blocks. -/
def store (bytes : Bytes) : Bytes :=
  magicBytes ++ [0x00, 0x58] ++ storedBlocks (bytes.length / maxBlockSize + 1) bytes

end ChangeRelay.Zstd

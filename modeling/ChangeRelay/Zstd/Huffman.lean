import ChangeRelay.Zstd.Fse

/-!
# Huffman coded literals

A prefix code is described by the weights of its symbols; the weight of the last one follows from
the others. Literals are coded in one stream or in four.
-/

namespace ChangeRelay.Zstd

/-- What a lookup gives: a symbol and the length of its code. -/
structure HuffmanEntry where
  symbol : UInt8
  bits : Nat

/-- A prefix code as a lookup table for the next `log` bits. -/
structure HuffmanTable where
  log : Nat
  entries : Array HuffmanEntry

/-- The longest code. -/
def maxHuffmanBits : Nat := 12

/-- Decodes weights with two states that take turns; `fuel` bounds the number of weights. -/
def readWeights (t : FseTable) :
    Nat → FseState → FseState → BackwardBits → Array Nat → Option (Array Nat)
  | 0, _, _, _, _ => none
  | fuel + 1, s, other, b, ws =>
    let ws := ws.push s.symbol
    match t.next? s b with
    | none => some (ws.push other.symbol)
    | some (s, b) => readWeights t fuel other s b ws

/-- The weights coded in `size` octets from offset `i` on. -/
def codedWeights? (data : Array UInt8) (i size : Nat) : Option (Array Nat) := do
  let shares ← readShares? data i (i + size) 6 255
  let table := buildFse shares.log shares.shares
  let b ← BackwardBits.open? data shares.next (i + size - shares.next)
  let (s, b) ← table.first? b
  let (t, b) ← table.first? b
  let ws ← readWeights table 254 s t b #[]
  if 255 < ws.size then none
  return ws

/-- Weights of four bits each. -/
def plainWeights (data : Array UInt8) (i count : Nat) : Array Nat :=
  ((List.range count).map fun k =>
    let b := (data.getD (i + k / 2) 0).toNat
    if k % 2 = 0 then b / 16 else b % 16).toArray

/-- The table of a code with these weights; the last weight is the one that completes the code. -/
def huffmanOfWeights? (weights : Array Nat) : Option HuffmanTable := do
  if weights.any (maxHuffmanBits < ·) then none
  let sum := weights.foldl (fun n w => if w = 0 then n else n + pow2 (w - 1)) 0
  if sum = 0 then none
  let log := sum.log2 + 1
  if maxHuffmanBits < log then none
  let rest := pow2 log - sum
  if rest ≠ pow2 rest.log2 then none
  let weights := weights.push (rest.log2 + 1)
  let ones := weights.countP (· == 1)
  if ones < 2 ∨ ones % 2 ≠ 0 then none
  let entries := (List.range (log + 1)).foldl
    (fun es w =>
      if w = 0 then es
      else (List.range weights.size).foldl
        (fun es s =>
          if weights.getD s 0 = w then
            es ++ Array.replicate (pow2 (w - 1)) ⟨UInt8.ofNat s, log + 1 - w⟩
          else es)
        es)
    (#[] : Array HuffmanEntry)
  return { log, entries }

/-- Reads the description of a code; answers the offset after it, too. -/
def readHuffman? (data : Array UInt8) (i stop : Nat) : Option (HuffmanTable × Nat) := do
  if stop ≤ i then none
  let header := (data.getD i 0).toNat
  if header < 128 then
    let next := i + 1 + header
    if stop < next then none
    let table ← huffmanOfWeights? (← codedWeights? data (i + 1) header)
    return (table, next)
  else
    let count := header - 127
    let next := i + 1 + (count + 1) / 2
    if stop < next then none
    let table ← huffmanOfWeights? (plainWeights data (i + 1) count)
    return (table, next)

namespace HuffmanTable

/-- Decodes `n` symbols, which have to use up the stream. -/
def decode? (t : HuffmanTable) : Nat → BackwardBits → Array UInt8 → Option (Array UInt8)
  | 0, b, out => if b.left = 0 then some out else none
  | n + 1, b, out =>
    let e := t.entries.getD (b.peek t.log) ⟨0, 0⟩
    match b.skip? e.bits with
    | none => none
    | some b => decode? t n b (out.push e.symbol)

/-- Decodes `n` symbols coded in one stream of `size` octets. -/
def decodeOne? (t : HuffmanTable) (data : Array UInt8) (i size n : Nat) (out : Array UInt8) :
    Option (Array UInt8) :=
  (BackwardBits.open? data i size).bind fun b => t.decode? n b out

/-- Decodes `n` symbols coded in four streams, after a table of the sizes of the first three. -/
def decodeFour? (t : HuffmanTable) (data : Array UInt8) (i size n : Nat) :
    Option (Array UInt8) := do
  if size < 10 ∨ n < 6 then none
  let s1 := littleEndian data i 2
  let s2 := littleEndian data (i + 2) 2
  let s3 := littleEndian data (i + 4) 2
  if size < 6 + s1 + s2 + s3 then none
  let quarter := (n + 3) / 4
  if n < 3 * quarter then none
  let p := i + 6
  let out ← t.decodeOne? data p s1 quarter #[]
  let out ← t.decodeOne? data (p + s1) s2 quarter out
  let out ← t.decodeOne? data (p + s1 + s2) s3 quarter out
  t.decodeOne? data (p + s1 + s2 + s3) (size - 6 - s1 - s2 - s3) (n - 3 * quarter) out

end HuffmanTable

end ChangeRelay.Zstd

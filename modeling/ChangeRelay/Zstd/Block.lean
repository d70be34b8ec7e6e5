import ChangeRelay.Zstd.Huffman

/-!
# Compressed blocks

A compressed block holds literals and sequences. Each sequence copies some literals and then a
match from what was decoded before; the literals that are left over end the block.
-/

namespace ChangeRelay.Zstd

/-- What blocks hand on to the next block of their frame. -/
structure Context where
  huffman : Option HuffmanTable := none
  literalLengths : Option FseTable := none
  offsets : Option FseTable := none
  matchLengths : Option FseTable := none
  /-- The last three offsets, the most recent first. -/
  recent : Nat × Nat × Nat := (1, 4, 8)

/-- The largest block. -/
def maxBlockSize : Nat := 131072

/-- Literals, and the offset of the sequences after them. -/
structure Literals where
  bytes : Array UInt8
  next : Nat
  huffman : Option HuffmanTable

/-- Reads the literals of the block between two offsets. -/
def readLiterals? (data : Array UInt8) (i stop limit : Nat) (huffman : Option HuffmanTable) :
    Option Literals := do
  if stop ≤ i then none
  let b := (data.getD i 0).toNat
  let kind := b % 4
  let format := b / 4 % 4
  if kind ≤ 1 then
    let (n, header) :=
      if format % 2 = 0 then (b / 8, 1)
      else if format = 1 then (littleEndian data i 2 / 16, 2)
      else (littleEndian data i 3 / 16, 3)
    if stop < i + header ∨ limit < n then none
    if kind = 0 then
      if stop < i + header + n then none
      return ⟨data.extract (i + header) (i + header + n), i + header + n, huffman⟩
    else
      if stop < i + header + 1 then none
      return ⟨Array.replicate n (data.getD (i + header) 0), i + header + 1, huffman⟩
  else
    let (bits, header) := if format ≤ 1 then (10, 3) else if format = 2 then (14, 4) else (18, 5)
    if stop < i + header then none
    let sizes := littleEndian data i header / 16
    let n := sizes % pow2 bits
    let size := sizes / pow2 bits % pow2 bits
    let start := i + header
    let next := start + size
    if stop < next ∨ limit < n ∨ n = 0 then none
    let (table, start) ← if kind = 2 then readHuffman? data start next
      else huffman.map fun t => (t, start)
    let bytes ← if format = 0 then table.decodeOne? data start (next - start) n #[]
      else table.decodeFour? data start (next - start) n
    return ⟨bytes, next, some table⟩

/-- Base and number of extra bits per literal length code. -/
def literalLengthCodes : Array (Nat × Nat) :=
  #[(0, 0), (1, 0), (2, 0), (3, 0), (4, 0), (5, 0), (6, 0), (7, 0), (8, 0), (9, 0), (10, 0),
    (11, 0), (12, 0), (13, 0), (14, 0), (15, 0), (16, 1), (18, 1), (20, 1), (22, 1), (24, 2),
    (28, 2), (32, 3), (40, 3), (48, 4), (64, 6), (128, 7), (256, 8), (512, 9), (1024, 10),
    (2048, 11), (4096, 12), (8192, 13), (16384, 14), (32768, 15), (65536, 16)]

/-- Base and number of extra bits per match length code. -/
def matchLengthCodes : Array (Nat × Nat) :=
  ((List.range 32).map fun n => (n + 3, 0)).toArray ++
  #[(35, 1), (37, 1), (39, 1), (41, 1), (43, 2), (47, 2), (51, 3), (59, 3), (67, 4), (83, 4),
    (99, 5), (131, 7), (259, 8), (515, 9), (1027, 10), (2051, 11), (4099, 12), (8195, 13),
    (16387, 14), (32771, 15), (65539, 16)]

def defaultLiteralLengths : FseTable := buildFse 6
  #[4, 3, 2, 2, 2, 2, 2, 2, 2, 2, 2, 2, 2, 1, 1, 1, 2, 2, 2, 2, 2, 2, 2, 2, 2, 3, 2, 1, 1, 1, 1, 1,
    -1, -1, -1, -1]

def defaultMatchLengths : FseTable := buildFse 6
  #[1, 4, 3, 2, 2, 2, 2, 2, 2, 1, 1, 1, 1, 1, 1, 1, 1, 1, 1, 1, 1, 1, 1, 1, 1, 1, 1, 1, 1, 1, 1, 1,
    1, 1, 1, 1, 1, 1, 1, 1, 1, 1, 1, 1, 1, 1, -1, -1, -1, -1, -1, -1, -1]

def defaultOffsets : FseTable := buildFse 5
  #[1, 1, 1, 1, 1, 1, 2, 2, 2, 1, 1, 1, 1, 1, 1, 1, 1, 1, 1, 1, 1, 1, 1, 1, -1, -1, -1, -1, -1]

/-- Reads the table of one kind of code; answers the offset after it, too. -/
def readTable? (data : Array UInt8) (i stop mode maxLog maxSymbol : Nat) (default : FseTable)
    (previous : Option FseTable) : Option (FseTable × Nat) := do
  match mode with
  | 0 => return (default, i)
  | 1 =>
    if stop ≤ i then none
    let symbol := (data.getD i 0).toNat
    if maxSymbol < symbol then none
    return (singleFse symbol, i + 1)
  | 2 =>
    let shares ← readShares? data i stop maxLog maxSymbol
    return (buildFse shares.log shares.shares, shares.next)
  | _ => return (← previous, i)

/-- The offset that an offset value stands for, and the recent offsets after it. Values up to
three name recent offsets, shifted by one if no literals come first. -/
def resolveOffset? (value literals : Nat) (recent : Nat × Nat × Nat) :
    Option (Nat × Nat × Nat × Nat) :=
  let (r1, r2, r3) := recent
  if 3 < value then some (value - 3, value - 3, r1, r2)
  else
    match value + (if literals = 0 then 1 else 0) with
    | 1 => some (r1, r1, r2, r3)
    | 2 => some (r2, r2, r1, r3)
    | 3 => some (r3, r3, r1, r2)
    | _ => if r1 ≤ 1 then none else some (r1 - 1, r1 - 1, r1, r2)

/-- Copies octets from `offset` before the end, one at a time. -/
def copyMatch (offset : Nat) : Nat → Array UInt8 → Array UInt8
  | 0, out => out
  | n + 1, out => copyMatch offset n (out.push (out.getD (out.size - offset) 0))

/-- The tables that the sequences of a block are coded with. -/
structure SequenceTables where
  literalLengths : FseTable
  offsets : FseTable
  matchLengths : FseTable

/-- Where the decoding of sequences stands. -/
structure SequenceState where
  literalLength : FseState
  offset : FseState
  matchLength : FseState
  bits : BackwardBits
  recent : Nat × Nat × Nat
  /-- Literals used so far. -/
  used : Nat
  out : Array UInt8

/-- Reads one sequence and carries it out. -/
def SequenceState.apply? (s : SequenceState) (literals : Array UInt8) : Option SequenceState := do
  if 31 < s.offset.symbol then none
  let (extra, b) ← s.bits.read? s.offset.symbol
  let value := pow2 s.offset.symbol + extra
  let (base, n) := matchLengthCodes.getD s.matchLength.symbol (0, 0)
  let (extra, b) ← b.read? n
  let matchLength := base + extra
  let (base, n) := literalLengthCodes.getD s.literalLength.symbol (0, 0)
  let (extra, b) ← b.read? n
  let literalLength := base + extra
  if literals.size < s.used + literalLength then none
  let (offset, recent) ← resolveOffset? value literalLength s.recent
  let out := s.out ++ literals.extract s.used (s.used + literalLength)
  if offset = 0 ∨ out.size < offset then none
  return { s with
    bits := b, recent, used := s.used + literalLength, out := copyMatch offset matchLength out }

/-- Moves on to the states of the next sequence. -/
def SequenceState.advance? (s : SequenceState) (t : SequenceTables) : Option SequenceState := do
  let (literalLength, b) ← t.literalLengths.next? s.literalLength s.bits
  let (matchLength, b) ← t.matchLengths.next? s.matchLength b
  let (offset, b) ← t.offsets.next? s.offset b
  return { s with literalLength, matchLength, offset, bits := b }

/-- Carries out `n` sequences, which have to use up the stream. -/
def applySequences? (t : SequenceTables) (literals : Array UInt8) :
    Nat → SequenceState → Option SequenceState
  | 0, s => if s.bits.left = 0 then some s else none
  | 1, s => do
    let s ← s.apply? literals
    if s.bits.left = 0 then some s else none
  | n + 2, s => do
    let s ← s.apply? literals
    let s ← s.advance? t
    applySequences? t literals (n + 1) s

/-- The number of sequences and the offset after it. -/
def readSequenceCount? (data : Array UInt8) (i stop : Nat) : Option (Nat × Nat) :=
  let b := (data.getD i 0).toNat
  if stop ≤ i then none
  else if b < 128 then some (b, i + 1)
  else if b < 255 then
    if stop < i + 2 then none else some ((b - 128) * 256 + (data.getD (i + 1) 0).toNat, i + 2)
  else if stop < i + 3 then none else some (littleEndian data (i + 1) 2 + 0x7F00, i + 3)

/-- Decodes the compressed block between two offsets onto the end of `out`. -/
def decodeBlock? (data : Array UInt8) (i stop limit : Nat) (c : Context) (out : Array UInt8) :
    Option (Array UInt8 × Context) := do
  let literals ← readLiterals? data i stop limit c.huffman
  let c := { c with huffman := literals.huffman }
  let (count, i) ← readSequenceCount? data literals.next stop
  if count = 0 then
    if i ≠ stop then none
    return (out ++ literals.bytes, c)
  else
    if stop ≤ i then none
    let modes := (data.getD i 0).toNat
    if modes % 4 ≠ 0 then none
    let (ll, i) ← readTable? data (i + 1) stop (modes / 64) 9 35 defaultLiteralLengths
      c.literalLengths
    let (off, i) ← readTable? data i stop (modes / 16 % 4) 8 31 defaultOffsets c.offsets
    let (ml, i) ← readTable? data i stop (modes / 4 % 4) 9 52 defaultMatchLengths c.matchLengths
    let b ← BackwardBits.open? data i (stop - i)
    let (literalLength, b) ← ll.first? b
    let (offset, b) ← off.first? b
    let (matchLength, b) ← ml.first? b
    let s ← applySequences? ⟨ll, off, ml⟩ literals.bytes count
      { literalLength, offset, matchLength, bits := b, recent := c.recent, used := 0, out }
    let out := s.out ++ literals.bytes.extract s.used literals.bytes.size
    return (out, { c with
      literalLengths := some ll, offsets := some off, matchLengths := some ml
      recent := s.recent })

end ChangeRelay.Zstd

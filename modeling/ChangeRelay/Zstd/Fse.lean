import ChangeRelay.Zstd.Bits

/-!
# Finite state entropy tables

A table of `2 ^ log` states, each with the symbol it stands for and the way to the next state. It
is built from the shares that the symbols have in it.
-/

namespace ChangeRelay.Zstd

/-- One state: its symbol, and a base to which `bits` further bits are added for the next state. -/
structure FseState where
  symbol : Nat
  bits : Nat
  base : Nat

/-- A table of states. -/
structure FseTable where
  log : Nat
  states : Array FseState

/-- Share of a symbol that occurs less than once in a table. -/
def lessThanOne : Int := -1

/-- The shares of symbols, and the offset of the octet after their description. -/
structure FseShares where
  log : Nat
  shares : Array Int
  next : Nat

/-- Reads the counts of skipped symbols, two bits at a time; `fuel` bounds their number. -/
def readZeroRun (data : Array UInt8) : Nat → Nat → Nat → Nat × Nat
  | 0, bit, n => (n, bit)
  | fuel + 1, bit, n =>
    let k := bitsAt data bit 2
    if k = 3 then readZeroRun data fuel (bit + 2) (n + 3) else (n + k, bit + 2)

/-- Reads shares until they fill the table; `fuel` bounds their number. -/
def readSharesFrom (data : Array UInt8) (maxSymbol : Nat) :
    Nat → Nat → Nat → Array Int → Option (Array Int × Nat)
  | 0, _, _, _ => none
  | fuel + 1, bit, remaining, shares =>
    if remaining = 0 then
      if shares.size ≤ maxSymbol + 1 then some (shares, bit) else none
    else if maxSymbol < shares.size then none
    else
      let bits := (remaining + 1).log2 + 1
      let value := bitsAt data bit bits
      let low := value % pow2 (bits - 1)
      let threshold := pow2 bits - 1 - (remaining + 1)
      let (value, used) :=
        if low < threshold then (low, bits - 1)
        else (if pow2 (bits - 1) ≤ value then value - threshold else value, bits)
      let share : Int := (value : Int) - 1
      if remaining < share.natAbs then none
      else
        let shares := shares.push share
        let (zeros, bit) := if share = 0 then readZeroRun data 128 (bit + used) 0
          else (0, bit + used)
        readSharesFrom data maxSymbol fuel bit (remaining - share.natAbs)
          (shares ++ Array.replicate zeros 0)

/-- Reads a description of shares that starts at an octet. -/
def readShares? (data : Array UInt8) (i stop maxLog maxSymbol : Nat) : Option FseShares := do
  if stop ≤ i then none
  let log := bitsAt data (8 * i) 4 + 5
  if maxLog < log then none
  let (shares, bit) ← readSharesFrom data maxSymbol 512 (8 * i + 4) (pow2 log) #[]
  let next := (bit + 7) / 8
  if stop < next then none
  return { log, shares, next }

/-- Puts the symbols with less than one state at the end of the table; answers the table and the
number of states left for the others. -/
def placeRare (size : Nat) (shares : Array Int) : Array Nat × Nat :=
  (List.range shares.size).foldl
    (fun (t, free) s =>
      if shares.getD s 0 = lessThanOne then (t.setIfInBounds (free - 1) s, free - 1) else (t, free))
    (Array.replicate size 0, size)

/-- The next free position; `fuel` bounds the number of steps. -/
def nextPosition (size free : Nat) : Nat → Nat → Nat
  | 0, p => p
  | fuel + 1, p =>
    let p := (p + size / 2 + size / 8 + 3) % size
    if p < free then p else nextPosition size free fuel p

/-- The symbol of each state. -/
def spreadSymbols (size : Nat) (shares : Array Int) : Array Nat :=
  let (table, free) := placeRare size shares
  ((List.range shares.size).foldl
    (fun acc s =>
      (List.range (shares.getD s 0).toNat).foldl
        (fun (t, p) _ => (t.setIfInBounds p s, nextPosition size free size p)) acc)
    (table, 0)).1

/-- The table in which symbols have these shares. -/
def buildFse (log : Nat) (shares : Array Int) : FseTable :=
  let size := pow2 log
  let symbols := spreadSymbols size shares
  let start := shares.map fun share => if share = lessThanOne then 1 else share.toNat
  let (states, _) := symbols.foldl
    (fun (states, counts) s =>
      let n := counts.getD s 1
      let bits := log - n.log2
      (states.push { symbol := s, bits, base := n * pow2 bits - size },
        counts.setIfInBounds s (n + 1)))
    ((Array.emptyWithCapacity size : Array FseState), start)
  { log, states }

/-- A table with one state. -/
def singleFse (symbol : Nat) : FseTable := { log := 0, states := #[⟨symbol, 0, 0⟩] }

namespace FseTable

def state (t : FseTable) (n : Nat) : FseState := t.states.getD n ⟨0, 0, 0⟩

/-- Reads the first state. -/
def first? (t : FseTable) (b : BackwardBits) : Option (FseState × BackwardBits) :=
  (b.read? t.log).map fun p => (t.state p.1, p.2)

/-- Reads the state after another. -/
def next? (t : FseTable) (s : FseState) (b : BackwardBits) : Option (FseState × BackwardBits) :=
  (b.read? s.bits).map fun p => (t.state (s.base + p.1), p.2)

end FseTable

end ChangeRelay.Zstd

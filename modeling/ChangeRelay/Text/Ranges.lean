/-!
# Tables of code point ranges

A Unicode property is stored as the list of its maximal ranges, both ends included.
-/

namespace ChangeRelay.Text

/-- The ranges of a Unicode property, both ends included. -/
abbrev Ranges := List (Nat × Nat)

/-- Whether a code point lies in one of the ranges. -/
def Ranges.contains (table : Ranges) (n : Nat) : Bool :=
  table.any fun r => r.1 ≤ n && n ≤ r.2

end ChangeRelay.Text

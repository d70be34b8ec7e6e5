import ChangeRelay.Yaml.Token

/-!
# YAML documents

The tree that a document describes: scalars, sequences, and mappings in the order in which they
are written. A place where a value is missing holds an empty plain scalar.
-/

namespace ChangeRelay.Yaml

/-- A node of a document. -/
inductive Node where
  | scalar (plain : Bool) (text : String)
  | sequence (items : List Node)
  | mapping (pairs : List (Node × Node))

namespace Node

/-- What stands where nothing is written. -/
def empty : Node := .scalar true ""

/-- Where a value in a block may be missing: before these tokens. -/
def endsValue : List Token → Bool
  | .key :: _ | .value :: _ | .blockEnd :: _ => true
  | _ => false

mutual

/-- The node at the front of the tokens. `block` says that block collections may begin here, and
`unindented` that a sequence may begin here without indentation. -/
def ofFront (fuel : Nat) (block unindented : Bool) (ts : List Token) :
    Option (Node × List Token) :=
  match fuel with
  | 0 => none
  | fuel + 1 =>
    match ts with
    | .entry :: _ => if unindented then entries fuel true [] ts else none
    | .scalar plain text :: rest => some (.scalar plain text, rest)
    | .openSequence :: rest => items fuel true [] rest
    | .openMapping :: rest => flowPairs fuel true [] rest
    | .blockSequence :: rest => if block then entries fuel false [] rest else none
    | .blockMapping :: rest => if block then blockPairs fuel [] rest else none
    | _ => none
termination_by structural fuel

/-- The items of a block sequence; `acc` holds those before, the last first. -/
def entries (fuel : Nat) (unindented : Bool) (acc : List Node) (ts : List Token) :
    Option (Node × List Token) :=
  match fuel with
  | 0 => none
  | fuel + 1 =>
    match ts with
    | .entry :: rest =>
      let missing := match rest with
        | .entry :: _ | .blockEnd :: _ => true
        | .key :: _ | .value :: _ => unindented
        | _ => false
      if missing then entries fuel unindented (empty :: acc) rest
      else
        match ofFront fuel true false rest with
        | none => none
        | some (n, rest) => entries fuel unindented (n :: acc) rest
    | ts =>
      if unindented then some (.sequence acc.reverse, ts)
      else
        match ts with
        | .blockEnd :: rest => some (.sequence acc.reverse, rest)
        | _ => none
termination_by structural fuel

/-- The pairs of a block mapping. -/
def blockPairs (fuel : Nat) (acc : List (Node × Node)) (ts : List Token) :
    Option (Node × List Token) :=
  match fuel with
  | 0 => none
  | fuel + 1 =>
    match ts with
    | .blockEnd :: rest => some (.mapping acc.reverse, rest)
    | .key :: rest =>
      match blockPart fuel rest with
      | none => none
      | some (k, .value :: rest) =>
        match blockPart fuel rest with
        | none => none
        | some (v, rest) => blockPairs fuel ((k, v) :: acc) rest
      | some (k, rest) => blockPairs fuel ((k, empty) :: acc) rest
    | _ => none
termination_by structural fuel

/-- A key or a value of a block mapping, which may be missing. -/
def blockPart (fuel : Nat) (ts : List Token) : Option (Node × List Token) :=
  match fuel with
  | 0 => none
  | fuel + 1 => if endsValue ts then some (empty, ts) else ofFront fuel true true ts
termination_by structural fuel

/-- The items of a sequence in brackets; `first` says that no comma has to come before. -/
def items (fuel : Nat) (first : Bool) (acc : List Node) (ts : List Token) :
    Option (Node × List Token) :=
  match fuel with
  | 0 => none
  | fuel + 1 =>
    match ts with
    | .closeSequence :: rest => some (.sequence acc.reverse, rest)
    | .comma :: rest =>
      if first then none
      else
        match rest with
        | .closeSequence :: rest => some (.sequence acc.reverse, rest)
        | rest => item fuel acc rest
    | ts => if first then item fuel acc ts else none
termination_by structural fuel

/-- One item and those behind it; a pair in brackets is a mapping of its own. -/
def item (fuel : Nat) (acc : List Node) (ts : List Token) : Option (Node × List Token) :=
  match fuel with
  | 0 => none
  | fuel + 1 =>
    match ts with
    | .key :: rest =>
      match flowPart fuel rest with
      | none => none
      | some (k, .value :: rest) =>
        match flowPart fuel rest with
        | none => none
        | some (v, rest) => items fuel false (.mapping [(k, v)] :: acc) rest
      | some (k, rest) => items fuel false (.mapping [(k, empty)] :: acc) rest
    | ts =>
      match ofFront fuel false false ts with
      | none => none
      | some (n, rest) => items fuel false (n :: acc) rest
termination_by structural fuel

/-- The pairs of a mapping in braces. -/
def flowPairs (fuel : Nat) (first : Bool) (acc : List (Node × Node)) (ts : List Token) :
    Option (Node × List Token) :=
  match fuel with
  | 0 => none
  | fuel + 1 =>
    match ts with
    | .closeMapping :: rest => some (.mapping acc.reverse, rest)
    | .comma :: rest =>
      if first then none
      else
        match rest with
        | .closeMapping :: rest => some (.mapping acc.reverse, rest)
        | rest => flowPair fuel acc rest
    | ts => if first then flowPair fuel acc ts else none
termination_by structural fuel

/-- One pair and those behind it; a node without a colon is a key without a value. -/
def flowPair (fuel : Nat) (acc : List (Node × Node)) (ts : List Token) :
    Option (Node × List Token) :=
  match fuel with
  | 0 => none
  | fuel + 1 =>
    match ts with
    | .key :: rest =>
      match flowPart fuel rest with
      | none => none
      | some (k, .value :: rest) =>
        match flowPart fuel rest with
        | none => none
        | some (v, rest) => flowPairs fuel false ((k, v) :: acc) rest
      | some (k, rest) => flowPairs fuel false ((k, empty) :: acc) rest
    | ts =>
      match ofFront fuel false false ts with
      | none => none
      | some (k, rest) => flowPairs fuel false ((k, empty) :: acc) rest
termination_by structural fuel

/-- A key or a value in brackets, which may be missing. -/
def flowPart (fuel : Nat) (ts : List Token) : Option (Node × List Token) :=
  match fuel with
  | 0 => none
  | fuel + 1 =>
    match ts with
    | .value :: _ | .comma :: _ | .closeSequence :: _ | .closeMapping :: _ => some (empty, ts)
    | ts => ofFront fuel false false ts
termination_by structural fuel

end

/-- The tokens from the first that marks no end of a document. -/
def skipEnds : List Token → List Token
  | .documentEnd :: rest => skipEnds rest
  | ts => ts

/-- The one document of a text. -/
def ofTokens? (ts : List Token) : Option Node := do
  let (body, marked) := match skipEnds ts with
    | .documentStart :: rest => (rest, true)
    | rest => (rest, false)
  let (node, rest) ← match body with
    | [] => if marked then some (empty, []) else none
    | .documentStart :: _ | .documentEnd :: _ => some (empty, body)
    | body => ofFront (4 * ts.length + 4) true false body
  if skipEnds rest = [] then some node else none

/-- The document that a text holds; none if it is no well-formed text of one document. -/
def parse? (text : String) : Option Node := do ofTokens? (← tokens? text)

end Node

end ChangeRelay.Yaml

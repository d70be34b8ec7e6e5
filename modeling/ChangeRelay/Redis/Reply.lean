import ChangeRelay.Assoc
import ChangeRelay.Text.Bytes
import ChangeRelay.Text.Decimal

/-!
# Redis replies

What a Redis server answers, and how typed data is read out of it. A map may also be given as a
flat array of its keys and values, and nil stands for an empty collection.
-/

namespace ChangeRelay.Redis

/-- A reply of the server. -/
inductive Reply where
  | nil
  | int (n : Int)
  | bulk (bytes : Bytes)
  | simple (text : String)
  | array (items : List Reply)
  | map (pairs : List (Reply × Reply))
  | error (text : String)

/-- A command with its arguments. -/
abbrev Command := List Bytes

/-- A command of texts. -/
def command (args : List String) : Command := args.map Text.encodeUtf8

/-- The text of a bulk string of well-formed UTF-8. -/
def bulkText? (bytes : Bytes) : Option String :=
  match Text.decodeUtf8 bytes with
  | .ok s => some s
  | .error _ => none

namespace Reply

/-- A reply as a text; numbers are written out. -/
def text? : Reply → Option String
  | .bulk bytes => bulkText? bytes
  | .simple s => some s
  | .int n => some (toString n)
  | _ => none

/-- A text that is one already, not a number. -/
def string? : Reply → Option String
  | .bulk bytes => bulkText? bytes
  | .simple s => some s
  | _ => none

/-- Neighbours in pairs; none if one is left over. -/
def pairUp? : List Reply → Option (List (Reply × Reply))
  | [] => some []
  | [_] => none
  | k :: v :: rest => (pairUp? rest).map ((k, v) :: ·)

/-- The pairs of a map. -/
def pairs? : Reply → Option (List (Reply × Reply))
  | .map ps => some ps
  | .array items => pairUp? items
  | .nil => some []
  | _ => none

/-- The items of a list; a map is a list of maps of one pair. -/
def items? : Reply → Option (List Reply)
  | .array items => some items
  | .map ps => some (ps.map fun p => .map [p])
  | .nil => some []
  | _ => none

/-- A truth value. -/
def bool? : Reply → Option Bool
  | .nil => some false
  | .int n => some (n ≠ 0)
  | .simple "1" | .simple "OK" => some true
  | .simple "0" => some false
  | .bulk [0x31] => some true
  | .bulk [0x30] => some false
  | _ => none

/-- A signed numeral. -/
def readInt? : List Char → Option Int
  | '-' :: cs => (Text.readNat? cs).map fun n => -(n : Int)
  | cs => (Text.readUnsigned? cs).map fun n => (n : Int)

/-- A signed word, also as a text. -/
def int? (r : Reply) : Option Int :=
  match r with
  | .int n => some n
  | r =>
    match (r.string?).bind fun s => readInt? s.toList with
    | some n => if -(pow2 63 : Int) ≤ n ∧ n < pow2 63 then some n else none
    | none => none

/-- A text, or nil. -/
def optionalText? : Reply → Option (Option String)
  | .nil => some none
  | r => r.text?.map some

/-- Fields by name, of which the last of a name counts. -/
def fields? (r : Reply) : Option (List (String × Reply)) :=
  (r.pairs?).bind fun ps =>
    (ps.mapM fun (p : Reply × Reply) => (p.1.text?).map fun k => (k, p.2)).map Assoc.ofList

mutual

/-- A reply as messages show it. -/
def describe : Reply → String
  | .nil => "nil"
  | .int n => s!"int({n})"
  | .bulk bytes =>
    match bulkText? bytes with
    | some s => s!"bulk-string('{Text.quoted s}')"
    | none =>
      "binary-data([" ++ String.intercalate ", " (bytes.map fun b => toString b.toNat) ++ "])"
  | .simple s => if s = "OK" then "ok" else s!"simple-string({Text.quoted s})"
  | .array items => "array([" ++ String.intercalate ", " (showItems items) ++ "])"
  | .map ps => "map([" ++ String.intercalate ", " (showPairs ps) ++ "])"
  | .error s => s!"Server error: `{s}`"

def showItems : List Reply → List String
  | [] => []
  | r :: rs => describe r :: showItems rs

def showPairs : List (Reply × Reply) → List String
  | [] => []
  | (k, v) :: ps => ("(" ++ describe k ++ ", " ++ describe v ++ ")") :: showPairs ps

end

end Reply

end ChangeRelay.Redis

import ChangeRelay.Text.Blank
import ChangeRelay.Text.Lowercase

/-!
# Distinguished names

A name is a list of RDNs separated by unescaped commas. Its normal form lowercases every attribute
type and value and drops the blanks around commas and equality signs; scope is decided between
normal forms.
-/

namespace ChangeRelay.Dn

/-- Puts a character in front of the first piece. -/
def prepend (c : Char) : List (List Char) → List (List Char)
  | [] => [[c]]
  | p :: ps => (c :: p) :: ps

/-- Splits at unescaped commas; `escaped` says that the character before was a backslash that
escapes this one. -/
def splitFrom (escaped : Bool) : List Char → List (List Char)
  | [] => [[]]
  | c :: rest =>
    if c = ',' && !escaped then [] :: splitFrom false rest
    else prepend c (splitFrom (c = '\\' && !escaped) rest)

/-- The pieces of a text between its unescaped commas. -/
def split (cs : List Char) : List (List Char) := splitFrom false cs

/-- The RDNs of a name; the empty name has none. -/
def rdns (cs : List Char) : List (List Char) := if cs = [] then [] else split cs

/-- The normal form of one RDN: its type and value without blanks around them, lowercased. None
if it has no equality sign, or nothing on one side of it. -/
def normalizeRdn? (rdn : List Char) : Option (List Char) :=
  match rdn.dropWhile (· ≠ '=') with
  | [] => none
  | _ :: value =>
    let name := Text.trimChars (rdn.takeWhile (· ≠ '='))
    let value := Text.trimChars value
    if name = [] ∨ value = [] then none
    else some (Text.lowercaseChars name ++ '=' :: Text.lowercaseChars value)

/-- A name with an RDN that has no normal form; both are trimmed. -/
structure InvalidRdn where
  rdn : String
  dn : String
deriving DecidableEq, Repr

def InvalidRdn.message (e : InvalidRdn) : String := s!"invalid RDN '{e.rdn}' in '{e.dn}'"

/-- The normal forms of RDNs, or the first of them that has none. -/
def normalizeRdns : List (List Char) → Except (List Char) (List (List Char))
  | [] => .ok []
  | rdn :: rest =>
    match normalizeRdn? rdn with
    | none => .error rdn
    | some n => (normalizeRdns rest).map (n :: ·)

/-- RDNs joined by commas. -/
def join (rdns : List (List Char)) : List Char := List.intercalate [','] rdns

/-- The normal form of a name's characters, or the RDN that has none. -/
def normalizeChars (cs : List Char) : Except (List Char) (List Char) :=
  let cs := Text.trimChars cs
  if cs = [] then .ok [] else (normalizeRdns (split cs)).map join

/-- The normal form of a name. The empty name is the root and its own normal form. -/
def normalize (dn : String) : Except InvalidRdn String :=
  match normalizeChars dn.toList with
  | .ok cs => .ok (String.ofList cs)
  | .error rdn => .error ⟨String.ofList (Text.trimChars rdn), Text.trim dn⟩

/-- How far below its base a search reaches. -/
inductive Scope where
  /-- The base itself. -/
  | base
  /-- The direct children of the base. -/
  | one
  /-- The base and everything below it. -/
  | sub
deriving DecidableEq, Repr

/-- The number of RDNs. -/
def depth (cs : List Char) : Nat := (rdns cs).length

/-- Whether a name is the base or ends in a comma and the base. -/
def isUnder (base dn : List Char) : Bool :=
  base = [] || dn = base || (',' :: base).isSuffixOf dn

/-- Whether a name lies in the scope of a base, both in normal form. -/
def inScope (dn base : List Char) (scope : Scope) : Bool :=
  isUnder base dn &&
    match scope with
    | .base => dn = base
    | .one => depth dn = depth base + 1
    | .sub => true

end ChangeRelay.Dn

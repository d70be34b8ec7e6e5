import ChangeRelay.Dn
import ChangeRelay.Fault
import ChangeRelay.Json.Decode

/-!
# Source queries

What a stream asks its source for: a base, a scope and a filter. The filter is passed on as it is;
only its shape is checked, one pair of balanced parentheses around everything.
-/

namespace ChangeRelay

namespace Filter

/-- Why a filter is refused. -/
inductive Fault where
  | notParenthesized (filter : String)
  | unbalanced (filter : String)
  | empty
deriving DecidableEq, Repr

def Fault.message : Fault → String
  | .notParenthesized f => s!"filter '{f}' must be parenthesized"
  | .unbalanced f => s!"unbalanced filter '{f}'"
  | .empty => "empty filter"

/-- Whether the text closes `depth` open parentheses, the last of them with its last character;
`escaped` says that its first character is escaped. -/
def closes (depth : Nat) (escaped : Bool) : List Char → Bool
  | [] => depth = 0
  | c :: rest =>
    if escaped then closes depth false rest
    else if c = '\\' then closes depth true rest
    else if c = '(' then closes (depth + 1) false rest
    else if c = ')' then
      match depth with
      | 0 => false
      | 1 => rest = []
      | d + 2 => closes (d + 1) false rest
    else closes depth false rest

/-- Checks the shape of a filter. -/
def validate (filter : String) : Except Fault Unit :=
  let f := Text.trimChars filter.toList
  if f.head? ≠ some '(' ∨ f.getLast? ≠ some ')' then .error (.notParenthesized filter)
  else if !closes 0 false f then .error (.unbalanced filter)
  else if f = ['(', ')'] then .error .empty
  else .ok ()

end Filter

/-- What a stream subscribes to. -/
structure Query where
  /-- Search base; the empty name is the whole tree. -/
  baseDn : String
  scope : Dn.Scope := .sub
  filter : String := "(objectClass=*)"
deriving DecidableEq, Repr

/-- A scope test bound to a normal base. -/
structure Matcher where
  base : String
  scope : Dn.Scope
deriving DecidableEq, Repr

/-- Whether a target, in normal form, is in scope. -/
def Matcher.accepts (m : Matcher) (target : String) : Bool :=
  Dn.inScope target.toList m.base.toList m.scope

namespace Query

/-- Everything below a base. -/
def subtree (baseDn : String) : Query := { baseDn }

/-- The scope test of a query; the base is checked before the filter. -/
def matcher (q : Query) : Except FeedFault Matcher :=
  match Dn.normalize q.baseDn with
  | .error e => .error (.invalidQuery e.message)
  | .ok base =>
    match Filter.validate q.filter with
    | .error e => .error (.invalidQuery e.message)
    | .ok () => .ok ⟨base, q.scope⟩

/-- Checks base and filter. -/
def validate (q : Query) : Except FeedFault Unit := q.matcher.map fun _ => ()

/-- The words of scopes. -/
def scopeWords : List (String × Dn.Scope) := [("base", .base), ("one", .one), ("sub", .sub)]

def scopeWord : Dn.Scope → String
  | .base => "base"
  | .one => "one"
  | .sub => "sub"

def toValue (q : Query) : Json.Value :=
  .object [("base_dn", .string q.baseDn), ("filter", .string q.filter),
    ("scope", .string (scopeWord q.scope))]

def decode (v : Json.Value) : Json.Decoded Query := do
  let p ← v.parts "Query" ["base_dn", "scope", "filter"]
  let baseDn ← p.required 0 Json.Value.decodeString
  let scope ← p.optional 1 .sub (Json.Value.decodeWordOf "Scope" scopeWords)
  let filter ← p.optional 2 "(objectClass=*)" Json.Value.decodeString
  return { baseDn, scope, filter }

end Query

end ChangeRelay

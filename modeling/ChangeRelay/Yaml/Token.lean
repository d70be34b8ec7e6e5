import ChangeRelay.Yaml.Scalar

/-!
# Tokens of YAML texts

A text is cut into indicators and scalars, and the indentation is turned into tokens that open and
close block collections. A mapping need not say where it begins: a scalar or a bracketed
collection turns out to be its first key when a colon follows on the same line, and only then the
tokens before it are put in.

Anchors (`&`), aliases (`*`), tags (`!`) and directives (`%`) are not read: `Scan.take` refuses a
text with one of them, though YAML has them and the library that reads configuration files takes
them. A configuration needs none, and what is proved of configurations is about those that were
read.
-/

namespace ChangeRelay.Yaml

/-- A token. -/
inductive Token where
  | documentStart
  | documentEnd
  | blockSequence
  | blockMapping
  /-- Ends a block collection. -/
  | blockEnd
  /-- The dash before an item. -/
  | entry
  | key
  | value
  | openSequence
  | closeSequence
  | openMapping
  | closeMapping
  /-- The comma between items in brackets. -/
  | comma
  /-- A scalar; `plain` if it is written without quotes and not as a block. -/
  | scalar (plain : Bool) (text : String)
deriving DecidableEq, Repr

/-- A token that may turn out to be a key: the tokens before it, and its place. -/
structure Candidate where
  position : Nat
  place : Place
  /-- Nothing but a key may stand there. -/
  required : Bool

/-- How far a text is cut up. -/
structure Scan where
  cursor : Cursor
  /-- The tokens, the last first. -/
  tokens : List Token := []
  /-- The columns of the open block collections, the innermost first. -/
  indents : List Nat := []
  /-- The possible key of each level of brackets, the innermost first; the last is for the text
  outside of them. -/
  candidates : List (Option Candidate) := [none]
  /-- Whether a key may begin here. -/
  keyAllowed : Bool := true

/-- How long a key may be. -/
def maxKeyLength : Nat := 1024

namespace Scan

def place (s : Scan) : Place := s.cursor.place

/-- Whether brackets are open. -/
def inFlow (s : Scan) : Bool := 1 < s.candidates.length

def push (s : Scan) (t : Token) : Scan := { s with tokens := t :: s.tokens }

/-- Puts tokens in behind the first `position`, the last of them first. -/
def insertAt (s : Scan) (position : Nat) (ts : List Token) : Scan :=
  let behind := s.tokens.length - position
  { s with tokens := s.tokens.take behind ++ ts ++ s.tokens.drop behind }

/-- Goes on by some characters of a line. -/
def skip (s : Scan) (n : Nat) : Scan :=
  let p := s.place
  { s with cursor :=
      ⟨s.cursor.rest.drop n, { p with index := p.index + n, column := p.column + n }⟩ }

/-- Whether a column lies inside the innermost block collection. -/
def isInside (s : Scan) (column : Nat) : Bool :=
  match s.indents with
  | [] => true
  | n :: _ => n < column

/-- The first column inside the innermost block collection. -/
def leastColumn (s : Scan) : Nat :=
  match s.indents with
  | [] => 0
  | n :: _ => n + 1

/-- Opens a block collection at a column, unless it is open already. -/
def openBlock (s : Scan) (column position : Nat) (t : Token) : Scan :=
  if !s.inFlow && s.isInside column then
    { s.insertAt position [t] with indents := column :: s.indents }
  else s

/-- The block collections that stay open at a column; none for the end of the document. -/
def staysOpen (column : Option Nat) (n : Nat) : Bool :=
  match column with
  | some c => n ≤ c
  | none => false

/-- Closes the block collections that a column lies outside of. -/
def closeBlocks (s : Scan) (column : Option Nat) : Scan :=
  if s.inFlow then s
  else
    let closed := s.indents.takeWhile fun n => !staysOpen column n
    { s with
      tokens := closed.map (fun _ => .blockEnd) ++ s.tokens
      indents := s.indents.drop closed.length }

/-- Takes back the possible key of the current level; one that is required must not be missing. -/
def dropCandidate (s : Scan) : Option Scan :=
  match s.candidates with
  | some c :: rest => if c.required then none else some { s with candidates := none :: rest }
  | _ => some s

/-- Notes that a key may begin here. -/
def noteCandidate (s : Scan) : Option Scan :=
  if s.keyAllowed then do
    let s ← s.dropCandidate
    let required := !s.inFlow && s.indents.head? = some s.place.column
    let candidate : Candidate := ⟨s.tokens.length, s.place, required⟩
    return { s with candidates := some candidate :: s.candidates.tail }
  else some s

/-- A possible key that has become too long, or runs over its line, is none. -/
def refresh (p : Place) : Option Candidate → Option (Option Candidate)
  | none => some none
  | some c =>
    if c.place.line < p.line || c.place.index + maxKeyLength < p.index then
      if c.required then none else some none
    else some (some c)

/-- Goes past blanks, comments and breaks. A tab does not count as indentation. -/
def skipBlanks (inFlow keyAllowed inComment : Bool) (p : Place) : List Char → Cursor × Bool
  | [] => (⟨[], p⟩, keyAllowed)
  | c :: rest =>
    if isBreak c then skipBlanks inFlow (keyAllowed || !inFlow) false p.newLine rest
    else if inComment then skipBlanks inFlow keyAllowed true p.next rest
    else if c = ' ' || (c = '\t' && (inFlow || !keyAllowed)) then
      skipBlanks inFlow keyAllowed false p.next rest
    else if c = '#' then skipBlanks inFlow keyAllowed true p.next rest
    else (⟨c :: rest, p⟩, keyAllowed)

/-- Goes to the next token: past what separates tokens, out of block collections that end here. -/
def advance (s : Scan) : Option Scan := do
  let (cursor, keyAllowed) :=
    skipBlanks s.inFlow s.keyAllowed false s.place s.cursor.rest
  let s := { s with cursor, keyAllowed }
  let candidates ← s.candidates.mapM (refresh s.place)
  let s := { s with candidates }
  return s.closeBlocks (some s.place.column)

/-- Takes a mark of a document's start or end. -/
def documentMark (s : Scan) (t : Token) : Option Scan := do
  let s ← (s.closeBlocks none).dropCandidate
  return { (s.push t).skip 3 with keyAllowed := false }

/-- Takes an opening bracket. -/
def openFlow (s : Scan) (t : Token) : Option Scan := do
  let s ← s.noteCandidate
  let s := { s with candidates := none :: s.candidates, keyAllowed := true }
  return (s.push t).skip 1

/-- Takes a closing bracket. -/
def closeFlow (s : Scan) (t : Token) : Option Scan := do
  let s ← s.dropCandidate
  let candidates := match s.candidates with
    | _ :: c :: rest => c :: rest
    | cs => cs
  return ({ s with candidates, keyAllowed := false }.push t).skip 1

/-- Takes a comma. -/
def comma (s : Scan) : Option Scan := do
  let s ← s.dropCandidate
  return ({ s with keyAllowed := true }.push .comma).skip 1

/-- Opens a block collection for an indicator that stands at the current place. -/
def openHere (s : Scan) (t : Token) : Option Scan :=
  if s.inFlow then some s
  else if s.keyAllowed then some (s.openBlock s.place.column s.tokens.length t)
  else none

/-- Takes the dash before an item. -/
def entry (s : Scan) : Option Scan := do
  let s ← (← s.openHere .blockSequence).dropCandidate
  return ({ s with keyAllowed := true }.push .entry).skip 1

/-- Takes the question mark before a key. -/
def explicitKey (s : Scan) : Option Scan := do
  let s ← (← s.openHere .blockMapping).dropCandidate
  return ({ s with keyAllowed := !s.inFlow }.push .key).skip 1

/-- Takes the colon before a value. The possible key before it, if there is one, becomes a key. -/
def colon (s : Scan) : Option Scan := do
  match s.candidates with
  | some c :: rest =>
    let s := { s with candidates := none :: rest, keyAllowed := false }
    let s := s.insertAt c.position [.key]
    return ((s.openBlock c.place.column c.position .blockMapping).push .value).skip 1
  | _ =>
    let s ← s.openHere .blockMapping
    return ({ s with keyAllowed := !s.inFlow }.push .value).skip 1

/-- Takes a scalar that was read. -/
def scalar (s : Scan) (plain : Bool) (r : ReadScalar) : Scan :=
  { s.push (.scalar plain r.text) with cursor := r.cursor, keyAllowed := r.brokeLine }

/-- Takes a scalar in quotes. -/
def quoted (s : Scan) (single : Bool) : Option Scan := do
  let s ← s.noteCandidate
  let s := s.skip 1
  return s.scalar false (← readQuoted single [] .none .text s.place s.cursor.rest)

/-- Takes a plain scalar. -/
def plain (s : Scan) : Option Scan := do
  let s ← s.noteCandidate
  return s.scalar true
    (← readPlain ⟨s.inFlow, s.leastColumn⟩ [] .none s.place s.cursor.rest)

/-- Takes a block scalar. -/
def block (s : Scan) (folded : Bool) : Option Scan := do
  let s ← s.dropCandidate
  let s := s.skip 1
  let (header, c) ← blockIndicators? folded s.cursor
  let s := { s with cursor := c }
  let s := s.skip (s.cursor.rest.takeWhile isBlank).length
  let s := match s.cursor.rest with
    | '#' :: _ => s.skip (s.cursor.rest.takeWhile fun c => !isBreak c).length
    | _ => s
  let s ← match s.cursor.rest with
    | [] => some s
    | c :: rest => if isBreak c then some { s with cursor := ⟨rest, s.place.newLine⟩ } else none
  let state : BlockState := { indent := header.increment.map fun n => n + (s.leastColumn - 1) }
  let r ← readBlock header s.leastColumn state false s.place s.cursor.rest
  return s.scalar false r

/-- Characters that begin no plain scalar. -/
def isIndicator (c : Char) : Bool :=
  isFlowMark c || c = '-' || c = '?' || c = ':' || c = '#' || c = '&' || c = '*' || c = '!' ||
    c = '|' || c = '>' || c = '\'' || c = '"' || c = '%' || c = '@' || c.toNat = 0x60

/-- Whether a plain scalar begins here; some indicators begin one if no blank follows. -/
def beginsPlain (inFlow : Bool) (c : Char) (rest : List Char) : Bool :=
  !(isIndicator c || isBlank c || isBreak c) ||
    (c = '-' && !(rest.head?.any isBlank)) ||
    (!inFlow && (c = '?' || c = ':') && !atBlank rest)

/-- Takes the token that begins at the current place. The marks of anchors, aliases, tags and
directives begin none. -/
def take (s : Scan) : Option Scan :=
  match s.cursor.rest with
  | [] => none
  | c :: rest =>
    if isDocumentMark s.place (c :: rest) then
      s.documentMark (if c = '-' then .documentStart else .documentEnd)
    else if c = '[' then s.openFlow .openSequence
    else if c = ']' then s.closeFlow .closeSequence
    else if c = Char.ofNat 0x7B then s.openFlow .openMapping
    else if c = Char.ofNat 0x7D then s.closeFlow .closeMapping
    else if c = ',' then s.comma
    else if c = '-' && atBlank rest then s.entry
    else if c = '?' && atBlank rest then s.explicitKey
    else if c = ':' && (s.inFlow || atBlank rest) then s.colon
    else if c = '\'' then s.quoted true
    else if c = '"' then s.quoted false
    else if !s.inFlow && (c = '|' || c = '>') then s.block (c = '>')
    else if beginsPlain s.inFlow c rest then s.plain
    else none

/-- Ends the text: all block collections are closed. -/
def finish (s : Scan) : Option (List Token) := do
  let s ← (s.closeBlocks none).dropCandidate
  return s.tokens.reverse

/-- Cuts up the rest of a text. Every token takes at least one character, so that `fuel` need not
be more than their number. -/
def run (s : Scan) : Nat → Option (List Token)
  | 0 => s.finish
  | fuel + 1 => do
    let s ← s.advance
    if s.cursor.rest = [] then s.finish
    else run (← s.take) fuel

end Scan

/-- Characters that a text may contain. -/
def isAllowed (c : Char) : Bool :=
  let n := c.toNat
  n = 9 || n = 10 || n = 13 || (0x20 ≤ n && n ≤ 0x7E) || n = 0x85 || (0xA0 ≤ n && n ≤ 0xD7FF) ||
    (0xE000 ≤ n && n ≤ 0xFFFD && n ≠ 0xFEFF) || 0x10000 ≤ n

/-- The text behind a byte order mark. -/
def withoutMark : List Char → List Char
  | c :: rest => if c.toNat = 0xFEFF then rest else c :: rest
  | [] => []

/-- The tokens of a text. -/
def tokens? (text : String) : Option (List Token) :=
  let cs := withoutMark text.toList
  if cs.all isAllowed then
    let cs := unifyBreaks cs
    ({ cursor := ⟨cs, {}⟩ } : Scan).run (cs.length + 1)
  else none

end ChangeRelay.Yaml

import ChangeRelay.Json.Reader

/-!
# Scalars of YAML texts

The three ways to write a scalar: plain, in quotes, and as a block. Each may run over several
lines, whose breaks are folded: a single break becomes a space, and of several all but the first
are kept. A reader takes the text from its place on and gives back the scalar with the text behind
it.
-/

namespace ChangeRelay.Yaml

/-- A place in a text: characters before it in the text and on its line, and lines above. -/
structure Place where
  index : Nat := 0
  line : Nat := 0
  column : Nat := 0
deriving DecidableEq, Repr

/-- The rest of a text, and its place. -/
structure Cursor where
  rest : List Char
  place : Place := {}

def isBlank (c : Char) : Bool := c = ' ' || c = '\t'

/-- The characters that end a line, once `unifyBreaks` has been over the text. -/
def isBreak (c : Char) : Bool := c = '\n' || c.toNat = 0x2028 || c.toNat = 0x2029

/-- Writes every break of one line as a line feed: a carriage return with or without a line feed
after it, and the control character for a next line. -/
def unifyBreaks : List Char → List Char
  | [] => []
  | '\r' :: '\n' :: rest => '\n' :: unifyBreaks rest
  | c :: rest => (if c = '\r' || c.toNat = 0x85 then '\n' else c) :: unifyBreaks rest

/-- Whether a text ends here, or goes on with a blank or a break. -/
def atBlank : List Char → Bool
  | [] => true
  | c :: _ => isBlank c || isBreak c

/-- The place behind a character that ends no line. -/
def Place.next (p : Place) : Place := { p with index := p.index + 1, column := p.column + 1 }

/-- The place behind a break. -/
def Place.newLine (p : Place) : Place := { index := p.index + 1, line := p.line + 1, column := 0 }

/-- Whether a line that begins here marks the start or the end of a document. -/
def isDocumentMark (p : Place) (cs : List Char) : Bool :=
  p.column = 0 && (cs.take 3 = "---".toList || cs.take 3 = "...".toList) && atBlank (cs.drop 3)

/-- White space inside a scalar that may still turn out to be at its end. -/
inductive Gap where
  | none
  /-- Blanks within a line, the last first. -/
  | blanks (cs : List Char)
  /-- A first break and those after it, the last first. An escaped break counts as no first one. -/
  | breaks (first : Option Char) (more : List Char)

/-- A gap with one more break. -/
def Gap.addBreak (b : Char) : Gap → Gap
  | .breaks first more => .breaks first (b :: more)
  | _ => .breaks (some b) []

/-- A gap with one more blank; blanks at the beginning of a line do not count. -/
def Gap.addBlank (c : Char) : Gap → Gap
  | .none => .blanks [c]
  | .blanks cs => .blanks (c :: cs)
  | g => g

/-- A gap as it stands inside the scalar, the last character first. -/
def Gap.folded : Gap → List Char
  | .none => []
  | .blanks cs => cs
  | .breaks (some '\n') [] => [' ']
  | .breaks (some '\n') more => more
  | .breaks (some b) more => more ++ [b]
  | .breaks .none more => more

def Gap.isBreaks : Gap → Bool
  | .breaks .. => true
  | _ => false

/-! ## Plain scalars -/

/-- Where a plain scalar stands. -/
structure PlainContext where
  /-- Within brackets or braces. -/
  flow : Bool
  /-- The least column of its further lines, outside of brackets. -/
  indent : Nat

/-- Characters that structure a collection in brackets. -/
def isFlowMark (c : Char) : Bool :=
  c = ',' || c = '[' || c = ']' || c = Char.ofNat 0x7B || c = Char.ofNat 0x7D

/-- Whether a plain scalar ends before this character. -/
def endsPlain (flow : Bool) (c : Char) (rest : List Char) : Bool :=
  (c = ':' && atBlank rest) || (flow && isFlowMark c)

/-- A scalar that was read, the text behind it, and whether a line break came last. -/
structure ReadScalar where
  text : String
  cursor : Cursor
  brokeLine : Bool := false

/-- Reads a plain scalar; `acc` is what was read, the last character first. -/
def readPlain (ctx : PlainContext) (acc : List Char) (gap : Gap) (p : Place) :
    List Char → Option ReadScalar
  | [] => some ⟨String.ofList acc.reverse, ⟨[], p⟩, gap.isBreaks⟩
  | c :: rest =>
    let done : Option ReadScalar := some ⟨String.ofList acc.reverse, ⟨c :: rest, p⟩, gap.isBreaks⟩
    if isBlank c then
      if gap.isBreaks && p.column < ctx.indent && c = '\t' then none
      else readPlain ctx acc (gap.addBlank c) p.next rest
    else if isBreak c then readPlain ctx acc (gap.addBreak c) p.newLine rest
    else
      let resumes := match gap with
        | .none => false
        | _ => true
      if resumes && gap.isBreaks && !ctx.flow && p.column < ctx.indent then done
      else if resumes && (isDocumentMark p (c :: rest) || c = '#') then done
      else if ctx.flow && c = ':' && rest.head?.any (fun d => isFlowMark d || d = '?') then none
      else if endsPlain ctx.flow c rest then done
      else readPlain ctx (c :: (gap.folded ++ acc)) .none p.next rest

/-! ## Quoted scalars -/

/-- The character of an escape of one letter. -/
def escape? (c : Char) : Option Char :=
  match c with
  | '0' => some (Char.ofNat 0)
  | 'a' => some (Char.ofNat 7)
  | 'b' => some (Char.ofNat 8)
  | 't' | '\t' => some '\t'
  | 'n' => some '\n'
  | 'v' => some (Char.ofNat 11)
  | 'f' => some (Char.ofNat 12)
  | 'r' => some '\r'
  | 'e' => some (Char.ofNat 27)
  | ' ' | '"' | '/' | '\\' => some c
  | 'N' => some (Char.ofNat 0x85)
  | '_' => some (Char.ofNat 0xA0)
  | 'L' => some (Char.ofNat 0x2028)
  | 'P' => some (Char.ofNat 0x2029)
  | _ => none

/-- The number of hexadecimal digits of an escape by number. -/
def escapeDigits? (c : Char) : Option Nat :=
  match c with
  | 'x' => some 2
  | 'u' => some 4
  | 'U' => some 8
  | _ => none

/-- What the next character of a quoted scalar means. -/
inductive QuoteMode where
  | text
  /-- Behind a backslash. -/
  | escaped
  /-- Within the digits of an escape, with their value so far. -/
  | code (digits value : Nat)
  /-- Behind a quote that may be the first of two. -/
  | quote

/-- The character of a number, if it is one. -/
def charOf? (n : Nat) : Option Char := if n.isValidChar then some (Char.ofNat n) else none

/-- Reads a quoted scalar behind its opening quote. -/
def readQuoted (single : Bool) (acc : List Char) (gap : Gap) (mode : QuoteMode) (p : Place) :
    List Char → Option ReadScalar
  | [] =>
    match mode with
    | .quote => some ⟨String.ofList acc.reverse, ⟨[], p⟩, false⟩
    | _ => none
  | c :: rest =>
    match mode with
    | .quote =>
      if c = '\'' then readQuoted single ('\'' :: acc) .none .text p.next rest
      else some ⟨String.ofList acc.reverse, ⟨c :: rest, p⟩, false⟩
    | .escaped =>
      if isBreak c then
        readQuoted single acc (.breaks .none []) .text p.newLine rest
      else
        match escapeDigits? c, escape? c with
        | some n, _ => readQuoted single acc .none (.code n 0) p.next rest
        | none, some e => readQuoted single (e :: acc) .none .text p.next rest
        | none, none => none
    | .code digits value =>
      match Text.hexValue? c with
      | none => none
      | some h =>
        let value := value * 16 + h
        if digits ≤ 1 then
          match charOf? value with
          | none => none
          | some e => readQuoted single (e :: acc) .none .text p.next rest
        else readQuoted single acc .none (.code (digits - 1) value) p.next rest
    | .text =>
      if isBlank c then readQuoted single acc (gap.addBlank c) .text p.next rest
      else if isBreak c then readQuoted single acc (gap.addBreak c) .text p.newLine rest
      else if isDocumentMark p (c :: rest) then none
      else if single && c = '\'' then readQuoted single (gap.folded ++ acc) .none .quote p.next rest
      else if !single && c = '"' then
        some ⟨String.ofList (gap.folded ++ acc).reverse, ⟨rest, p.next⟩, false⟩
      else if !single && c = '\\' then
        readQuoted single (gap.folded ++ acc) .none .escaped p.next rest
      else readQuoted single (c :: (gap.folded ++ acc)) .none .text p.next rest

/-! ## Block scalars -/

/-- What becomes of the breaks at the end of a block scalar. -/
inductive Chomping where
  | strip
  | clip
  | keep

/-- The header of a block scalar: folded or literal, and its two indicators. -/
structure BlockHeader where
  folded : Bool
  chomping : Chomping := .clip
  /-- Indentation relative to the surrounding block, if it is stated. -/
  increment : Option Nat := none

/-- Reads the indicators behind the character that opens a block scalar, in either order. -/
def blockIndicators? (folded : Bool) (c : Cursor) : Option (BlockHeader × Cursor) :=
  let chomping? : List Char → Option (Chomping × List Char)
    | '+' :: r => some (.keep, r)
    | '-' :: r => some (.strip, r)
    | _ => none
  let step (rest : List Char) (n : Nat) : Cursor :=
    ⟨rest, { c.place with index := c.place.index + n, column := c.place.column + n }⟩
  let digit? : List Char → Option (Nat × List Char)
    | d :: r => if d.isDigit then some (d.toNat - '0'.toNat, r) else none
    | [] => none
  match chomping? c.rest with
  | some (ch, r) =>
    match digit? r with
    | some (0, _) => none
    | some (n, r) => some (⟨folded, ch, some n⟩, step r 2)
    | none => some (⟨folded, ch, none⟩, step r 1)
  | none =>
    match digit? c.rest with
    | some (0, _) => none
    | some (n, r) =>
      match chomping? r with
      | some (ch, r) => some (⟨folded, ch, some n⟩, step r 2)
      | none => some (⟨folded, .clip, some n⟩, step r 1)
    | none => some (⟨folded, .clip, none⟩, c)

/-- What has been read of a block scalar; texts have their last character first. -/
structure BlockState where
  text : List Char := []
  /-- The break of the last line with text. -/
  leading : Option Char := none
  /-- The breaks of empty lines after it. -/
  trailing : List Char := []
  /-- Whether the last line with text began with a blank. -/
  leadingBlank : Bool := false
  /-- The column of the lines, once it is known. -/
  indent : Option Nat
  /-- The widest margin seen while it is not known. -/
  widest : Nat := 0

/-- Begins a line with text: a break before it is folded unless blanks are next to it. -/
def BlockState.beginLine (s : BlockState) (folded startsBlank : Bool) : BlockState :=
  let joint :=
    if folded && s.leading = some '\n' && !s.leadingBlank && !startsBlank then
      if s.trailing = [] then [' '] else []
    else s.leading.toList
  { s with
    text := s.trailing ++ (joint ++ s.text)
    leading := none
    trailing := []
    leadingBlank := startsBlank }

/-- The scalar, with the breaks at its end as the header wants them. -/
def BlockState.finish (s : BlockState) (h : BlockHeader) : String :=
  let leading := s.leading.toList
  String.ofList (match h.chomping with
    | .strip => s.text
    | .clip => leading ++ s.text
    | .keep => s.trailing ++ (leading ++ s.text)).reverse

/-- Takes note of a margin while the column of the lines is not known. -/
def BlockState.widen (s : BlockState) (column : Nat) : BlockState :=
  if s.indent.isNone && s.widest < column then { s with widest := column } else s

/-- The column of the lines if the header does not state it; `least` is the first column inside
the surrounding block. -/
def BlockState.settle (s : BlockState) (least : Nat) : Nat :=
  match s.indent with
  | some n => n
  | none =>
    let n := if s.widest < least then least else s.widest
    if n = 0 then 1 else n

/-- Reads the lines of a block scalar; `inLine` says that the margin of the line is behind. -/
def readBlock (h : BlockHeader) (least : Nat) (s : BlockState) (inLine : Bool) (p : Place) :
    List Char → Option ReadScalar
  | [] => some ⟨s.finish h, ⟨[], p⟩, true⟩
  | c :: rest =>
    if inLine then
      if isBreak c then readBlock h least { s with leading := some c } false p.newLine rest
      else readBlock h least { s with text := c :: s.text } true p.next rest
    else
      let short := match s.indent with
        | none => true
        | some n => p.column < n
      let s := s.widen p.column
      if short && c = ' ' then readBlock h least s false p.next rest
      else if short && c = '\t' then none
      else if isBreak c then
        readBlock h least { s with trailing := c :: s.trailing } false p.newLine rest
      else
        let indent := s.settle least
        let s := { s with indent := some indent }
        if p.column = indent then
          let s := s.beginLine h.folded (isBlank c)
          readBlock h least { s with text := c :: s.text } true p.next rest
        else some ⟨s.finish h, ⟨c :: rest, p⟩, true⟩

end ChangeRelay.Yaml

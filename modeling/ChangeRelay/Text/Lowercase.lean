import ChangeRelay.Text.CaseTable

/-!
# Full lowercase mapping

The language-independent lowercase mapping of Unicode: one character may become two (`İ`), and a
capital sigma becomes `ς` exactly where it ends a word of the text being mapped.
-/

namespace ChangeRelay.Text

/-- The lowercase form of one character, the sigma context aside. -/
def lowercaseChar (c : Char) : List Char :=
  if c.toNat < 128 then [c.toLower]
  else if c.toNat = 0x130 then ['i', Char.ofNat 0x307]
  else
    match lowercaseRuns.find? (·.contains c.toNat) with
    | some r => [Char.ofNat (c.toNat + r.offset).toNat]
    | none => [c]

def isCased (c : Char) : Bool := casedRanges.contains c.toNat

def isCaseIgnorable (c : Char) : Bool := caseIgnorableRanges.contains c.toNat

/-- Whether the first character that is not case-ignorable is a cased one. -/
def startsCased (cs : List Char) : Bool :=
  match cs.dropWhile isCaseIgnorable with
  | c :: _ => isCased c
  | [] => false

/-- Lowercases a text; `before` holds the characters already passed, the nearest first. -/
def lowercaseAfter (before : List Char) : List Char → List Char
  | [] => []
  | c :: rest =>
    (if c = 'Σ' then
      if startsCased before && !startsCased rest then ['ς'] else ['σ']
    else lowercaseChar c) ++ lowercaseAfter (c :: before) rest

/-- The lowercase form of a text. -/
def lowercaseChars (cs : List Char) : List Char := lowercaseAfter [] cs

/-- The lowercase form of a string. -/
def lowercase (s : String) : String := String.ofList (lowercaseChars s.toList)

end ChangeRelay.Text

/-!
# Characters of YAML texts

The structure of a YAML text depends on where its characters stand.

* `Glyph` — a character with its line and its column, and `glyphs?`, the glyphs of a text.
* `endsWord`, `startsMarker`, `afterLine?` — what a rest of a text begins with.
* `Gap` — the spaces and line breaks between two words of a scalar, and what is left of them.
-/

namespace DeltaCircuit.Yaml

/-! ### Characters -/

/-- Whether a text may contain a character. -/
def isAllowed (c : Char) : Bool :=
  let n := c.toNat
  n == 0x09 || n == 0x0A || n == 0x0D || (0x20 ≤ n && n ≤ 0x7E) || n == 0x85 ||
    (0xA0 ≤ n && n ≤ 0xFFFD) || 0x10000 ≤ n

def isSpace (c : Char) : Bool := c = ' ' || c = '\t'

def isBreak (c : Char) : Bool :=
  c = '\n' || c = '\r' || c = '\u0085' || c = '\u2028' || c = '\u2029'

/-- A character of the name of an anchor. -/
def isNameChar (c : Char) : Bool := c.isAlphanum || c = '_' || c = '-'

/-- The mark that may stand at the start of a line. -/
def byteOrderMark : Char := '\uFEFF'

/-! ### Glyphs -/

/-- A character and its place. -/
structure Glyph where
  char : Char
  line : Nat
  column : Nat
deriving DecidableEq

namespace Glyph

def isSpace (g : Glyph) : Bool := Yaml.isSpace g.char

def isBreak (g : Glyph) : Bool := Yaml.isBreak g.char

/-- The glyphs of a text. All line breaks become `\n`, the separators of lines and of paragraphs
excepted. -/
def place (line column : Nat) : List Char → List Glyph
  | [] => []
  | '\r' :: '\n' :: rest => ⟨'\n', line, column⟩ :: place (line + 1) 0 rest
  | c :: rest =>
    if Yaml.isBreak c then
      ⟨if c = '\u2028' ∨ c = '\u2029' then c else '\n', line, column⟩ :: place (line + 1) 0 rest
    else ⟨c, line, column⟩ :: place line (column + 1) rest

end Glyph

/-- The characters of glyphs. -/
def chars (gs : List Glyph) : List Char := gs.map Glyph.char

/-- The glyphs of a text all of whose characters are allowed. -/
def glyphs? (text : String) : Option (List Glyph) :=
  let cs := text.toList
  if cs.all isAllowed then some (Glyph.place 0 0 cs) else none

/-! ### What stands at the front -/

/-- Whether the front is a certain character. -/
def startsWith (c : Char) (gs : List Glyph) : Bool := (gs.head?.map (·.char == c)).getD false

/-- Whether the front is one of the characters of a text. -/
def startsWithOneOf (choices : String) (gs : List Glyph) : Bool :=
  (gs.head?.map fun g => choices.toList.contains g.char).getD false

/-- Whether a word that stands before ends here. -/
def endsWord : List Glyph → Bool
  | [] => true
  | g :: _ => g.isSpace || g.isBreak

/-- The sign of the marker of a document at the start of a line. -/
def marker? : List Glyph → Option Char
  | ⟨a, _, 0⟩ :: ⟨b, _, _⟩ :: ⟨c, _, _⟩ :: rest =>
    if (a = '-' ∨ a = '.') ∧ b = a ∧ c = a ∧ endsWord rest then some a else none
  | _ => none

/-- Whether the marker of a document stands here. -/
def startsMarker (gs : List Glyph) : Bool := (marker? gs).isSome

def skipSpaces (gs : List Glyph) : List Glyph := gs.dropWhile Glyph.isSpace

/-- What follows the line, on which nothing but a comment may be left. -/
def afterLine? (gs : List Glyph) : Option (List Glyph) :=
  let gs := skipSpaces gs
  match (if startsWith '#' gs then gs.dropWhile (!·.isBreak) else gs) with
  | [] => some []
  | g :: rest => if g.isBreak then some rest else none

/-! ### Digits -/

/-- The value of a hexadecimal digit. -/
def hexValue? (c : Char) : Option Nat :=
  if c.isDigit then some (c.toNat - '0'.toNat)
  else if 'a' ≤ c ∧ c ≤ 'f' then some (c.toNat - 'a'.toNat + 10)
  else if 'A' ≤ c ∧ c ≤ 'F' then some (c.toNat - 'A'.toNat + 10)
  else none

/-- The number that the first `n` glyphs write in hexadecimal digits. -/
def hexNumber? (n : Nat) (gs : List Glyph) : Option Nat :=
  if gs.length < n then none
  else (gs.take n).foldlM (fun value g => do return 16 * value + (← hexValue? g.char)) 0

/-! ### Gaps -/

/-- What stands between two words of a scalar: spaces on one line, or line breaks. The first line
break is none if it is escaped. -/
inductive Gap where
  | spaces (text : List Char)
  | breaks (first more : List Char)
deriving DecidableEq

namespace Gap

/-- No gap. -/
def empty : Gap := .spaces []

/-- Whether a gap goes over a line break. -/
def isBroken : Gap → Bool
  | .spaces _ => false
  | .breaks _ _ => true

/-- Joins lines: a single line break is a space, and with more of them the first is left out. Other
separators are kept. -/
def fold (first more : List Char) : List Char :=
  if first = ['\n'] then (if more.isEmpty then [' '] else more) else first ++ more

/-- What is left of a gap in the text of a scalar. -/
def text : Gap → List Char
  | .spaces cs => cs
  | .breaks first more => fold first more

/-- A gap with a further space or line break. Spaces beside line breaks do not count. -/
def push (g : Glyph) : Gap → Gap
  | .spaces cs => if g.isBreak then .breaks [g.char] [] else .spaces (cs ++ [g.char])
  | .breaks first more => if g.isBreak then .breaks first (more ++ [g.char]) else .breaks first more

end Gap
end DeltaCircuit.Yaml

import DeltaCircuit.Yaml.Glyph

/-!
# YAML scalars

A scalar is plain, quoted or a block of lines, and may go over several lines.

* `Scalar` — the text of a scalar and the style in which it was written.
* `plainBody?`, `quotedBody?`, `block?` — read a scalar of each style, and give the glyphs after it.
-/

namespace DeltaCircuit.Yaml

/-- How a scalar was written, as far as it counts. -/
inductive Style where
  /-- Without quotes. -/
  | plain
  /-- As a block of lines that keeps its line breaks. -/
  | literal
  | other
deriving DecidableEq

/-- A scalar value. -/
structure Scalar where
  style : Style
  text : List Char
deriving DecidableEq

/-- The scalar that stands for a value that is left out. -/
def Scalar.empty : Scalar := ⟨.plain, []⟩

/-! ### Plain scalars -/

/-- Whether a character has a meaning of its own in a flow mapping. -/
def isFlowSign (c : Char) : Bool := ",[]\x7b\x7d".toList.contains c

/-- Reads a plain scalar: its text, the gap after it, and what follows. In a block, it ends before a
line that is indented by less than `indent`; anywhere, before a comment, the marker of a document or
a colon that ends a word. -/
def plainBody? (flow : Bool) (indent : Nat) (gap : Gap) :
    List Glyph → Option (List Char × Gap × List Glyph)
  | [] => some ([], gap, [])
  | g :: rest =>
    if g.isSpace then
      if gap.isBroken && g.column < indent && g.char = '\t' then none
      else plainBody? flow indent (gap.push g) rest
    else if g.isBreak then plainBody? flow indent (gap.push g) rest
    else if startsMarker (g :: rest) || (g.char = '#' && gap ≠ .empty) ||
        (!flow && gap.isBroken && g.column < indent) then
      some ([], gap, g :: rest)
    else if flow && g.char = ':' && startsWithOneOf ",?[]\x7b\x7d" rest then none
    else if (g.char = ':' && endsWord rest) || (flow && isFlowSign g.char) then
      some ([], gap, g :: rest)
    else do
      let (text, last, after) ← plainBody? flow indent .empty rest
      return (gap.text ++ g.char :: text, last, after)

/-! ### Quoted scalars -/

/-- What an escape stands for. -/
inductive Escaped where
  | lineBreak
  | char (c : Char)

/-- The number of hexadecimal digits after an escape. -/
def hexDigits? : Char → Option Nat
  | 'x' => some 2
  | 'u' => some 4
  | 'U' => some 8
  | _ => none

/-- The character of an escape of one letter. -/
def escaped? : Char → Option Char
  | '0' => some '\x00'
  | 'a' => some '\x07'
  | 'b' => some '\x08'
  | 't' => some '\t'
  | '\t' => some '\t'
  | 'n' => some '\n'
  | 'v' => some '\x0B'
  | 'f' => some '\x0C'
  | 'r' => some '\r'
  | 'e' => some '\x1B'
  | ' ' => some ' '
  | '"' => some '"'
  | '/' => some '/'
  | '\\' => some '\\'
  | 'N' => some '\u0085'
  | '_' => some '\u00A0'
  | 'L' => some '\u2028'
  | 'P' => some '\u2029'
  | _ => none

/-- The escape after a backslash, and the number of its glyphs. -/
def escape? : List Glyph → Option (Escaped × Nat)
  | [] => none
  | g :: rest =>
    if g.isBreak then some (.lineBreak, 1)
    else
      match hexDigits? g.char with
      | some n => do
        let code ← hexNumber? n rest
        if 0x110000 ≤ code ∨ (0xD800 ≤ code ∧ code < 0xE000) then none
        return (.char (Char.ofNat code), n + 1)
      | none => (escaped? g.char).map fun c => (.char c, 1)

/-- Reads a scalar in quotes up to and with the closing quote: its text and what follows. A double
quote and a backslash are escaped in double quotes; a single quote is written twice in single
quotes. -/
def quotedBody? (double : Bool) (gap : Gap) : List Glyph → Option (List Char × List Glyph)
  | [] => none
  | g :: rest =>
    if g.isSpace || g.isBreak then quotedBody? double (gap.push g) rest
    else if startsMarker (g :: rest) then none
    else if double && g.char = '\\' then
      match escape? rest with
      | none => none
      | some (.lineBreak, n) => do
        let (text, after) ← quotedBody? double (.breaks [] []) (rest.drop n)
        return (gap.text ++ text, after)
      | some (.char c, n) => do
        let (text, after) ← quotedBody? double .empty (rest.drop n)
        return (gap.text ++ c :: text, after)
    else if !double && g.char = '\'' && startsWith '\'' rest then do
      let (text, after) ← quotedBody? double .empty (rest.drop 1)
      return (gap.text ++ '\'' :: text, after)
    else if g.char = (if double then '"' else '\'') then some (gap.text, rest)
    else do
      let (text, after) ← quotedBody? double .empty rest
      return (gap.text ++ g.char :: text, after)
termination_by gs => gs.length
decreasing_by all_goals simp only [List.length_drop, List.length_cons]; omega

/-! ### Blocks -/

/-- What becomes of the line breaks at the end of a block. -/
inductive Chomping where
  | clip | strip | keep
deriving DecidableEq

/-- The sign of a chomping. -/
def chomping? : List Glyph → Option (Chomping × List Glyph)
  | ⟨'-', _, _⟩ :: rest => some (.strip, rest)
  | ⟨'+', _, _⟩ :: rest => some (.keep, rest)
  | _ => none

/-- A digit for the width of an indentation. -/
def width? : List Glyph → Option (Nat × List Glyph)
  | g :: rest => if g.char.isDigit then some (g.char.toNat - '0'.toNat, rest) else none
  | [] => none

/-- The chomping and the width in the header of a block, in any order, and what follows the line. -/
def blockHeader? (gs : List Glyph) : Option (Chomping × Option Nat × List Glyph) := do
  let (chomping, width, rest) :=
    match chomping? gs, width? gs with
    | some (chomping, rest), _ =>
      match width? rest with
      | some (width, rest) => (chomping, some width, rest)
      | none => (chomping, none, rest)
    | none, some (width, rest) =>
      match chomping? rest with
      | some (chomping, rest) => (chomping, some width, rest)
      | none => (.clip, some width, rest)
    | none, none => (.clip, none, gs)
  if width = some 0 then none
  return (chomping, width, ← afterLine? rest)

/-- The widest indentation up to the first line with text, in front of which no tab may stand. -/
def widestIndent? (widest : Nat) : List Glyph → Option Nat
  | [] => some widest
  | g :: rest =>
    if g.char = ' ' then widestIndent? (max widest (g.column + 1)) rest
    else if g.char = '\t' then none
    else if g.isBreak then widestIndent? widest rest
    else some widest

/-- Where a block is read: on a line that starts with a space or not, or between two lines. -/
inductive BlockPlace where
  | line (startsBlank : Bool)
  | between (first more : List Char) (startsBlank : Bool)

/-- What the line breaks before a line of a block become. Only a folded block changes them, and only
between two lines that do not start with a space. -/
def blockGap (folded : Bool) (first more : List Char) (blank blankNext : Bool) : List Char :=
  if folded ∧ first = ['\n'] ∧ !blank ∧ !blankNext then Gap.fold first more else first ++ more

/-- Reads the lines of a block, which are indented by `width`: their text, the first line break at
the end, the others, and what follows. -/
def blockBody? (folded : Bool) (width : Nat) :
    BlockPlace → List Glyph → Option (List Char × List Char × List Char × List Glyph)
  | .line _, [] => some ([], [], [], [])
  | .between first more _, [] => some ([], first, more, [])
  | .line blank, g :: rest =>
    if g.isBreak then blockBody? folded width (.between [g.char] [] blank) rest
    else (blockBody? folded width (.line blank) rest).map fun (text, ending) =>
      (g.char :: text, ending)
  | .between first more blank, g :: rest =>
    if g.column < width && g.char = ' ' then
      blockBody? folded width (.between first more blank) rest
    else if g.column < width && g.char = '\t' then none
    else if g.isBreak then blockBody? folded width (.between first (more ++ [g.char]) blank) rest
    else if g.column < width then some ([], first, more, g :: rest)
    else
      let gap := blockGap folded first more blank g.isSpace
      (blockBody? folded width (.line g.isSpace) rest).map fun (text, ending) =>
        (gap ++ g.char :: text, ending)

/-- Reads a block after its sign: the scalar and what follows. Its lines are indented by at least
`indent`, the indentation of the mapping in which it stands and one more; a width in its header
counts from that of the mapping. -/
def block? (indent : Nat) (folded : Bool) (gs : List Glyph) : Option (Scalar × List Glyph) := do
  let (chomping, stated, rest) ← blockHeader? gs
  let width ← match stated with
    | some n => some (indent - 1 + n)
    | none => (widestIndent? 0 rest).map (max (max indent 1))
  let (text, first, more, after) ← blockBody? folded width (.between [] [] false) rest
  let ending :=
    match chomping with
    | .strip => []
    | .clip => first
    | .keep => first ++ more
  return (⟨if folded then .other else .literal, text ++ ending⟩, after)

end DeltaCircuit.Yaml

import DeltaCircuit.Yaml.Property
import DeltaCircuit.Yaml.Scalar

/-!
# Tokens of YAML texts

* `Token` — the parts of which a text consists.
* `Token.ofGlyphs?` — the tokens of a text. Sequences, and collections in flow mappings, are refused
  here.

A mapping in block style has no signs around it. It starts with a key that stands further to the
right than the mapping around it, and ends with a line that stands further to the left. A key
without a sign of its own is only known by the colon after it, on the same line: what may be a key
is kept as a `Candidate`, and the colon puts the sign in front of it.
-/

namespace DeltaCircuit.Yaml

/-- A part of a text. -/
inductive Token where
  | directive (value : Directive)
  | documentStart
  | documentEnd
  | blockStart
  | blockEnd
  | flowStart
  | flowEnd
  | flowEntry
  | key
  | value
  | alias (name : List Char)
  | anchor (name : List Char)
  | tag (value : Tag)
  | scalar (value : Scalar)
deriving DecidableEq

/-- What may turn out to be a key. -/
structure Candidate where
  /-- The number of tokens in front of it. -/
  position : Nat
  line : Nat
  column : Nat
  /-- Whether nothing but a key may stand there. -/
  required : Bool

/-- What has been read of a text. -/
structure Lexer where
  tokens : List Token
  /-- The columns of the mappings in block style, the innermost first. -/
  indents : List Nat
  /-- Whether a flow mapping is open. -/
  flow : Bool
  /-- Whether a key may stand here. -/
  keyAllowed : Bool
  candidate : Option Candidate

namespace Lexer

/-- The lexer at the start of a text. -/
def start : Lexer := ⟨[], [], false, true, none⟩

def emit (s : Lexer) (token : Token) : Lexer := { s with tokens := s.tokens ++ [token] }

/-- A lexer with tokens put in at a position. -/
def insert (s : Lexer) (position : Nat) (tokens : List Token) : Lexer :=
  { s with tokens := s.tokens.take position ++ tokens ++ s.tokens.drop position }

/-- The column from which on a line belongs to the innermost mapping as part of a value. -/
def innerIndent (s : Lexer) : Nat :=
  match s.indents with
  | [] => 0
  | column :: _ => column + 1

/-! ### Indentation -/

/-- The mappings that a place at a column ends. In a flow mapping, columns do not count. -/
def unindent (s : Lexer) (column : Nat) : Lexer :=
  if s.flow then s
  else
    { s with
      tokens := s.tokens ++ (s.indents.takeWhile (column < ·)).map fun _ => .blockEnd
      indents := s.indents.dropWhile (column < ·) }

/-- The end of all mappings in block style. -/
def unindentAll (s : Lexer) : Lexer :=
  { s with tokens := s.tokens ++ s.indents.map fun _ => .blockEnd, indents := [] }

/-- A key at a column starts a mapping if it stands further to the right. -/
def indent (s : Lexer) (column position : Nat) : Lexer :=
  if !s.flow && s.innerIndent ≤ column then
    { s.insert position [.blockStart] with indents := column :: s.indents }
  else s

/-! ### Candidates -/

/-- Gives up the candidate. -/
def dropCandidate? (s : Lexer) : Option Lexer :=
  match s.candidate with
  | none => some s
  | some candidate => if candidate.required then none else some { s with candidate := none }

/-- Gives up the candidate if a key would be too long here: a key takes one line and at most 1024
characters. -/
def expireCandidate? (s : Lexer) (g : Glyph) : Option Lexer :=
  match s.candidate with
  | none => some s
  | some candidate =>
    if candidate.line < g.line ∨ candidate.column + 1024 < g.column then s.dropCandidate?
    else some s

/-- What starts here may be a key, if one is allowed. -/
def saveCandidate? (s : Lexer) (g : Glyph) : Option Lexer :=
  if s.keyAllowed then do
    let s ← s.dropCandidate?
    let required := !s.flow && s.indents.head? = some g.column
    return { s with candidate := some ⟨s.tokens.length, g.line, g.column, required⟩ }
  else some s

/-! ### Tokens -/

/-- Adds what starts at a glyph and may be a key. -/
def addContent? (s : Lexer) (g : Glyph) (token : Token) : Option Lexer := do
  let s ← s.saveCandidate? g
  return { s.emit token with keyAllowed := false }

/-- Adds a sign between the documents of a text. -/
def addDocumentSign? (s : Lexer) (token : Token) : Option Lexer := do
  if s.flow then none
  let s ← s.unindentAll.dropCandidate?
  return { s.emit token with keyAllowed := false }

/-- Adds the sign of a key. -/
def addKey? (s : Lexer) (g : Glyph) : Option Lexer := do
  if !s.flow && !s.keyAllowed then none
  let s ← (s.indent g.column s.tokens.length).dropCandidate?
  return { s.emit .key with keyAllowed := !s.flow }

/-- Adds the sign of a value, and in front of the candidate the sign of a key. -/
def addValue? (s : Lexer) (g : Glyph) : Option Lexer :=
  match s.candidate with
  | some candidate =>
    let s := (s.insert candidate.position [.key]).indent candidate.column candidate.position
    some { s.emit .value with keyAllowed := false, candidate := none }
  | none => do
    if !s.flow && !s.keyAllowed then none
    let s := s.indent g.column s.tokens.length
    return { s.emit .value with keyAllowed := !s.flow }

/-- Adds the start of a flow mapping. -/
def openFlow? (s : Lexer) : Option Lexer := do
  if s.flow then none
  let s ← s.dropCandidate?
  return { s.emit .flowStart with flow := true, keyAllowed := true }

/-- Adds the end of a flow mapping. -/
def closeFlow? (s : Lexer) : Option Lexer := do
  if !s.flow then none
  return { s.emit .flowEnd with flow := false, keyAllowed := false, candidate := none }

/-- Adds the sign between two entries of a flow mapping. -/
def addFlowEntry? (s : Lexer) : Option Lexer := do
  if !s.flow then none
  return { s.emit .flowEntry with keyAllowed := true, candidate := none }

/-! ### Reading -/

mutual

/-- Skips spaces, comments and line breaks, and says whether a key is allowed after them. Where a
key is allowed in block style, no tab may stand. -/
def skip (flow keyAllowed : Bool) : List Glyph → Bool × List Glyph
  | [] => (keyAllowed, [])
  | g :: rest =>
    if g.char = ' ' || (g.column = 0 && g.char = byteOrderMark) ||
        (g.char = '\t' && (flow || !keyAllowed)) then
      skip flow keyAllowed rest
    else if g.isBreak then skip flow (keyAllowed || !flow) rest
    else if g.char = '#' then skipComment flow keyAllowed rest
    else (keyAllowed, g :: rest)

/-- Skips the rest of a comment and what is skipped after it. -/
def skipComment (flow keyAllowed : Bool) : List Glyph → Bool × List Glyph
  | [] => (keyAllowed, [])
  | g :: rest =>
    if g.isBreak then skip flow (keyAllowed || !flow) rest else skipComment flow keyAllowed rest

end

/-- Whether a character starts a plain scalar, unless it is a sign. -/
def startsPlain (c : Char) : Bool :=
  !isSpace c && !",[]\x7b\x7d#&*!|>'\"%@".toList.contains c && c ≠ Char.ofNat 0x60

/-- Reads a scalar in quotes. -/
def readQuoted? (s : Lexer) (double : Bool) (g : Glyph) (rest : List Glyph) :
    Option (Lexer × List Glyph) := do
  let (text, rest) ← quotedBody? double .empty rest
  return (← s.addContent? g (.scalar ⟨.other, text⟩), rest)

/-- Reads a block of lines. After it, a key is allowed. -/
def readBlock? (s : Lexer) (folded : Bool) (rest : List Glyph) : Option (Lexer × List Glyph) := do
  if s.flow then none
  let s ← s.dropCandidate?
  let (scalar, rest) ← block? s.innerIndent folded rest
  return ({ s.emit (.scalar scalar) with keyAllowed := true }, rest)

/-- Reads a plain scalar. After a line break, a key is allowed. -/
def readPlain? (s : Lexer) (g : Glyph) (gs : List Glyph) : Option (Lexer × List Glyph) := do
  if !startsPlain g.char then none
  let (text, gap, rest) ← plainBody? s.flow s.innerIndent .empty gs
  let s ← s.addContent? g (.scalar ⟨.plain, text⟩)
  return ({ s with keyAllowed := gap.isBroken }, rest)

/-- Reads what starts at a glyph. -/
def readToken? (s : Lexer) (g : Glyph) (rest : List Glyph) : Option (Lexer × List Glyph) := do
  let s ← s.expireCandidate? g
  let s := s.unindent g.column
  let isSign := s.flow || endsWord rest
  match marker? (g :: rest) with
  | some '-' => return (← s.addDocumentSign? .documentStart, rest.drop 2)
  | some _ => return (← s.addDocumentSign? .documentEnd, rest.drop 2)
  | none =>
    match g.char with
    | '\x7b' => return (← s.openFlow?, rest)
    | '\x7d' => return (← s.closeFlow?, rest)
    | ',' => return (← s.addFlowEntry?, rest)
    | '-' => if endsWord rest then none else s.readPlain? g (g :: rest)
    | '?' => if isSign then return (← s.addKey? g, rest) else s.readPlain? g (g :: rest)
    | ':' => if isSign then return (← s.addValue? g, rest) else s.readPlain? g (g :: rest)
    | '*' =>
      let (name, rest) ← anchor? rest
      return (← s.addContent? g (.alias name), rest)
    | '&' =>
      let (name, rest) ← anchor? rest
      return (← s.addContent? g (.anchor name), rest)
    | '!' =>
      let (tag, rest) ← tag? s.flow rest
      return (← s.addContent? g (.tag tag), rest)
    | '|' => s.readBlock? false rest
    | '>' => s.readBlock? true rest
    | '\'' => s.readQuoted? false g rest
    | '"' => s.readQuoted? true g rest
    | '%' =>
      if g.column ≠ 0 then none
      let (directive, rest) ← directive? rest
      return (← s.addDocumentSign? (.directive directive), rest)
    | _ => s.readPlain? g (g :: rest)

/-- Reads the rest of a text. Every token takes at least one glyph, so the number of glyphs bounds
the number of steps. -/
def readAll? : (bound : Nat) → Lexer → List Glyph → Option Lexer
  | bound, s, gs =>
    let (keyAllowed, gs) := skip s.flow s.keyAllowed gs
    let s := { s with keyAllowed }
    match bound, gs with
    | _, [] => s.unindentAll.dropCandidate?
    | 0, _ => none
    | bound + 1, g :: rest => do
      let (s, rest) ← s.readToken? g rest
      readAll? bound s rest

end Lexer

/-- The tokens of a text. -/
def Token.ofGlyphs? (gs : List Glyph) : Option (List Token) := do
  let s ← Lexer.readAll? gs.length .start gs
  if s.flow then none else return s.tokens

end DeltaCircuit.Yaml

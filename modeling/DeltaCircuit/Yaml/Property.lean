import DeltaCircuit.Yaml.Glyph

/-!
# YAML properties and directives

In front of a node may stand an anchor, under which it can be repeated, and a tag; in front of a
document, directives.

* `Tag` — a tag as a handle and a suffix, and `Tag.resolve?`, its full text.
* `anchor?`, `tag?` — read the name of an anchor and a tag.
* `Directive` — what a directive says, and `directive?` reads one.
-/

namespace DeltaCircuit.Yaml

/-- The name of an anchor and what follows it. -/
def anchor? (gs : List Glyph) : Option (List Char × List Glyph) :=
  let name := gs.takeWhile fun g => isNameChar g.char
  let rest := gs.drop name.length
  -- After the name may also stand a grave accent, which starts nothing and so is refused later.
  if !name.isEmpty && (endsWord rest || startsWithOneOf "?:,]\x7d%@" rest) then
    some (chars name, rest)
  else none

/-! ### Tags -/

/-- A tag. The handle stands for a text that goes in front of the suffix. -/
structure Tag where
  handle : List Char
  suffix : List Char
deriving DecidableEq

/-- The handles that need no directive. -/
def standardHandles : List (List Char × List Char) :=
  [(['!'], ['!']), (['!', '!'], "tag:yaml.org,2002:".toList)]

/-- The full text of a tag. A tag without a handle is its suffix; other handles have to be known. -/
def Tag.resolve? (handles : List (List Char × List Char)) (tag : Tag) : Option (List Char) :=
  if tag.handle.isEmpty then some tag.suffix
  else (handles.lookup tag.handle).map (· ++ tag.suffix)

/-- The number of octets of a character whose first octet is given. -/
def octetCount? (first : Nat) : Option Nat :=
  if first < 0x80 then some 1
  else if 0xC0 ≤ first ∧ first < 0xE0 then some 2
  else if 0xE0 ≤ first ∧ first < 0xF0 then some 3
  else if 0xF0 ≤ first ∧ first < 0xF8 then some 4
  else none

/-- An octet that is written as a percent sign and two hexadecimal digits. -/
def octet? (gs : List Glyph) : Option Nat :=
  if startsWith '%' gs then hexNumber? 2 (gs.drop 1) else none

/-- The further octets of a character with the code `code` so far. -/
def furtherOctets? (code : Nat) : (count : Nat) → List Glyph → Option Nat
  | 0, _ => some code
  | count + 1, gs => do
    let octet ← octet? gs
    if octet / 0x40 ≠ 2 then none
    furtherOctets? (0x40 * code + octet % 0x40) count (gs.drop 3)

/-- A character written as octets, and the number of its glyphs. -/
def escapedOctets? (gs : List Glyph) : Option (Char × Nat) := do
  let first ← octet? gs
  let count ← octetCount? first
  let lead := if count = 1 then first else first % Nat.pow 2 (7 - count)
  let code ← furtherOctets? lead (count - 1) (gs.drop 3)
  return (Char.ofNat code, 3 * count)

/-- A character of a tag. In brackets, more of them are allowed. -/
def isTagChar (inBrackets : Bool) (c : Char) : Bool :=
  isNameChar c || ";/?:@&=+$.!~*'()".toList.contains c ||
    (inBrackets && ",[]".toList.contains c)

/-- The longest text of characters of a tag, and what follows it. -/
def tagText? (inBrackets : Bool) : List Glyph → Option (List Char × List Glyph)
  | [] => some ([], [])
  | g :: rest =>
    if g.char = '%' then
      match escapedOctets? (g :: rest) with
      | none => none
      | some (c, n) =>
        (tagText? inBrackets (rest.drop (n - 1))).map fun (text, after) => (c :: text, after)
    else if isTagChar inBrackets g.char then
      (tagText? inBrackets rest).map fun (text, after) => (g.char :: text, after)
    else some ([], g :: rest)
termination_by gs => gs.length
decreasing_by all_goals simp only [List.length_drop, List.length_cons]; omega

/-- A text of a tag that is not empty, and what follows it. -/
def someTagText? (inBrackets : Bool) (gs : List Glyph) : Option (List Char × List Glyph) := do
  let (text, rest) ← tagText? inBrackets gs
  if text.isEmpty then none else return (text, rest)

/-- A tag after its exclamation mark, and what follows it. A tag may stand in angle brackets; it may
have a handle between two exclamation marks; or it is a suffix alone, which may be missing. -/
def tag? (flow : Bool) (gs : List Glyph) : Option (Tag × List Glyph) := do
  let word := chars (gs.takeWhile fun g => isNameChar g.char)
  let afterWord := gs.drop word.length
  let (tag, rest) ←
    if startsWith '<' gs then do
      let (text, rest) ← someTagText? true (gs.drop 1)
      if startsWith '>' rest then some (Tag.mk [] text, rest.drop 1) else none
    else if startsWith '!' afterWord then do
      let (suffix, rest) ← someTagText? false (afterWord.drop 1)
      some (Tag.mk ('!' :: word ++ ['!']) suffix, rest)
    else do
      let (suffix, rest) ← tagText? false afterWord
      let suffix := word ++ suffix
      some (if suffix.isEmpty then Tag.mk [] ['!'] else Tag.mk ['!'] suffix, rest)
  if endsWord rest || (flow && startsWith ',' rest) then return (tag, rest) else none

/-! ### Directives -/

/-- What a directive says. -/
inductive Directive where
  /-- The version of the language. -/
  | version (major minor : Nat)
  /-- The text that a handle stands for. -/
  | handle (handle text : List Char)
deriving DecidableEq

/-- A number of at most nine digits, and what follows it. -/
def versionNumber? (gs : List Glyph) : Option (Nat × List Glyph) :=
  let digits := gs.takeWhile fun g => g.char.isDigit
  if digits.isEmpty || 9 < digits.length then none
  else
    some (digits.foldl (fun n g => 10 * n + (g.char.toNat - '0'.toNat)) 0, gs.drop digits.length)

/-- The version in a directive, and what follows it. -/
def version? (gs : List Glyph) : Option (Directive × List Glyph) := do
  let (major, rest) ← versionNumber? (skipSpaces gs)
  if !startsWith '.' rest then none
  let (minor, rest) ← versionNumber? (rest.drop 1)
  return (.version major minor, rest)

/-- The handle and its text in a directive, and what follows them. -/
def handle? (gs : List Glyph) : Option (Directive × List Glyph) := do
  let gs := skipSpaces gs
  if !startsWith '!' gs then none
  let word := chars ((gs.drop 1).takeWhile fun g => isNameChar g.char)
  let rest := gs.drop (word.length + 1)
  let closed := startsWith '!' rest
  if !closed && !word.isEmpty then none
  let rest := if closed then rest.drop 1 else rest
  if (skipSpaces rest).length = rest.length then none
  let (text, rest) ← someTagText? true (skipSpaces rest)
  if !endsWord rest then none
  return (.handle ('!' :: word ++ (if closed then ['!'] else [])) text, rest)

/-- A directive after its percent sign, and what follows its line. -/
def directive? (gs : List Glyph) : Option (Directive × List Glyph) := do
  let name := chars (gs.takeWhile fun g => isNameChar g.char)
  let rest := gs.drop name.length
  if !endsWord rest then none
  let (directive, rest) ←
    match String.ofList name with
    | "YAML" => version? rest
    | "TAG" => handle? rest
    | _ => none
  return (directive, ← afterLine? rest)

end DeltaCircuit.Yaml

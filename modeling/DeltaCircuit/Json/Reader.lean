import DeltaCircuit.Json.Basic
import DeltaCircuit.Text.Integer

/-!
# Reading JSON

`Json.read?` reads one value with nothing but white space around it. An object in which a name
occurs twice keeps the later value.

The reader works on lists of characters. Values nest, so the reader carries a bound on the depth
of its calls; the length of the text is enough, because every call below another one has consumed
a character.
-/

namespace DeltaCircuit.Json

/-- The white space between tokens. -/
def isSpace (c : Char) : Bool := c == ' ' || c == '\n' || c == '\r' || c == '\t'

def skipSpaces (cs : List Char) : List Char := cs.dropWhile isSpace

/-! ### Strings -/

def hexDigit? (c : Char) : Option Nat :=
  if c.isDigit then some (c.toNat - '0'.toNat)
  else if 'a' ≤ c ∧ c ≤ 'f' then some (c.toNat - 'a'.toNat + 10)
  else if 'A' ≤ c ∧ c ≤ 'F' then some (c.toNat - 'A'.toNat + 10)
  else none

/-- The number that four hexadecimal digits denote. -/
def code? (a b c d : Char) : Option Nat := do
  return (((← hexDigit? a) * 16 + (← hexDigit? b)) * 16 + (← hexDigit? c)) * 16 + (← hexDigit? d)

/-- The character that a letter after a backslash stands for. -/
def unescape? : Char → Option Char
  | '"' => some '"'
  | '\\' => some '\\'
  | '/' => some '/'
  | 'b' => some '\x08'
  | 'f' => some '\x0C'
  | 'n' => some '\n'
  | 'r' => some '\r'
  | 't' => some '\t'
  | _ => none

/-- The character of a code outside the surrogates. -/
def charOfCode? (n : Nat) : Option Char :=
  if 0xD800 ≤ n ∧ n < 0xE000 then none else some (Char.ofNat n)

/-- The character that two surrogates stand for. -/
def charOfPair? (high low : Nat) : Option Char :=
  if 0xD800 ≤ high ∧ high < 0xDC00 ∧ 0xDC00 ≤ low ∧ low < 0xE000 then
    some (Char.ofNat (0x10000 + (high - 0xD800) * 0x400 + (low - 0xDC00)))
  else none

/-- Adds a character to a string that is read. -/
def consTo (c : Char) (r : List Char × List Char) : List Char × List Char := (c :: r.1, r.2)

/-- The characters up to the closing quote, and what follows it. Control characters have to be
escaped. -/
def stringBody? : List Char → Option (List Char × List Char)
  | [] => none
  | '"' :: rest => some ([], rest)
  | '\\' :: 'u' :: a :: b :: c :: d :: rest => do
    let n ← code? a b c d
    match charOfCode? n with
    | some char => (stringBody? rest).map (consTo char)
    | none =>
      match rest with
      | '\\' :: 'u' :: a' :: b' :: c' :: d' :: rest => do
        let char ← charOfPair? n (← code? a' b' c' d')
        return consTo char (← stringBody? rest)
      | _ => none
  | '\\' :: c :: rest => do
    let char ← unescape? c
    return consTo char (← stringBody? rest)
  | c :: rest => if c.toNat < 0x20 then none else (stringBody? rest).map (consTo c)
termination_by structural x => x

/-- Reads a string after its opening quote. -/
def readString? (cs : List Char) : Option (String × List Char) :=
  (stringBody? cs).map fun (body, rest) => (String.ofList body, rest)

/-! ### Values -/

def isNumberChar (c : Char) : Bool :=
  c.isDigit || c == '-' || c == '+' || c == '.' || c == 'e' || c == 'E'

/-- The value of a number's characters. -/
def number? (cs : List Char) : Option Json :=
  if cs.any fun c => c == '.' || c == 'e' || c == 'E' then some (.real (String.ofList cs))
  else (Text.readInt? cs).map .int

/-- Adds a field in front of others, unless one of the others has its name. -/
def consField (name : String) (value : Json) (fields : List (String × Json)) :
    List (String × Json) :=
  if fields.any fun field => field.1 == name then fields else (name, value) :: fields

mutual

/-- Reads a value at the front of a text. -/
def readValue? : (depth : Nat) → List Char → Option (Json × List Char)
  | 0, _ => none
  | depth + 1, cs =>
    match skipSpaces cs with
    | 'n' :: 'u' :: 'l' :: 'l' :: rest => some (.null, rest)
    | 't' :: 'r' :: 'u' :: 'e' :: rest => some (.bool true, rest)
    | 'f' :: 'a' :: 'l' :: 's' :: 'e' :: rest => some (.bool false, rest)
    | '"' :: rest => (readString? rest).map fun (s, rest) => (.string s, rest)
    | '[' :: rest =>
      match skipSpaces rest with
      | ']' :: rest => some (.array [], rest)
      | rest => (readItems? depth rest).map fun (items, rest) => (.array items, rest)
    | '\x7b' :: rest =>
      match skipSpaces rest with
      | '\x7d' :: rest => some (.object [], rest)
      | rest => (readFields? depth rest).map fun (fields, rest) => (.object fields, rest)
    | cs => (number? (cs.takeWhile isNumberChar)).map fun n => (n, cs.dropWhile isNumberChar)

/-- Reads the items of an array and its closing bracket. -/
def readItems? : (depth : Nat) → List Char → Option (List Json × List Char)
  | 0, _ => none
  | depth + 1, cs => do
    let (item, rest) ← readValue? depth cs
    match skipSpaces rest with
    | ']' :: rest => return ([item], rest)
    | ',' :: rest =>
      let (items, rest) ← readItems? depth rest
      return (item :: items, rest)
    | _ => none

/-- Reads the fields of an object and its closing brace. -/
def readFields? : (depth : Nat) → List Char → Option (List (String × Json) × List Char)
  | 0, _ => none
  | depth + 1, cs =>
    match skipSpaces cs with
    | '"' :: rest => do
      let (name, rest) ← readString? rest
      match skipSpaces rest with
      | ':' :: rest =>
        let (value, rest) ← readValue? depth rest
        match skipSpaces rest with
        | '\x7d' :: rest => return ([(name, value)], rest)
        | ',' :: rest =>
          let (fields, rest) ← readFields? depth rest
          return (consField name value fields, rest)
        | _ => none
      | _ => none
    | _ => none

end

/-- Reads a text that holds one value. -/
def read? (text : String) : Option Json := do
  let cs := text.toList
  let (value, rest) ← readValue? (2 * cs.length + 2) cs
  if (skipSpaces rest).isEmpty then some value else none

end DeltaCircuit.Json

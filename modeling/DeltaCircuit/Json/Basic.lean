/-!
# JSON values

Values of the JSON data format. The fields of an object keep their order. Numbers are integers, or
other literals that are kept as they are written, because nothing here computes with them.

* `Json.compact` — the text without any space.
* `Json.pretty` — the text with one item or field a line, indented by two spaces a level; empty
  arrays and objects stay on their line.
-/

namespace DeltaCircuit

/-- A JSON value. -/
inductive Json where
  | null
  | bool (value : Bool)
  | int (value : Int)
  /-- A number with a fraction or an exponent, as it is written. -/
  | real (written : String)
  | string (value : String)
  | array (items : List Json)
  | object (fields : List (String × Json))

namespace Json

/-! ### Strings -/

/-- A code of four hexadecimal digits. -/
def escapedCode (c : Char) : List Char :=
  let digits := Nat.toDigits 16 c.toNat
  ['\\', 'u'] ++ List.replicate (4 - digits.length) '0' ++ digits

/-- The written form of one character. Only the quote, the backslash and the control characters
are escaped. -/
def escape (c : Char) : List Char :=
  match c with
  | '"' => ['\\', '"']
  | '\\' => ['\\', '\\']
  | '\x08' => ['\\', 'b']
  | '\x0C' => ['\\', 'f']
  | '\n' => ['\\', 'n']
  | '\r' => ['\\', 'r']
  | '\t' => ['\\', 't']
  | c => if c.toNat < 0x20 then escapedCode c else [c]

def quote (s : String) : String := "\"" ++ String.ofList (s.toList.flatMap escape) ++ "\""

/-! ### Texts -/

/-- The text of a value without components. -/
def scalarText : Json → String
  | .null => "null"
  | .bool b => toString b
  | .int i => toString i
  | .real written => written
  | .string s => quote s
  | .array _ => "[]"
  | .object _ => "\x7b\x7d"

mutual

/-- The text without spaces. -/
def compact : Json → String
  | .array items => "[" ++ ",".intercalate (compactItems items) ++ "]"
  | .object fields => "\x7b" ++ ",".intercalate (compactFields fields) ++ "\x7d"
  | scalar => scalar.scalarText
termination_by structural x => x

def compactItems : List Json → List String
  | [] => []
  | item :: items => item.compact :: compactItems items
termination_by structural x => x

def compactFields : List (String × Json) → List String
  | [] => []
  | (name, value) :: fields => (quote name ++ ":" ++ value.compact) :: compactFields fields
termination_by structural x => x

end

/-- A line break and the indentation of a level. -/
def newline (level : Nat) : String := "\n" ++ String.ofList (List.replicate (2 * level) ' ')

/-- Texts on lines of their own between brackets. -/
def onLines (level : Nat) (opening closing : String) (texts : List String) : String :=
  if texts.isEmpty then opening ++ closing
  else opening ++ newline (level + 1) ++ ("," ++ newline (level + 1)).intercalate texts ++
    newline level ++ closing

mutual

/-- The text on lines, inside a value at `level`. -/
def prettyAt : Json → (level : Nat) → String
  | .array items, level => onLines level "[" "]" (prettyItems items (level + 1))
  | .object fields, level => onLines level "\x7b" "\x7d" (prettyFields fields (level + 1))
  | scalar, _ => scalar.scalarText
termination_by structural x => x

def prettyItems : List Json → (level : Nat) → List String
  | [], _ => []
  | item :: items, level => item.prettyAt level :: prettyItems items level
termination_by structural x => x

def prettyFields : List (String × Json) → (level : Nat) → List String
  | [], _ => []
  | (name, value) :: fields, level =>
    (quote name ++ ": " ++ value.prettyAt level) :: prettyFields fields level
termination_by structural x => x

end

/-- The text on lines. -/
def pretty (j : Json) : String := j.prettyAt 0

/-! ### Parts -/

/-- The field of an object. -/
def field? (j : Json) (name : String) : Option Json :=
  match j with
  | .object fields => fields.lookup name
  | _ => none

def asString? : Json → Option String
  | .string s => some s
  | _ => none

def asBool? : Json → Option Bool
  | .bool b => some b
  | _ => none

def asInt? : Json → Option Int
  | .int i => some i
  | _ => none

def asNat? : Json → Option Nat
  | .int (.ofNat n) => some n
  | _ => none

def asArray? : Json → Option (List Json)
  | .array items => some items
  | _ => none

def ofNat (n : Nat) : Json := .int n

end Json
end DeltaCircuit

import DeltaCircuit.Text.Printable

/-!
# Quoted texts

A text inside another text stands between double quotes. The quote, the backslash, the tab, the
line ends and the null character are written with a backslash and a letter; every other character
that is not printable is written by its number in lower-case hexadecimal digits without padding.

* `escape` — the written form of one character.
* `quote` — the quoted form of a text.
-/

namespace DeltaCircuit.Text

/-- The written form of one character inside double quotes. -/
def escape (c : Char) : List Char :=
  match c with
  | '"' => ['\\', '"']
  | '\\' => ['\\', '\\']
  | '\t' => ['\\', 't']
  | '\n' => ['\\', 'n']
  | '\r' => ['\\', 'r']
  | '\x00' => ['\\', '0']
  | c =>
    if isPrintable c then [c]
    else ['\\', 'u', '\x7b'] ++ Nat.toDigits 16 c.toNat ++ ['\x7d']

/-- A text between double quotes, with every character in its written form. -/
def quote (s : String) : String :=
  "\"" ++ String.ofList (s.toList.flatMap escape) ++ "\""

end DeltaCircuit.Text

import DeltaCircuit.Yaml.Token

/-!
# Flat YAML mappings

Reads YAML documents that consist of one mapping from names to scalars, in block or in flow style.
Anything else is refused: other documents, nested collections, several documents.

* `Node` — a scalar with its anchor and its tag, or the repetition of one, and `Node.resolve?`.
* `blockEntries?`, `flowEntries?` — the entries of a mapping in either style.
* `readMapping?` — the entries of the mapping of a text in their order. A document without content
  is the empty mapping.
-/

namespace DeltaCircuit.Yaml

/-! ### Nodes -/

/-- What stands in front of a scalar. -/
structure Properties where
  anchor : Option (List Char)
  /-- The full text of the tag. -/
  tag : Option (List Char)
deriving DecidableEq

/-- A scalar with its tag. -/
structure TaggedScalar where
  tag : Option (List Char)
  value : Scalar
deriving DecidableEq

/-- A scalar or the repetition of one. -/
inductive Node where
  | scalar (properties : Properties) (value : Scalar)
  | alias (anchor : List Char)
deriving DecidableEq

/-- The texts that the handles of tags stand for. -/
abbrev Handles := List (List Char × List Char)

/-- The scalars that can be repeated, the last first. -/
abbrev Anchors := List (List Char × TaggedScalar)

namespace Node

/-- A node that is left out. -/
def empty : Node := .scalar ⟨none, none⟩ .empty

/-- The scalar of a node, and the scalars with anchors from there on. -/
def resolve? (known : Anchors) : Node → Option (TaggedScalar × Anchors)
  | .scalar ⟨none, tag⟩ value => some (⟨tag, value⟩, known)
  | .scalar ⟨some anchor, tag⟩ value => some (⟨tag, value⟩, (anchor, ⟨tag, value⟩) :: known)
  | .alias anchor => (known.lookup anchor).map (·, known)

/-- The scalars of the entries of a mapping. The last scalar of an anchor counts. -/
def resolveEntries? (known : Anchors) :
    List (Node × Node) → Option (List (String × TaggedScalar))
  | [] => some []
  | (key, value) :: entries => do
    let (key, known) ← key.resolve? known
    let (value, known) ← value.resolve? known
    return (String.ofList key.value.text, value) :: (← resolveEntries? known entries)

end Node

/-- The anchor and the tag in front of a node, in any order, and what follows them. -/
def properties? (handles : Handles) : List Token → Option (Properties × List Token)
  | .anchor anchor :: .tag tag :: rest => do
    return (⟨some anchor, some (← tag.resolve? handles)⟩, rest)
  | .tag tag :: .anchor anchor :: rest => do
    return (⟨some anchor, some (← tag.resolve? handles)⟩, rest)
  | .anchor anchor :: rest => some (⟨some anchor, none⟩, rest)
  | .tag tag :: rest => do return (⟨none, some (← tag.resolve? handles)⟩, rest)
  | rest => some (⟨none, none⟩, rest)

/-- A node and what follows it. A node with properties needs no scalar. -/
def node? (handles : Handles) : List Token → Option (Node × List Token)
  | .alias anchor :: rest => some (.alias anchor, rest)
  | tokens => do
    let (properties, rest) ← properties? handles tokens
    match rest with
    | .scalar value :: rest => return (.scalar properties value, rest)
    | .blockStart :: _ | .flowStart :: _ => none
    | rest =>
      if properties = ⟨none, none⟩ then none else return (.scalar properties .empty, rest)

/-- A node that is left out in front of some tokens. -/
def optionalNode? (handles : Handles) (ends : Token → Bool) (tokens : List Token) :
    Option (Node × List Token) :=
  if (tokens.head?.map ends).getD false then some (.empty, tokens) else node? handles tokens

/-- A value after its sign; without the sign it is left out. -/
def value? (handles : Handles) (ends : Token → Bool) :
    List Token → Option (Node × List Token)
  | .value :: rest => optionalNode? handles ends rest
  | rest => some (.empty, rest)

/-! ### Mappings -/

/-- The tokens in front of which a node of a block mapping may be left out. -/
def endsBlockNode (token : Token) : Bool :=
  token = .key || token = .value || token = .blockEnd

/-- The tokens in front of which a value of a flow mapping may be left out. -/
def endsFlowValue (token : Token) : Bool := token = .flowEntry || token = .flowEnd

/-- The entries of a block mapping up to its end, and what follows. Every entry takes a token. -/
def blockEntries? (handles : Handles) :
    (bound : Nat) → List Token → Option (List (Node × Node) × List Token)
  | _, .blockEnd :: rest => some ([], rest)
  | bound + 1, .key :: rest => do
    let (key, rest) ← optionalNode? handles endsBlockNode rest
    let (value, rest) ← value? handles endsBlockNode rest
    let (entries, rest) ← blockEntries? handles bound rest
    return ((key, value) :: entries, rest)
  | _, _ => none

/-- An entry of a flow mapping, and what follows it. -/
def flowEntry? (handles : Handles) : List Token → Option ((Node × Node) × List Token)
  | .key :: rest => do
    let ends (token : Token) : Bool := token = .value || endsFlowValue token
    let (key, rest) ← optionalNode? handles ends rest
    let (value, rest) ← value? handles endsFlowValue rest
    return ((key, value), rest)
  | tokens => do
    let (key, rest) ← node? handles tokens
    return ((key, .empty), rest)

/-- The entries of a flow mapping up to its end, and what follows. Every entry takes a token. -/
def flowEntries? (handles : Handles) :
    (bound : Nat) → List Token → Option (List (Node × Node) × List Token)
  | _, .flowEnd :: rest => some ([], rest)
  | bound + 1, tokens => do
    let (entry, rest) ← flowEntry? handles tokens
    match rest with
    | .flowEnd :: rest => return ([entry], rest)
    | .flowEntry :: rest =>
      let (entries, rest) ← flowEntries? handles bound rest
      return (entry :: entries, rest)
    | _ => none
  | 0, _ => none

/-! ### Documents -/

/-- The handles that directives add, and what follows the directives. The version, which is stated
at most once, is 1.1 or 1.2; a handle is stated at most once. -/
def readDirectives? (versioned : Bool) (handles : Handles) :
    List Token → Option (Handles × List Token)
  | .directive (.version major minor) :: rest =>
    if !versioned && major = 1 && (minor = 1 || minor = 2) then
      readDirectives? true handles rest
    else none
  | .directive (.handle handle text) :: rest =>
    if (handles.lookup handle).isSome then none
    else readDirectives? versioned (handles ++ [(handle, text)]) rest
  | rest => some (handles, rest)

/-- Whether a document without content ends here. -/
def endsDocument : List Token → Bool
  | [] | .directive _ :: _ | .documentStart :: _ | .documentEnd :: _ => true
  | _ => false

/-- The mapping of a document, and what follows it. -/
def readBody? (handles : Handles) (tokens : List Token) :
    Option (List (Node × Node) × List Token) := do
  let (properties, rest) ← properties? handles tokens
  match rest with
  | .blockStart :: rest => blockEntries? handles rest.length rest
  | .flowStart :: rest => flowEntries? handles rest.length rest
  | .scalar _ :: _ => none
  | rest => if properties = ⟨none, none⟩ then none else return ([], rest)

/-- The mapping of the only document of a text. -/
def readDocument? (tokens : List Token) : Option (List (Node × Node)) := do
  let (handles, rest) ← readDirectives? false [] tokens
  let handles := handles ++ standardHandles
  let (entries, rest) ←
    match tokens, rest with
    | [], _ => some ([], [])
    | _, .documentStart :: rest =>
      if endsDocument rest then some ([], rest) else readBody? handles rest
    | .directive _ :: _, _ => none
    | _, rest => readBody? handles rest
  if rest.all (· = .documentEnd) then return entries else none

/-- Reads a text that holds one mapping from names to scalars. -/
def readMapping? (text : String) : Option (List (String × TaggedScalar)) := do
  let tokens ← Token.ofGlyphs? (← glyphs? text)
  Node.resolveEntries? [] (← readDocument? tokens)

end DeltaCircuit.Yaml

import DeltaCircuit.Assoc
import DeltaCircuit.Yaml.Mapping

/-!
# Compiler options

* `Options` — what the compiler is told.
* `Options.ofYaml` — options from a YAML text. Fields that are missing have their default, others
  than the two fields are refused.
* `Options.load`, `Options.loadFromDirectory` — options from a file of a directory. The file
  `zflow.yml` goes before `zflow.yaml`.
* `Options.validate` — the name of the circuit function has to be an identifier.
-/

namespace DeltaCircuit

/-- What the compiler is told. -/
structure Options where
  /-- Whether the circuit maps changes to changes. -/
  incrementalize : Bool
  functionName : String
deriving DecidableEq

/-- Why options cannot be had. -/
inductive OptionsError where
  | notFound (path : String)
  | notIdentifier (name : String)
  /-- A file cannot be read. -/
  | unreadable (path : String)
  /-- A text is no YAML document of options. -/
  | invalidYaml
deriving DecidableEq

/-- The wording of an error with its code; errors of other parties have none. -/
def OptionsError.message? : OptionsError → Option String
  | .notFound path => some ("[CP007] Config file not found: " ++ path)
  | .notIdentifier name =>
    some ("[CP008] Invalid config: function_name '" ++ name ++ "' is not a valid identifier")
  | .unreadable _ | .invalidYaml => none

namespace Options

/-- Batch compilation into a function named `circuit`. -/
def default : Options := ⟨false, "circuit"⟩

def isNameStart (c : Char) : Bool := c.isAlpha || c = '_'

/-- Whether a text is a letter or an underscore followed by letters, digits and underscores, all of
them ASCII. -/
def isIdentifier (s : String) : Bool :=
  match s.toList with
  | [] => false
  | c :: rest => isNameStart c && rest.all fun c => isNameStart c || c.isDigit

/-- Refuses a function name that is no identifier. -/
def validate (o : Options) : Except OptionsError Options :=
  if isIdentifier o.functionName then .ok o else .error (.notIdentifier o.functionName)

/-! ### Reading -/

/-- A boolean is written without quotes, or as a block of lines with the tag of booleans. -/
def readBool? (s : Yaml.TaggedScalar) : Option Bool :=
  let isBool : Bool :=
    match s.value.style with
    | .plain => true
    | .literal => s.tag = some "tag:yaml.org,2002:bool".toList
    | .other => false
  if !isBool then none
  else
    match String.ofList s.value.text with
    | "true" | "True" | "TRUE" => some true
    | "false" | "False" | "FALSE" => some false
    | _ => none

/-- Sets the field of a name. -/
def setField? (o : Options) (name : String) (value : Yaml.TaggedScalar) : Option Options :=
  match name with
  | "incrementalize" => (readBool? value).map fun b => { o with incrementalize := b }
  | "function_name" => some { o with functionName := String.ofList value.value.text }
  | _ => none

/-- Options from the entries of a mapping, no two of which may have one name. -/
def ofEntries? (entries : List (String × Yaml.TaggedScalar)) : Option Options :=
  let names := entries.map Prod.fst
  if names.eraseDups.length ≠ names.length then none
  else entries.foldlM (fun o entry => o.setField? entry.1 entry.2) default

/-- Options from a YAML text. -/
def ofYaml (text : String) : Except OptionsError Options :=
  match (Yaml.readMapping? text).bind ofEntries? with
  | some o => o.validate
  | none => .error .invalidYaml

/-! ### Files -/

/-- A directory: its files with their contents, and directories in it. -/
abbrev Directory := List (String × Option String)

/-- Options from a file of a directory that is known by a path. -/
def load (path : String) (dir : Directory) (name : String) : Except OptionsError Options :=
  match Assoc.get? dir name with
  | none => .error (.notFound (path ++ "/" ++ name))
  | some none => .error (.unreadable (path ++ "/" ++ name))
  | some (some text) => ofYaml text

/-- Options from the first file of options in a directory. -/
def loadFromDirectory (path : String) (dir : Directory) : Except OptionsError Options :=
  if (Assoc.get? dir "zflow.yml").isSome then load path dir "zflow.yml"
  else if (Assoc.get? dir "zflow.yaml").isSome then load path dir "zflow.yaml"
  else .error (.notFound (path ++ "/zflow.yml"))

end Options
end DeltaCircuit

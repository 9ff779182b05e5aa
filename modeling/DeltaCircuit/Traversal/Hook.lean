import DeltaCircuit.Expr.Basic

/-!
# Hooks of a traversal

A traversal of syntax calls hooks around every node. There is a hook for every form of type,
expression, pattern and statement, hooks for families of forms, one for each sort of node, and one
for all nodes. A hook that does not settle a call itself may pass it on to the next wider one.

* `Hook.ofType`, `Hook.ofExpr`, `Hook.ofPattern`, `Hook.ofStatement` — the hook that a node is
  announced to first.
* `Hook.wider?` — the hook that a call is passed on to.
* `Hook.chain` — a hook and all the wider ones.

Arms of a match are announced to a hook of their own, which passes nothing on.
-/

namespace DeltaCircuit

/-- What a traversal meets. -/
inductive SyntaxNode where
  | type (type : Ty)
  | expr (expr : Expr)
  | pattern (pattern : Pattern)
  | statement (statement : Statement)
  | arm (arm : Arm)

/-- The hooks of a traversal. -/
inductive Hook where
  | node
  | type | expr | pattern | statement
  /-- Types without components. -/
  | baseType
  /-- Tuple types of either kind. -/
  | tupleBaseType
  /-- Types with components that have a name of their own. -/
  | userBaseType
  /-- Tuple constructors of either kind. -/
  | tupleBase
  | boolType | integerType | floatType | decimalType | stringType | strType | dateType
  | timestampType | intervalType | geoPointType | nullType | anyType | tupleType | rawTupleType
  | structType | vecType | zsetType | indexedZSetType | functionType | referenceType | userType
  | literal | variableUse | field | binary | unary | cast | apply | closure | block | ifElse
  | matchOn | forLoop | assign | tuple | rawTuple | struct | path | qualifyType | borrow | deref
  | zsetLiteral
  | identifierPattern | wildcardPattern | tuplePattern | literalPattern
  | letBind | expressionStatement
  | matchCase
deriving DecidableEq

namespace Hook

/-- The name under which a hook is known. -/
def name : Hook → String
  | node => "node"
  | type => "type"
  | expr => "expr"
  | pattern => "pattern"
  | statement => "statement"
  | baseType => "base_type"
  | tupleBaseType => "tuple_base_type"
  | userBaseType => "user_base_type"
  | tupleBase => "tuple_base"
  | boolType => "bool_type"
  | integerType => "integer_type"
  | floatType => "float_type"
  | decimalType => "decimal_type"
  | stringType => "string_type"
  | strType => "str_type"
  | dateType => "date_type"
  | timestampType => "timestamp_type"
  | intervalType => "interval_type"
  | geoPointType => "geo_point_type"
  | nullType => "null_type"
  | anyType => "any_type"
  | tupleType => "tuple_type"
  | rawTupleType => "raw_tuple_type"
  | structType => "struct_type"
  | vecType => "vec_type"
  | zsetType => "zset_type"
  | indexedZSetType => "indexed_zset_type"
  | functionType => "function_type"
  | referenceType => "reference_type"
  | userType => "user_type"
  | literal => "literal"
  | variableUse => "variable"
  | field => "field"
  | binary => "binary"
  | unary => "unary"
  | cast => "cast"
  | apply => "apply"
  | closure => "closure"
  | block => "block"
  | ifElse => "if"
  | matchOn => "match"
  | forLoop => "for"
  | assign => "assign"
  | tuple => "tuple"
  | rawTuple => "raw_tuple"
  | struct => "struct"
  | path => "path"
  | qualifyType => "qualify_type"
  | borrow => "borrow"
  | deref => "deref"
  | zsetLiteral => "zset_literal"
  | identifierPattern => "identifier_pattern"
  | wildcardPattern => "wildcard_pattern"
  | tuplePattern => "tuple_pattern"
  | literalPattern => "literal_pattern"
  | letBind => "let"
  | expressionStatement => "expression_statement"
  | matchCase => "match_case"

/-- The sorts of hooks, from the widest to those of single forms. -/
inductive Breadth where
  | all | sort | family | form
deriving DecidableEq

def breadth : Hook → Breadth
  | node => .all
  | type | expr | pattern | statement => .sort
  | baseType | tupleBaseType | userBaseType | tupleBase => .family
  | _ => .form

/-- The hook that a call is passed on to. -/
def wider? : Hook → Option Hook
  | node | matchCase => none
  | type | expr | pattern | statement => some node
  | baseType | tupleBaseType | userBaseType | structType | functionType | referenceType =>
    some type
  | boolType | integerType | floatType | decimalType | stringType | strType | dateType
  | timestampType | intervalType | geoPointType | nullType | anyType => some baseType
  | tupleType | rawTupleType => some tupleBaseType
  | vecType | zsetType | indexedZSetType | userType => some userBaseType
  | tuple | rawTuple => some tupleBase
  | tupleBase | literal | variableUse | field | binary | unary | cast | apply | closure | block
  | ifElse | matchOn | forLoop | assign | struct | path | qualifyType | borrow | deref
  | zsetLiteral => some expr
  | identifierPattern | wildcardPattern | tuplePattern | literalPattern => some pattern
  | letBind | expressionStatement => some statement

/-- A hook and the wider ones, at most `steps` of them. -/
def chainUpTo : (steps : Nat) → Hook → List Hook
  | 0, h => [h]
  | steps + 1, h => h :: (h.wider?.map (chainUpTo steps)).getD []

/-- A hook and all the wider ones. There are at most three of those. -/
def chain (h : Hook) : List Hook := chainUpTo 3 h

/-! ### The first hook of a node -/

def ofBaseKind : BaseKind → Hook
  | .bool => boolType
  | .integer _ _ => integerType
  | .float _ => floatType
  | .decimal => decimalType
  | .string => stringType
  | .str => strType
  | .date => dateType
  | .timestamp => timestampType
  | .interval _ => intervalType
  | .geoPoint => geoPointType
  | .null => nullType
  | .any => anyType

def ofType (t : Ty) : Hook :=
  match t.kind with
  | .base b => ofBaseKind b
  | .tuple _ => tupleType
  | .rawTuple _ => rawTupleType
  | .struct _ _ => structType
  | .vec _ => vecType
  | .zset _ _ => zsetType
  | .indexedZSet _ _ _ => indexedZSetType
  | .function _ _ => functionType
  | .reference _ _ => referenceType
  | .user _ _ => userType

def ofExpr (e : Expr) : Hook :=
  match e.form with
  | .literal _ => literal
  | .var _ => variableUse
  | .field _ _ => field
  | .binary _ _ _ => binary
  | .unary _ _ => unary
  | .cast _ => cast
  | .apply _ _ => apply
  | .closure _ _ => closure
  | .block _ _ => block
  | .ifElse _ _ _ => ifElse
  | .matchOn _ _ => matchOn
  | .forLoop _ _ _ => forLoop
  | .assign _ _ => assign
  | .tuple _ => tuple
  | .rawTuple _ => rawTuple
  | .struct _ => struct
  | .path _ => path
  | .qualify _ _ => qualifyType
  | .borrow _ _ => borrow
  | .deref _ => deref
  | .zset _ => zsetLiteral

def ofPattern : Pattern → Hook
  | .identifier _ _ => identifierPattern
  | .wildcard => wildcardPattern
  | .tuple _ => tuplePattern
  | .literal _ => literalPattern

def ofStatement : Statement → Hook
  | .letBind _ _ _ _ => letBind
  | .eval _ => expressionStatement

end Hook

/-- The hook that a node is announced to first. -/
def SyntaxNode.hook : SyntaxNode → Hook
  | .type t => .ofType t
  | .expr e => .ofExpr e
  | .pattern p => .ofPattern p
  | .statement s => .ofStatement s
  | .arm _ => .matchCase

/-- The sort of a node. -/
def SyntaxNode.sort : SyntaxNode → Hook
  | .type _ => .type
  | .expr _ => .expr
  | .pattern _ => .pattern
  | .statement _ => .statement
  | .arm _ => .matchCase

end DeltaCircuit

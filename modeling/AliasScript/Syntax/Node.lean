import AliasScript.Raw

/-!
# Program trees

A program tree as it comes from a parser. The tree is loose: a node may have any nodes as its
parts, and running the tree finds out whether they fit. Trees read from program text always fit.
-/

namespace AliasScript

/-- Where a node stands in the source: the place of its first character, counted from one, with
the node's tag and its source text, as the parser gives it. -/
structure Loc where
  line : Int
  col : Int
  tag : String
  text : Raw
deriving Inhabited

def Loc.raw (loc : Loc) : Raw :=
  .object [("line", .int loc.line), ("col", .int loc.col), ("tag", .text loc.tag), ("text", loc.text)]

/-- A node of a program tree. -/
inductive Node where
  | identifier (name : String) (loc : Option Loc)
  | integer (value : Int) (loc : Option Loc)
  | string (value : String) (loc : Option Loc)
  | literal (inner : Node) (loc : Option Loc)
  | scalar (identifier : Node) (loc : Option Loc)
  | object (obj attr : Node) (loc : Option Loc)
  | variable (inner : Node) (loc : Option Loc)
  | value (inner : Node) (loc : Option Loc)
  | assignee (inner : Node) (loc : Option Loc)
  | valueAssignment (assignee value : Node) (loc : Option Loc)
  | typeAssignment (assignee typeIdentifier : Node) (loc : Option Loc)
  /-- The operation of a list statement, named by the tag of its keyword. -/
  | listOperation (keyword : Raw) (loc : Option Loc)
  | listAssignment (operation item assignee : Node) (loc : Option Loc)
  | invocation (callee argument : Node) (loc : Option Loc)
  | expression (inner : Node) (loc : Option Loc)
  | block (body : List Node) (loc : Option Loc)
  | root (body : List Node) (loc : Option Loc)
deriving Inhabited

namespace Node

/-- The name of the kind of a node. -/
def tag : Node → String
  | .identifier .. => "identifier"
  | .integer .. => "integer"
  | .string .. => "string"
  | .literal .. => "literal"
  | .scalar .. => "scalar"
  | .object .. => "object"
  | .variable .. => "variable"
  | .value .. => "value"
  | .assignee .. => "assignee"
  | .valueAssignment .. => "value_assignment"
  | .typeAssignment .. => "type_assignment"
  | .listOperation .. => "list_operation"
  | .listAssignment .. => "list_assignment"
  | .invocation .. => "invocation"
  | .expression .. => "expression"
  | .block .. => "block"
  | .root .. => "root"

/-- Where the node stands, if that is known. -/
def loc : Node → Option Loc
  | .identifier _ loc | .integer _ loc | .string _ loc | .literal _ loc | .scalar _ loc
  | .object _ _ loc | .variable _ loc | .value _ loc | .assignee _ loc | .valueAssignment _ _ loc
  | .typeAssignment _ _ loc | .listOperation _ loc | .listAssignment _ _ _ loc
  | .invocation _ _ loc | .expression _ loc | .block _ loc | .root _ loc => loc

/-- The name that a node carries, if it is of a kind that carries one. -/
def name? : Node → Option String
  | .identifier name _ | .listOperation (.text name) _ => some name
  | _ => none

/-- The word that selects an operation on a list, if the node is of a kind that carries one. -/
def keyword? : Node → Option Raw
  | .identifier name _ => some (.text name)
  | .listOperation keyword _ => some keyword
  | _ => none

def inner? : Node → Option Node
  | .literal inner _ | .variable inner _ | .value inner _ | .assignee inner _
  | .expression inner _ => some inner
  | _ => none

/-- The value of a string node: its source text without a pair of equal quotes around it. -/
def unquote (cs : List Char) : List Char :=
  match cs with
  | q :: rest =>
    if (q = '"' ∨ q = '\'') ∧ rest.getLast? = some q then rest.dropLast else cs
  | [] => []

end Node

end AliasScript

import AliasScript.Syntax.Cursor

/-!
# Reading a program

The grammar of the language, by ordered choice: the first reading that fits is taken and never
reconsidered.

    x is a person            makes a new person
    x age is 8               binds a name or an attribute
    add "sword" to things    changes a list
    write things             calls a function

Statements need no separator between them. A text is a program when statements and separators use
it up; else the place of the first statement that cannot be read is reported.
-/

namespace AliasScript

open Reader

namespace Grammar

def gap : Reader Unit := do discard (token Token.gap?)

def word (words : List String) : Reader Unit := do discard (token (Token.oneOf? words))

/-! ## Names and values -/

def identifierNode : Reader Node :=
  located "identifier" do return .identifier (String.ofList (← token Token.identifier?))

def integerNode : Reader Node :=
  located "integer" do return .integer (Token.integerValue (← token Token.integer?))

def stringNode : Reader Node :=
  located "string" do return .string (String.ofList (Node.unquote (← token Token.string?)))

def objectNode : Reader Node :=
  located "object" do
    let obj ← identifierNode
    gap
    return .object obj (← identifierNode)

def scalarNode : Reader Node := located "scalar" do return .scalar (← identifierNode)

def variableNode : Reader Node :=
  located "variable" do return .variable (← objectNode <|> scalarNode)

def literalNode : Reader Node :=
  located "literal" do return .literal (← integerNode <|> stringNode)

def valueNode : Reader Node :=
  located "value" do return .value (← literalNode <|> variableNode)

def assigneeNode : Reader Node :=
  located "assignee" do return .assignee (← objectNode <|> scalarNode)

/-! ## Statements -/

def valueAssignmentNode : Reader Node :=
  located "value_assignment" do
    let assignee ← assigneeNode
    gap
    word ["is"]
    gap
    return .valueAssignment assignee (← valueNode)

def typeAssignmentNode : Reader Node :=
  located "type_assignment" do
    let assignee ← assigneeNode
    gap
    word ["is"]
    gap
    word ["an", "a"]
    gap
    return .typeAssignment assignee (← identifierNode)

def listOperationNode : Reader Node :=
  located "list_operation" do
    return .listOperation (.text (String.ofList (← token (Token.oneOf? ["add", "remove"]))))

def listAssignmentNode : Reader Node :=
  located "list_assignment" do
    let operation ← listOperationNode
    gap
    let item ← valueNode
    gap
    word ["to", "from"]
    gap
    return .listAssignment operation item (← assigneeNode)

def invocationNode : Reader Node :=
  located "invocation" do
    let callee ← identifierNode
    gap
    return .invocation callee (← valueNode)

def expressionNode : Reader Node :=
  located "expression" do
    skip Text.isGap
    let inner ← listAssignmentNode <|> typeAssignmentNode <|> valueAssignmentNode <|> invocationNode
    skip Text.isGap
    return .expression inner

/-- A statement with the separators behind it. -/
def statement : Reader Node := do
  let node ← expressionNode
  skip Text.isSeparator
  return node

/-- As many statements as can be read, and the place where that ends. -/
def statements (c : Cursor) : List Node × Cursor :=
  match statement c with
  | none => ([], c)
  | some (node, d) =>
    if d.rest.length < c.rest.length then
      let (nodes, e) := statements d
      (node :: nodes, e)
    else ([], c)
termination_by c.rest.length

end Grammar

/-! ## Programs -/

/-- The place where a text stops being a program. -/
structure Unread where
  line : Nat
  col : Nat
  rest : List Char
deriving DecidableEq, Repr

/-- Why a text is no program. -/
inductive ProgramError where
  | unread (place : Unread)
  /-- An integer too large to be kept, negative or not. -/
  | tooLarge (negative : Bool)
deriving DecidableEq, Repr

/-- The leading characters that fit into a number of bytes. -/
def leadingBytes : Nat → List Char → List Char
  | _, [] => []
  | n, c :: cs => if c.utf8Size ≤ n then c :: leadingBytes (n - c.utf8Size) cs else []

namespace Unread

/-- The first characters that could not be read, up to the end of their line. -/
def snippet (place : Unread) : List Char := (leadingBytes 20 place.rest).takeWhile (· != '\n')

def message (place : Unread) : String :=
  "Parse Error in input text at L" ++ toString place.line ++ ":C" ++ toString place.col ++
    ". Rule 'root' parsed successfully, but failed to consume the entire input. " ++
    "Unconsumed text begins with: '" ++ String.ofList place.snippet ++ "...'"

end Unread

namespace Node

mutual

def integers : Node → List Int
  | .integer n _ => [n]
  | .identifier .. | .string .. | .listOperation .. => []
  | .literal inner _ | .scalar inner _ | .variable inner _ | .value inner _ | .assignee inner _
  | .expression inner _ => inner.integers
  | .object a b _ | .valueAssignment a b _ | .typeAssignment a b _ | .invocation a b _ =>
    a.integers ++ b.integers
  | .listAssignment a b c _ => a.integers ++ b.integers ++ c.integers
  | .block body _ | .root body _ => integersOfAll body

def integersOfAll : List Node → List Int
  | [] => []
  | node :: nodes => node.integers ++ integersOfAll nodes

end

/-- The largest integer that can be kept has 64 binary digits. -/
def largest : Int := 0xFFFFFFFFFFFFFFFF

/-- The smallest integer that can be kept has a sign and 63 binary digits. -/
def smallest : Int := -0x8000000000000000

/-- Why an integer cannot be kept, if it is out of range. -/
def rangeError? (n : Int) : Option ProgramError :=
  if largest < n then some (.tooLarge false)
  else if n < smallest then some (.tooLarge true)
  else none

/-- Reads the whole of a text as a program. -/
def ofSource (source : String) : Except ProgramError Node :=
  let c := Cursor.start source.toList
  let begun := c.past (Token.run Text.isSeparator c.rest)
  let (body, d) := Grammar.statements begun
  if d.rest.isEmpty then
    let node := Node.root body (some (c.loc d "root"))
    match node.integers.findSome? rangeError? with
    | some e => .error e
    | none => .ok node
  else .error (.unread ⟨d.line, d.col, d.rest⟩)

end Node

end AliasScript

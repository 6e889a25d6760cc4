import AliasScript.Eval.Items
import AliasScript.Eval.Library

/-!
# Running a program tree

An assignment stores a reference where it can, and a value only where a literal is given: `y is x`
makes `y` another name of whatever `x` holds. References are followed when a value is needed: by a
list statement, by an attribute of an aliased object, and by the functions that are called.

Statements run one after the other. What a function returns is kept until the next statement begins.
-/

namespace AliasScript

/-- What reading a literal, a name or an attribute gives: what it holds, and the reference that an
assignment would store for it. A literal has no reference. -/
structure Reading where
  val : Binding
  ref : Option Reference
deriving DecidableEq, Repr

namespace Reading

/-- What an assignment of this stores. -/
def storedForm (r : Reading) : Binding :=
  match r.ref with
  | none => r.val
  | some ref => .reference ref

def render (r : Reading) : String := (r.ref.map Reference.render).getD Scalar.nothing.quoted

end Reading

/-- What running a node gives. -/
inductive Outcome where
  /-- A statement has run and returned something. -/
  | done (ret : Binding)
  | reading (r : Reading)
  /-- The number, text or name in a leaf of the tree. -/
  | leaf (s : Scalar)
deriving DecidableEq, Repr

namespace Outcome

def reading? : Outcome → Except Fault Reading
  | .reading r => .ok r
  | _ => .error .partless

/-- The outcome as a name; a number names itself in decimal. -/
def name? : Outcome → Except Fault String
  | .leaf (.text s) => .ok s
  | .leaf (.number n) => .ok (toString n)
  | _ => .error .nameless

def literal? : Outcome → Except Fault Reading
  | .leaf s => .ok ⟨.value (.scalar s), none⟩
  | _ => .error .partless

end Outcome

/-- A part that a node must have. -/
def part {α : Type} : Option α → Except Fault α
  | some a => .ok a
  | none => .error .partless

/-- The place that the target of an assignment names. -/
def target (assignee : Node) : Except Fault Reference := do
  match ← part assignee.inner? with
  | .scalar identifier _ => return .name (← part identifier.name?)
  | .object obj attr _ => return .path (← part obj.name?) (← part attr.name?)
  | other => throw (.unknownNode other.tag .assign)

def objectAt (m : Machine) (obj attr : String) : Except Fault Addr := do
  let unbound : Fault := .failure (.unboundAttributeBase obj attr)
  match ← baseOf m.names m.heap [] obj with
  | .cell a =>
    match m.heap.get? a with
    | some (.object _ _) => return a
    | _ => throw unbound
  | .scalar _ => throw unbound

def assign (place : Reference) (b : Binding) : Run Unit := do
  match place with
  | .name name => Run.change fun m => { m with names := m.names.set name b }
  | .path obj attr =>
    let a ← Run.ask fun m => objectAt m obj attr
    Run.change fun m => { m with heap := m.heap.setAttribute a attr b }

/-- The template for a type: a type that is not known is made like `generic`. -/
def templateFor (types : Table Template) (type : String) : Except Fault Template :=
  match types.get? type, types.get? "generic" with
  | some t, _ => .ok t
  | none, some t => .ok t
  | none, none => .error (.missingKey (Text.quoted "generic"))

def instantiate (template : Template) (type : String) : Run Value :=
  Run.onHeap (HeapM.alloc (template.cell type))

/-- An unbound reference on the way to a list makes the list unknown. -/
def asListTarget (written : String) (result : Except Fault Value) : Except Fault Value :=
  match result with
  | .error (.failure (.unboundVariable _)) => .error (.failure (.unboundListTarget written))
  | other => other

/-- The list that the target of a list statement leads to. -/
def listAt (m : Machine) (current : Reading) : Except Fault (Addr × List Binding) := do
  let unknown : Fault := .failure (.unboundListTarget current.render)
  match ← asListTarget current.render (deref m.names m.heap current.val) with
  | .cell a =>
    match m.heap.get? a with
    | some (.list _ items) => return (a, items)
    | _ => throw unknown
  | .scalar _ => throw unknown

def changeList (operation : Node) (a : Addr) (items : List Binding) (item : Binding) : Run Unit := do
  let keyword ← Run.ask fun _ => part operation.keyword?
  let op ← Run.ask fun _ => listOperation keyword
  Run.change fun m => { m with heap := m.heap.setItems a (m.heap.changeItems op items item) }

/-- The function that a name leads to. The name is resolved like any other argument. -/
def functionNamed (name : String) : Run Function := do
  match ← Run.resolve (.reference (.name name)) with
  | .scalar (.function f) => return f
  | _ => Run.fail (.notAFunction name)

/-- What was read, as an argument: a name or an attribute must hold something. -/
def argument (r : Reading) : Except Fault Binding :=
  match r.ref with
  | some ref => if r.val = .nothing then .error (.failure (.unboundVariable ref.render)) else .ok r.val
  | none => .ok r.val

/-- Notes where the next statement stands and forgets what the last one returned. -/
def begin (node : Node) : Run Unit :=
  Run.change fun m => { m with statement := node.loc, ret := .nothing }

/-- How the trace shows a place. -/
def tracedPlace : Reference → String
  | .name name => name
  | .path obj attr => parenthesized [Text.quoted obj, Text.quoted attr]

section

variable (hosts : Hosts)

mutual

/-- Runs a node of any kind. -/
def interpret (node : Node) : Run Outcome :=
  match node with
  | .root body _ | .block body _ => do
    let m ← get
    runSequence body (.done m.ret)
  | .expression inner _ => interpret inner
  | .valueAssignment assignee value _ => do
    let outcome ← interpret value
    let r ← Run.ask fun _ => outcome.reading?
    let place ← Run.ask fun _ => target assignee
    Run.note fun m => "[DBG] assign " ++ tracedPlace place ++ " <- " ++ m.heap.plain r.storedForm
    assign place r.storedForm
    return .done .nothing
  | .typeAssignment assignee typeIdentifier _ => do
    let outcome ← interpret typeIdentifier
    let type ← Run.ask fun _ => outcome.name?
    let template ← Run.ask fun m => templateFor m.types type
    let v ← instantiate template type
    let place ← Run.ask fun _ => target assignee
    assign place (.value v)
    return .done .nothing
  | .listAssignment operation item assignee _ => do
    let current ← evaluateInner assignee
    if current.val = .nothing then Run.fail (.unboundListTarget current.render)
    let outcome ← interpret item
    let r ← Run.ask fun _ => outcome.reading?
    let (a, items) ← Run.ask fun m => listAt m current
    changeList operation a items r.storedForm
    let place ← Run.ask fun _ => target assignee
    assign place current.val
    return .done .nothing
  | .invocation callee arg _ => do
    let outcome ← interpret callee
    let name ← Run.ask fun _ => outcome.name?
    let f ← functionNamed name
    let argOutcome ← interpret arg
    let r ← Run.ask fun _ => argOutcome.reading?
    let b ← Run.ask fun _ => argument r
    Run.note fun m => "[DBG] call " ++ name ++ " " ++ m.heap.plain b
    return .done (← f.call hosts b)
  | .value inner _ => do return .reading (← evaluateValue inner)
  | .integer n _ => return .leaf (.number n)
  | .string s _ | .identifier s _ => return .leaf (.text s)
  | other => throw (.unknownNode other.tag .interpret)

def evaluateValue (node : Node) : Run Reading :=
  match node with
  | .literal inner _ => do
    let outcome ← interpret inner
    Run.ask fun _ => outcome.literal?
  | .variable inner _ => evaluateValue inner
  | .scalar identifier _ => do
    let outcome ← interpret identifier
    let name ← Run.ask fun _ => outcome.name?
    Run.ask fun m => .ok ⟨m.names.read name, some (.name name)⟩
  | .object objNode attrNode _ => do
    let obj ← Run.ask fun _ => part objNode.name?
    let attr ← Run.ask fun _ => part attrNode.name?
    let b ← Run.ask fun m => readPath m.names m.heap obj attr
    return ⟨b, some (.path obj attr)⟩
  | other => throw (.unknownNode other.tag .evaluateValue)

def evaluateInner (node : Node) : Run Reading :=
  match node with
  | .literal inner _ | .variable inner _ | .value inner _ | .assignee inner _
  | .expression inner _ => evaluateValue inner
  | _ => throw .partless

/-- Runs statements from left to right; `last` is the outcome of the statement before. -/
def runSequence (nodes : List Node) (last : Outcome) : Run Outcome :=
  match nodes with
  | [] => return last
  | node :: rest => do
    begin node
    match last with
    | .done _ => do
      let outcome ← interpret node
      runSequence rest outcome
    | _ => throw .partless

end

end

end AliasScript

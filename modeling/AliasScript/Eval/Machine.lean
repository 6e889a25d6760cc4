import AliasScript.Store.Resolve
import AliasScript.Tree.Pretty
import AliasScript.Tree.Same

/-!
# The machine

What a running program works on: the names it has bound, the types it can make things of, the heap,
and what the last statement returned. Beside these the machine keeps the messages that the program
wrote, the place of the statement begun last, and a trace for those who watch it.

A fault leaves the machine as it is at that moment.
-/

namespace AliasScript

/-- What a new thing of a type is. -/
inductive Template where
  | generic
  | list
deriving DecidableEq, Repr

namespace Template

def cell (t : Template) (type : String) : Cell :=
  match t with
  | .generic => .object (some type) .empty
  | .list => .list (some type) []

/-- The types known from the start. A type of any other name is made like `generic`. -/
def defaults : Table Template := .ofList [("generic", .generic), ("list", .list)]

end Template

/-- Whom a message is for. -/
inductive Topic where
  | stdout
  | stderr
deriving DecidableEq, Repr

/-- A message that a run has recorded. -/
structure Effect where
  topic : Topic
  message : String
deriving DecidableEq, Repr

/-- What a running program works on. -/
structure Machine where
  names : Table Binding
  types : Table Template
  heap : Heap
  /-- What the last statement returned. -/
  ret : Binding
  effects : List Effect
  /-- The place of the statement begun last. -/
  statement : Option Loc
  /-- What was assigned and called, a line for each. -/
  trace : List String

/-- Runs on a machine; what has been changed before a fault stays changed. -/
abbrev Run := ExceptT Fault (StateM Machine)

namespace Machine

def builtins : Table Binding :=
  .ofList ([Function.count, .describe, .write].map fun f => (f.name, .value (.scalar (.function f))))

/-- A machine on which nothing has run, with or without the built-in functions. -/
def fresh (library : Bool) : Machine where
  names := if library then builtins else .empty
  types := Template.defaults
  heap := .empty
  ret := .nothing
  effects := []
  statement := none
  trace := []

instance : Inhabited Machine := ⟨fresh true⟩

/-- Forgets every name, keeping the messages. -/
def reset (m : Machine) (library : Bool) : Machine :=
  { fresh library with effects := m.effects, statement := m.statement, trace := m.trace }

end Machine

namespace Run

def fail {α : Type} (f : Failure) : Run α := throw (.failure f)

def onHeap {α : Type} (act : HeapM α) : Run α := fun m =>
  let (result, heap) := act m.heap
  (result, { m with heap })

/-- A question to the machine that can have no answer. -/
def ask {α : Type} (question : Machine → Except Fault α) : Run α := fun m => (question m, m)

def change (f : Machine → Machine) : Run Unit := fun m => (.ok (), f m)

def deref (b : Binding) : Run Value := ask fun m => AliasScript.deref m.names m.heap b

def resolve (b : Binding) : Run Value := fun m => onHeap (AliasScript.resolve m.names b) m

def say (topic : Topic) (message : String) : Run Unit :=
  change fun m => { m with effects := m.effects ++ [⟨topic, message⟩] }

def note (line : Machine → String) : Run Unit :=
  change fun m => { m with trace := m.trace ++ [line m] }

end Run

/-- The functions of the host program, by name: given the argument as it was read, they return a
binding. -/
abbrev Hosts := String → Binding → Run Binding

end AliasScript

import AliasScript.Eval.Machine

/-!
# The built-in functions

Each takes one argument as it was read, which may be a reference.
-/

namespace AliasScript

namespace Library

/-- The number of items, attributes or characters of a value, if it has any of these. -/
def size? (h : Heap) (v : Value) : Option Nat :=
  match v with
  | .scalar (.text s) => some s.length
  | .cell a =>
    match h.get? a with
    | some (.list _ items) => some items.length
    | some (.object _ attrs) => some attrs.size
    | _ => none
  | _ => none

/-- Counts what the argument leads to, without resolving what is in it. -/
def count (arg : Binding) : Run Binding := do
  let v ← Run.deref arg
  Run.ask fun m =>
    match size? m.heap v with
    | some n => .ok (.value (.number n))
    | none => .error (.failure (.wrongArgument (m.heap.describe (.value v))))

def describe (arg : Binding) : Run Binding := do
  let v ← Run.resolve arg
  Run.ask fun m => .ok (.value (.text (m.heap.describe (.value v))))

/-- A value as it is written out: a text as it is, everything else in printed form. -/
def message (h : Heap) (v : Value) : Except Fault String :=
  match v with
  | .scalar (.text s) => .ok s
  | v => h.print (.value v)

/-- Writes the resolved argument out and returns what was written. -/
def write (arg : Binding) : Run Binding := do
  let v ← Run.resolve arg
  let text ← Run.ask fun m => message m.heap v
  Run.say .stdout text
  return .value (.text text)

end Library

def Function.call (hosts : Hosts) (f : Function) (arg : Binding) : Run Binding :=
  match f with
  | .count => Library.count arg
  | .describe => Library.describe arg
  | .write => Library.write arg
  | .host name => hosts name arg

end AliasScript

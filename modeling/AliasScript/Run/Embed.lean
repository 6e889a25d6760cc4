import AliasScript.Run.Runner
import AliasScript.Store.Keyed

/-!
# Embedding

What a host program can do with a machine between scripts: bind and read names, call functions,
change the types, and run trees or sources in the same names.
-/

namespace AliasScript

namespace Run

/-- Binds a key, which must be a name. -/
def bind (key : Scalar) (b : Binding) : Run Unit := do
  let names ← ask fun m => m.names.setKey true key b
  change fun m => { m with names }

def bound (key : Scalar) : Run Binding := ask fun m => m.names.atKey key

def unbind (key : Scalar) : Run Unit := do
  let names ← ask fun m => m.names.eraseKey key
  change fun m => { m with names }

/-- Calls the function that a key is bound to. -/
def callBound (hosts : Hosts) (key : Scalar) (arg : Binding) : Run Binding := do
  match ← bound key with
  | .value (.scalar (.function f)) => f.call hosts arg
  | _ => throw .uncallable

def instantiateNamed (type : String) : Run Value := do
  let template ← ask fun m => templateFor m.types type
  instantiate template type

/-- Makes a type name stand for what one of the first types makes. -/
def registerType (name as : String) : Run Unit := do
  let template ← ask fun _ => Template.defaults.atKey (.text as)
  change fun m => { m with types := m.types.set name template }

def unregisterType (name : String) : Run Unit := do
  let types ← ask fun m => m.types.eraseKey (.text name)
  change fun m => { m with types }

/-- Runs a source in the names of the machine and gives what it returned. -/
def interpretSource (hosts : Hosts) (source : String) : Run Outcome := do
  let root ← ask fun _ => Runner.parse source
  interpret hosts root

end Run

def Machine.quoted (m : Machine) : String := quotedContext m.types.names m.names.names

end AliasScript

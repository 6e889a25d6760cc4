import AliasScript.Failure
import AliasScript.Tree.Quoted

/-!
# Tables by key

The host may look into an object or a context with any scalar for a key. Only texts are ever bound,
so any other key is missing, and binding one is refused.
-/

namespace AliasScript

def Scalar.kindName : Scalar → String
  | .nothing => "NoneType"
  | .truth _ => "bool"
  | .number _ => "int"
  | .decimal _ => "float"
  | .text _ => "str"
  | .function _ => "method"

def Scalar.missing (key : Scalar) : Fault := .missingKey key.quoted

namespace Table

variable {α : Type}

/-- What a key is bound to, if anything. -/
def atKey? (t : Table α) (key : Scalar) : Option α :=
  match key with
  | .text name => t.get? name
  | _ => none

def atKey (t : Table α) (key : Scalar) : Except Fault α :=
  match t.atKey? key with
  | some a => .ok a
  | none => .error key.missing

/-- Binds a key in a context or an object. -/
def setKey (t : Table α) (context : Bool) (key : Scalar) (a : α) : Except Fault (Table α) :=
  match key with
  | .text name => .ok (t.set name a)
  | _ => .error (.badKey context key.kindName)

def eraseKey (t : Table α) (key : Scalar) : Except Fault (Table α) :=
  match key with
  | .text name => if t.contains name then .ok (t.erase name) else .error key.missing
  | _ => .error key.missing

/-- Forgets a key and gives what it was bound to. -/
def popKey (t : Table α) (key : Scalar) : Except Fault (α × Table α) := do
  return (← t.atKey key, ← t.eraseKey key)

/-- Binds a key unless it is bound already, and gives what it is bound to then. -/
def setDefault (t : Table α) (context : Bool) (key : Scalar) (a : α) :
    Except Fault (α × Table α) :=
  match t.atKey? key with
  | some old => .ok (old, t)
  | none => (t.setKey context key a).map (a, ·)

/-- Forgets the first name and gives it with what it was bound to. -/
def popFirst (t : Table α) : Except Fault ((String × α) × Table α) :=
  match t.entries with
  | [] => .error (.missingKey "")
  | entry :: rest => .ok (entry, ⟨rest⟩)

end Table

def Cell.table? : Cell → Option (Table Binding)
  | .object _ attrs => some attrs
  | .context _ bindings => some bindings
  | _ => none

def Cell.withTable (c : Cell) (t : Table Binding) : Cell :=
  match c with
  | .object type _ => .object type t
  | .context types _ => .context types t
  | other => other

end AliasScript

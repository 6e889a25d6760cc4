import AliasScript.Number.Double
import AliasScript.Store.Table

/-!
# Values and bindings

A name, an attribute and a place in a list each hold a binding: a value, or a reference to another
name or attribute, to be looked up each time it is needed. Lists and objects are cells of the heap,
known by their address, so that one container can be held in several places.
-/

namespace AliasScript

/-- Stands for what another name or attribute holds. -/
inductive Reference where
  | name (name : String)
  /-- An attribute of a named object. -/
  | path (obj attr : String)
deriving DecidableEq, Repr

namespace Reference

/-- The reference as a program writes it. -/
def render : Reference → String
  | .name n => n
  | .path obj attr => obj ++ " " ++ attr

def isAttribute : Reference → Bool
  | .name _ => false
  | .path _ _ => true

end Reference

/-- The functions that a program can call: the built-in ones, and those of the host by name. -/
inductive Function where
  | count
  | describe
  | write
  | host (name : String)
deriving DecidableEq, Repr

def Function.name : Function → String
  | .count => "count"
  | .describe => "describe"
  | .write => "write"
  | .host n => n

/-- The values without parts. `decimal` values come from the host only. -/
inductive Scalar where
  | nothing
  | truth (b : Bool)
  | number (n : Int)
  | decimal (x : Double)
  | text (s : String)
  | function (f : Function)
deriving DecidableEq, Repr

abbrev Addr := Nat

/-- What a reference leads to in the end. -/
inductive Value where
  | scalar (s : Scalar)
  | cell (a : Addr)
deriving DecidableEq, Repr

/-- What a name, an attribute or a place in a list holds. -/
inductive Binding where
  | value (v : Value)
  | reference (r : Reference)
deriving DecidableEq, Repr

namespace Value

abbrev nothing : Value := .scalar .nothing

abbrev text (s : String) : Value := .scalar (.text s)

abbrev number (n : Int) : Value := .scalar (.number n)

end Value

namespace Binding

/-- Nothing: what an unbound name reads as. -/
abbrev nothing : Binding := .value .nothing

instance : Inhabited Binding := ⟨nothing⟩

def reference? : Binding → Option Reference
  | .reference r => some r
  | .value _ => none

end Binding

/-- What a name is bound to; an unbound name reads as nothing. -/
def Table.read (t : Table Binding) (name : String) : Binding := (t.get? name).getD .nothing

theorem Table.get?_of_read {t : Table Binding} {name : String} {r : Reference}
    (h : t.read name = .reference r) : t.get? name = some (.reference r) := by
  rw [Table.read] at h
  cases found : t.get? name with
  | none =>
    rw [found] at h
    cases h
  | some b =>
    rw [found] at h
    exact congrArg some h

end AliasScript

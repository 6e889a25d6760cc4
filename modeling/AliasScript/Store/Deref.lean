import AliasScript.Failure
import AliasScript.Store.Heap
import AliasScript.Store.Unseen

/-!
# Following references

Following a reference looks up what it stands for, again and again, until a value is found. Meeting
a name for the second time is a circle and reported as such.

To look up an attribute its object must be found first, and the name of the object may itself be
bound to a reference. Following that one starts with no names seen. So a circle through the names of
objects is not noticed by the names seen, and following it would never end; the objects whose
names are being followed at the moment are kept here to say exactly when that happens.
-/

namespace AliasScript

/-- The references that can be met on the way, as programs write them. -/
def metReferences (names : Table Binding) (heap : Heap) : List String :=
  (names.entries.filterMap (·.2.reference?) ++ heap.references).map Reference.render

/-- A binding held by a name or an attribute: if it is a reference, it is one that can be met. -/
structure Held (names : Table Binding) (heap : Heap) where
  binding : Binding
  met : ∀ r, binding = .reference r → r.render ∈ metReferences names heap

namespace Held

variable (names : Table Binding) (heap : Heap)

/-- What a name holds. -/
def ofName (name : String) : Held names heap where
  binding := names.read name
  met _ found := by
    have entry := Table.mem_of_get? (Table.get?_of_read found)
    exact List.mem_map_of_mem (List.mem_append_left _ (List.mem_filterMap.2 ⟨_, entry, rfl⟩))

/-- What an attribute of a value holds. -/
def ofAttribute (base : Value) (attr : String) : Held names heap where
  binding := heap.readAttribute base attr
  met _ found := List.mem_map_of_mem
    (List.mem_append_right _ (Heap.mem_references_of_readAttribute found))

end Held

/-- Bounds the steps still to be made from a reference, given the names seen. -/
def stepsLeft (met seen : List String) (name : String) : Nat :=
  unseen met seen + if name ∈ met then 0 else 1

theorem stepsLeft_lt {met seen : List String} {name next : String} (new : name ∉ seen)
    (known : next ∈ met) : stepsLeft met (seen ++ [name]) next < stepsLeft met seen name := by
  have grows : ∀ x ∈ seen, x ∈ seen ++ [name] := fun x mem => List.mem_append_left _ mem
  rw [stepsLeft, stepsLeft, if_pos known]
  by_cases place : name ∈ met
  · have := unseen_lt grows place new (by simp)
    rw [if_pos place]
    omega
  · have := unseen_le met grows
    rw [if_neg place]
    omega

section

variable (names : Table Binding) (heap : Heap)

mutual

/-- The object that an attribute is looked up in. -/
def baseOf (bases : List String) (obj : String) : Except Fault Value :=
  match _ : names.read obj with
  | .value v => .ok v
  | .reference r => if _ : obj ∈ bases then .error .endless else follow (obj :: bases) [] r
termination_by (unseen names.names bases, 0, 0)
decreasing_by
  apply Prod.Lex.left
  exact unseen_cons_lt (Table.mem_names_of_get? (Table.get?_of_read ‹_›)) ‹_›

/-- What the name or attribute that a reference stands for holds. -/
def lookUp (bases : List String) (r : Reference) : Except Fault (Held names heap) :=
  match r with
  | .name n => .ok (.ofName names heap n)
  | .path obj attr => (baseOf bases obj).map fun base => .ofAttribute names heap base attr
termination_by (unseen names.names bases, 1, 0)

/-- Follows a reference to a value. `bases` are the objects whose names are being followed, and
`seen` are the names met since then. -/
def follow (bases seen : List String) (r : Reference) : Except Fault Value :=
  if _ : r.render ∈ seen then .error (.failure (.circularReference (seen ++ [r.render])))
  else
    match lookUp bases r with
    | .error e => .error e
    | .ok ⟨.value v, _⟩ =>
      if v = .nothing then .error (.failure (.unboundVariable r.render)) else .ok v
    | .ok ⟨.reference next, _⟩ => follow bases (seen ++ [r.render]) next
termination_by
  (unseen names.names bases, 2, stepsLeft (metReferences names heap) seen r.render)
decreasing_by
  · apply Prod.Lex.right
    exact Prod.Lex.left _ _ (by decide)
  · apply Prod.Lex.right
    apply Prod.Lex.right
    exact stepsLeft_lt ‹_›
      (‹∀ r, Binding.reference next = .reference r → r.render ∈ metReferences names heap› next rfl)

end

end

/-- The value that a binding stands for. -/
def deref (names : Table Binding) (heap : Heap) (b : Binding) : Except Fault Value :=
  match b with
  | .value v => .ok v
  | .reference r => follow names heap [] [] r

def readPath (names : Table Binding) (heap : Heap) (obj attr : String) : Except Fault Binding :=
  (baseOf names heap [] obj).map (heap.readAttribute · attr)

@[simp] theorem deref_value (names : Table Binding) (heap : Heap) (v : Value) :
    deref names heap (.value v) = .ok v := rfl

@[simp] theorem deref_reference (names : Table Binding) (heap : Heap) (r : Reference) :
    deref names heap (.reference r) = follow names heap [] [] r := rfl

end AliasScript

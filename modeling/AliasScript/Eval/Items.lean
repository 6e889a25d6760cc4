import AliasScript.Failure
import AliasScript.Tree.Same

/-!
# Changing a list

The two operations on lists, named by the keywords that select them.
-/

namespace AliasScript

inductive ListOperation where
  | add
  | remove
deriving DecidableEq, Repr

namespace ListOperation

def keyword : ListOperation → String
  | .add => "add"
  | .remove => "remove"

/-- The operation that a word names. -/
def ofKeyword? (word : String) : Option ListOperation :=
  [add, remove].find? (·.keyword == word)

theorem ofKeyword?_keyword (op : ListOperation) : ofKeyword? op.keyword = some op := by
  cases op <;> decide

end ListOperation

def listOperation (keyword : Raw) : Except Fault ListOperation :=
  match keyword with
  | .text word =>
    match ListOperation.ofKeyword? word with
    | some op => .ok op
    | none => .error (.failure (.unknownListOperation word))
  | other => .error (.failure (.unknownListOperation other.plain))

def addItem (items : List Binding) (item : Binding) : List Binding := items ++ [item]

/-- Removes the first item that is equal to a given one; absent items are ignored. -/
def Heap.removeItem (h : Heap) (items : List Binding) (item : Binding) : List Binding :=
  items.eraseP (h.same · item)

/-- The items of a list after an operation. -/
def Heap.changeItems (h : Heap) (op : ListOperation) (items : List Binding) (item : Binding) :
    List Binding :=
  match op with
  | .add => addItem items item
  | .remove => h.removeItem items item

end AliasScript

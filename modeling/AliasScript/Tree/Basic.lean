import AliasScript.Store.Heap
import AliasScript.Store.Unseen

/-!
# Finite values

A tree is a value with everything that it contains directly written out; references in it stay
references. A value of the heap unfolds to a tree unless a container in it contains itself.
-/

namespace AliasScript

/-- What is in front of a row of items. -/
inductive SequenceKind where
  | list (type : Option String)
  | hostList
  | hostTuple
deriving DecidableEq, Repr

/-- What is in front of named entries. -/
inductive MappingKind where
  | object (type : Option String)
  | context (types : List String)
  | hostDict
deriving DecidableEq, Repr

/-- A finite value. -/
inductive Tree where
  | scalar (s : Scalar)
  | reference (r : Reference)
  | sequence (kind : SequenceKind) (items : List Tree)
  | mapping (kind : MappingKind) (entries : List (Scalar × Tree))

instance : Inhabited Tree := ⟨.scalar .nothing⟩

/-- How far a value is unfolded. -/
inductive View where
  /-- To the end. -/
  | whole
  /-- As it is printed: what a host tuple holds is shown in quoted form. -/
  | printed
  /-- As it is quoted: of objects and contexts only the names show. -/
  | quoted
deriving DecidableEq, Repr

def View.inTuple : View → View
  | .whole => .whole
  | .printed | .quoted => .quoted

/-- The names of a table, with nothing bound to them. -/
def bareEntries (names : List String) : List (Scalar × Tree) :=
  names.map fun name => (.text name, .scalar .nothing)

namespace Heap

/-- Unfolds a binding; `path` are the containers around it. A container in itself has no finite
form. -/
def unfold (h : Heap) (view : View) (path : List Addr) (b : Binding) : Option Tree :=
  match b with
  | .reference r => some (.reference r)
  | .value (.scalar s) => some (.scalar s)
  | .value (.cell a) =>
    if _ : a ∈ path then none
    else
      match _ : h.get? a with
      | none => some (.scalar .nothing)
      | some (.list type items) =>
        (items.mapM (h.unfold view (a :: path))).map (.sequence (.list type))
      | some (.hostList items) =>
        (items.mapM (h.unfold view (a :: path))).map (.sequence .hostList)
      | some (.hostTuple items) =>
        (items.mapM (h.unfold view.inTuple (a :: path))).map (.sequence .hostTuple)
      | some (.hostDict entries) =>
        (entries.mapM fun e => (h.unfold view (a :: path) e.2).map (e.1, ·)).map (.mapping .hostDict)
      | some (.object type attrs) =>
        if view = .quoted then some (.mapping (.object type) (bareEntries attrs.names))
        else
          (attrs.entries.mapM fun e => (h.unfold view (a :: path) e.2).map (.text e.1, ·)).map
            (.mapping (.object type))
      | some (.context types bindings) =>
        if view = .quoted then some (.mapping (.context types) (bareEntries bindings.names))
        else
          (bindings.entries.mapM fun e => (h.unfold view (a :: path) e.2).map (.text e.1, ·)).map
            (.mapping (.context types))
termination_by unseen (List.range h.size) path
decreasing_by
  all_goals exact unseen_cons_lt (List.mem_range.2 (Heap.lt_size_of_get? ‹_›)) ‹_›

end Heap

/-! ## Container by container -/

/-- The tree of a container, given how what it holds unfolds in a view. -/
def Cell.tree? (view : View) (inner : View → Binding → Option Tree) : Cell → Option Tree
  | .list type items => (items.mapM (inner view)).map (.sequence (.list type))
  | .hostList items => (items.mapM (inner view)).map (.sequence .hostList)
  | .hostTuple items => (items.mapM (inner view.inTuple)).map (.sequence .hostTuple)
  | .hostDict entries =>
    (entries.mapM fun e => (inner view e.2).map (e.1, ·)).map (.mapping .hostDict)
  | .object type attrs =>
    if view = .quoted then some (.mapping (.object type) (bareEntries attrs.names))
    else (attrs.entries.mapM fun e => (inner view e.2).map (.text e.1, ·)).map
      (.mapping (.object type))
  | .context types bindings =>
    if view = .quoted then some (.mapping (.context types) (bareEntries bindings.names))
    else (bindings.entries.mapM fun e => (inner view e.2).map (.text e.1, ·)).map
      (.mapping (.context types))

theorem Heap.unfold_cell {h : Heap} {a : Addr} {c : Cell} {path : List Addr} (view : View)
    (there : h.get? a = some c) (new : a ∉ path) : h.unfold view path (.value (.cell a)) =
      c.tree? view fun view => h.unfold view (a :: path) := by
  rw [unfold, dif_neg new]
  split <;> rename_i found <;> cases there.symm.trans found <;> rfl

theorem Heap.unfold_none {h : Heap} {a : Addr} {path : List Addr} (view : View)
    (there : h.get? a = none) (new : a ∉ path) :
    h.unfold view path (.value (.cell a)) = some (.scalar .nothing) := by
  rw [unfold, dif_neg new]
  split <;> rename_i found <;> cases there.symm.trans found
  rfl

end AliasScript

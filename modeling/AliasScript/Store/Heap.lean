import AliasScript.Store.Value

/-!
# The heap

Every container is a cell of the heap: lists and objects that programs make, and lists, tuples,
dictionaries and contexts that belong to the host. The address of a cell is its identity; addresses
are given out in order and never taken back.
-/

namespace AliasScript

/-- A container. `type` is the name of the type that a list or an object was made as. -/
inductive Cell where
  | list (type : Option String) (items : List Binding)
  | object (type : Option String) (attrs : Table Binding)
  /-- A variable store with the names of its types. -/
  | context (types : List String) (bindings : Table Binding)
  | hostList (items : List Binding)
  | hostTuple (items : List Binding)
  /-- Its keys are scalars: no reference and no tuple is a key. -/
  | hostDict (entries : List (Scalar × Binding))
deriving DecidableEq, Repr

def Cell.contents : Cell → List Binding
  | .list _ items | .hostList items | .hostTuple items => items
  | .object _ attrs => attrs.entries.map Prod.snd
  | .context _ bindings => bindings.entries.map Prod.snd
  | .hostDict entries => entries.map Prod.snd

/-- The containers, by address. -/
structure Heap where
  cells : Array Cell
deriving DecidableEq, Repr

namespace Heap

def empty : Heap := ⟨#[]⟩

instance : Inhabited Heap := ⟨empty⟩

def size (h : Heap) : Nat := h.cells.size

def get? (h : Heap) (a : Addr) : Option Cell := h.cells[a]?

def alloc (h : Heap) (c : Cell) : Addr × Heap := (h.size, ⟨h.cells.push c⟩)

def set (h : Heap) (a : Addr) (c : Cell) : Heap := ⟨h.cells.setIfInBounds a c⟩

/-- What an attribute of a value holds; nothing, unless the value is an object that has it. -/
def readAttribute (h : Heap) (v : Value) (attr : String) : Binding :=
  match v with
  | .cell a =>
    match h.get? a with
    | some (.object _ attrs) => attrs.read attr
    | _ => .nothing
  | .scalar _ => .nothing

def setAttribute (h : Heap) (a : Addr) (attr : String) (b : Binding) : Heap :=
  match h.get? a with
  | some (.object type attrs) => h.set a (.object type (attrs.set attr b))
  | _ => h

def setItems (h : Heap) (a : Addr) (items : List Binding) : Heap :=
  match h.get? a with
  | some (.list type _) => h.set a (.list type items)
  | _ => h

/-! ## Reading after a change -/

theorem get?_alloc_self (h : Heap) (c : Cell) : (h.alloc c).2.get? (h.alloc c).1 = some c := by
  simp [alloc, get?, size]

theorem get?_alloc_of_lt {h : Heap} {a : Addr} (old : a < h.size) (c : Cell) :
    (h.alloc c).2.get? a = h.get? a := by
  simp [alloc, get?, Array.getElem?_push_lt old, Array.getElem?_eq_getElem old]

theorem get?_set_self {h : Heap} {a : Addr} (there : a < h.size) (c : Cell) :
    (h.set a c).get? a = some c := by
  simp only [set, get?]
  exact Array.getElem?_setIfInBounds_self_of_lt there

theorem get?_set_of_ne (h : Heap) {a b : Addr} (different : a ≠ b) (c : Cell) :
    (h.set a c).get? b = h.get? b := by
  simp only [set, get?]
  exact Array.getElem?_setIfInBounds_ne different

@[simp] theorem size_alloc (h : Heap) (c : Cell) : (h.alloc c).2.size = h.size + 1 := by
  simp [alloc, size]

@[simp] theorem size_set (h : Heap) (a : Addr) (c : Cell) : (h.set a c).size = h.size := by
  simp [set, size]

@[simp] theorem size_setAttribute (h : Heap) (a : Addr) (attr : String) (b : Binding) :
    (h.setAttribute a attr b).size = h.size := by
  rw [setAttribute]
  split
  · exact size_set ..
  · rfl

@[simp] theorem size_setItems (h : Heap) (a : Addr) (items : List Binding) :
    (h.setItems a items).size = h.size := by
  rw [setItems]
  split
  · exact size_set ..
  · rfl

theorem get?_isSome_iff {h : Heap} {a : Addr} : (h.get? a).isSome = true ↔ a < h.size := by
  simp [get?, size]

theorem lt_size_of_get? {h : Heap} {a : Addr} {c : Cell} (found : h.get? a = some c) :
    a < h.size := get?_isSome_iff.1 (by simp [found])

/-! ## References in the heap -/

/-- The references that are attributes of objects. -/
def references (h : Heap) : List Reference :=
  h.cells.toList.flatMap fun
    | .object _ attrs => attrs.entries.filterMap (·.2.reference?)
    | _ => []

theorem mem_references_of_readAttribute {h : Heap} {v : Value} {attr : String} {r : Reference}
    (found : h.readAttribute v attr = .reference r) : r ∈ h.references := by
  cases v with
  | scalar s => cases found
  | cell a =>
    rw [readAttribute] at found
    split at found
    · next type attrs there =>
      have entry := Table.mem_of_get? (Table.get?_of_read found)
      rw [references, List.mem_flatMap]
      refine ⟨.object type attrs, ?_, List.mem_filterMap.2 ⟨_, entry, rfl⟩⟩
      rw [get?] at there
      exact Array.mem_toList_iff.2 (Array.mem_of_getElem? there)
    · cases found

end Heap

end AliasScript

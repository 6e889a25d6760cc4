/-!
# Tables

A table binds names to things and keeps the names in the order in which they were first bound.
Binding a name again keeps its place.
-/

namespace AliasScript

/-- Names bound to things, in order. -/
structure Table (α : Type) where
  entries : List (String × α)
deriving DecidableEq, Repr

namespace Table

variable {α : Type}

def empty : Table α := ⟨[]⟩

instance : Inhabited (Table α) := ⟨empty⟩

/-- What the first entry with a name holds. -/
def find? (name : String) : List (String × α) → Option α
  | [] => none
  | (key, a) :: rest => if key = name then some a else find? name rest

def get? (t : Table α) (name : String) : Option α := find? name t.entries

/-- Changes the first entry with a name, or adds one at the end. -/
def put (name : String) (a : α) : List (String × α) → List (String × α)
  | [] => [(name, a)]
  | (key, b) :: rest => if key = name then (name, a) :: rest else (key, b) :: put name a rest

def set (t : Table α) (name : String) (a : α) : Table α := ⟨put name a t.entries⟩

def erase (t : Table α) (name : String) : Table α := ⟨t.entries.filter (·.1 ≠ name)⟩

def names (t : Table α) : List String := t.entries.map Prod.fst

def size (t : Table α) : Nat := t.entries.length

def contains (t : Table α) (name : String) : Bool := (t.get? name).isSome

/-- A table from pairs, where the last of several things bound to one name counts. -/
def ofList (pairs : List (String × α)) : Table α := pairs.foldl (fun t p => t.set p.1 p.2) empty

/-! ## Looking up after a change -/

theorem find?_put_self (name : String) (a : α) (entries : List (String × α)) :
    find? name (put name a entries) = some a := by
  induction entries with
  | nil => simp [put, find?]
  | cons entry rest ih =>
    obtain ⟨key, b⟩ := entry
    by_cases same : key = name
    · simp [put, find?, same]
    · simp [put, find?, same, ih]

theorem find?_put_of_ne {name other : String} (different : other ≠ name) (a : α)
    (entries : List (String × α)) : find? other (put name a entries) = find? other entries := by
  induction entries with
  | nil => simp [put, find?, different.symm]
  | cons entry rest ih =>
    obtain ⟨key, b⟩ := entry
    by_cases same : key = name
    · subst same
      simp [put, find?, different.symm]
    · by_cases found : key = other
      · subst found
        simp [put, find?, same]
      · simp [put, find?, same, found, ih]

@[simp] theorem get?_set_self (t : Table α) (name : String) (a : α) :
    (t.set name a).get? name = some a := find?_put_self name a t.entries

theorem get?_set_of_ne (t : Table α) {name other : String} (different : other ≠ name) (a : α) :
    (t.set name a).get? other = t.get? other := find?_put_of_ne different a t.entries

theorem mem_of_find? {name : String} {a : α} {entries : List (String × α)}
    (h : find? name entries = some a) : (name, a) ∈ entries := by
  induction entries with
  | nil => cases h
  | cons entry rest ih =>
    obtain ⟨key, b⟩ := entry
    rw [find?] at h
    split at h
    · next same =>
      cases h
      subst same
      exact List.mem_cons_self ..
    · exact List.mem_cons_of_mem _ (ih h)

theorem mem_of_get? {t : Table α} {name : String} {a : α} (h : t.get? name = some a) :
    (name, a) ∈ t.entries := mem_of_find? h

theorem mem_names_of_get? {t : Table α} {name : String} {a : α} (h : t.get? name = some a) :
    name ∈ t.names := List.mem_map.2 ⟨(name, a), mem_of_get? h, rfl⟩

end Table

end AliasScript

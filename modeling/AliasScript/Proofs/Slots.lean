import AliasScript.Proofs.Aliases

/-!
# The slots of a machine

What a program can write one by one: a name, an attribute of an object, and the items of a list.
`Machine.Writes` says that one slot has been written and nothing else: every other slot holds what
it held, every container is what it was made as, and the order of the names has not changed.
-/

namespace AliasScript

/-- Whose names a table binds: those of the program, or the attributes of an object. -/
inductive Owner where
  | program
  | object (a : Addr)
deriving DecidableEq

/-- What is written as one: a name of an owner, or the items of a list. -/
inductive Slot where
  | bound (owner : Owner) (name : String)
  | items (a : Addr)
deriving DecidableEq

namespace Cell

def attributes? : Cell → Option (Table Binding)
  | .object _ attrs => some attrs
  | _ => none

def items? : Cell → Option (List Binding)
  | .list _ items => some items
  | _ => none

/-- A container without what a program can write of it: the kind and the type of a list or of an
object. The containers of the host are not written. -/
def hull : Cell → Cell
  | .list type _ => .list type []
  | .object type _ => .object type .empty
  | other => other

end Cell

namespace Machine

def table (m : Machine) : Owner → Option (Table Binding)
  | .program => some m.names
  | .object a => (m.heap.get? a).bind Cell.attributes?

/-- What a slot holds: one binding or the items of a list, or nothing where there is no such slot. -/
def holds (m : Machine) : Slot → Option (List Binding)
  | .bound owner name => (m.table owner).bind fun t => (t.get? name).map fun b => [b]
  | .items a => (m.heap.get? a).bind Cell.items?

/-- Beside names and containers nothing has changed, but for lines added to the trace. -/
structure Beside (m m' : Machine) : Prop where
  types : m'.types = m.types
  ret : m'.ret = m.ret
  effects : m'.effects = m.effects
  statement : m'.statement = m.statement
  trace : m.trace <+: m'.trace

/-- A slot has been written and nothing else. A name that was not bound has become the last one of
its owner. -/
structure Writes (m : Machine) (s : Slot) (content : List Binding) (m' : Machine) : Prop where
  written : m'.holds s = some content
  others : ∀ s', s' ≠ s → m'.holds s' = m.holds s'
  order : ∀ owner t', m'.table owner = some t' → ∃ t, m.table owner = some t ∧
    (t'.names = t.names ∨
      ∃ name, s = .bound owner name ∧ name ∉ t.names ∧ t'.names = t.names ++ [name])
  hulls : ∀ a, (m'.heap.get? a).map Cell.hull = (m.heap.get? a).map Cell.hull
  beside : m.Beside m'

variable {m : Machine} {a : Addr}

theorem beside_store (m : Machine) (names : Table Binding) (heap : Heap) :
    m.Beside { m with names, heap } := ⟨rfl, rfl, rfl, rfl, List.prefix_rfl⟩

theorem beside_noted (m : Machine) (line : String) : m.Beside (m.noted line) :=
  ⟨rfl, rfl, rfl, rfl, List.prefix_append ..⟩

/-! ## The three writes -/

theorem names_set (t : Table Binding) (name : String) (b : Binding) :
    (t.set name b).names = t.names ∨
      name ∉ t.names ∧ (t.set name b).names = t.names ++ [name] := by
  by_cases old : name ∈ t.names
  · exact .inl (t.names_set_of_mem old b)
  · exact .inr ⟨old, t.names_set_of_not_mem old b⟩

theorem writes_name (m : Machine) (name : String) (b : Binding) :
    m.Writes (.bound .program name) [b] { m with names := m.names.set name b } where
  written := by simp [holds, table]
  others s' other := by
    cases s' with
    | items a => rfl
    | bound owner key =>
      cases owner with
      | object a => rfl
      | program =>
        have different : key ≠ name := by
          rintro rfl
          exact other rfl
        simp [holds, table, Table.get?_set_of_ne _ different]
  order owner t' here := by
    cases owner with
    | object a => exact ⟨t', here, .inl rfl⟩
    | program =>
      cases here
      refine ⟨m.names, rfl, (names_set m.names name b).imp_right fun ⟨new, last⟩ => ?_⟩
      exact ⟨name, rfl, new, last⟩
  hulls _ := rfl
  beside := beside_store ..

theorem hull_set {c d : Cell} {h : Heap} (there : h.get? a = some c) (same : d.hull = c.hull)
    (b : Addr) : ((h.set a d).get? b).map Cell.hull = (h.get? b).map Cell.hull := by
  by_cases here : b = a
  · subst here
    rw [Heap.get?_set_self (Heap.lt_size_of_get? there), there, Option.map_some, Option.map_some,
      same]
  · rw [Heap.get?_set_of_ne h (Ne.symm here)]

section

variable {type : Option String}

theorem writes_attribute {attrs : Table Binding}
    (there : m.heap.get? a = some (.object type attrs)) (attr : String) (b : Binding) :
    m.Writes (.bound (.object a) attr) [b]
      { m with heap := m.heap.setAttribute a attr b } where
  written := by
    simp [holds, table, Heap.get?_setAttribute_self there, Cell.attributes?]
  others s' other := by
    cases s' with
    | items c =>
      by_cases here : c = a
      · subst here
        simp [holds, Heap.get?_setAttribute_self there, there, Cell.items?]
      · simp [holds, Heap.get?_setAttribute_of_ne there here]
    | bound owner key =>
      cases owner with
      | program => rfl
      | object c =>
        by_cases here : c = a
        · subst here
          have different : key ≠ attr := by
            rintro rfl
            exact other rfl
          simp [holds, table, Heap.get?_setAttribute_self there, there, Cell.attributes?,
            Table.get?_set_of_ne _ different]
        · simp [holds, table, Heap.get?_setAttribute_of_ne there here]
  order owner t' found := by
    cases owner with
    | program => exact ⟨t', found, .inl rfl⟩
    | object c =>
      by_cases here : c = a
      · subst here
        simp only [table, Heap.get?_setAttribute_self there, Option.bind_some, Cell.attributes?,
          Option.some.injEq] at found
        subst found
        refine ⟨attrs, by simp [table, there, Cell.attributes?], ?_⟩
        exact (names_set attrs attr b).imp_right fun ⟨new, last⟩ => ⟨attr, rfl, new, last⟩
      · simp only [table, Heap.get?_setAttribute_of_ne there here] at found
        exact ⟨t', found, .inl rfl⟩
  hulls c := by
    simp only [Heap.setAttribute, there]
    exact hull_set there (by rfl) c
  beside := beside_store ..

theorem writes_items {old : List Binding} (there : m.heap.get? a = some (.list type old))
    (new : List Binding) :
    m.Writes (.items a) new { m with heap := m.heap.setItems a new } := by
  have here : (m.heap.setItems a new).get? a = some (.list type new) := by
    rw [Heap.setItems, there]
    exact Heap.get?_set_self (Heap.lt_size_of_get? there) _
  have elsewhere : ∀ c, c ≠ a → (m.heap.setItems a new).get? c = m.heap.get? c := by
    intro c other
    rw [Heap.setItems, there]
    exact Heap.get?_set_of_ne _ other.symm _
  have tables : ∀ owner, ({ m with heap := m.heap.setItems a new } : Machine).table owner =
      m.table owner := by
    intro owner
    cases owner with
    | program => rfl
    | object c =>
      by_cases same : c = a
      · subst same
        simp [table, here, there, Cell.attributes?]
      · simp [table, elsewhere c same]
  refine ⟨by simp [holds, here, Cell.items?], fun s' other => ?_, fun owner t' found => ?_,
    fun c => ?_, beside_store ..⟩
  · cases s' with
    | bound owner key => simp only [holds, tables]
    | items c =>
      have different : c ≠ a := by
        rintro rfl
        exact other rfl
      simp [holds, elsewhere c different]
  · rw [tables] at found
    exact ⟨t', found, .inl rfl⟩
  · simp only [Heap.setItems, there]
    exact hull_set there (by rfl) c

end

theorem Writes.of_noted {s : Slot} {content : List Binding} {m' : Machine} {line : String}
    (h : (m.noted line).Writes s content m') : m.Writes s content m' := by
  obtain ⟨written, others, order, hulls, types, ret, effects, statement, trace⟩ := h
  exact ⟨written, others, order, hulls, types, ret, effects, statement,
    (List.prefix_append m.trace [line]).trans trace⟩

end Machine

end AliasScript

import AliasScript.Store.Heap

/-!
# Tables and heaps after a change

What a table or a heap holds after one operation on it, and the stores in which every address that
is held somewhere is the address of a cell (`Closed`).
-/

namespace AliasScript

namespace Table

variable {α : Type}

theorem exists_get?_of_mem_names {t : Table α} {name : String} (mem : name ∈ t.names) :
    ∃ a, t.get? name = some a := by
  obtain ⟨entries⟩ := t
  simp only [names, get?] at mem ⊢
  induction entries with
  | nil => cases mem
  | cons entry rest ih =>
    obtain ⟨key, a⟩ := entry
    by_cases same : key = name
    · exact ⟨a, by rw [find?, if_pos same]⟩
    · rw [find?, if_neg same]
      exact ih ((List.mem_cons.1 mem).resolve_left fun h => same h.symm)

theorem names_set_of_mem {t : Table α} {name : String} (mem : name ∈ t.names) (a : α) :
    (t.set name a).names = t.names := by
  obtain ⟨entries⟩ := t
  simp only [names, set] at mem ⊢
  induction entries with
  | nil => cases mem
  | cons entry rest ih =>
    obtain ⟨key, b⟩ := entry
    by_cases same : key = name
    · simp [put, same]
    · rw [put, if_neg same, List.map_cons, List.map_cons,
        ih ((List.mem_cons.1 mem).resolve_left fun h => same h.symm)]

theorem names_set_of_not_mem {t : Table α} {name : String} (new : name ∉ t.names) (a : α) :
    (t.set name a).names = t.names ++ [name] := by
  obtain ⟨entries⟩ := t
  simp only [names, set] at new ⊢
  induction entries with
  | nil => rfl
  | cons entry rest ih =>
    obtain ⟨key, b⟩ := entry
    rw [List.map_cons, List.mem_cons, not_or] at new
    rw [put, if_neg fun same => new.1 same.symm, List.map_cons, List.map_cons, ih new.2,
      List.cons_append]

theorem mem_entries_set {t : Table α} {name : String} {a : α} {entry : String × α}
    (mem : entry ∈ (t.set name a).entries) : entry = (name, a) ∨ entry ∈ t.entries := by
  obtain ⟨entries⟩ := t
  simp only [set] at mem ⊢
  induction entries with
  | nil => exact .inl (List.mem_singleton.1 mem)
  | cons first rest ih =>
    obtain ⟨key, b⟩ := first
    by_cases same : key = name
    · rw [put, if_pos same] at mem
      exact (List.mem_cons.1 mem).imp_right (List.mem_cons_of_mem _)
    · rw [put, if_neg same] at mem
      rcases List.mem_cons.1 mem with rfl | mem
      · exact .inr (List.mem_cons_self ..)
      · exact (ih mem).imp_right (List.mem_cons_of_mem _)

theorem get?_of_mem {t : Table α} (distinct : t.names.Nodup) {entry : String × α}
    (mem : entry ∈ t.entries) : t.get? entry.1 = some entry.2 := by
  obtain ⟨entries⟩ := t
  simp only [names, get?] at distinct mem ⊢
  induction entries with
  | nil => cases mem
  | cons first rest ih =>
    obtain ⟨key, a⟩ := first
    obtain ⟨new, distinct⟩ := List.nodup_cons.1 distinct
    rcases List.mem_cons.1 mem with rfl | behind
    · rw [find?, if_pos rfl]
    · have other : key ≠ entry.1 := by
        rintro rfl
        exact new (List.mem_map.2 ⟨entry, behind, rfl⟩)
      rw [find?, if_neg other]
      exact ih distinct behind

theorem set_of_get? {t : Table α} {name : String} {a : α} (h : t.get? name = some a) :
    t.set name a = t := by
  obtain ⟨entries⟩ := t
  simp only [get?, set, mk.injEq] at h ⊢
  induction entries with
  | nil => cases h
  | cons entry rest ih =>
    obtain ⟨key, b⟩ := entry
    by_cases same : key = name
    · rw [find?, if_pos same] at h
      cases h
      rw [put, if_pos same, same]
    · rw [find?, if_neg same] at h
      rw [put, if_neg same, ih h]

end Table

theorem Table.read_eq_or_mem (t : Table Binding) (name : String) :
    t.read name = .nothing ∨ (name, t.read name) ∈ t.entries := by
  rw [read]
  cases found : t.get? name with
  | none => exact .inl rfl
  | some b => exact .inr (Table.mem_of_get? found)

theorem Table.set_read {t : Table Binding} {name : String} (some : t.read name ≠ .nothing) :
    t.set name (t.read name) = t := by
  rw [read] at some ⊢
  cases found : t.get? name with
  | none =>
    rw [found] at some
    exact absurd rfl some
  | some b => exact set_of_get? found

@[simp] theorem Table.read_set_self (t : Table Binding) (name : String) (b : Binding) :
    (t.set name b).read name = b := by
  rw [read, get?_set_self, Option.getD_some]

theorem Table.read_set_of_ne (t : Table Binding) {name other : String} (different : other ≠ name)
    (b : Binding) : (t.set name b).read other = t.read other := by
  rw [read, read, get?_set_of_ne t different]

theorem Table.read_of_get? {t : Table Binding} {name : String} {b : Binding}
    (h : t.get? name = some b) : t.read name = b := by
  rw [read, h, Option.getD_some]

namespace Heap

variable {h : Heap} {a : Addr}

theorem get?_eq_none_of_le (le : h.size ≤ a) : h.get? a = none := by
  rw [← Option.not_isSome_iff_eq_none, get?_isSome_iff]
  exact Nat.not_lt.2 le

theorem get?_alloc_size (h : Heap) (c : Cell) : (h.alloc c).2.get? h.size = some c :=
  get?_alloc_self h c

theorem get?_alloc_eq_some_iff {c d : Cell} :
    (h.alloc c).2.get? a = some d ↔ (a = h.size ∧ d = c) ∨ h.get? a = some d := by
  rcases Nat.lt_trichotomy a h.size with old | new | beyond
  · rw [get?_alloc_of_lt old]
    simp [Nat.ne_of_lt old]
  · subst new
    simp [get?_alloc_size, get?_eq_none_of_le (Nat.le_refl _), eq_comm]
  · have beyond' : (h.alloc c).2.size ≤ a := by
      rw [size_alloc]
      exact beyond
    rw [get?_eq_none_of_le (Nat.le_of_lt beyond), get?_eq_none_of_le beyond']
    simp [Nat.ne_of_gt beyond]

theorem get?_alloc_of_ne (h : Heap) (other : a ≠ h.size) (c : Cell) :
    (h.alloc c).2.get? a = h.get? a := by
  rw [Option.ext_iff]
  intro d
  rw [get?_alloc_eq_some_iff]
  simp [other]

theorem get?_alloc_of_get? {c d : Cell} (found : h.get? a = some d) :
    (h.alloc c).2.get? a = some d := get?_alloc_eq_some_iff.2 (.inr found)

theorem get?_set_eq_some {b : Addr} {c d : Cell} (found : (h.set a c).get? b = some d) :
    d = c ∨ h.get? b = some d := by
  by_cases same : b = a
  · subst same
    have there := lt_size_of_get? found
    rw [size_set] at there
    rw [get?_set_self there] at found
    exact .inl (Option.some.inj found).symm
  · rw [get?_set_of_ne h fun equal => same equal.symm] at found
    exact .inr found

section setAttribute

variable {type : Option String} {attrs : Table Binding}
  (there : h.get? a = some (.object type attrs))
include there

theorem get?_setAttribute_self (attr : String) (b : Binding) :
    (h.setAttribute a attr b).get? a = some (.object type (attrs.set attr b)) := by
  rw [setAttribute, there]
  exact get?_set_self (lt_size_of_get? there) _

theorem get?_setAttribute_of_ne {c : Addr} (different : c ≠ a) (attr : String) (b : Binding) :
    (h.setAttribute a attr b).get? c = h.get? c := by
  rw [setAttribute, there]
  exact get?_set_of_ne h different.symm _

theorem readAttribute_setAttribute (attr : String) (b : Binding) (v : Value) (key : String) :
    (h.setAttribute a attr b).readAttribute v key =
      if v = .cell a ∧ key = attr then b else h.readAttribute v key := by
  cases v with
  | scalar s => simp [readAttribute]
  | cell c =>
    by_cases here : c = a
    · subst here
      simp only [readAttribute, get?_setAttribute_self there, there, true_and]
      by_cases same : key = attr
      · rw [same, if_pos rfl, Table.read_set_self]
      · rw [if_neg same, Table.read_set_of_ne _ same]
    · simp only [readAttribute, get?_setAttribute_of_ne there here, Value.cell.injEq, here,
        false_and, if_false]

end setAttribute

theorem readAttribute_congr {h' : Heap} (same : h'.get? a = h.get? a) (attr : String) :
    h'.readAttribute (.cell a) attr = h.readAttribute (.cell a) attr := by
  rw [readAttribute, readAttribute, same]

theorem readAttribute_alloc (h : Heap) {c : Cell}
    (bare : ∀ type attrs, c = .object type attrs → attrs = .empty) (v : Value) (attr : String) :
    (h.alloc c).2.readAttribute v attr = h.readAttribute v attr := by
  cases v with
  | scalar s => rfl
  | cell b =>
    simp only [readAttribute]
    by_cases old : b < h.size
    · rw [get?_alloc_of_lt old]
    · have missing := get?_eq_none_of_le (Nat.le_of_not_lt old)
      rw [missing]
      split
      · next type attrs found =>
        rcases get?_alloc_eq_some_iff.1 found with ⟨-, same⟩ | found
        · rw [bare type attrs same.symm]
          rfl
        · simp [missing] at found
      · rfl

theorem readAttribute_alloc_list (h : Heap) (type : Option String) (items : List Binding)
    (v : Value) (attr : String) :
    (h.alloc (.list type items)).2.readAttribute v attr = h.readAttribute v attr := by
  refine h.readAttribute_alloc (fun _ _ same => ?_) v attr
  cases same

theorem readAttribute_setItems (h : Heap) (a : Addr) (new : List Binding) (v : Value)
    (attr : String) : (h.setItems a new).readAttribute v attr = h.readAttribute v attr := by
  cases v with
  | scalar s => rfl
  | cell b =>
    rw [setItems]
    split
    · next type items there =>
      by_cases here : b = a
      · subst here
        simp only [readAttribute, get?_set_self (lt_size_of_get? there), there]
      · exact readAttribute_congr (get?_set_of_ne h (Ne.symm here) _) attr
    · rfl

end Heap

/-! ## Stores without dangling addresses -/

/-- A value that is no container beyond a size. -/
def Value.Within (n : Nat) : Value → Prop
  | .scalar _ => True
  | .cell a => a < n

def Binding.Within (n : Nat) : Binding → Prop
  | .value v => v.Within n
  | .reference _ => True

instance (n : Nat) (v : Value) : Decidable (v.Within n) :=
  match v with
  | .scalar _ => .isTrue trivial
  | .cell a => Nat.decLt a n

instance (n : Nat) (b : Binding) : Decidable (b.Within n) :=
  match b with
  | .value v => inferInstanceAs (Decidable (v.Within n))
  | .reference _ => .isTrue trivial

theorem Value.Within.mono {n m : Nat} (le : n ≤ m) {v : Value} (h : v.Within n) : v.Within m := by
  cases v with
  | scalar s => trivial
  | cell a => exact Nat.lt_of_lt_of_le h le

theorem Binding.Within.mono {n m : Nat} (le : n ≤ m) {b : Binding} (h : b.Within n) :
    b.Within m := by
  cases b with
  | value v => exact Value.Within.mono le h
  | reference r => trivial

/-- Every address held by a name or a container is the address of a container. -/
structure Closed (names : Table Binding) (heap : Heap) : Prop where
  names : ∀ entry ∈ names.entries, entry.2.Within heap.size
  cells : ∀ a c, heap.get? a = some c → ∀ b ∈ c.contents, b.Within heap.size

theorem Heap.mem_cells_of_get? {h : Heap} {a : Addr} {c : Cell} (found : h.get? a = some c) :
    c ∈ h.cells.toList := Array.mem_toList_iff.2 (Array.mem_of_getElem? found)

theorem closed_of_forall_mem {names : Table Binding} {heap : Heap}
    (inNames : ∀ entry ∈ names.entries, entry.2.Within heap.size)
    (inCells : ∀ c ∈ heap.cells.toList, ∀ b ∈ c.contents, b.Within heap.size) :
    Closed names heap where
  names := inNames
  cells _ c there := inCells c (Heap.mem_cells_of_get? there)

namespace Closed

variable {names : Table Binding} {heap : Heap} (h : Closed names heap)
include h

theorem read (name : String) : (names.read name).Within heap.size := by
  rcases names.read_eq_or_mem name with none | mem
  · rw [none]
    trivial
  · exact h.names _ mem

theorem readAttribute (v : Value) (attr : String) :
    (heap.readAttribute v attr).Within heap.size := by
  cases v with
  | scalar s => trivial
  | cell a =>
    rw [Heap.readAttribute]
    split
    · next type attrs there =>
      rcases attrs.read_eq_or_mem attr with none | mem
      · rw [none]
        trivial
      · exact h.cells a _ there _ (List.mem_map_of_mem (f := Prod.snd) mem)
    · trivial

theorem bind (name : String) {b : Binding} (within : b.Within heap.size) :
    Closed (names.set name b) heap where
  names entry mem := by
    rcases Table.mem_entries_set mem with rfl | mem
    · exact within
    · exact h.names entry mem
  cells := h.cells

theorem alloc {c : Cell} (within : ∀ b ∈ c.contents, b.Within heap.size) :
    Closed names (heap.alloc c).2 := by
  have le : heap.size ≤ (heap.alloc c).2.size := by simp
  refine ⟨fun entry mem => (h.names entry mem).mono le, fun a d there b mem => ?_⟩
  rcases Heap.get?_alloc_eq_some_iff.1 there with ⟨-, rfl⟩ | there
  · exact (within b mem).mono le
  · exact (h.cells a d there b mem).mono le

theorem set (a : Addr) {c : Cell} (within : ∀ b ∈ c.contents, b.Within heap.size) :
    Closed names (heap.set a c) := by
  refine ⟨by rw [Heap.size_set]; exact h.names, fun d e there b mem => ?_⟩
  rw [Heap.size_set]
  rcases Heap.get?_set_eq_some there with rfl | there
  · exact within b mem
  · exact h.cells d e there b mem

theorem setAttribute (a : Addr) (attr : String) {b : Binding} (within : b.Within heap.size) :
    Closed names (heap.setAttribute a attr b) := by
  rw [Heap.setAttribute]
  split
  · next type attrs there =>
    refine h.set a fun c mem => ?_
    obtain ⟨entry, inside, rfl⟩ := List.mem_map.1 mem
    rcases Table.mem_entries_set inside with rfl | inside
    · exact within
    · exact h.cells a _ there _ (List.mem_map_of_mem (f := Prod.snd) inside)
  · exact h

theorem setItems (a : Addr) {items : List Binding} (within : ∀ b ∈ items, b.Within heap.size) :
    Closed names (heap.setItems a items) := by
  rw [Heap.setItems]
  split
  · exact h.set a within
  · exact h

end Closed

end AliasScript

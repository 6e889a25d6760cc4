import AliasScript.Proofs.Slots

/-!
# An assignment writes one slot or none

What an assignment does is said by the slots of the machine (`Node.CarriedOut`): the name or the
attribute that it is about takes what is stored for its value, or a new container, or the list that
its target leads to takes its new items. A list statement first changes the list and then stores
what the target holds in the target again; that can neither fail nor change anything, because other
items in a list change no lookup (`assign_read`). So an assignment that fails has written nothing
(`Machine.Unwritten`).
-/

namespace AliasScript

variable {hosts : Hosts} {m m' : Machine} {x : Reference} {a : Addr}

/-! ## Storing again what was read -/

namespace Heap

theorem set_of_get? {h : Heap} {c : Cell} (there : h.get? a = some c) : h.set a c = h := by
  obtain ⟨cells⟩ := h
  simp only [get?, set, mk.injEq] at there ⊢
  obtain ⟨inside, rfl⟩ := Array.getElem?_eq_some_iff.1 there
  rw [Array.setIfInBounds, dif_pos inside, Array.set_getElem_self]

theorem setAttribute_of_get? {h : Heap} {type : Option String} {attrs : Table Binding}
    {attr : String} {b : Binding} (there : h.get? a = some (.object type attrs))
    (bound : attrs.get? attr = some b) : h.setAttribute a attr b = h := by
  rw [setAttribute, there]
  show h.set a (.object type (attrs.set attr b)) = h
  rw [Table.set_of_get? bound, set_of_get? there]

theorem get?_setItems_of_object {h : Heap} {c : Addr} {type : Option String}
    {attrs : Table Binding} (there : h.get? c = some (.object type attrs)) (items : List Binding) :
    (h.setItems a items).get? c = some (.object type attrs) := by
  rw [setItems]
  split
  · next type' old here =>
    have different : a ≠ c := by
      rintro rfl
      cases here.symm.trans there
    rw [get?_set_of_ne h different, there]
  · exact there

theorem exists_object_of_readAttribute {h : Heap} {v : Value} {attr : String}
    (thing : h.readAttribute v attr ≠ .nothing) : ∃ c type attrs, v = .cell c ∧
      h.get? c = some (.object type attrs) ∧ attrs.get? attr = some (h.readAttribute v attr) := by
  cases v with
  | scalar s => exact absurd rfl thing
  | cell c =>
    rw [readAttribute] at thing ⊢
    split at thing
    · next type attrs there =>
      refine ⟨c, type, attrs, rfl, there, ?_⟩
      rw [Table.read] at thing ⊢
      cases found : attrs.get? attr with
      | none =>
        rw [found] at thing
        exact absurd rfl thing
      | some b => rfl
    · exact absurd rfl thing

end Heap

/-- When a list has got new items, what was read before can be stored where it was read, and that
changes nothing. -/
theorem assign_read {r : Reading} (read : x.read m = .ok r) (thing : r.val ≠ .nothing)
    (items : List Binding) :
    assign x r.val { m with heap := m.heap.setItems a items } =
      (.ok (), { m with heap := m.heap.setItems a items }) := by
  cases x with
  | name n =>
    cases read
    show (Except.ok (), { m with names := m.names.set n (m.names.read n), heap := _ }) = _
    rw [Table.set_read thing]
  | path obj attr =>
    obtain ⟨v, base, rfl⟩ := Reference.read_path_eq_ok read
    obtain ⟨c, type, attrs, rfl, there, bound⟩ := Heap.exists_object_of_readAttribute thing
    have there' := Heap.get?_setItems_of_object (a := a) there items
    have again : objectAt { m with heap := m.heap.setItems a items } obj attr = .ok c := by
      refine objectAt_eq_ok_iff.2 ⟨?_, type, attrs, there'⟩
      exact (baseOf_congr (m.heap.readAttribute_setItems a items) [] obj).trans base
    rw [assign_path_of_ok again]
    show (Except.ok (), { m with heap := (m.heap.setItems a items).setAttribute c attr _ }) = _
    rw [Heap.setAttribute_of_get? there' bound]

/-! ## What an assignment is about -/

/-- The slot that a reference stands for: a name, or an attribute of the object that the name in
front of it leads to. -/
inductive Machine.Locates (m : Machine) : Reference → Slot → Prop
  | name (n : String) : Locates m (.name n) (.bound .program n)
  | path {obj : String} {a : Addr} {type : Option String} {attrs : Table Binding} (attr : String) :
    Leads m.names m.heap (m.names.read obj) (.cell a) → m.heap.get? a = some (.object type attrs) →
      Locates m (.path obj attr) (.bound (.object a) attr)

/-- What is stored for a value: a literal as it is, and a reference to anything else. -/
inductive Node.Stores : Node → Binding → Prop
  | integer {n : Int} {loc loc' loc'' : Option Loc} :
    Stores (.value (.literal (.integer n loc) loc') loc'') (.value (.number n))
  | string {s : String} {loc loc' loc'' : Option Loc} :
    Stores (.value (.literal (.string s loc) loc') loc'') (.value (.text s))
  | reference {place : Node} {x : Reference} {loc loc' : Option Loc} :
    place.Places x → Stores (.value (.variable place loc) loc') (.reference x)

/-- The items of a list before and after an operation on it. -/
inductive Heap.Operates (h : Heap) (item : Binding) :
    ListOperation → List Binding → List Binding → Prop
  | added (items : List Binding) : Operates h item .add items (items ++ [item])
  | removed {front back : List Binding} {old : Binding} :
    (∀ b ∈ front, h.same b item = false) → h.same old item = true →
      Operates h item .remove (front ++ old :: back) (front ++ back)
  | absent {items : List Binding} : (∀ b ∈ items, h.same b item = false) →
    Operates h item .remove items items

def Machine.making (m : Machine) (c : Cell) : Machine := { m with heap := (m.heap.alloc c).2 }

/-- No slot holds the container at an address. -/
def Machine.Misses (m : Machine) (a : Addr) (s : Slot) : Prop :=
  ∀ content, m.holds s = some content → .value (.cell a) ∉ content

/-- An assignment has been carried out: it has written one slot. -/
inductive Node.CarriedOut (m : Machine) : Node → Machine → Prop
  | valueAssignment {place value : Node} {x : Reference} {s : Slot} {b : Binding} {m' : Machine}
      {loc loc' : Option Loc} :
    place.Places x → value.Stores b → m.Locates x s → m.Writes s [b] m' →
      CarriedOut m (.valueAssignment (.assignee place loc) value loc') m'
  /-- The new container is held by no other slot. -/
  | typeAssignment {place : Node} {type : String} {x : Reference} {s : Slot} {t : Template}
      {m' : Machine} {loc loc' loc'' : Option Loc} :
    place.Places x → templateFor m.types type = .ok t → m.Locates x s →
      (m.making (t.cell type)).Writes s [.value (.cell m.heap.size)] m' →
        (∀ s', s' ≠ s → m'.Misses m.heap.size s') →
          CarriedOut m (.typeAssignment (.assignee place loc) (.identifier type loc') loc'') m'
  /-- The target holds what it held: the list, or an alias of it. -/
  | listAssignment {place item : Node} {op : ListOperation} {x : Reference} {b : Binding}
      {a : Addr} {old new : List Binding} {m' : Machine} {loc loc' loc'' : Option Loc} :
    place.Places x → item.Stores b → Leads m.names m.heap (.reference x) (.cell a) →
      m.holds (.items a) = some old → m.heap.Operates b op old new → m.Writes (.items a) new m' →
        (∀ s, m.Locates x s → m'.holds s = m.holds s) →
          CarriedOut m (.listAssignment (.listOperation (.text op.keyword) loc) item
            (.assignee place loc') loc'') m'

/-- Nothing has been written. There may be one more container, which no slot holds. -/
inductive Machine.Unwritten (m : Machine) : Machine → Prop
  | same {m' : Machine} : m'.names = m.names → m'.heap = m.heap → m.Beside m' → Unwritten m m'
  | made {m' : Machine} (t : Template) (type : String) : m'.names = m.names →
    m'.heap = (m.making (t.cell type)).heap → m.Beside m' → (∀ s, m'.Misses m.heap.size s) →
      Unwritten m m'

theorem Machine.unwritten_self (m : Machine) : m.Unwritten m := .same rfl rfl (beside_store ..)

theorem Heap.operates_changeItems (h : Heap) (op : ListOperation) (items : List Binding)
    (item : Binding) : h.Operates item op items (h.changeItems op items item) := by
  cases op with
  | add => exact .added items
  | remove =>
    show h.Operates item .remove items (items.eraseP (h.same · item))
    rcases List.exists_or_eq_self_of_eraseP (h.same · item) items with
      kept | ⟨old, front, back, others, equal, rfl, gone⟩
    · rw [kept]
      refine .absent fun b mem => ?_
      by_contra equal
      have shorter := List.length_eraseP_of_mem (p := (h.same · item)) mem (by simpa using equal)
      rw [kept] at shorter
      have := List.length_pos_of_mem mem
      omega
    · rw [gone]
      exact .removed (fun b mem => by simpa using others b mem) equal

/-! ## Reading and assigning -/

theorem Node.IsValue.exists_stored {node : Node} (hosts : Hosts) (h : node.IsValue) (m : Machine) :
    ∃ b, node.Stores b ∧ ∃ read : Except Fault Reading,
      interpret hosts node m = (read.map .reading, m) ∧ ∀ r, read = .ok r → r.storedForm = b := by
  cases h with
  | literal inner =>
    cases inner with
    | @integer n =>
      refine ⟨_, .integer, .ok ⟨.value (.number n), none⟩, interpret_integer .., ?_⟩
      rintro r ⟨⟩
      rfl
    | @string text =>
      refine ⟨_, .string, .ok ⟨.value (.text (String.ofList (unquote text.toList))), none⟩,
        interpret_string .., ?_⟩
      rintro r ⟨⟩
      rfl
  | reading place =>
    obtain ⟨q, -, places⟩ := place.exists_places
    refine ⟨_, .reference places, q.read m, places.interpret_value hosts _ _, fun r read => ?_⟩
    rw [Reading.storedForm, (Reference.read_eq_ok read).1]

theorem exists_writes_of_assign (x : Reference) (b : Binding) (m : Machine) :
    (∃ s m', m.Locates x s ∧ assign x b m = (.ok (), m') ∧ m.Writes s [b] m') ∨
      ∃ e, assign x b m = (.error e, m) := by
  cases x with
  | name n => exact .inl ⟨_, _, .name n, rfl, m.writes_name n b⟩
  | path obj attr =>
    cases found : objectAt m obj attr with
    | error e => exact .inr ⟨e, assign_path_of_error found⟩
    | ok a =>
      obtain ⟨base, type, attrs, there⟩ := objectAt_eq_ok_iff.1 found
      exact .inl ⟨_, _, .path attr (leads_of_baseOf base) there, assign_path_of_ok found,
        m.writes_attribute there attr b⟩

namespace Machine

theorem Locates.of_noted {s : Slot} {line : String} (h : (m.noted line).Locates x s) :
    m.Locates x s := by
  cases h with
  | name n => exact .name n
  | path attr leads there => exact .path attr leads there

section

variable (closed : Closed m.names m.heap) (t : Template) (type : String)
include closed

theorem misses_size (s : Slot) : m.Misses m.heap.size s := by
  have inCell : ∀ a c, m.heap.get? a = some c → .value (.cell m.heap.size) ∉ c.contents :=
    fun a c there mem => Nat.lt_irrefl _ (closed.cells a c there _ mem)
  intro content held mem
  cases s with
  | items a =>
    obtain ⟨c, there, items⟩ := Option.bind_eq_some_iff.1 held
    cases c <;> cases items
    exact inCell a _ there mem
  | bound owner name =>
    obtain ⟨table, here, found⟩ := Option.bind_eq_some_iff.1 held
    obtain ⟨b, bound, rfl⟩ := Option.map_eq_some_iff.1 found
    rw [List.mem_singleton] at mem
    subst mem
    have entry := Table.mem_of_get? bound
    cases owner with
    | program =>
      cases here
      exact Nat.lt_irrefl _ (closed.names _ entry)
    | object a =>
      obtain ⟨c, there, attrs⟩ := Option.bind_eq_some_iff.1 here
      cases c <;> cases attrs
      exact inCell a _ there (List.mem_map_of_mem (f := Prod.snd) entry)

theorem misses_making (s : Slot) : (m.making (t.cell type)).Misses m.heap.size s := by
  intro content held mem
  refine misses_size closed s content ?_ mem
  rw [← held]
  -- The new container itself holds nothing.
  cases s with
  | items a =>
    by_cases new : a = m.heap.size
    · subst new
      cases t with
      | generic => simp [holds, making, Heap.get?_alloc_size, Template.cell, Cell.items?] at held
      | list =>
        simp only [holds, making, Heap.get?_alloc_size, Template.cell, Cell.items?,
          Option.bind_some, Option.some.injEq] at held
        subst held
        cases mem
    · simp only [holds, making]
      rw [m.heap.get?_alloc_of_ne new]
  | bound owner name =>
    cases owner with
    | program => rfl
    | object a =>
      by_cases new : a = m.heap.size
      · subst new
        cases t <;> simp [holds, table, making, Heap.get?_alloc_size, Template.cell,
          Cell.attributes?, Table.empty, Table.get?, Table.find?] at held
      · simp only [holds, table, making]
        rw [m.heap.get?_alloc_of_ne new]

theorem Locates.of_making {s : Slot} (h : (m.making (t.cell type)).Locates x s) :
    m.Locates x s := by
  cases h with
  | name n => exact .name n
  | @path obj a type' attrs attr leads there =>
    have bare : ∀ type' attrs, t.cell type = .object type' attrs → attrs = .empty := by
      intro type' attrs same
      cases t <;> cases same
      rfl
    have leads' := (leads_congr (m.heap.readAttribute_alloc bare)).1 leads
    have old : a < m.heap.size := closed.leads (closed.read obj) leads'
    rw [making, Heap.get?_alloc_of_lt old] at there
    exact .path attr leads' there

end

end Machine

/-! ## Each assignment -/

namespace Node.Places

variable {place : Node} {loc loc' loc'' : Option Loc} (h : place.Places x)
include h

theorem carriedOut_valueAssignment {value : Node} (isValue : value.IsValue) :
    (∃ m', interpret hosts (.valueAssignment (.assignee place loc) value loc') m =
        (.ok (.done .nothing), m') ∧
      Node.CarriedOut m (.valueAssignment (.assignee place loc) value loc') m') ∨
    ∃ e m', interpret hosts (.valueAssignment (.assignee place loc) value loc') m =
      (.error e, m') ∧ m.Unwritten m' := by
  obtain ⟨b, stores, read, reads, stored⟩ := isValue.exists_stored hosts m
  cases read with
  | error e =>
    refine .inr ⟨e, m, ?_, m.unwritten_self⟩
    rw [interpret, act_bind_error reads]
  | ok r =>
    rw [h.interpret_valueAssignment reads, stored r rfl]
    dsimp only
    generalize "[DBG] assign " ++ tracedPlace x ++ " <- " ++ m.heap.plain b = line
    rcases exists_writes_of_assign x b (m.noted line) with ⟨s, m', locates, run, writes⟩ | ⟨e, run⟩
    · exact .inl ⟨m', by rw [run]; rfl,
        .valueAssignment h stores locates.of_noted writes.of_noted⟩
    · exact .inr ⟨e, m.noted line, by rw [run]; rfl, .same rfl rfl (m.beside_noted line)⟩

theorem carriedOut_typeAssignment (closed : Closed m.names m.heap) (type : String) :
    (∃ m', interpret hosts (.typeAssignment (.assignee place loc) (.identifier type loc') loc'') m =
        (.ok (.done .nothing), m') ∧
      Node.CarriedOut m (.typeAssignment (.assignee place loc) (.identifier type loc') loc'') m') ∨
    ∃ e m', interpret hosts (.typeAssignment (.assignee place loc) (.identifier type loc') loc'') m =
      (.error e, m') ∧ m.Unwritten m' := by
  rw [h.interpret_typeAssignment]
  cases template : templateFor m.types type with
  | error e => exact .inr ⟨e, m, rfl, m.unwritten_self⟩
  | ok t =>
    have missed := Machine.misses_making closed t type
    rcases exists_writes_of_assign x (.value (.cell m.heap.size)) (m.making (t.cell type)) with
      ⟨s, m', locates, run, writes⟩ | ⟨e, run⟩
    · refine .inl ⟨m', ?_,
        .typeAssignment h template (locates.of_making closed t type) writes ?_⟩
      · show ((assign x _ (m.making (t.cell type))).1.map _, (assign x _ (m.making _)).2) = _
        rw [run]
        rfl
      · intro s' other content held
        rw [writes.others s' other] at held
        exact missed s' content held
    · refine .inr ⟨e, m.making (t.cell type), ?_, .made t type rfl rfl (m.beside_store ..) missed⟩
      show ((assign x _ (m.making (t.cell type))).1.map _, (assign x _ (m.making _)).2) = _
      rw [run]
      rfl

theorem carriedOut_listAssignment {item : Node} {op : ListOperation} (isValue : item.IsValue) :
    (∃ m', interpret hosts (.listAssignment (.listOperation (.text op.keyword) loc) item
        (.assignee place loc') loc'') m = (.ok (.done .nothing), m') ∧
      Node.CarriedOut m (.listAssignment (.listOperation (.text op.keyword) loc) item
        (.assignee place loc') loc'') m') ∨
    ∃ e m', interpret hosts (.listAssignment (.listOperation (.text op.keyword) loc) item
      (.assignee place loc') loc'') m = (.error e, m') ∧ m.Unwritten m' := by
  obtain ⟨b, stores, read, reads, stored⟩ := isValue.exists_stored hosts m
  rw [h.interpret_listAssignment reads]
  cases change : x.listChange op read m with
  | error e => exact .inr ⟨e, m, rfl, m.unwritten_self⟩
  | ok found =>
    obtain ⟨a, items, held⟩ := found
    obtain ⟨⟨current, here, rfl, thing, led⟩, r, type, old, rfl, there, rfl⟩ :=
      Reference.listChange_eq_ok_iff.1 change
    have leads : Leads m.names m.heap (.reference x) (.cell a) := by
      refine leads_reference_iff.2 ⟨?_, _, (Reference.read_eq_ok here).2, leads_of_deref led⟩
      rintro ⟨⟩
    have writes := Machine.writes_items there (m.heap.changeItems op old r.storedForm)
    have operates := m.heap.operates_changeItems op old r.storedForm
    rw [stored r rfl] at operates writes
    refine .inl ⟨_, ?_, .listAssignment h stores leads ?_ operates writes
      fun s locates => writes.others s ?_⟩
    · dsimp only
      rw [assign_read here thing, stored r rfl]
      rfl
    · rw [Machine.holds, there]
      rfl
    · cases locates <;> rintro ⟨⟩

end Node.Places

/-- An assignment that succeeds has written one slot: the name or the attribute that it is about has
taken what is stored for its value or a new empty container, or the list that its target leads to
has taken its new items. One that fails has written none. -/
theorem Node.IsStatement.writes_one_slot_or_none (hosts : Hosts) {node : Node} (fits : node.IsStatement)
    (assigns : ∀ callee arg loc, node ≠ .invocation callee arg loc)
    (closed : Closed m.names m.heap) :
    (∃ m', interpret hosts node m = (.ok (.done .nothing), m') ∧ node.CarriedOut m m') ∨
      ∃ e m', interpret hosts node m = (.error e, m') ∧ m.Unwritten m' := by
  cases fits with
  | valueAssignment isTarget isValue =>
    cases isTarget with
    | assignee isPlace =>
    obtain ⟨x, -, places⟩ := isPlace.exists_places
    exact places.carriedOut_valueAssignment isValue
  | typeAssignment isTarget isName =>
    cases isTarget with
    | assignee isPlace =>
    cases isName with
    | @identifier type =>
    obtain ⟨x, -, places⟩ := isPlace.exists_places
    exact places.carriedOut_typeAssignment closed type
  | listAssignment isValue isTarget =>
    cases isTarget with
    | assignee isPlace =>
    obtain ⟨x, -, places⟩ := isPlace.exists_places
    exact places.carriedOut_listAssignment isValue
  | invocation => exact absurd rfl (assigns _ _ _)

/-- The name `y` is an alias of `x`, which is bound to a list of a text, the decimal 1.0 and the
number 1. -/
def decimalListed : Machine := { Machine.fresh true with
  names := .ofList [("x", .value (.cell 0)), ("y", .reference (.name "x"))]
  heap := ⟨#[.list (some "list") [.value (.text "1"),
    .value (.scalar (.decimal ⟨0x3FF0000000000000⟩)), .value (.number 1)]]⟩ }

def one : Node :=
  .value (.literal (.integer 1 (some ⟨1, 5, "integer", .text "1"⟩))
    (some ⟨1, 5, "literal", .text "1"⟩)) (some ⟨1, 5, "value", .text "1"⟩)

def changingOne (op : ListOperation) (name : String) : Node :=
  let at? (col : Int) (tag text : String) : Option Loc := some ⟨1, col, tag, .text text⟩
  .listAssignment (.listOperation (.text op.keyword) (at? 1 "list_operation" op.keyword)) one
    (.assignee (.scalar (.identifier name (at? 12 "identifier" name)) (at? 12 "scalar" name))
      (at? 12 "assignee" name)) (at? 1 "list_assignment" "")

theorem isStatement_changingOne (op : ListOperation) {name : String} (word : OneWord name) :
    (changingOne op name).IsStatement :=
  .listAssignment (.literal (.integer rfl ⟨1, 5, rfl⟩) ⟨"1", 1, 5, rfl⟩ ⟨"1", 1, 5, rfl⟩)
    (.assignee (.scalar (.identifier word ⟨1, 12, rfl⟩) ⟨name, 1, 12, rfl⟩) ⟨name, 1, 12, rfl⟩)
    ⟨1, 1, rfl⟩ ⟨"", 1, 1, rfl⟩

theorem interpret_one : interpret Console.noHosts one decimalListed = ((Except.ok
    ⟨.value (.number 1), none⟩ : Except Fault Reading).map .reading, decimalListed) :=
  interpret_integer ..

theorem interpret_changingOne (op : ListOperation) {items : List Binding}
    (change : decimalListed.heap.changeItems op [.value (.text "1"),
      .value (.scalar (.decimal ⟨0x3FF0000000000000⟩)), .value (.number 1)]
      (.value (.number 1)) = items) :
    interpret Console.noHosts (changingOne op "y") decimalListed =
      (.ok (.done .nothing), { decimalListed with heap := ⟨#[.list (some "list") items]⟩ }) := by
  have led : deref decimalListed.names decimalListed.heap (.reference (.name "x")) =
      .ok (.cell 0) := deref_name_of_value rfl nofun
  have found : (Reference.name "y").listChange op (.ok ⟨.value (.number 1), none⟩) decimalListed =
      .ok (0, items, .reference (.name "x")) := by
    rw [Reference.listChange_eq_ok_iff]
    exact ⟨⟨_, rfl, rfl, by decide, led⟩, _, _, _, rfl, rfl, change.symm⟩
  rw [changingOne, Node.Places.name.interpret_listAssignment interpret_one, found]
  rfl

/-- The list that the alias leads to is written, and not the alias. The first item that is equal to
the number is the decimal; it is removed, and the number stays. Where there is no list, nothing is
written. -/
theorem writes_one_slot_or_none_decimalListed :
    Closed decimalListed.names decimalListed.heap ∧
    (∀ op name, name ∈ ["y", "z"] → (changingOne op name).IsStatement) ∧
    (∃ m', interpret Console.noHosts (changingOne .add "y") decimalListed =
        (.ok (.done .nothing), m') ∧
      (changingOne .add "y").CarriedOut decimalListed m' ∧
      m'.heap.get? 0 = some (.list (some "list") [.value (.text "1"),
        .value (.scalar (.decimal ⟨0x3FF0000000000000⟩)), .value (.number 1),
        .value (.number 1)])) ∧
    (∃ m', interpret Console.noHosts (changingOne .remove "y") decimalListed =
        (.ok (.done .nothing), m') ∧
      (changingOne .remove "y").CarriedOut decimalListed m' ∧
      m'.heap.get? 0 =
        some (.list (some "list") [.value (.text "1"), .value (.number 1)])) ∧
    ∃ m', interpret Console.noHosts (changingOne .remove "z") decimalListed =
        (.error (.failure (.unboundListTarget "z")), m') ∧ decimalListed.Unwritten m' := by
  have closed : Closed decimalListed.names decimalListed.heap :=
    closed_of_forall_mem (by decide) (by decide)
  have words : ∀ name ∈ ["y", "z"], OneWord name := by decide
  have fits : ∀ op name, name ∈ ["y", "z"] → (changingOne op name).IsStatement :=
    fun op name mem => isStatement_changingOne op (words name mem)
  have added := interpret_changingOne .add rfl
  have first : (Scalar.text "1").same (.number 1) = false := by decide
  have second : (Scalar.decimal ⟨0x3FF0000000000000⟩).same (.number 1) = true := by decide
  have removed := interpret_changingOne .remove (by
    rw [Heap.changeItems, Heap.removeItem, List.eraseP_cons_of_neg (by simp [first]),
      List.eraseP_cons_of_pos (by simp [second])])
  have assigns : ∀ op name callee arg loc, changingOne op name ≠ .invocation callee arg loc := by
    rintro _ _ _ _ _ ⟨⟩
  refine ⟨closed, fits, ?_, ?_, ?_⟩
  · rcases (fits .add "y" (by simp)).writes_one_slot_or_none Console.noHosts (assigns _ _) closed
      with ⟨m', run, carriedOut⟩ | ⟨e, m', failed, -⟩
    · cases added.symm.trans run
      exact ⟨_, added, carriedOut, rfl⟩
    · cases added.symm.trans failed
  · rcases (fits .remove "y" (by simp)).writes_one_slot_or_none Console.noHosts (assigns _ _) closed
      with ⟨m', run, carriedOut⟩ | ⟨e, m', failed, -⟩
    · cases removed.symm.trans run
      exact ⟨_, removed, carriedOut, rfl⟩
    · cases removed.symm.trans failed
  · have failed : interpret Console.noHosts (changingOne .remove "z") decimalListed =
        (.error (.failure (.unboundListTarget "z")), decimalListed) := by
      rw [changingOne, Node.Places.name.interpret_listAssignment interpret_one]
      rfl
    rcases (fits .remove "z" (by simp)).writes_one_slot_or_none Console.noHosts (assigns _ _) closed
      with ⟨m', run, -⟩ | ⟨e, m', run, unwritten⟩
    · cases failed.symm.trans run
    · cases failed.symm.trans run
      exact ⟨_, failed, unwritten⟩

end AliasScript

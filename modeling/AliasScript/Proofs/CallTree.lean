import AliasScript.Proofs.Parts
import Mathlib.Data.List.Forall2

/-!
# The tree of a call

A call that ends with a value is known with the heaps before and after it (`Call`). It copies a
list, goes through the attributes of an object, or returns what it has found (`Call.Valid.cases`),
and in the first two cases makes calls of its own (`Call.Makes`).

What every step of the calls below a call preserves is preserved by the whole call
(`Call.Valid.invariant`), and from the end of any call below it on (`Call.Below.invariant`).
-/

namespace AliasScript

open Relation

/-- A call on a binding, while the containers in `active` are being resolved, that has ended with a
value. -/
structure Call where
  active : List Addr
  binding : Binding
  heap : Heap
  value : Value
  /-- The heap when the call has ended. -/
  after : Heap

section
variable (names : Table Binding)

/-- The calls on the items of a list, one after the other, make a call. -/
inductive ItemCall (active : List Addr) : List Binding → Heap → List Value → Heap → Call → Prop
  | first {b : Binding} {items : List Binding} {h h' h'' : Heap} {v : Value} {vs : List Value} :
    Resolves names active b h (.ok v) h' → ResolvesItems names active items h' (.ok vs) h'' →
      ItemCall active (b :: items) h (v :: vs) h'' ⟨active, b, h, v, h'⟩
  | later {b : Binding} {items : List Binding} {h h' h'' : Heap} {v : Value} {vs : List Value}
      {d : Call} :
    Resolves names active b h (.ok v) h' → ItemCall active items h' vs h'' d →
      ItemCall active (b :: items) h (v :: vs) h'' d

/-- The calls on the attributes of an object make a call, which is on an attribute with a name. -/
inductive SlotCall (active : List Addr) (a : Addr) :
    List String → Heap → Heap → String → Call → Prop
  | first {key : String} {keys : List String} {h h' h'' : Heap} {v : Value} :
    Resolves names (a :: active) (h.readAttribute (.cell a) key) h (.ok v) h' →
      ResolvesAttributes names active a keys (h'.setAttribute a key (.value v)) (.ok ()) h'' →
        SlotCall active a (key :: keys) h h'' key
          ⟨a :: active, h.readAttribute (.cell a) key, h, v, h'⟩
  | later {key other : String} {keys : List String} {h h' h'' : Heap} {v : Value} {d : Call} :
    Resolves names (a :: active) (h.readAttribute (.cell a) key) h (.ok v) h' →
      SlotCall active a keys (h'.setAttribute a key (.value v)) h'' other d →
        SlotCall active a (key :: keys) h h'' other d

namespace Call

def Valid (c : Call) : Prop := Resolves names c.active c.binding c.heap (.ok c.value) c.after

/-- The call has found a container that is not being resolved. -/
structure Finds (c : Call) (a : Addr) (cell : Cell) : Prop where
  found : deref names c.heap c.binding = .ok (.cell a)
  fresh : a ∉ c.active
  there : c.heap.get? a = some cell

/-- The call resolves the items of a list and makes a list of the results. `made` is the heap when
the items have been resolved. -/
structure Copies (c : Call) (a : Addr) (type : Option String) (items : List Binding)
    (vs : List Value) (made : Heap) : Prop extends Finds names c a (.list type items) where
  calls : ResolvesItems names (a :: c.active) items c.heap (.ok vs) made
  value : c.value = .cell made.size
  after : c.after = (made.alloc (.list type (vs.map .value))).2

/-- The call resolves the attributes of an object in place. -/
structure Fills (c : Call) (a : Addr) (type : Option String) (attrs : Table Binding) : Prop
    extends Finds names c a (.object type attrs) where
  calls : ResolvesAttributes names c.active a attrs.names c.heap (.ok ()) c.after
  value : c.value = .cell a

def Enters (c : Call) (a : Addr) : Prop := ∃ cell, c.Finds names a cell ∧ ¬ cell.IsInert

/-- The call has met a container again that is being resolved. -/
def MeetsAgain (c : Call) (a : Addr) : Prop :=
  deref names c.heap c.binding = .ok (.cell a) ∧ a ∈ c.active

/-- One call makes another one. -/
inductive Makes (c d : Call) : Prop
  | item {a : Addr} {type : Option String} {items : List Binding} {vs : List Value} {made : Heap} :
    c.Copies names a type items vs made →
      ItemCall names (a :: c.active) items c.heap vs made d → Makes c d
  | slot {a : Addr} {type : Option String} {attrs : Table Binding} {key : String} :
    c.Fills names a type attrs → SlotCall names c.active a attrs.names c.heap c.after key d →
      Makes c d

/-- A call comes up while another one is being made, or is that one. -/
def Below (root c : Call) : Prop := ReflTransGen (Makes names) root c

end Call

end

variable {names : Table Binding}

/-! ## Calls one after the other -/

section ItemCall

variable {active : List Addr} {items : List Binding} {h h' : Heap} {vs : List Value} {d : Call}

theorem ResolvesItems.exists_itemCall {active : List Addr} : ∀ {items : List Binding} {h h' : Heap}
    {vs : List Value}, ResolvesItems names active items h (.ok vs) h' →
      List.Forall₂ (fun b v => ∃ d, ItemCall names active items h vs h' d ∧ d.binding = b ∧
        d.value = v) items vs := by
  intro items
  induction items with
  | nil =>
    intro h h' vs calls
    cases calls
    exact .nil
  | cons b items ih =>
    intro h h' vs calls
    generalize same : Except.ok vs = result at calls
    cases calls with
    | itemFails => cases same
    | @item _ _ _ _ _ _ v r call calls =>
      cases r with
      | error e => cases same
      | ok ws =>
        cases same
        refine .cons ⟨_, .first call calls, rfl, rfl⟩ ?_
        refine (ih calls).imp fun c w ⟨d, itemCall, binding, value⟩ => ?_
        exact ⟨d, .later call itemCall, binding, value⟩

theorem ItemCall.sound (call : ItemCall names active items h vs h' d) (closed : Closed names h)
    (within : ∀ b ∈ items, b.Within h.size) :
    d.Valid names ∧ d.active = active ∧ d.binding ∈ items ∧ Closed names d.heap ∧
      d.binding.Within d.heap.size ∧ Changes names active h d.heap ∧
        Changes names active d.after h' := by
  induction call with
  | @first b items h _ _ _ _ call calls =>
    have first := within b (List.mem_cons_self ..)
    have changes := (call.changes closed first).1
    refine ⟨call, rfl, List.mem_cons_self .., closed, first, .refl, ?_⟩
    exact (calls.changes (changes.closed closed) fun c mem =>
      (within c (List.mem_cons_of_mem _ mem)).mono changes.size_le).1
  | @later b items h _ _ _ _ _ call _ ih =>
    have changes := (call.changes closed (within b (List.mem_cons_self ..))).1
    obtain ⟨valid, active, mem, closed', within', before, behind⟩ := ih (changes.closed closed)
      fun c mem => (within c (List.mem_cons_of_mem _ mem)).mono changes.size_le
    exact ⟨valid, active, List.mem_cons_of_mem _ mem, closed', within', changes.trans before,
      behind⟩

end ItemCall

section SlotCall

variable {active : List Addr} {a : Addr} {keys : List String} {h h' : Heap} {key : String}
  {d : Call}

theorem ResolvesAttributes.exists_slotCall {active : List Addr} {a : Addr} :
    ∀ {keys : List String} {h h' : Heap}, ResolvesAttributes names active a keys h (.ok ()) h' →
      ∀ key ∈ keys, ∃ d, SlotCall names active a keys h h' key d := by
  intro keys
  induction keys with
  | nil => exact fun _ _ mem => nomatch mem
  | cons first keys ih =>
    intro h h' calls key mem
    generalize same : Except.ok () = result at calls
    cases calls with
    | attrFails => cases same
    | attr call calls =>
      subst same
      rcases List.mem_cons.1 mem with rfl | mem
      · exact ⟨_, .first call calls⟩
      · obtain ⟨d, slotCall⟩ := ih calls key mem
        exact ⟨d, .later call slotCall⟩

theorem SlotCall.sound (call : SlotCall names active a keys h h' key d) (closed : Closed names h)
    (fresh : a ∉ active) (object : h.HasAttributes a keys) :
    d.Valid names ∧ d.active = a :: active ∧ d.heap.HasAttributes a [key] ∧
      d.binding = d.heap.readAttribute (.cell a) key ∧ Closed names d.heap ∧
        Changes names active h d.heap ∧ Changes names active d.after h' := by
  induction call with
  | @first key keys h _ _ _ call calls =>
    have changes := call.changes_setAttribute closed fresh object
    obtain ⟨type, attrs, there, named⟩ := id object
    have here := named key (List.mem_cons_self ..)
    refine ⟨call, rfl, ⟨type, attrs, there, fun _ mem => List.mem_singleton.1 mem ▸ here⟩, rfl,
      closed, .refl, ?_⟩
    obtain ⟨b, slot⟩ := Table.exists_get?_of_mem_names here
    obtain ⟨there', within, w, leads, alike⟩ := call.slot closed there slot
    have rest := calls.changes (changes.closed closed) fresh (changes.hasAttributes object.tail)
    exact .head (.settle fresh there' slot leads alike within) rest
  | later call _ ih =>
    have changes := call.changes_setAttribute closed fresh object
    obtain ⟨valid, active, object', binding, closed', before, behind⟩ :=
      ih (changes.closed closed) (changes.hasAttributes object.tail)
    exact ⟨valid, active, object', binding, closed', changes.trans before, behind⟩

end SlotCall

namespace Call

/-! ## What a call does -/

/-- A call has found a scalar, a container that is being resolved or one of the host, copies a list,
or goes through an object. -/
theorem Valid.cases {c : Call} (valid : c.Valid names) :
    (deref names c.heap c.binding = .ok c.value ∧ c.heap.LeavesAlone c.active c.value ∧
      c.after = c.heap) ∨
    (∃ a type items vs made, c.Copies names a type items vs made) ∨
    ∃ a type attrs, c.Fills names a type attrs := by
  obtain ⟨active, b, h, v, h'⟩ := c
  rw [Valid] at valid
  generalize same : Except.ok v = result at valid
  cases valid with
  | lost => cases same
  | inert found alone =>
    cases same
    exact .inl ⟨found, alone, rfl⟩
  | @list _ _ _ made a type items vs found fresh there calls =>
    cases same
    exact .inr (.inl ⟨a, type, items, vs, made, ⟨found, fresh, there⟩, calls, rfl, rfl⟩)
  | listFails => cases same
  | @object _ _ _ _ a type attrs r found fresh there calls =>
    cases r with
    | error e => cases same
    | ok =>
      cases same
      exact .inr (.inr ⟨a, type, attrs, ⟨found, fresh, there⟩, calls, rfl⟩)

theorem Finds.eq {c : Call} {a a' : Addr} {cell cell' : Cell} (finds : c.Finds names a cell)
    (finds' : c.Finds names a' cell') : a = a' ∧ cell = cell' := by
  cases finds.found.symm.trans finds'.found
  exact ⟨rfl, Option.some.inj (finds.there.symm.trans finds'.there)⟩

/-- A call that enters a container copies it or goes through it. -/
theorem Enters.cases {c : Call} {a : Addr} (enters : c.Enters names a) (valid : c.Valid names) :
    (∃ type items vs made, c.Copies names a type items vs made) ∨
      ∃ type attrs, c.Fills names a type attrs := by
  obtain ⟨cell, finds, entered⟩ := enters
  rcases valid.cases with ⟨found, alone, -⟩ | ⟨b, type, items, vs, made, copies⟩ |
    ⟨b, type, attrs, fills⟩
  · rw [← Except.ok.inj (finds.found.symm.trans found)] at alone
    rcases alone with mem | inert
    · exact absurd mem finds.fresh
    · exact absurd (inert _ finds.there) entered
  · obtain ⟨rfl, -⟩ := finds.eq copies.toFinds
    exact .inl ⟨type, items, vs, made, copies⟩
  · obtain ⟨rfl, -⟩ := finds.eq fills.toFinds
    exact .inr ⟨type, attrs, fills⟩

section Copies

variable {c : Call} {a : Addr} {type : Option String} {items : List Binding} {vs : List Value}
  {made : Heap} (copies : c.Copies names a type items vs made)
include copies

theorem Copies.makes : List.Forall₂ (fun b v => ∃ d, c.Makes names d ∧ d.binding = b ∧ d.value = v)
    items vs :=
  copies.calls.exists_itemCall.imp fun _ _ ⟨d, call, same⟩ => ⟨d, .item copies call, same⟩

theorem Copies.exists_makes_of_mem_items {b : Binding} (mem : b ∈ items) :
    ∃ d, c.Makes names d ∧ d.binding = b := by
  obtain ⟨i, lt, rfl⟩ := List.getElem_of_mem mem
  obtain ⟨d, makes, binding, -⟩ := copies.makes.get lt (copies.makes.length_eq ▸ lt)
  exact ⟨d, makes, binding⟩

theorem Copies.exists_makes_of_mem_values {v : Value} (mem : v ∈ vs) :
    ∃ d, c.Makes names d ∧ d.value = v := by
  obtain ⟨i, lt, rfl⟩ := List.getElem_of_mem mem
  obtain ⟨d, makes, -, value⟩ := copies.makes.get (copies.makes.length_eq ▸ lt) lt
  exact ⟨d, makes, value⟩

end Copies

theorem Makes.sound {c d : Call} (makes : c.Makes names d) (closed : Closed names c.heap) :
    d.Valid names ∧ Closed names d.heap ∧ d.binding.Within d.heap.size ∧
      Changes names [] c.heap d.heap ∧ Changes names [] d.after c.after := by
  cases makes with
  | @item a type items vs made copies call =>
    have within := closed.cells a _ copies.there
    obtain ⟨valid, -, mem, closed', within', before, behind⟩ := call.sound closed within
    refine ⟨valid, closed', within', before.wider, ?_⟩
    rw [copies.after]
    exact behind.wider.tail (.copy made type vs ((copies.calls.changes closed within).2 vs rfl))
  | @slot a type attrs key fills call =>
    obtain ⟨valid, -, -, binding, closed', before, behind⟩ := call.sound closed fills.fresh
      (Heap.hasAttributes_of_get? fills.there)
    exact ⟨valid, closed', binding ▸ closed'.readAttribute _ _, before.wider, behind.wider⟩

/-- A call made while nothing is being resolved, on a store without dangling addresses. -/
structure Starts (names : Table Binding) (root : Call) : Prop where
  valid : root.Valid names
  top : root.active = []
  closed : Closed names root.heap
  within : root.binding.Within root.heap.size

/-- A call below another one works on a store without dangling addresses, which comes of the one at
the beginning, and what it leaves comes to what is there in the end. -/
structure Sound (names : Table Binding) (root c : Call) : Prop where
  valid : c.Valid names
  closed : Closed names c.heap
  within : c.binding.Within c.heap.size
  before : Changes names [] root.heap c.heap
  during : Changes names [] c.heap c.after
  behind : Changes names [] c.after root.after

theorem Sound.rest {root c : Call} (sound : Sound names root c) :
    Changes names [] c.heap root.after := sound.during.trans sound.behind

theorem Starts.sound {root c : Call} (starts : root.Starts names) (below : root.Below names c) :
    Sound names root c := by
  induction below with
  | refl =>
    obtain ⟨valid, -, closed, within⟩ := starts
    exact ⟨valid, closed, within, .refl, (Resolves.changes closed within valid).1.wider, .refl⟩
  | tail _ makes ih =>
    obtain ⟨valid, closed, within, before, behind⟩ := makes.sound ih.closed
    exact ⟨valid, closed, within, ih.before.trans before,
      (Resolves.changes closed within valid).1.wider, behind.trans ih.behind⟩

theorem Makes.part {c d : Call} (makes : c.Makes names d) (closed : Closed names c.heap) :
    ∃ a, c.Enters names a ∧ d.active = a :: c.active ∧ Part d.heap a d.binding := by
  cases makes with
  | @item a type items vs made copies call =>
    obtain ⟨-, active, mem, -, -, before, -⟩ := call.sound closed (closed.cells a _ copies.there)
    exact ⟨a, ⟨_, copies.toFinds, id⟩, active, .item (before.list copies.there) mem⟩
  | @slot a type attrs key fills call =>
    obtain ⟨-, active, ⟨_, attrs', there, named⟩, binding, -⟩ := call.sound closed fills.fresh
      (Heap.hasAttributes_of_get? fills.there)
    obtain ⟨b, slot⟩ := Table.exists_get?_of_mem_names (named key (List.mem_singleton_self _))
    refine ⟨a, ⟨_, fills.toFinds, id⟩, active, ?_⟩
    rw [binding, Heap.readAttribute_of_get? there slot]
    exact .slot there slot

/-- What is being resolved when a call is made has been entered by a call above it. -/
theorem Starts.exists_enters {root c : Call} (starts : root.Starts names)
    (below : root.Below names c) {a : Addr} (mem : a ∈ c.active) :
    ∃ d, root.Below names d ∧ d.Enters names a := by
  induction below with
  | refl =>
    rw [starts.top] at mem
    cases mem
  | @tail d c above makes ih =>
    obtain ⟨b, enters, active, -⟩ := makes.part (starts.sound above).closed
    rw [active] at mem
    rcases List.mem_cons.1 mem with rfl | mem
    · exact ⟨d, above, enters⟩
    · exact ih mem

end Call

/-! ## What every step preserves

The calls are gone through in the order in which they are made, with the heap that each of them finds.
-/

/-- What the steps of the calls below a call preserve: making a list, and an attribute taking the
value of its call. -/
structure Call.Preserves (names : Table Binding) (root : Call) (Q : Heap → Prop) : Prop where
  copy : ∀ {c a type items vs made}, root.Below names c → c.Copies names a type items vs made →
    Q made → Q c.after
  fill : ∀ {c a type attrs key d}, root.Below names c → c.Fills names a type attrs →
    SlotCall names c.active a attrs.names c.heap c.after key d → Q d.after →
      Q (d.after.setAttribute a key (.value d.value))

section

variable {root : Call} {Q : Heap → Prop}

mutual

theorem Resolves.invariant (keeps : root.Preserves names Q) {active : List Addr} {b : Binding}
    {h h' : Heap} {result : Except Fault Value} : Resolves names active b h result h' →
      ∀ v, result = .ok v → root.Below names ⟨active, b, h, v, h'⟩ → Q h → Q h'
  | .lost _ => fun _ same => nomatch same
  | .inert _ _ => fun _ _ _ => id
  | @Resolves.list _ _ _ _ made a type items vs found fresh there calls => by
    have inner := calls.invariant keeps
    intro v same below start
    cases same
    have copies : Call.Copies names ⟨active, b, h, _, _⟩ a type items vs made :=
      ⟨⟨found, fresh, there⟩, calls, rfl, rfl⟩
    have holds := inner vs rfl (fun d call => below.tail (.item copies call)) start
    exact keeps.copy below copies holds
  | .listFails .. => fun _ same => nomatch same
  | @Resolves.object _ _ _ _ _ a type attrs r found fresh there calls => by
    have inner := calls.invariant keeps
    intro v same below start
    cases r with
    | error e => cases same
    | ok =>
      cases same
      have fills : Call.Fills names ⟨active, b, h, _, h'⟩ a type attrs :=
        ⟨⟨found, fresh, there⟩, calls, rfl⟩
      exact inner rfl (fun key d call => ⟨below.tail (.slot fills call),
        keeps.fill below fills call⟩) start

theorem ResolvesItems.invariant (keeps : root.Preserves names Q) {active : List Addr}
    {items : List Binding} {h h' : Heap} {result : Except Fault (List Value)} :
    ResolvesItems names active items h result h' → ∀ vs, result = .ok vs →
      (∀ d, ItemCall names active items h vs h' d → root.Below names d) → Q h → Q h'
  | .noItems => fun _ _ _ => id
  | @ResolvesItems.item _ _ _ _ _ _ _ v r call calls => by
    have here := call.invariant keeps v rfl
    have rest := calls.invariant keeps
    intro vs same below start
    cases r with
    | error e => cases same
    | ok ws =>
      cases same
      exact rest ws rfl (fun d itemCall => below d (.later call itemCall))
        (here (below _ (.first call calls)) start)
  | .itemFails _ => fun _ same => nomatch same

theorem ResolvesAttributes.invariant (keeps : root.Preserves names Q) {active : List Addr}
    {a : Addr} {keys : List String} {h h' : Heap} {result : Except Fault Unit} :
    ResolvesAttributes names active a keys h result h' → result = .ok () →
      (∀ key d, SlotCall names active a keys h h' key d → root.Below names d ∧
        (Q d.after → Q (d.after.setAttribute a key (.value d.value)))) → Q h → Q h'
  | .noAttributes => fun _ _ => id
  | @ResolvesAttributes.attr _ _ _ key _ _ _ _ v r call calls => by
    have here := call.invariant keeps v rfl
    have rest := calls.invariant keeps
    intro same below start
    subst same
    obtain ⟨above, fill⟩ := below key _ (.first call calls)
    exact rest rfl (fun other d slotCall => below other d (.later call slotCall))
      (fill (here above start))
  | .attrFails _ => fun same => nomatch same

end

theorem ItemCall.invariant (keeps : root.Preserves names Q) {active : List Addr}
    {items : List Binding} {h h' : Heap} {vs : List Value} {d : Call}
    (call : ItemCall names active items h vs h' d) :
    (∀ d, ItemCall names active items h vs h' d → root.Below names d) → Q d.after → Q h' := by
  induction call with
  | first call calls =>
    exact fun below => calls.invariant keeps _ rfl fun d itemCall => below d (.later call itemCall)
  | later call _ ih => exact fun below => ih fun d itemCall => below d (.later call itemCall)

/-- What holds when an attribute has taken its value holds when all have. -/
theorem SlotCall.invariant (keeps : root.Preserves names Q) {active : List Addr} {a : Addr}
    {keys : List String} {h h' : Heap} {key : String} {d : Call}
    (call : SlotCall names active a keys h h' key d) :
    (∀ key d, SlotCall names active a keys h h' key d → root.Below names d ∧
      (Q d.after → Q (d.after.setAttribute a key (.value d.value)))) →
      Q (d.after.setAttribute a key (.value d.value)) → Q h' := by
  induction call with
  | first call calls =>
    exact fun below => calls.invariant keeps rfl fun key d slotCall =>
      below key d (.later call slotCall)
  | later call _ ih =>
    exact fun below => ih fun key d slotCall => below key d (.later call slotCall)

namespace Call

/-- What every step preserves holds when a call has ended if it held when the call was made. -/
theorem Valid.invariant (keeps : root.Preserves names Q) {c : Call} (valid : c.Valid names)
    (below : root.Below names c) : Q c.heap → Q c.after :=
  Resolves.invariant keeps valid c.value rfl below

theorem Fills.invariant (keeps : root.Preserves names Q) {c d : Call} {a : Addr}
    {type : Option String} {attrs : Table Binding} {key : String} (below : root.Below names c)
    (fills : c.Fills names a type attrs)
    (call : SlotCall names c.active a attrs.names c.heap c.after key d) :
    Q (d.after.setAttribute a key (.value d.value)) → Q c.after :=
  call.invariant keeps fun _ _ other =>
    ⟨below.tail (.slot fills other), keeps.fill below fills other⟩

theorem Makes.invariant (keeps : root.Preserves names Q) {c d : Call} (below : root.Below names c)
    (makes : c.Makes names d) (holds : Q d.after) : Q c.after := by
  cases makes with
  | item copies call =>
    exact keeps.copy below copies
      (call.invariant keeps (fun _ other => below.tail (.item copies other)) holds)
  | slot fills call => exact fills.invariant keeps below call (keeps.fill below fills call holds)

/-- What every step preserves and what holds when a call has ended holds in the end. -/
theorem Below.invariant (keeps : root.Preserves names Q) {c : Call} (below : root.Below names c) :
    Q c.after → Q root.after := by
  induction below with
  | refl => exact id
  | tail above makes ih => exact fun holds => ih (makes.invariant keeps above holds)

end Call

end

end AliasScript

import AliasScript.Proofs.Edits

/-!
# What scripts keep in order

Scripts store numbers, texts, references, containers and built-in functions only, and never nothing,
so a name that reads as nothing is unbound. Lists are made as `list` and objects as anything else, for
good. And every circle of containers that hold each other passes through an object
(`Runner.tidy_of_reachable`).

The last of these is a matter of age. A statement never puts a container into a list; only resolving
makes lists that hold containers, and these containers were made before. So `Store.Settled` says that
whatever a list holds is older than the list, and every edit keeps it (`Store.Settled.edit`).
-/

namespace AliasScript

open Relation

/-- What a script leaves in a slot with a heap of a size. -/
inductive Binding.Settled (size : Nat) : Binding → Prop
  | number (n : Int) : Settled size (.value (.number n))
  | text (s : String) : Settled size (.value (.text s))
  | function {f : Function} : (∀ other, f ≠ .host other) →
    Settled size (.value (.scalar (.function f)))
  | reference (r : Reference) : Settled size (.reference r)
  | cell {a : Addr} : a < size → Settled size (.value (.cell a))

/-- The cell at an address is a list of older things, or an object. -/
def Cell.Settled (size : Nat) (a : Addr) : Cell → Prop
  | .list type items => type = some "list" ∧ ∀ b ∈ items, b.Settled a
  | .object type attrs =>
    (∃ word, type = some word ∧ word ≠ "list") ∧ ∀ entry ∈ attrs.entries, entry.2.Settled size
  | _ => False

structure Store.Settled (s : Store) : Prop where
  names : ∀ entry ∈ s.names.entries, entry.2.Settled s.heap.size
  cells : ∀ a c, s.heap.get? a = some c → c.Settled s.heap.size a

/-- Every container has stayed one of its kind and type. -/
def Heap.KeepsHulls (h h' : Heap) : Prop :=
  ∀ a c, h.get? a = some c → ∃ c', h'.get? a = some c' ∧ c'.hull = c.hull

variable {names : Table Binding} {heap after : Heap} {n m : Nat} {a : Addr} {b : Binding}

theorem Binding.Settled.mono (le : n ≤ m) (h : b.Settled n) : b.Settled m := by
  cases h with
  | number k => exact .number k
  | text s => exact .text s
  | function builtIn => exact .function builtIn
  | reference r => exact .reference r
  | cell lt => exact .cell (Nat.lt_of_lt_of_le lt le)

theorem Binding.Settled.ne_nothing (h : b.Settled n) : b ≠ .nothing := by
  rintro rfl
  cases h

theorem Binding.Settled.within (h : b.Settled n) : b.Within n := by
  cases h with
  | cell lt => exact lt
  | _ => trivial

theorem Binding.Storable.settled (h : b.Storable n) : b.Settled n := by
  cases h with
  | number k => exact .number k
  | text s => exact .text s
  | reference r => exact .reference r
  | cell lt => exact .cell lt

theorem Cell.Settled.mono (le : n ≤ m) {c : Cell} (h : c.Settled n a) : c.Settled m a := by
  cases c with
  | list type items => exact h
  | object type attrs => exact ⟨h.1, fun entry mem => (h.2 entry mem).mono le⟩
  | _ => exact h

namespace Store.Settled

theorem closed (s : Store.Settled ⟨names, heap⟩) : Closed names heap where
  names entry mem := (s.names entry mem).within
  cells a c there b mem := by
    have settled := s.cells a c there
    have old := Heap.lt_size_of_get? there
    cases c with
    | list type items => exact ((settled.2 b mem).mono (Nat.le_of_lt old)).within
    | object type attrs =>
      obtain ⟨entry, inside, rfl⟩ := List.mem_map.1 mem
      exact (settled.2 entry inside).within
    | _ => exact settled.elim

theorem read_eq_nothing_iff {t : Table Binding} (settled : ∀ entry ∈ t.entries, entry.2.Settled n)
    (name : String) : t.read name = .nothing ↔ t.get? name = none := by
  rw [Table.read]
  cases found : t.get? name with
  | none => simp
  | some b =>
    have bound := settled _ (Table.mem_of_get? found)
    simpa using bound.ne_nothing

theorem readAttribute (s : Store.Settled ⟨names, heap⟩) {v : Value} {attr : String}
    (thing : heap.readAttribute v attr ≠ .nothing) :
    (heap.readAttribute v attr).Settled heap.size := by
  obtain ⟨c, type, attrs, rfl, there, bound⟩ := Heap.exists_object_of_readAttribute thing
  exact (s.cells c _ there).2 _ (Table.mem_of_get? bound)

theorem leads (s : Store.Settled ⟨names, heap⟩) {v : Value} (found : Leads names heap b v)
    (settled : b.Settled heap.size) : (Binding.value v).Settled heap.size := by
  induction found with
  | value v => exact settled
  | @name n v inner some ih =>
    refine ih ?_
    rcases names.read_eq_or_mem n with none | mem
    · rw [none] at inner
      exact absurd (leads_value_iff.1 inner) some
    · exact s.names _ mem
  | @path obj attr base v _ inner some _ ih =>
    refine ih (s.readAttribute fun none => ?_)
    rw [none] at inner
    exact some (leads_value_iff.1 inner)

/-! ## Edits -/

theorem set (s : Store.Settled ⟨names, heap⟩) (name : String) (settled : b.Settled heap.size) :
    Store.Settled ⟨names.set name b, heap⟩ := by
  refine ⟨fun entry mem => ?_, s.cells⟩
  rcases Table.mem_entries_set mem with rfl | mem
  · exact settled
  · exact s.names entry mem

theorem alloc (s : Store.Settled ⟨names, heap⟩) {c : Cell}
    (made : c.Settled heap.size heap.size) : Store.Settled ⟨names, (heap.alloc c).2⟩ := by
  have le : heap.size ≤ (heap.alloc c).2.size := by simp
  refine ⟨fun entry mem => (s.names entry mem).mono le, fun a d there => ?_⟩
  rcases Heap.get?_alloc_eq_some_iff.1 there with ⟨rfl, rfl⟩ | there
  · exact made.mono le
  · exact (s.cells a d there).mono le

theorem replace (s : Store.Settled ⟨names, heap⟩) {c : Cell} (made : c.Settled heap.size a) :
    Store.Settled ⟨names, heap.set a c⟩ := by
  have same : (heap.set a c).size = heap.size := by simp
  refine ⟨fun entry mem => same ▸ s.names entry mem, fun o d there => ?_⟩
  show d.Settled (heap.set a c).size o
  rw [same]
  by_cases here : o = a
  · subst here
    rcases Heap.get?_set_eq_some there with rfl | there
    · exact made
    · exact s.cells o d there
  · rw [Heap.get?_set_of_ne heap (Ne.symm here)] at there
    exact s.cells o d there

theorem setAttribute (s : Store.Settled ⟨names, heap⟩) (a : Addr) (attr : String)
    (settled : b.Settled heap.size) : Store.Settled ⟨names, heap.setAttribute a attr b⟩ := by
  rw [Heap.setAttribute]
  split
  · next type attrs there =>
    obtain ⟨typed, held⟩ := s.cells a _ there
    refine s.replace ⟨typed, fun entry mem => ?_⟩
    rcases Table.mem_entries_set mem with rfl | mem
    · exact settled
    · exact held entry mem
  · exact s

theorem changeItems (s : Store.Settled ⟨names, heap⟩) (op : ListOperation) {type : Option String}
    {items : List Binding} (there : heap.get? a = some (.list type items)) (bare : b.Settled 0) :
    Store.Settled ⟨names, heap.setItems a (heap.changeItems op items b)⟩ := by
  obtain ⟨typed, held⟩ := s.cells a _ there
  rw [Heap.setItems, there]
  refine s.replace ⟨typed, fun item mem => ?_⟩
  cases op with
  | add =>
    rcases List.mem_append.1 mem with mem | mem
    · exact held item mem
    · rw [List.mem_singleton.1 mem]
      exact bare.mono (Nat.zero_le a)
  | remove => exact held item (List.mem_of_mem_eraseP mem)

end Store.Settled

theorem Template.settled_cell {t : Template} {type : String}
    (h : templateFor defaults type = .ok t) (n : Nat) (a : Addr) : (t.cell type).Settled n a := by
  have known : defaults.get? type = if "generic" = type then some .generic else
    if "list" = type then some .list else none := rfl
  have generic : defaults.get? "generic" = some .generic := by decide
  rw [templateFor, generic, known] at h
  by_cases list : "list" = type
  · subst list
    cases h
    exact ⟨rfl, List.forall_mem_nil _⟩
  · have made : t = .generic := by
      rw [if_neg list] at h
      by_cases same : "generic" = type
      · rw [if_pos same] at h
        cases h
        rfl
      · rw [if_neg same] at h
        cases h
        rfl
    rw [made]
    exact ⟨⟨type, rfl, fun same => list same.symm⟩, List.forall_mem_nil _⟩

/-! ## Resolving -/

mutual

/-- Resolving leaves a settled store, and of something settled it gives something settled. A copy of
a list is newer than all that it holds. -/
theorem Resolves.settled {active : List Addr} {b : Binding} {h h' : Heap}
    {result : Except Fault Value} (store : Store.Settled ⟨names, h⟩) :
    Resolves names active b h result h' → Store.Settled ⟨names, h'⟩ ∧ h.size ≤ h'.size ∧
      (b.Settled h.size → ∀ v, result = .ok v → (Binding.value v).Settled h'.size)
  | .lost _ => ⟨store, Nat.le_refl _, fun _ v same => nomatch same⟩
  | .inert found _ => by
    refine ⟨store, Nat.le_refl _, fun settled v same => ?_⟩
    cases same
    exact store.leads (leads_of_deref found) settled
  | @Resolves.list _ _ _ _ h' a type items vs found new there calls => by
    obtain ⟨typed, held⟩ := store.cells a _ there
    have old := Nat.le_of_lt (Heap.lt_size_of_get? there)
    obtain ⟨store', le, results⟩ := calls.settled store fun c mem => (held c mem).mono old
    refine ⟨store'.alloc ⟨typed, fun c mem => ?_⟩, Nat.le_trans le (by simp), fun _ v same => ?_⟩
    · obtain ⟨v, inside, rfl⟩ := List.mem_map.1 mem
      exact results vs rfl v inside
    · cases same
      exact .cell (Nat.lt_of_lt_of_eq (Nat.lt_succ_self _) (Heap.size_alloc ..).symm)
  | @Resolves.listFails _ _ _ _ _ a type items e found new there calls => by
    obtain ⟨typed, held⟩ := store.cells a _ there
    have old := Nat.le_of_lt (Heap.lt_size_of_get? there)
    obtain ⟨store', le, -⟩ := calls.settled store fun c mem => (held c mem).mono old
    exact ⟨store', le, fun _ v same => nomatch same⟩
  | @Resolves.object _ _ _ _ _ a type attrs r found new there calls => by
    obtain ⟨store', le⟩ := calls.settled store new (Heap.hasAttributes_of_get? there)
    refine ⟨store', le, fun _ v same => ?_⟩
    cases r with
    | error e => cases same
    | ok =>
      cases same
      exact .cell (Nat.lt_of_lt_of_le (Heap.lt_size_of_get? there) le)

theorem ResolvesItems.settled {active : List Addr} {items : List Binding} {h h' : Heap}
    {result : Except Fault (List Value)} (store : Store.Settled ⟨names, h⟩)
    (held : ∀ b ∈ items, b.Settled h.size) :
    ResolvesItems names active items h result h' → Store.Settled ⟨names, h'⟩ ∧
      h.size ≤ h'.size ∧ ∀ vs, result = .ok vs → ∀ v ∈ vs, (Binding.value v).Settled h'.size
  | .noItems => by
    refine ⟨store, Nat.le_refl _, fun vs same v mem => ?_⟩
    cases same
    cases mem
  | @ResolvesItems.item _ _ b _ _ _ _ v r call calls => by
    have first := held b (List.mem_cons_self ..)
    obtain ⟨store', le, result⟩ := call.settled store
    obtain ⟨store'', le', results⟩ := calls.settled store' fun c mem =>
      (held c (List.mem_cons_of_mem _ mem)).mono le
    refine ⟨store'', Nat.le_trans le le', fun vs same w mem => ?_⟩
    cases r with
    | error e => cases same
    | ok ws =>
      cases same
      rcases List.mem_cons.1 mem with rfl | mem
      · exact (result first w rfl).mono le'
      · exact results ws rfl w mem
  | .itemFails call => by
    obtain ⟨store', le, -⟩ := call.settled store
    exact ⟨store', le, fun vs same => nomatch same⟩

theorem ResolvesAttributes.settled {active : List Addr} {a : Addr} {keys : List String}
    {h h' : Heap} {result : Except Fault Unit} (store : Store.Settled ⟨names, h⟩)
    (new : a ∉ active) (object : h.HasAttributes a keys) :
    ResolvesAttributes names active a keys h result h' →
      Store.Settled ⟨names, h'⟩ ∧ h.size ≤ h'.size
  | .noAttributes => ⟨store, Nat.le_refl _⟩
  | @ResolvesAttributes.attr _ _ _ key _ _ _ _ v _ call calls => by
    -- The attribute is bound, so there is something to resolve.
    obtain ⟨type, attrs, there, named⟩ := id object
    obtain ⟨b, slot⟩ := Table.exists_get?_of_mem_names (named key (List.mem_cons_self ..))
    have bound : (h.readAttribute (.cell a) key).Settled h.size := by
      rw [Heap.readAttribute_of_get? there slot]
      exact (store.cells a _ there).2 _ (Table.mem_of_get? slot)
    obtain ⟨store', le, result⟩ := call.settled store
    have changes := call.changes_setAttribute store.closed new object
    obtain ⟨store'', le'⟩ := calls.settled (store'.setAttribute a key (result bound v rfl)) new
      (changes.hasAttributes object.tail)
    rw [Heap.size_setAttribute] at le'
    exact ⟨store'', Nat.le_trans le le'⟩
  | .attrFails call => by
    obtain ⟨store', le, -⟩ := call.settled store
    exact ⟨store', le⟩

end

theorem Store.Settled.edit {s s' : Store} (settled : s.Settled) (e : Edit s s') : s'.Settled := by
  cases e with
  | bind name storable => exact settled.set name storable.settled
  | attach a attr storable => exact settled.setAttribute a attr storable.settled
  | make template => exact settled.alloc (Template.settled_cell template ..)
  | change op there bare => exact settled.changeItems op there bare.settled
  | resolve within calls => exact (calls.settled settled).1

/-! ## Kinds and types -/

namespace Heap.KeepsHulls

variable {h h' h'' : Heap}

theorem refl (h : Heap) : h.KeepsHulls h := fun _ c there => ⟨c, there, rfl⟩

theorem trans (g : h.KeepsHulls h') (k : h'.KeepsHulls h'') : h.KeepsHulls h'' := by
  intro a c there
  obtain ⟨c', there', same⟩ := g a c there
  obtain ⟨c'', there'', same'⟩ := k a c' there'
  exact ⟨c'', there'', same'.trans same⟩

theorem of_set {c d : Cell} (there : h.get? a = some c) (same : d.hull = c.hull) :
    h.KeepsHulls (h.set a d) := by
  intro o e here
  have hulls := Machine.hull_set there same o
  rw [here, Option.map_some, Option.map_eq_some_iff] at hulls
  exact hulls

theorem of_change {names : Table Binding} {active : List Addr} (c : Change names active h h') :
    h.KeepsHulls h' := by
  intro a d there
  cases d with
  | object type attrs =>
    obtain ⟨attrs', there', -⟩ := c.object there
    exact ⟨_, there', rfl⟩
  | _ => exact ⟨_, c.other there (fun _ _ same => nomatch same), rfl⟩

theorem of_changes {names : Table Binding} {active : List Addr} (c : Changes names active h h') :
    h.KeepsHulls h' := by
  induction c with
  | refl => exact refl h
  | tail _ step ih => exact ih.trans (of_change step)

end Heap.KeepsHulls

theorem Edit.keepsHulls {s s' : Store} (settled : s.Settled) (e : Edit s s') :
    s.heap.KeepsHulls s'.heap := by
  cases e with
  | bind => exact .refl _
  | @attach _ heap a attr b _ =>
    show heap.KeepsHulls (heap.setAttribute a attr b)
    rw [Heap.setAttribute]
    split
    · next type attrs there => exact .of_set there (by rfl)
    · exact .refl heap
  | make => exact fun a c there => ⟨c, Heap.get?_alloc_of_get? there, rfl⟩
  | @change _ heap op a type items b there _ =>
    show heap.KeepsHulls (heap.setItems a _)
    rw [Heap.setItems, there]
    exact .of_set there (by rfl)
  | resolve within calls => exact .of_changes (calls.changes settled.closed within).1

theorem Store.Settled.edits {s s' : Store} (settled : s.Settled) (h : ReflTransGen Edit s s') :
    s'.Settled ∧ s.heap.KeepsHulls s'.heap := by
  induction h with
  | refl => exact ⟨settled, .refl _⟩
  | tail _ step ih => exact ⟨ih.1.edit step, ih.2.trans (step.keepsHulls ih.1)⟩

/-! ## Circles of containers -/

/-- The container at the one address holds the one at the other, and not by a reference. -/
def Heap.Encloses (h : Heap) (a b : Addr) : Prop :=
  ∃ c, h.get? a = some c ∧ .value (.cell b) ∈ c.contents

def Heap.IsObject (h : Heap) (a : Addr) : Prop :=
  ∃ type attrs, h.get? a = some (.object type attrs)

theorem Store.Settled.lt_of_encloses (s : Store.Settled ⟨names, heap⟩) {a b : Addr}
    (holds : heap.Encloses a b) (list : ¬ heap.IsObject a) : b < a := by
  obtain ⟨c, there, mem⟩ := holds
  have settled := s.cells a c there
  cases c with
  | list type items =>
    cases settled.2 _ mem with
    | cell lt => exact lt
  | object type attrs => exact absurd ⟨type, attrs, there⟩ list
  | _ => exact settled.elim

/-- A way through containers that are no objects leads to older ones. -/
theorem Store.Settled.lt_of_isChain (s : Store.Settled ⟨names, heap⟩) (path : List Addr) :
    ∀ {a b : Addr}, (a :: (path ++ [b])).IsChain heap.Encloses →
      (∀ o ∈ a :: path, ¬ heap.IsObject o) → b < a := by
  induction path with
  | nil =>
    intro a b way lists
    rw [List.nil_append, List.isChain_cons_cons] at way
    exact s.lt_of_encloses way.1 (lists a (List.mem_cons_self ..))
  | cons o path ih =>
    intro a b way lists
    rw [List.cons_append, List.isChain_cons_cons] at way
    have older := s.lt_of_encloses way.1 (lists a (List.mem_cons_self ..))
    exact Nat.lt_trans (ih way.2 fun p mem => lists p (List.mem_cons_of_mem _ mem)) older

/-! ## Every store that scripts make -/

/-- What a slot holds is a number, a text, a built-in function, a reference, or a container that is
there. -/
inductive Heap.Keeps (h : Heap) : Binding → Prop
  | number (n : Int) : Keeps h (.value (.number n))
  | text (s : String) : Keeps h (.value (.text s))
  | function {f : Function} : (∀ other, f ≠ .host other) → Keeps h (.value (.scalar (.function f)))
  | reference (r : Reference) : Keeps h (.reference r)
  | list {a : Addr} {type : Option String} {items : List Binding} :
    h.get? a = some (.list type items) → Keeps h (.value (.cell a))
  | object {a : Addr} {type : Option String} {attrs : Table Binding} :
    h.get? a = some (.object type attrs) → Keeps h (.value (.cell a))

/-- The order that scripts keep in names and containers. -/
structure Machine.Tidy (m : Machine) : Prop where
  entries : ∀ owner t, m.table owner = some t → ∀ entry ∈ t.entries, m.heap.Keeps entry.2
  items : ∀ a items, m.holds (.items a) = some items → ∀ b ∈ items, m.heap.Keeps b
  /-- Nothing is read only where nothing is bound. -/
  unbound : ∀ owner t, m.table owner = some t →
    ∀ name, t.read name = .nothing ↔ t.get? name = none
  containers : ∀ a c, m.heap.get? a = some c →
    (∃ items, c = .list (some "list") items) ∨ ∃ type attrs, c = .object (some type) attrs ∧
      type ≠ "list"
  circles : ∀ a path, (a :: (path ++ [a])).IsChain m.heap.Encloses →
    ∃ o ∈ a :: path, m.heap.IsObject o

theorem Store.Settled.keeps (s : Store.Settled ⟨names, heap⟩) (h : b.Settled heap.size) :
    heap.Keeps b := by
  cases h with
  | number n => exact .number n
  | text t => exact .text t
  | function builtIn => exact .function builtIn
  | reference r => exact .reference r
  | @cell a lt =>
    obtain ⟨c, there⟩ := Option.isSome_iff_exists.1 (Heap.get?_isSome_iff.2 lt)
    have settled := s.cells a c there
    cases c with
    | list => exact .list there
    | object => exact .object there
    | _ => exact settled.elim

theorem Store.Settled.tidy {m : Machine} (s : m.store.Settled) : m.Tidy := by
  have tables : ∀ owner t, m.table owner = some t →
      ∀ entry ∈ t.entries, entry.2.Settled m.heap.size := by
    intro owner t here entry mem
    cases owner with
    | program =>
      cases here
      exact s.names entry mem
    | object a =>
      obtain ⟨c, there, attrs⟩ := Option.bind_eq_some_iff.1 here
      cases c <;> cases attrs
      exact (s.cells a _ there).2 entry mem
  refine ⟨fun owner t here entry mem => s.keeps (tables owner t here entry mem),
    fun a items here b mem => ?_, fun owner t here => read_eq_nothing_iff (tables owner t here),
    fun a c there => ?_, fun a path circle => ?_⟩
  · obtain ⟨c, there, held⟩ := Option.bind_eq_some_iff.1 here
    cases c <;> cases held
    exact s.keeps (((s.cells a _ there).2 b mem).mono (Nat.le_of_lt (Heap.lt_size_of_get? there)))
  · have settled := s.cells a c there
    cases c with
    | list type items => exact .inl ⟨items, by rw [settled.1]⟩
    | object type attrs =>
      obtain ⟨word, rfl, other⟩ := settled.1
      exact .inr ⟨word, attrs, rfl, other⟩
    | _ => exact settled.elim
  · by_contra none
    push Not at none
    exact Nat.lt_irrefl a (s.lt_of_isChain path circle none)

namespace Runner

variable {hosts : Hosts} {r : Runner}

theorem settled_fresh (library : Bool) : (Machine.fresh library).store.Settled := by
  refine ⟨fun entry mem => ?_, fun a c there => absurd (Heap.lt_size_of_get? there)
    (Nat.not_lt_zero a)⟩
  cases library with
  | false => cases mem
  | true =>
    have known : entry ∈ [("count", Binding.value (.scalar (.function .count))),
      ("describe", .value (.scalar (.function .describe))),
      ("write", .value (.scalar (.function .write)))] := mem
    simp only [List.mem_cons, List.not_mem_nil, or_false] at known
    rcases known with rfl | rfl | rfl <;> exact .function fun other same => nomatch same

theorem Reachable.settled (h : Reachable hosts r) : r.machine.store.Settled := by
  induction h with
  | fresh library => exact settled_fresh library
  | run source reachable ih => exact (ih.edits (edited_run hosts source reachable.scripted)).1
  | @reset r _ _ => exact settled_fresh r.library

/-- One runner comes from another by running scripts. -/
def Later (hosts : Hosts) : Runner → Runner → Prop :=
  ReflTransGen fun r r' => ∃ source, r' = (r.run hosts source).2

theorem keepsHulls_of_later (reachable : Reachable hosts r) {r' : Runner}
    (later : Later hosts r r') :
    Reachable hosts r' ∧ r.machine.heap.KeepsHulls r'.machine.heap := by
  induction later with
  | refl => exact ⟨reachable, .refl _⟩
  | tail _ step ih =>
    obtain ⟨source, rfl⟩ := step
    have ran := ih.1.settled.edits (edited_run hosts source ih.1.scripted)
    exact ⟨.run source ih.1, ih.2.trans ran.2⟩

/-- Whatever scripts and resets have made of a fresh runner is tidy, between two scripts and between
two statements of a script, and a container keeps its kind and its type as long as scripts run. -/
theorem tidy_of_reachable (reachable : Reachable hosts r) :
    r.machine.Tidy ∧
    (∀ r', Later hosts r r' → r.machine.heap.KeepsHulls r'.machine.heap) ∧
    ∀ source node m, r.ComesTo hosts source node m → m.Tidy ∧
      r.machine.heap.KeepsHulls m.heap ∧
      m.heap.KeepsHulls (r.run hosts source).2.machine.heap := by
  have settled := reachable.settled
  refine ⟨settled.tidy, fun r' later => (keepsHulls_of_later reachable later).2, ?_⟩
  intro source node m comes
  obtain ⟨here, kept⟩ := settled.edits (comes.edits_before reachable.scripted)
  exact ⟨here.tidy, kept, (here.edits (comes.edits_after reachable.scripted)).2⟩

/-- A runner with an object, and what a call that fails halfway leaves of it. -/
theorem tidy_of_boxHolding : Reachable Console.noHosts boxHolding ∧ boxHolding.machine.Tidy ∧
    boxHolding.machine.heap.KeepsHulls
      (boxHolding.run Console.noHosts "o 1").2.machine.heap := by
  have reachable : Reachable Console.noHosts boxHolding :=
    .run "x is 1\no is a box\no p is x" (.fresh true)
  obtain ⟨tidy, kept, -⟩ := tidy_of_reachable reachable
  exact ⟨reachable, tidy, kept _ (.single ⟨"o 1", rfl⟩)⟩

end Runner

end AliasScript

import AliasScript.Proofs.Materialized
import AliasScript.Proofs.SteadyCalls

/-!
# Resolving once more

A binding is resolved, and then resolved again on the heap that this has left. If the first time no
list without a meaning is copied while an object is being resolved (`Call.FillsFinitely`), then
every call of the second time is on a binding with a meaning, or matches a call of the first time:
the same containers are being resolved, and the two bindings lead to the same container
(`Call.Finitary.guard_retraces`). So a container without a meaning is met again at the same places,
and the second time is as steady as the first.
-/

namespace AliasScript

open Relation

variable {names : Table Binding}

/-- In a store that scripts can make there is something to be resolved in every container, so only
what is being resolved is left alone. -/
theorem Scripted.mem_of_leavesAlone {h : Heap} (g : Scripted names h) {active : List Addr}
    {a : Addr} (inside : a < h.size) (alone : h.LeavesAlone active (.cell a)) : a ∈ active := by
  rcases alone with mem | inert
  · exact mem
  · obtain ⟨cell, there⟩ := Option.isSome_iff_exists.1 (Heap.get?_isSome_iff.2 inside)
    have scripted := g.cells a cell there
    have inert' := inert cell there
    cases cell with
    | list | object => exact inert'.elim
    | _ => exact scripted.elim

namespace Call

/-- No list without a meaning is copied while an object is being resolved, by the call or one below
it. -/
def FillsFinitely (names : Table Binding) (root : Call) : Prop :=
  ∀ c, root.Below names c → c.Tame names

/-- The binding of a call means a tree. -/
def HasMeaning (names : Table Binding) (c : Call) : Prop := ∃ t, Means names c.heap t c.binding

/-- Two calls are made while the same containers are being resolved, on bindings that are the same
in the two heaps. -/
structure Matches (names : Table Binding) (c d : Call) : Prop where
  active : d.active = c.active
  binding : Persists names c.heap c.binding d.heap d.binding

/-- The binding of the call means a tree, or the call matches one below an earlier call. -/
def Retraces (names : Table Binding) (root c : Call) : Prop :=
  c.HasMeaning names ∨ ∃ d, root.Below names d ∧ d.Matches names c

/-- A call made while nothing is being resolved, on a store that scripts can make, that fills objects
with finite values only. -/
structure Finitary (names : Table Binding) (root : Call) : Prop where
  valid : root.Valid names
  top : root.active = []
  store : Scripted names root.heap
  bound : root.binding.Scripted root.heap.size
  finite : root.FillsFinitely names

theorem guard_below {root : Call} (finite : root.FillsFinitely names) :
    Guard names root.heap (root.Below names) where
  makes below makes _ _ _ _ := below.tail makes
  tame below _ _ := finite _ below

theorem HasMeaning.makes {c d : Call} (means : c.HasMeaning names) (makes : c.Makes names d)
    (ready : Ready names c.active c.binding c.heap) (steady : Steady names c.heap d.heap)
    (ready' : Ready names d.active d.binding d.heap) : d.HasMeaning names := by
  obtain ⟨t, means⟩ := means
  obtain ⟨a, ⟨cell, finds, -⟩, active, -⟩ := makes.part ready.store.closed
  have whole := (means_iff_of_leads (leads_of_deref finds.found)).1 means
  have kept := steady.binding (.value (.cell a)) (Heap.lt_size_of_get? finds.there)
  obtain ⟨u, means', -⟩ := (ready'.around a (active ▸ List.mem_cons_self ..)).2 t
    ((kept.means t).2 whole)
  exact ⟨u, means'⟩

theorem HasMeaning.tame {c : Call} (means : c.HasMeaning names) : c.Tame names := by
  obtain ⟨t, means⟩ := means
  intro a type items vs made copies _
  exact ⟨t, (means_iff_of_leads (leads_of_deref copies.found)).1 means⟩

theorem HasMeaning.fillsFinitely {root : Call} (means : root.HasMeaning names)
    (valid : root.Valid names) (ready : Ready names root.active root.binding root.heap) :
    root.FillsFinitely names := by
  intro c below
  have guard : Guard names root.heap (HasMeaning names) :=
    ⟨fun means makes ready _ ready' steady => means.makes makes ready steady ready',
      fun means _ _ => means.tame⟩
  exact ((below.steady guard ⟨valid, means, ready, .refl names _⟩).1.holds).tame

namespace Finitary

variable {root : Call} (first : root.Finitary names)
include first

theorem ready : Ready names root.active root.binding root.heap :=
  ⟨first.store, first.bound, by rw [first.top]; exact .nil⟩

theorem starts : root.Starts names :=
  ⟨first.valid, first.top, first.store.closed, first.bound.within⟩

theorem held : root.Held names root.heap (root.Below names) :=
  ⟨first.valid, .refl, first.ready, .refl names _⟩

variable {c : Call} (below : root.Below names c)
include below

theorem held_below : c.Held names root.heap (root.Below names) :=
  (below.steady (guard_below first.finite) first.held).1

theorem steady_after : Steady names c.heap root.after := by
  obtain ⟨held, -, behind⟩ := below.steady (guard_below first.finite) first.held
  exact (held.steady (guard_below first.finite)).1.trans behind

end Finitary

/-! ## Matching calls -/

theorem Finds.active_of_makes {c d : Call} {a : Addr} {cell : Cell} (finds : c.Finds names a cell)
    (makes : c.Makes names d) (closed : Closed names c.heap) : d.active = a :: c.active := by
  obtain ⟨a', ⟨cell', finds', -⟩, active, -⟩ := makes.part closed
  rw [active, (finds.eq finds').1]

theorem SlotCall.mem_keys {active : List Addr} {a : Addr} {keys : List String} {h h' : Heap}
    {key : String} {d : Call} (call : SlotCall names active a keys h h' key d) : key ∈ keys := by
  induction call with
  | first => exact List.mem_cons_self ..
  | later _ _ ih => exact List.mem_cons_of_mem _ ih

section

variable {c e : Call} (same : c.Matches names e) (valid : c.Valid names)
  (store : Scripted names c.heap) (bound : c.binding.Scripted c.heap.size)
  (steady : Steady names c.heap e.heap) (lost : Meaningless names e.heap e.binding)

include same lost in
theorem Matches.leads {a : Addr} {cell : Cell} (finds : e.Finds names a cell) :
    Leads names c.heap c.binding (.cell a) :=
  (same.binding.leads (same.binding.meaningless_iff.1 lost) _).1 (leads_of_deref finds.found)

include same valid store lost in
theorem Matches.value_of_meetsAgain {a : Addr} (meets : e.MeetsAgain names a) :
    c.value = .cell a := by
  obtain ⟨found, mem⟩ := meets
  rw [same.active] at mem
  have leads :=
    (same.binding.leads (same.binding.meaningless_iff.1 lost) _).1 (leads_of_deref found)
  have found' := deref_of_leads (fun r _ => store.writtenApart r) leads
  rcases valid.cases with ⟨found'', -, -⟩ | ⟨_, _, _, _, _, copies⟩ | ⟨_, _, _, fills⟩
  · exact Except.ok.inj (found''.symm.trans found')
  · cases found'.symm.trans copies.found
    exact absurd mem copies.fresh
  · cases found'.symm.trans fills.found
    exact absurd mem fills.fresh

include same valid store bound steady lost

theorem Matches.cases {a : Addr} {cell : Cell} (finds : e.Finds names a cell) :
    (∃ type items vs made, cell = .list type items ∧ c.Copies names a type items vs made) ∨
      ∃ type attrs attrs', cell = .object type attrs ∧ c.Fills names a type attrs' ∧
        attrs.names = attrs'.names := by
  have leads := same.leads lost finds
  have fresh : a ∉ c.active := same.active ▸ finds.fresh
  have found := deref_of_leads (fun r _ => store.writtenApart r) leads
  rcases valid.cases with ⟨found', alone, -⟩ | ⟨a', type, items, vs, made, copies⟩ |
    ⟨a', type, attrs, fills⟩
  · rw [← Except.ok.inj (found.symm.trans found')] at alone
    exact absurd (store.mem_of_leavesAlone (store.closed.leads bound.within leads) alone) fresh
  · cases found.symm.trans copies.found
    cases finds.there.symm.trans (steady.changes.list copies.there)
    exact .inl ⟨type, items, vs, made, rfl, copies⟩
  · cases found.symm.trans fills.found
    obtain ⟨attrs', there', names'⟩ := steady.changes.object fills.there
    cases finds.there.symm.trans there'
    exact .inr ⟨type, attrs', attrs, rfl, fills, names'⟩

theorem Matches.copies {a : Addr} {type : Option String} {items : List Binding} {vs : List Value}
    {made : Heap} (copies : e.Copies names a type items vs made) :
    ∃ vs' made', c.Copies names a type items vs' made' := by
  rcases same.cases valid store bound steady lost copies.toFinds with
    ⟨_, _, vs', made', ⟨⟩, copies'⟩ | ⟨_, _, _, ⟨⟩, -⟩
  exact ⟨vs', made', copies'⟩

theorem Matches.fills {a : Addr} {type : Option String} {attrs : Table Binding}
    (fills : e.Fills names a type attrs) :
    ∃ attrs', c.Fills names a type attrs' ∧ attrs.names = attrs'.names := by
  rcases same.cases valid store bound steady lost fills.toFinds with
    ⟨_, _, _, _, ⟨⟩, -⟩ | ⟨_, _, attrs', ⟨⟩, fills', names'⟩
  exact ⟨attrs', fills', names'⟩

end

theorem Matches.item {c d e f : Call} (same : c.Matches names e) {a : Addr} {cell cell' : Cell}
    (finds : c.Finds names a cell) (makes : c.Makes names d) (closed : Closed names c.heap)
    (finds' : e.Finds names a cell') (makes' : e.Makes names f) (closed' : Closed names e.heap)
    (item : d.binding = f.binding) (steady : Steady names d.heap f.heap) : d.Matches names f := by
  refine ⟨?_, ?_⟩
  · rw [finds.active_of_makes makes closed, finds'.active_of_makes makes' closed', same.active]
  · rw [← item]
    exact steady.binding _ (makes.sound closed).2.2.1

theorem Matches.slot {c d e f : Call} (same : c.Matches names e) {a : Addr}
    {type : Option String} {attrs attrs' : Table Binding} {key : String}
    (fills : c.Fills names a type attrs) (closed : Closed names c.heap)
    (call : SlotCall names c.active a attrs.names c.heap c.after key d)
    (fills' : e.Fills names a type attrs') (closed' : Closed names e.heap)
    (call' : SlotCall names e.active a attrs'.names e.heap e.after key f)
    (steady : Steady names d.heap f.heap) : d.Matches names f := by
  obtain ⟨-, active, ⟨_, _, there, -⟩, binding, -⟩ :=
    call.sound closed fills.fresh (Heap.hasAttributes_of_get? fills.there)
  obtain ⟨-, active', -, binding', -⟩ :=
    call'.sound closed' fills'.fresh (Heap.hasAttributes_of_get? fills'.there)
  refine ⟨by rw [active, active', same.active], ?_⟩
  rw [binding, binding']
  exact steady.slot a key (Heap.lt_size_of_get? there)

/-! ## The second time -/

namespace Finitary

variable {root e : Call} (first : root.Finitary names)
include first

/-- A call made by one that goes after an earlier call without a meaning goes after one as well. -/
theorem exists_matches_of_makes {c f : Call} (below : root.Below names c)
    (same : c.Matches names e) (lost : Meaningless names e.heap e.binding)
    (ready : Ready names e.active e.binding e.heap) (since : Steady names root.after e.heap)
    (makes : e.Makes names f) (steady : Steady names e.heap f.heap) :
    ∃ d, root.Below names d ∧ d.Matches names f := by
  have held := first.held_below below
  obtain ⟨store, bound, -⟩ := held.ready
  have so_far := (first.steady_after below).trans since
  have later : ∀ {d}, root.Below names d → Steady names d.heap f.heap := fun under =>
    (first.steady_after under).trans (since.trans steady)
  cases makes with
  | @item a type items vs made copies call =>
    obtain ⟨vs', made', copies'⟩ := same.copies held.valid store bound so_far lost copies
    have closed := ready.store.closed
    obtain ⟨-, -, mem, -⟩ := call.sound closed (closed.cells a _ copies.there)
    obtain ⟨d, makes', binding⟩ := copies'.exists_makes_of_mem_items mem
    have under := below.tail makes'
    exact ⟨d, under, same.item copies'.toFinds makes' store.closed copies.toFinds
      (.item copies call) ready.store.closed binding (later under)⟩
  | @slot a type attrs key fills call =>
    obtain ⟨attrs', fills', names'⟩ := same.fills held.valid store bound so_far lost fills
    obtain ⟨d, call'⟩ := fills'.calls.exists_slotCall key (names' ▸ SlotCall.mem_keys call)
    have under := below.tail (.slot fills' call')
    exact ⟨d, under, same.slot fills' store.closed call' fills ready.store.closed call
      (later under)⟩

/-- Resolving again goes after the calls of the first time, and is tame as well. -/
theorem guard_retraces : Guard names root.after (Retraces names root) where
  makes {e f} retraces makes ready since ready' steady := by
    by_cases means : e.HasMeaning names
    · exact .inl (means.makes makes ready steady ready')
    · obtain ⟨c, below, same⟩ := retraces.resolve_left means
      exact .inr (first.exists_matches_of_makes below same (not_exists.1 means) ready since makes
        steady)
  tame {e} retraces ready since := by
    rintro a type items vs made copies ⟨o, type', attrs, mem, there⟩
    have leads := leads_of_deref copies.found
    by_contra none
    have lost : Meaningless names e.heap e.binding := fun t means =>
      none ⟨t, (means_iff_of_leads leads).1 means⟩
    obtain ⟨c, below, same⟩ := retraces.resolve_left (not_exists.2 lost)
    have held := first.held_below below
    obtain ⟨store, bound, around⟩ := held.ready
    have so_far := (first.steady_after below).trans since
    obtain ⟨vs', made', copies'⟩ := same.copies held.valid store bound so_far lost copies
    -- The object was being resolved the first time as well.
    have inObject : c.InObject := by
      rw [same.active] at mem
      obtain ⟨cell, before⟩ := Option.isSome_iff_exists.1
        (Heap.get?_isSome_iff.2 (around o mem).1)
      have scripted := store.cells o cell before
      cases cell with
      | list => cases (so_far.changes.list before).symm.trans there
      | object type attrs => exact ⟨o, type, attrs, mem, before⟩
      | _ => exact scripted.elim
    obtain ⟨t, means⟩ := first.finite c below a type items vs' made' copies' inObject
    have kept := so_far.binding (.value (.cell a)) (Heap.lt_size_of_get? copies'.there)
    exact none ⟨t, (kept.means t).2 means⟩

end Finitary

end Call

end AliasScript

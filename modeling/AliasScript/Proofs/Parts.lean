import AliasScript.Proofs.Calls

/-!
# What containers hold

A list holds its items and an object its attributes (`Part`). What a container holds leads on to
other containers, directly or by way of references (`Links`), and a binding reaches all containers
that come up in this way (`Reached`). The containers of a host are no part of this: nothing that
resolves ever looks into them.

Resolving a binding never leaves the containers that it reaches, but for the lists that it makes
(`Resolves.untouched`).
-/

namespace AliasScript

open Relation

/-- The list or the object at an address holds a binding. -/
inductive Part (heap : Heap) (a : Addr) : Binding → Prop
  | item {type : Option String} {items : List Binding} {b : Binding} :
    heap.get? a = some (.list type items) → b ∈ items → Part heap a b
  | slot {type : Option String} {attrs : Table Binding} {key : String} {b : Binding} :
    heap.get? a = some (.object type attrs) → attrs.get? key = some b → Part heap a b

section
variable (names : Table Binding) (heap : Heap)

/-- Something that a list or an object holds leads to another container. -/
def Links (a c : Addr) : Prop := ∃ b, Part heap a b ∧ Leads names heap b (.cell c)

/-- A container comes up when a binding and everything held is followed. -/
def Reached (b : Binding) (a : Addr) : Prop :=
  ∃ c, Leads names heap b (.cell c) ∧ ReflTransGen (Links names heap) c a

/-- No link leads out of the containers. -/
def Scope (inside : Addr → Prop) : Prop := ∀ a c, inside a → Links names heap a c → inside c

end

variable {names : Table Binding} {heap : Heap} {a : Addr} {b : Binding}

/-! ## Parts after a change -/

namespace Part

theorem lt_size (h : Part heap a b) : a < heap.size := by
  cases h with
  | item there _ => exact Heap.lt_size_of_get? there
  | slot there _ => exact Heap.lt_size_of_get? there

theorem within (closed : Closed names heap) (h : Part heap a b) : b.Within heap.size := by
  cases h with
  | item there mem => exact closed.cells a _ there b mem
  | slot there held =>
    exact closed.cells a _ there b (List.mem_map_of_mem (f := Prod.snd) (Table.mem_of_get? held))

theorem of_alloc_list {type : Option String} {items : List Binding}
    (h : Part (heap.alloc (.list type items)).2 a b) :
    (a = heap.size ∧ b ∈ items) ∨ Part heap a b := by
  cases h with
  | item there mem =>
    rcases Heap.get?_alloc_eq_some_iff.1 there with ⟨new, same⟩ | there
    · cases same
      exact .inl ⟨new, mem⟩
    · exact .inr (.item there mem)
  | slot there held =>
    rcases Heap.get?_alloc_eq_some_iff.1 there with ⟨-, same⟩ | there
    · cases same
    · exact .inr (.slot there held)

theorem of_setAttribute {o : Addr} {type : Option String} {attrs : Table Binding} {attr : String}
    {new : Binding} (object : heap.get? o = some (.object type attrs))
    (h : Part (heap.setAttribute o attr new) a b) : (a = o ∧ b = new) ∨ Part heap a b := by
  by_cases here : a = o
  · subst here
    cases h with
    | item there mem =>
      rw [Heap.get?_setAttribute_self object] at there
      cases there
    | @slot _ _ key _ there held =>
      rw [Heap.get?_setAttribute_self object] at there
      cases there
      by_cases same : key = attr
      · subst same
        rw [Table.get?_set_self] at held
        exact .inl ⟨rfl, (Option.some.inj held).symm⟩
      · rw [Table.get?_set_of_ne _ same] at held
        exact .inr (.slot object held)
  · have elsewhere := Heap.get?_setAttribute_of_ne object here attr new
    cases h with
    | item there mem => exact .inr (.item (elsewhere ▸ there) mem)
    | slot there held => exact .inr (.slot (elsewhere ▸ there) held)

end Part

/-! ## Scopes -/

/-- What a binding reaches is the smallest scope that the binding leads into. -/
theorem scope_reached (b : Binding) : Scope names heap (Reached names heap b) := by
  rintro x y ⟨c, leads, way⟩ link
  exact ⟨c, leads, way.tail link⟩

namespace Scope

variable {inside : Addr → Prop} (scope : Scope names heap inside)
include scope

theorem alloc_list {type : Option String} {vs : List Value}
    (items : ∀ x, Value.cell x ∈ vs → inside x) :
    Scope names (heap.alloc (.list type (vs.map .value))).2 inside := by
  rintro x y here ⟨c, part, leads⟩
  rw [leads_copy_iff] at leads
  rcases part.of_alloc_list with ⟨-, mem⟩ | part
  · obtain ⟨v, inside, rfl⟩ := List.mem_map.1 mem
    rw [leads_value_iff] at leads
    exact items y (leads ▸ inside)
  · exact scope x y here ⟨c, part, leads⟩

theorem setAttribute {o : Addr} {type : Option String} {attrs : Table Binding} {attr : String}
    {slot : Binding} {v w : Value} (object : heap.get? o = some (.object type attrs))
    (held : attrs.get? attr = some slot) (leads : Leads names heap slot v) (alike : heap.Alike v w)
    (result : ∀ x, w = .cell x → inside x) :
    Scope names (heap.setAttribute o attr (.value w)) inside := by
  rintro x y here ⟨c, part, found⟩
  rcases Leads.of_settle object held leads alike found with before | ⟨same, -⟩
  · rcases part.of_setAttribute object with ⟨-, rfl⟩ | part
    · exact result y (leads_value_iff.1 before).symm
    · exact scope x y here ⟨c, part, before⟩
  · exact result y same.symm

end Scope

/-! ## Resolving stays inside -/

mutual

/-- Resolving a binding that leads into a scope changes no container outside of it. -/
theorem Resolves.untouched {inside : Addr → Prop} {active : List Addr} {b : Binding} {h h' : Heap}
    {result : Except Fault Value} (closed : Closed names h) (scope : Scope names h inside)
    (new : ∀ x, h.size ≤ x → inside x) (into : ∀ x, Leads names h b (.cell x) → inside x) :
    Resolves names active b h result h' → Scope names h' inside ∧
      (∀ x, ¬ inside x → h'.get? x = h.get? x) ∧ ∀ x, result = .ok (.cell x) → inside x
  | .lost _ => ⟨scope, fun _ _ => rfl, fun _ same => nomatch same⟩
  | .inert found _ => by
    refine ⟨scope, fun _ _ => rfl, fun x same => into x ?_⟩
    cases same
    exact leads_of_deref found
  | @Resolves.list _ _ _ _ h' a type items vs found fresh there calls => by
    obtain ⟨changes, -⟩ := calls.changes closed (closed.cells a _ there)
    obtain ⟨scope', same, results⟩ := calls.untouched closed (closed.cells a _ there) scope new
      (into a (leads_of_deref found)) there fun c mem => mem
    refine ⟨scope'.alloc_list (results vs rfl), fun x outside => ?_, fun x made => ?_⟩
    · have old : x < h'.size := by
        refine Nat.lt_of_lt_of_le ?_ changes.size_le
        exact Nat.lt_of_not_le fun le => outside (new x le)
      rw [Heap.get?_alloc_of_lt old, same x outside]
    · cases made
      exact new _ changes.size_le
  | .listFails found fresh there calls => by
    obtain ⟨scope', same, -⟩ := calls.untouched closed (closed.cells _ _ there) scope new
      (into _ (leads_of_deref found)) there fun c mem => mem
    exact ⟨scope', same, fun _ failed => nomatch failed⟩
  | @Resolves.object _ _ _ _ _ a type attrs r found fresh there calls => by
    have here := into a (leads_of_deref found)
    obtain ⟨scope', same⟩ := calls.untouched closed fresh (Heap.hasAttributes_of_get? there)
      scope new here
    refine ⟨scope', same, fun x made => ?_⟩
    cases r with
    | error e => cases made
    | ok =>
      cases made
      exact here

theorem ResolvesItems.untouched {inside : Addr → Prop} {active : List Addr} {a : Addr}
    {type : Option String} {all items : List Binding} {h h' : Heap}
    {result : Except Fault (List Value)} (closed : Closed names h)
    (within : ∀ b ∈ items, b.Within h.size) (scope : Scope names h inside)
    (new : ∀ x, h.size ≤ x → inside x) (here : inside a)
    (there : h.get? a = some (.list type all)) (sub : ∀ b ∈ items, b ∈ all) :
    ResolvesItems names active items h result h' → Scope names h' inside ∧
      (∀ x, ¬ inside x → h'.get? x = h.get? x) ∧
        ∀ vs, result = .ok vs → ∀ x, Value.cell x ∈ vs → inside x
  | .noItems => by
    refine ⟨scope, fun _ _ => rfl, fun vs same x mem => ?_⟩
    cases same
    cases mem
  | @ResolvesItems.item _ _ b rest _ h' _ v r call calls => by
    have first := within b (List.mem_cons_self ..)
    obtain ⟨changes, -⟩ := call.changes closed first
    obtain ⟨scope', same, result⟩ := call.untouched closed scope new fun x leads =>
      scope a x here ⟨b, .item there (sub b (List.mem_cons_self ..)), leads⟩
    obtain ⟨scope'', same', results⟩ := calls.untouched (changes.closed closed)
      (fun c mem => (within c (List.mem_cons_of_mem _ mem)).mono changes.size_le) scope'
      (fun x le => new x (Nat.le_trans changes.size_le le)) here (changes.list there)
      fun c mem => sub c (List.mem_cons_of_mem _ mem)
    refine ⟨scope'', fun x outside => (same' x outside).trans (same x outside), fun vs ok => ?_⟩
    cases r with
    | error e => cases ok
    | ok ws =>
      cases ok
      intro x mem
      rcases List.mem_cons.1 mem with rfl | mem
      · exact result x rfl
      · exact results ws rfl x mem
  | .itemFails call => by
    obtain ⟨scope', same, -⟩ := call.untouched closed scope new fun x leads =>
      scope a x here ⟨_, .item there (sub _ (List.mem_cons_self ..)), leads⟩
    exact ⟨scope', same, fun _ failed => nomatch failed⟩

theorem ResolvesAttributes.untouched {inside : Addr → Prop} {active : List Addr} {a : Addr}
    {keys : List String} {h h' : Heap} {result : Except Fault Unit} (closed : Closed names h)
    (fresh : a ∉ active) (object : h.HasAttributes a keys) (scope : Scope names h inside)
    (new : ∀ x, h.size ≤ x → inside x) (here : inside a) :
    ResolvesAttributes names active a keys h result h' →
      Scope names h' inside ∧ ∀ x, ¬ inside x → h'.get? x = h.get? x
  | .noAttributes => ⟨scope, fun _ _ => rfl⟩
  | @ResolvesAttributes.attr _ _ _ key keys h h' h'' v r call calls => by
    obtain ⟨type, attrs, there, named⟩ := id object
    obtain ⟨b, slot⟩ := Table.exists_get?_of_mem_names (named key (List.mem_cons_self ..))
    have held := Heap.readAttribute_of_get? there slot
    obtain ⟨changes, -⟩ := call.changes closed (closed.readAttribute _ _)
    obtain ⟨there', within, w, leads, alike⟩ := call.slot closed there slot
    obtain ⟨scope', same, result⟩ := call.untouched closed scope new fun x found =>
      scope a x here ⟨b, .slot there slot, held ▸ found⟩
    have so_far := call.changes_setAttribute closed fresh object
    have settled := scope'.setAttribute there' slot leads alike fun x made => result x (made ▸ rfl)
    obtain ⟨scope'', same'⟩ := calls.untouched (so_far.closed closed) fresh
      (so_far.hasAttributes object.tail) settled
      (fun x le => new x (Nat.le_trans so_far.size_le le)) here
    refine ⟨scope'', fun x outside => (same' x outside).trans ?_⟩
    have other : x ≠ a := fun equal => outside (equal ▸ here)
    rw [Heap.get?_setAttribute_of_ne there' other, same x outside]
  | @ResolvesAttributes.attrFails _ _ _ key _ _ _ _ call => by
    obtain ⟨type, attrs, there, named⟩ := id object
    obtain ⟨b, slot⟩ := Table.exists_get?_of_mem_names (named key (List.mem_cons_self ..))
    have held := Heap.readAttribute_of_get? there slot
    obtain ⟨scope', same, -⟩ := call.untouched closed scope new fun x found =>
      scope a x here ⟨b, .slot there slot, held ▸ found⟩
    exact ⟨scope', same⟩

end

end AliasScript

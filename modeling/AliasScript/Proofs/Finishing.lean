import AliasScript.Proofs.Calls

/-!
# Resolving finishes

A tree of calls ends in a value or in a fault, and every fault in it is the fault of following a
reference that was stored before the calls began (`Resolves.exists_lost`). Following a stored
reference that finishes before the calls goes on finishing, for the calls make no object needed to
find itself; so resolving finishes wherever following every stored reference does.

References that are written alike are the exception: a reference that is taken for another one is
reported as a circle before it reaches the object that is needed to find itself, until resolving has
put a value in the place of the other one.
-/

namespace AliasScript

open Relation

/-- What a name, a place in a list or an attribute holds. -/
inductive Stored (names : Table Binding) (heap : Heap) : Binding → Prop
  | name {n : String} {b : Binding} : (n, b) ∈ names.entries → Stored names heap b
  | item {a : Addr} {type : Option String} {items : List Binding} {b : Binding} :
    heap.get? a = some (.list type items) → b ∈ items → Stored names heap b
  | slot {a : Addr} {type : Option String} {attrs : Table Binding} {attr : String}
      {b : Binding} :
    heap.get? a = some (.object type attrs) → (attr, b) ∈ attrs.entries → Stored names heap b

variable {names : Table Binding} {heap after : Heap} {active : List Addr}

namespace Stored

theorem read {n : String} {r : Reference} (found : names.read n = .reference r) :
    Stored names heap (.reference r) :=
  .name (Table.mem_of_get? (Table.get?_of_read found))

theorem readAttribute {v : Value} {attr : String} {r : Reference}
    (found : heap.readAttribute v attr = .reference r) : Stored names heap (.reference r) := by
  cases v with
  | scalar s => cases found
  | cell a =>
    rw [Heap.readAttribute] at found
    split at found
    · next type attrs there => exact .slot there (Table.mem_of_get? (Table.get?_of_read found))
    · cases found

theorem visits {r q : Reference} (step : Visits names heap r q) :
    Stored names heap (.reference q) := by
  rcases step with next | ⟨obj, attr, -, found⟩
  · cases r with
    | name n => exact read (holds_name_iff.1 next).symm
    | path obj attr =>
      obtain ⟨base, -, found⟩ := holds_path_iff.1 next
      exact readAttribute found.symm
  · exact read found

theorem of_meets {r q : Reference} (way : Meets names heap r q) :
    q = r ∨ Stored names heap (.reference q) := by
  rcases ReflTransGen.cases_tail way with rfl | ⟨p, -, step⟩
  · exact .inl rfl
  · exact .inr (visits step)

theorem of_change {r : Reference} (c : Change names active heap after)
    (g : Stored names after (.reference r)) : Stored names heap (.reference r) := by
  cases c with
  | copy type vs within =>
    cases g with
    | name mem => exact .name mem
    | item there mem =>
      rcases Heap.get?_alloc_eq_some_iff.1 there with ⟨-, same⟩ | there
      · cases same
        obtain ⟨v, -, same⟩ := List.mem_map.1 mem
        cases same
      · exact .item there mem
    | slot there mem =>
      rcases Heap.get?_alloc_eq_some_iff.1 there with ⟨-, same⟩ | there
      · cases same
      · exact .slot there mem
  | @settle o _ _ attr _ _ w _ object _ _ _ _ =>
    cases g with
    | name mem => exact .name mem
    | @item a _ _ _ there mem =>
      have other : a ≠ o := by
        rintro rfl
        rw [Heap.get?_setAttribute_self object] at there
        cases there
      rw [Heap.get?_setAttribute_of_ne object other] at there
      exact .item there mem
    | @slot a _ _ _ _ there mem =>
      by_cases same : a = o
      · subst same
        rw [Heap.get?_setAttribute_self object] at there
        cases there
        exact .slot object ((Table.mem_entries_set mem).resolve_left fun h => nomatch h)
      · rw [Heap.get?_setAttribute_of_ne object same] at there
        exact .slot there mem

theorem of_changes {r : Reference} (c : Changes names active heap after)
    (g : Stored names after (.reference r)) : Stored names heap (.reference r) := by
  induction c with
  | refl => exact g
  | tail _ step ih => exact ih (g.of_change step)

end Stored

/-- The references that a store holds. -/
def storedReferences (names : Table Binding) (heap : Heap) : List Reference :=
  (names.entries.map Prod.snd ++ heap.cells.toList.flatMap Cell.contents).filterMap (·.reference?)

theorem Stored.mem_storedReferences {r : Reference} (g : Stored names heap (.reference r)) :
    r ∈ storedReferences names heap := by
  refine List.mem_filterMap.2 ⟨.reference r, ?_, rfl⟩
  rw [List.mem_append, List.mem_flatMap]
  cases g with
  | name mem => exact .inl (List.mem_map_of_mem (f := Prod.snd) mem)
  | item there mem => exact .inr ⟨_, Heap.mem_cells_of_get? there, mem⟩
  | slot there mem =>
    exact .inr ⟨_, Heap.mem_cells_of_get? there, List.mem_map_of_mem (f := Prod.snd) mem⟩

mutual

/-- A fault in a tree of calls comes from following a reference, the one that the calls are on or
one that was stored before, in the heap as the calls have left it until then. -/
theorem Resolves.exists_lost {active : List Addr} {b : Binding} {h h' : Heap}
    {result : Except Fault Value} (closed : Closed names h) (within : b.Within h.size) :
    Resolves names active b h result h' → ∀ e, result = .error e →
      ∃ h₁ q, Changes names active h h₁ ∧
        (Stored names h (.reference q) ∨ b = .reference q) ∧ follow names h₁ [] [] q = .error e
  | .lost failed => by
    rintro e ⟨⟩
    cases b with
    | value v => cases failed
    | reference q => exact ⟨h, q, .refl, .inr rfl, failed⟩
  | .inert _ _ => fun e same => nomatch same
  | .list _ _ _ _ => fun e same => nomatch same
  | @Resolves.listFails _ _ _ _ _ a type items _ found new there calls => by
    rintro e ⟨⟩
    obtain ⟨h₁, q, changes, place, failed⟩ :=
      calls.exists_lost closed (closed.cells a _ there) _ rfl
    refine ⟨h₁, q, changes.mono fun c mem => List.mem_cons_of_mem a mem, .inl ?_, failed⟩
    exact place.elim id (.item there)
  | @Resolves.object _ _ _ _ _ a type attrs r found new there calls => by
    intro e same
    have ends := calls.exists_lost closed new (Heap.hasAttributes_of_get? there)
    cases r with
    | ok => cases same
    | error e' =>
      cases same
      obtain ⟨h₁, q, changes, place, failed⟩ := ends e rfl
      exact ⟨h₁, q, changes, .inl place, failed⟩

theorem ResolvesItems.exists_lost {active : List Addr} {items : List Binding} {h h' : Heap}
    {result : Except Fault (List Value)} (closed : Closed names h)
    (within : ∀ b ∈ items, b.Within h.size) :
    ResolvesItems names active items h result h' → ∀ e, result = .error e →
      ∃ h₁ q, Changes names active h h₁ ∧
        (Stored names h (.reference q) ∨ .reference q ∈ items) ∧ follow names h₁ [] [] q = .error e
  | .noItems => fun e same => nomatch same
  | @ResolvesItems.item _ _ b _ _ _ _ v r call calls => by
    intro e same
    have changes := (call.changes closed (within b (List.mem_cons_self ..))).1
    have ends := calls.exists_lost (changes.closed closed) fun c mem =>
      (within c (List.mem_cons_of_mem _ mem)).mono changes.size_le
    cases r with
    | ok => cases same
    | error e' =>
      cases same
      obtain ⟨h₁, q, more, place, failed⟩ := ends e rfl
      refine ⟨h₁, q, changes.trans more, ?_, failed⟩
      exact place.imp (·.of_changes changes) (List.mem_cons_of_mem _)
  | .itemFails call => by
    rintro e ⟨⟩
    obtain ⟨h₁, q, changes, place, failed⟩ :=
      call.exists_lost closed (within _ (List.mem_cons_self ..)) _ rfl
    exact ⟨h₁, q, changes, place.imp_right fun here => List.mem_cons.2 (.inl here.symm), failed⟩

theorem ResolvesAttributes.exists_lost {active : List Addr} {a : Addr} {keys : List String}
    {h h' : Heap} {result : Except Fault Unit} (closed : Closed names h) (new : a ∉ active)
    (object : h.HasAttributes a keys) :
    ResolvesAttributes names active a keys h result h' → ∀ e, result = .error e →
      ∃ h₁ q, Changes names active h h₁ ∧
        Stored names h (.reference q) ∧ follow names h₁ [] [] q = .error e
  | .noAttributes => fun e same => nomatch same
  | .attr call calls => by
    intro e same
    have so_far := call.changes_setAttribute closed new object
    obtain ⟨h₁, q, more, place, failed⟩ := calls.exists_lost (so_far.closed closed) new
      (so_far.hasAttributes object.tail) e same
    exact ⟨h₁, q, so_far.trans more, place.of_changes so_far, failed⟩
  | .attrFails call => by
    rintro e ⟨⟩
    obtain ⟨h₁, q, changes, place, failed⟩ :=
      call.exists_lost closed (closed.readAttribute _ _) _ rfl
    refine ⟨h₁, q, changes.mono fun c mem => List.mem_cons_of_mem a mem, ?_, failed⟩
    exact place.elim id Stored.readAttribute

end

theorem follow_ne_endless_of_changes {r : Reference} (apart : WrittenApart names heap r)
    (c : Changes names active heap after) (finite : follow names heap [] [] r ≠ .error .endless) :
    follow names after [] [] r ≠ .error .endless := by
  intro endless
  have circle := objectCircle_of_endless endless
  exact finite ((follow_eq_endless_iff_objectCircle apart).2 (circle.of_changes c))

/-- Resolving a binding finishes, with a value or with the report of an unbound name or of a circle,
if following every stored reference does and no two of them are written alike. -/
theorem resolve_finishes {b : Binding} (closed : Closed names heap) (within : b.Within heap.size)
    (finishes : ∀ r, Stored names heap (.reference r) ∨ b = .reference r →
      ∃ n outcome, followWithin names heap n [] r = some outcome)
    (apart : ∀ r q, Stored names heap (.reference r) ∨ b = .reference r →
      Stored names heap (.reference q) ∨ b = .reference q → r.render = q.render → r = q) :
    ∃ result heap', resolve names b heap = (result, heap') ∧
      Resolves names [] b heap result heap' ∧ ∀ e, result = .error e → e.Lost := by
  have calls := resolves_resolve closed within
  refine ⟨_, _, rfl, calls, fun e failure => ?_⟩
  obtain ⟨h₁, q, changes, place, failed⟩ := calls.exists_lost closed within e failure
  have met : ∀ p, Meets names heap q p → Stored names heap (.reference p) ∨ b = .reference p := by
    intro p way
    rcases Stored.of_meets way with rfl | stored
    · exact place
    · exact .inl stored
  have writtenApart : WrittenApart names heap q := fun p p' left right =>
    apart p p' (met p left) (met p' right)
  have finite : follow names heap [] [] q ≠ .error .endless := by
    intro endless
    obtain ⟨n, outcome, walk⟩ := finishes q place
    rw [follow_eq_endless_iff.1 endless n] at walk
    cases walk
  rcases lost_or_endless_of_deref (b := .reference q) failed with lost | rfl
  · exact lost
  · exact absurd failed (follow_ne_endless_of_changes writtenApart changes finite)

/-- An object whose list of friends holds the object, the list and a reference to the object. -/
def friendOfItself : Heap := ⟨#[
  .object none (.ofList [("friends", .value (.cell 1)), ("self", .reference (.name "me"))]),
  .list none [.value (.cell 0), .value (.cell 1), .reference (.path "me" "self")]]⟩

theorem resolve_finishes_friendOfItself : ∃ result heap',
    resolve (.ofList [("me", .value (.cell 0))]) (.reference (.name "me")) friendOfItself =
        (result, heap') ∧
      Resolves (.ofList [("me", .value (.cell 0))]) [] (.reference (.name "me")) friendOfItself
        result heap' ∧
      ∀ e, result = .error e → e.Lost := by
  have known : ∀ r, Stored (.ofList [("me", .value (.cell 0))]) friendOfItself (.reference r) ∨
      Binding.reference (.name "me") = .reference r →
        r ∈ [Reference.name "me", .path "me" "self"] := by
    rintro r (stored | same)
    · exact stored.mem_storedReferences
    · cases same
      exact List.mem_cons_self ..
  refine resolve_finishes (closed_of_forall_mem (by decide) (by decide)) trivial (fun r place => ?_)
    fun r q left right => ?_
  · exact ⟨3, Option.isSome_iff_exists.1 ((by decide +kernel : ∀ r ∈ [Reference.name "me",
      .path "me" "self"], (followWithin (.ofList [("me", .value (.cell 0))]) friendOfItself 3 []
        r).isSome = true) r (known r place))⟩
  · exact (by decide +kernel : ∀ r ∈ [Reference.name "me", .path "me" "self"],
      ∀ q ∈ [Reference.name "me", .path "me" "self"], r.render = q.render → r = q)
        r (known r left) q (known q right)

/-- Names with spaces in them, which a host can bind: a name is written like an attribute. -/
def spacedNames : Table Binding := .ofList [
  ("a", .value (.cell 0)), ("x", .value (.cell 1)), ("b", .value (.cell 2)),
  ("b c", .reference (.path "a" "k")), ("p", .reference (.name "b c")),
  ("o", .reference (.path "p" "attr"))]

def spacedHeap : Heap := ⟨#[
  .object none (.ofList [("k", .reference (.path "b" "c"))]),
  .object none (.ofList [("first", .value (.cell 0)), ("attr", .reference (.path "o" "z"))]),
  .object none (.ofList [("c", .value (.cell 1))])]⟩

/-- The heap when the first attribute of the object has been resolved. -/
def spacedHeap' : Heap := ⟨#[
  .object none (.ofList [("k", .value (.cell 1))]),
  .object none (.ofList [("first", .value (.cell 0)), ("attr", .reference (.path "o" "z"))]),
  .object none (.ofList [("c", .value (.cell 1))])]⟩

theorem deref_spaced : deref spacedNames spacedHeap' (.reference (.path "o" "z")) =
    .error .endless := by
  have base_p : baseOf spacedNames spacedHeap' ["o"] "p" = .ok (.cell 1) := by
    rw [baseOf_reference rfl, if_neg (by decide), follow_eq, if_neg (by decide), slotOf_name]
    show follow _ _ _ _ (.path "a" "k") = _
    rw [follow_eq, if_neg (by decide), slotOf_path, baseOf_value rfl]
    rfl
  have base_o : baseOf spacedNames spacedHeap' [] "o" = .error .endless := by
    rw [baseOf_reference rfl, if_neg (by decide), follow_eq, if_neg (by decide), slotOf_path,
      base_p]
    show follow _ _ _ _ (.path "o" "z") = _
    rw [follow_eq, if_neg (by decide), slotOf_path, baseOf_reference rfl, if_pos (by decide)]
    rfl
  rw [deref_reference, follow_eq, if_neg List.not_mem_nil, slotOf_path, base_o]
  rfl

theorem resolve_spaced :
    (resolve spacedNames (.value (.cell 1)) spacedHeap).1 = .error .endless := by
  have lead : deref spacedNames spacedHeap (.reference (.path "b" "c")) = .ok (.cell 1) := by
    rw [deref_reference, follow_eq, if_neg List.not_mem_nil, slotOf_path, baseOf_value rfl]
    rfl
  have held : resolveBinding spacedNames 3 [0, 1] (.reference (.path "b" "c")) spacedHeap =
      (.ok (.cell 1), spacedHeap) := by
    rw [resolveBinding_of_ok lead, resolveValue_of_mem (by decide)]
  have first : resolveBinding spacedNames 3 [1] (.value (.cell 0)) spacedHeap =
      (.ok (.cell 0), spacedHeap') := by
    rw [resolveBinding_of_ok rfl, resolveValue_object (by decide) (by decide) rfl]
    show (Except.map _ (resolveAttributes spacedNames 3 [0, 1] 0 ["k"] spacedHeap).1,
      (resolveAttributes spacedNames 3 [0, 1] 0 ["k"] spacedHeap).2) = _
    rw [resolveAttributes_of_ok held, resolveAttributes]
    rfl
  have second : resolveBinding spacedNames 3 [1] (.reference (.path "o" "z")) spacedHeap' =
      (.error .endless, spacedHeap') := resolveBinding_of_error deref_spaced
  show (resolveBinding spacedNames 3 [] (.value (.cell 1)) spacedHeap).1 = _
  rw [resolveBinding_of_ok rfl, resolveValue_object (by decide) (by decide) rfl]
  show Except.map _ (resolveAttributes spacedNames 3 [1] 1 ["first", "attr"] spacedHeap).1 = _
  rw [resolveAttributes_of_ok first]
  show Except.map _ (resolveAttributes spacedNames 3 [1] 1 ["attr"] spacedHeap').1 = _
  rw [resolveAttributes_of_error second]
  rfl

/-- Following every stored reference finishes here, and resolving does not. -/
theorem not_resolve_finishes_spaced : Closed spacedNames spacedHeap ∧
    (∀ r, Stored spacedNames spacedHeap (.reference r) →
      ∃ n outcome, followWithin spacedNames spacedHeap n [] r = some outcome) ∧
    (resolve spacedNames (.value (.cell 1)) spacedHeap).1 = .error .endless := by
  refine ⟨closed_of_forall_mem (by decide) (by decide), fun r stored => ?_, resolve_spaced⟩
  have all : ∀ r ∈ storedReferences spacedNames spacedHeap,
      (followWithin spacedNames spacedHeap 5 [] r).isSome = true := by decide +kernel
  exact ⟨5, Option.isSome_iff_exists.1 (all r stored.mem_storedReferences)⟩

end AliasScript

import AliasScript.Proofs.Origins

/-!
# What resolving delivers

Resolving gives a value, never a reference, and what hangs on that value has been resolved as well:
the objects gone through and the lists made hold values only (`Materialized`). What is left alone is
a list that is met again while it is being resolved, and the lists in it; so references can remain
only there, and none remain where nothing reaches itself.
-/

namespace AliasScript

open Relation

section
variable (h : Heap)

/-- One container is an item or an attribute of another one. -/
def Encloses (a c : Addr) : Prop := Part h a (.value (.cell c))

/-- One list is an item of another one. -/
def Nests (a c : Addr) : Prop := h.IsList (.cell a) ∧ h.IsList (.cell c) ∧ Encloses h a c

end

/-- What a call delivers with everything that it has made and gone through. What is delivered is a
value, and so no reference itself. The containers of a host are no part of this: resolving never
looks into them and leaves them as they are. -/
structure Materialized (names : Table Binding) (root : Call) : Prop where
  tree : root.Valid names
  /-- An object that was entered holds no reference in the end. -/
  objects : ∀ c a type attrs, root.Below names c → c.Finds names a (.object type attrs) →
    ∀ r, ¬ Part root.after a (.reference r)
  /-- A new list is a copy of another one, of the same type, with the result of each item in its
  place. -/
  lists : ∀ l, root.heap.size ≤ l → l < root.after.size → ∃ c a type items vs,
    root.Below names c ∧ c.Finds names a (.list type items) ∧ c.value = .cell l ∧
      root.after.get? l = some (.list type (vs.map .value)) ∧
        List.Forall₂ (fun b v => ∃ d, c.Makes names d ∧ d.binding = b ∧ d.value = v) items vs
  /-- A reference that is left is an item of an older list, which was met again while it was being
  resolved, or is nested in a list that was. -/
  references : ∀ a x r, root.value = .cell a → ReflTransGen (Encloses root.after) a x →
    Part root.after x (.reference r) →
      (∃ type items, root.heap.get? x = some (.list type items) ∧ .reference r ∈ items) ∧
      ∃ c y, root.Below names c ∧ c.MeetsAgain names y ∧ root.heap.IsList (.cell y) ∧
        ReflTransGen (Nests root.heap) y x
  /-- Where nothing reached reaches itself, neither references nor older lists are left. -/
  acyclic : (∀ a, Reached names root.heap root.binding a →
      ¬ TransGen (Links names root.heap) a a) →
    ∀ a x, root.value = .cell a → ReflTransGen (Encloses root.after) a x →
      (∀ r, ¬ Part root.after x (.reference r)) ∧ ¬ root.heap.IsList (.cell x)

variable {names : Table Binding}

namespace Call

variable {root c d : Call} {a x : Addr} {b : Binding} {type : Option String}

/-- The binding holds the value of a call below. -/
def IsResult (names : Table Binding) (root : Call) (b : Binding) : Prop :=
  ∃ d, root.Below names d ∧ b = .value d.value

/-- The list has been copied by a call below. -/
def Copied (names : Table Binding) (root : Call) (a : Addr) : Prop :=
  ∃ c type items vs made, root.Below names c ∧ c.Copies names a type items vs made

/-- The object has been gone through by a call below. -/
def Filled (names : Table Binding) (root : Call) (a : Addr) : Prop :=
  ∃ c type attrs, root.Below names c ∧ c.Fills names a type attrs

/-- There is nothing to be resolved at the address. -/
def Inert (root : Call) (a : Addr) : Prop := ∃ cell, root.after.get? a = some cell ∧ cell.IsInert

/-- The older list has been met again while it was being resolved, or is nested in one that has. -/
def Spared (names : Table Binding) (root : Call) (x : Addr) : Prop :=
  ∃ c y, root.Below names c ∧ c.MeetsAgain names y ∧ root.heap.IsList (.cell y) ∧
    ReflTransGen (Nests root.heap) y x

/-- What the result of a call can be, and what can hang on it. -/
inductive Delivered (names : Table Binding) (root : Call) (x : Addr) : Prop
  | made : root.heap.size ≤ x → Delivered names root x
  | filled : root.Filled names x → Delivered names root x
  | inert : root.Inert x → Delivered names root x
  | spared : root.Spared names x → Delivered names root x

namespace Starts

variable (starts : root.Starts names)
include starts

/-! ### Lists -/

section Copies

variable {items : List Binding} {vs : List Value} {made : Heap} (below : root.Below names c)
  (copies : c.Copies names a type items vs made)
include below copies

theorem size_le_made : root.heap.size ≤ made.size := by
  have sound := starts.sound below
  refine Nat.le_trans sound.before.size_le ?_
  exact (copies.calls.changes sound.closed (sound.closed.cells a _ copies.there)).1.size_le

theorem get?_source : root.after.get? a = some (.list type items) :=
  (starts.sound below).rest.list copies.there

theorem get?_copy : root.after.get? made.size = some (.list type (vs.map .value)) := by
  refine (starts.sound below).behind.list ?_
  rw [copies.after]
  exact Heap.get?_alloc_size ..

end Copies

omit starts in
theorem preserves_copies : root.Preserves names fun h => ∀ l, root.heap.size ≤ l → l < h.size →
    ∃ c a type items vs made, root.Below names c ∧ c.Copies names a type items vs made ∧
      made.size = l where
  copy {c a type items vs made} below copies made' l le lt := by
    rw [copies.after, Heap.size_alloc] at lt
    rcases Nat.lt_succ_iff_lt_or_eq.1 lt with lt | rfl
    · exact made' l le lt
    · exact ⟨c, a, type, items, vs, made, below, copies, rfl⟩
  fill _ _ _ made' l le lt := by
    rw [Heap.size_setAttribute] at lt
    exact made' l le lt

theorem exists_copies {l : Addr} (le : root.heap.size ≤ l) (lt : l < root.after.size) :
    ∃ c a type items vs made, root.Below names c ∧ c.Copies names a type items vs made ∧
      made.size = l :=
  starts.valid.invariant preserves_copies .refl
    (fun _ le lt => absurd lt (Nat.not_lt.2 le)) l le lt

theorem isResult_of_made (le : root.heap.size ≤ x) (part : Part root.after x b) :
    root.IsResult names b := by
  obtain ⟨c, a, type, items, vs, made, below, copies, rfl⟩ := starts.exists_copies le part.lt_size
  have there := starts.get?_copy below copies
  cases part with
  | item found mem =>
    cases there.symm.trans found
    obtain ⟨v, mem', rfl⟩ := List.mem_map.1 mem
    obtain ⟨d, makes, value⟩ := copies.exists_makes_of_mem_values mem'
    exact ⟨d, below.tail makes, congrArg _ value.symm⟩
  | slot found => cases there.symm.trans found

/-! ### Objects -/

theorem exists_object {attrs : Table Binding} {key : String} (below : root.Below names c)
    (fills : c.Fills names a type attrs)
    (call : SlotCall names c.active a attrs.names c.heap c.after key d) :
    ∃ type attrs, d.after.get? a = some (.object type attrs) := by
  have above := starts.sound below
  obtain ⟨-, -, ⟨type, attrs, there, -⟩, -⟩ := call.sound above.closed fills.fresh
    (Heap.hasAttributes_of_get? fills.there)
  obtain ⟨attrs', there', -⟩ :=
    (starts.sound (below.tail (.slot fills call))).during.object there
  exact ⟨type, attrs', there'⟩

theorem preserves_isResult (a : Addr) (key : String) :
    root.Preserves names fun h => root.IsResult names (h.readAttribute (.cell a) key) where
  copy _ copies result := by
    rw [copies.after, Heap.readAttribute_alloc_list]
    exact result
  fill {c x type attrs key' d} below fills call result := by
    obtain ⟨_, _, there⟩ := starts.exists_object below fills call
    rw [Heap.readAttribute_setAttribute there]
    split
    · exact ⟨d, below.tail (.slot fills call), rfl⟩
    · exact result

theorem isResult_of_filled (filled : root.Filled names a) (part : Part root.after a b) :
    root.IsResult names b := by
  obtain ⟨c, type, attrs, below, fills⟩ := filled
  have sound := starts.sound below
  obtain ⟨attrs', there, same⟩ := sound.rest.object fills.there
  cases part with
  | item found => cases there.symm.trans found
  | @slot _ _ key _ found slot =>
    cases there.symm.trans found
    -- The attribute took a result when its call had ended, and every later step keeps results.
    have mem : key ∈ attrs.names := same ▸ Table.mem_names_of_get? slot
    obtain ⟨d, call⟩ := fills.calls.exists_slotCall key mem
    obtain ⟨_, _, object⟩ := starts.exists_object below fills call
    have keeps := starts.preserves_isResult a key
    have held : root.IsResult names (root.after.readAttribute (.cell a) key) := by
      refine Below.invariant keeps below (fills.invariant keeps below call ?_)
      rw [Heap.readAttribute_setAttribute object, if_pos ⟨rfl, rfl⟩]
      exact ⟨d, below.tail (.slot fills call), rfl⟩
    rwa [Heap.readAttribute_of_get? there slot] at held

/-! ### What is found -/

theorem copied_or_filled_of_enters (below : root.Below names c) (enters : c.Enters names a) :
    root.Copied names a ∨ root.Filled names a :=
  (enters.cases (starts.sound below).valid).imp
    (fun ⟨type, items, vs, made, copies⟩ => ⟨c, type, items, vs, made, below, copies⟩)
    fun ⟨type, attrs, fills⟩ => ⟨c, type, attrs, below, fills⟩

/-- What a call has found has been copied or gone through, or has nothing to be resolved. -/
theorem cases_of_found (below : root.Below names c)
    (found : deref names c.heap c.binding = .ok (.cell a)) :
    root.Copied names a ∨ root.Filled names a ∨ root.Inert a := by
  have sound := starts.sound below
  by_cases mem : a ∈ c.active
  -- What is being resolved has been entered by a call above, anything else is entered by this one.
  · obtain ⟨d, above, enters⟩ := starts.exists_enters below mem
    exact (starts.copied_or_filled_of_enters above enters).imp_right .inl
  · have lt : a < c.heap.size := sound.closed.leads sound.within (leads_of_deref found)
    obtain ⟨cell, there⟩ := Option.isSome_iff_exists.1 (Heap.get?_isSome_iff.2 lt)
    by_cases inert : cell.IsInert
    · refine .inr (.inr ⟨cell, sound.rest.other there ?_, inert⟩)
      rintro type attrs rfl
      exact inert
    · exact (starts.copied_or_filled_of_enters below ⟨cell, ⟨found, mem, there⟩, inert⟩).imp_right
        .inl

theorem not_filled_of_isList (list : root.heap.IsList (.cell x)) : ¬ root.Filled names x := by
  obtain ⟨_, type, items, ⟨⟩, there⟩ := list
  rintro ⟨c, type', attrs, below, fills⟩
  cases ((starts.sound below).before.list there).symm.trans fills.there

theorem not_inert_of_isList (list : root.heap.IsList (.cell x)) : ¬ root.Inert x := by
  obtain ⟨_, type, items, ⟨⟩, there⟩ := list
  rintro ⟨cell, there', inert⟩
  cases ((starts.sound .refl).rest.list there).symm.trans there'
  exact inert

theorem copied_of_isList (list : root.heap.IsList (.cell x))
    (found : root.Copied names x ∨ root.Filled names x ∨ root.Inert x) : root.Copied names x :=
  found.resolve_right
    (not_or.2 ⟨starts.not_filled_of_isList list, starts.not_inert_of_isList list⟩)

theorem cases_of_item (copied : root.Copied names a) (part : Part root.after a (.value (.cell x))) :
    root.Copied names x ∨ root.Filled names x ∨ root.Inert x := by
  obtain ⟨c, type, items, vs, made, below, copies⟩ := copied
  have there := starts.get?_source below copies
  cases part with
  | item found mem =>
    cases there.symm.trans found
    obtain ⟨d, makes, binding⟩ := copies.exists_makes_of_mem_items mem
    exact starts.cases_of_found (below.tail makes) (by rw [binding, deref_value])
  | slot found => cases there.symm.trans found

theorem part_after_iff (list : root.heap.IsList (.cell a)) :
    Part root.after a b ↔ Part root.heap a b := by
  obtain ⟨_, type, items, ⟨⟩, there⟩ := list
  have there' := (starts.sound .refl).rest.list there
  constructor
  · rintro (⟨found, mem⟩ | ⟨found, -⟩)
    · cases there'.symm.trans found
      exact .item there mem
    · cases there'.symm.trans found
  · rintro (⟨found, mem⟩ | ⟨found, -⟩)
    · cases there.symm.trans found
      exact .item there' mem
    · cases there.symm.trans found

theorem copied_of_spared (spared : root.Spared names x) :
    root.heap.IsList (.cell x) ∧ root.Copied names x := by
  obtain ⟨c, y, below, ⟨-, mem⟩, list, nested⟩ := spared
  induction nested with
  | refl =>
    obtain ⟨d, above, enters⟩ := starts.exists_enters below mem
    exact ⟨list, starts.copied_of_isList list
      ((starts.copied_or_filled_of_enters above enters).imp_right .inl)⟩
  | tail _ nests ih =>
    obtain ⟨outer, inner, part⟩ := nests
    exact ⟨inner, starts.copied_of_isList inner
      (starts.cases_of_item ih.2 ((starts.part_after_iff outer).2 part))⟩

/-! ### What is delivered -/

theorem made_or_isList_of_copied (copied : root.Copied names x) :
    root.heap.size ≤ x ∨ root.heap.IsList (.cell x) := by
  obtain ⟨c, type, items, vs, made, below, copies⟩ := copied
  refine (Nat.lt_or_ge x root.heap.size).symm.imp_right fun old => ?_
  exact (starts.sound .refl).rest.isList_of_isList old
    ⟨x, type, items, rfl, starts.get?_source below copies⟩

theorem delivered_of_value (below : root.Below names d) (value : d.value = .cell x) :
    Delivered names root x := by
  have sound := starts.sound below
  rcases sound.valid.cases with ⟨found, alone, -⟩ | ⟨a, type, items, vs, made, copies⟩ |
    ⟨a, type, attrs, fills⟩
  · rw [value] at found alone
    rcases starts.cases_of_found below found with copied | filled | inert
    -- A list is returned as it was found only when it is met again.
    · rcases starts.made_or_isList_of_copied copied with new | list
      · exact .made new
      · rcases alone with mem | inert
        · exact .spared ⟨d, x, below, ⟨found, mem⟩, list, .refl⟩
        · obtain ⟨_, type, items, ⟨⟩, there⟩ := list
          exact (inert _ (sound.before.list there)).elim
    · exact .filled filled
    · exact .inert inert
  · cases value.symm.trans copies.value
    exact .made (starts.size_le_made below copies)
  · cases value.symm.trans fills.value
    exact .filled ⟨d, type, attrs, below, fills⟩

/-- What something delivered holds is a result, unless it is a list that has been spared. -/
theorem isResult_or_spared (delivered : Delivered names root x) (part : Part root.after x b) :
    root.IsResult names b ∨ root.Spared names x := by
  cases delivered with
  | made new => exact .inl (starts.isResult_of_made new part)
  | filled filled => exact .inl (starts.isResult_of_filled filled part)
  | inert inert =>
    obtain ⟨cell, there, inert⟩ := inert
    cases part with
    | item found => cases there.symm.trans found; exact inert.elim
    | slot found => cases there.symm.trans found; exact inert.elim
  | spared spared => exact .inr spared

theorem delivered_of_encloses (delivered : Delivered names root a)
    (encloses : Encloses root.after a x) : Delivered names root x := by
  rcases starts.isResult_or_spared delivered encloses with ⟨d, below, same⟩ | spared
  · exact starts.delivered_of_value below (Binding.value.inj same).symm
  · obtain ⟨outer, copied⟩ := starts.copied_of_spared spared
    rcases starts.cases_of_item copied encloses with copied | filled | inert
    · refine (starts.made_or_isList_of_copied copied).elim .made fun list => ?_
      obtain ⟨c, y, below, again, met, nested⟩ := spared
      exact .spared ⟨c, y, below, again, met,
        nested.tail ⟨outer, list, (starts.part_after_iff outer).1 encloses⟩⟩
    · exact .filled filled
    · exact .inert inert

theorem delivered_of_reflTransGen (value : root.value = .cell a)
    (contained : ReflTransGen (Encloses root.after) a x) : Delivered names root x := by
  induction contained with
  | refl => exact starts.delivered_of_value .refl value
  | tail _ encloses ih => exact starts.delivered_of_encloses ih encloses

/-- A reference that hangs on something delivered is an item of a list that has been spared. -/
theorem spared_of_reference {r : Reference} (delivered : Delivered names root x)
    (part : Part root.after x (.reference r)) : root.Spared names x := by
  rcases starts.isResult_or_spared delivered part with ⟨d, -, same⟩ | spared
  · cases same
  · exact spared

theorem spared_of_isList (delivered : Delivered names root x)
    (list : root.heap.IsList (.cell x)) : root.Spared names x := by
  cases delivered with
  | made new =>
    obtain ⟨_, type, items, ⟨⟩, there⟩ := list
    exact absurd (Heap.lt_size_of_get? there) (Nat.not_lt.2 new)
  | filled filled => exact absurd filled (starts.not_filled_of_isList list)
  | inert inert => exact absurd inert (starts.not_inert_of_isList list)
  | spared spared => exact spared

theorem materialized : Materialized names root where
  tree := starts.valid
  objects c a type attrs below finds r part := by
    rcases starts.copied_or_filled_of_enters below ⟨_, finds, id⟩ with
      ⟨e, type', items, vs, made, under, copies⟩ | filled
    · obtain ⟨attrs', there, -⟩ := (starts.sound below).rest.object finds.there
      cases (starts.get?_source under copies).symm.trans there
    · obtain ⟨d, -, same⟩ := starts.isResult_of_filled filled part
      cases same
  lists l le lt := by
    obtain ⟨c, a, type, items, vs, made, below, copies, rfl⟩ := starts.exists_copies le lt
    exact ⟨c, a, type, items, vs, below, copies.toFinds, copies.value,
      starts.get?_copy below copies, copies.makes⟩
  references a x r value contained part := by
    have delivered := starts.delivered_of_reflTransGen value contained
    have spared := starts.spared_of_reference delivered part
    have list := (starts.copied_of_spared spared).1
    refine ⟨?_, spared⟩
    cases (starts.part_after_iff list).1 part with
    | item there mem => exact ⟨_, _, there, mem⟩
    | slot there =>
      obtain ⟨_, _, _, ⟨⟩, there'⟩ := list
      cases there.symm.trans there'
  acyclic free a x value contained := by
    have delivered := starts.delivered_of_reflTransGen value contained
    have unspared : ¬ root.Spared names x := fun ⟨c, y, below, again, _⟩ =>
      starts.not_meetsAgain below free y again
    exact ⟨fun r part => unspared (starts.spared_of_reference delivered part),
      fun list => unspared (starts.spared_of_isList delivered list)⟩

end Starts

end Call

/-- Resolving a binding of a store without dangling addresses delivers a value on which nothing is
left to be resolved, but for lists that were met again while they were being resolved. -/
theorem resolve_materializes {b : Binding} {h h' : Heap} {v : Value} (closed : Closed names h)
    (within : b.Within h.size) (run : resolve names b h = (.ok v, h')) :
    Materialized names ⟨[], b, h, v, h'⟩ := by
  have valid := resolves_resolve closed within
  rw [run] at valid
  exact Call.Starts.materialized ⟨valid, rfl, closed, within⟩

/-- A list that holds a reference and itself. -/
def looped : Heap := ⟨#[.list none [.reference (.name "one"), .value (.cell 0)]]⟩

def loopedNames : Table Binding := .ofList [("one", .value (.number 1))]

theorem resolve_looped :
    resolve loopedNames (.value (.cell 0)) looped = (.ok (.cell 1),
      (looped.alloc (.list none [.value (.number 1), .value (.cell 0)])).2) := by
  have first : resolveBinding loopedNames 1 [0] (.reference (.name "one")) looped =
      (.ok (.number 1), looped) := resolveBinding_of_scalar (deref_name_of_value rfl nofun)
  have second : resolveBinding loopedNames 1 [0] (.value (.cell 0)) looped =
      (.ok (.cell 0), looped) := by
    rw [resolveBinding_of_ok rfl, resolveValue_of_mem (List.mem_singleton_self 0)]
  show resolveBinding loopedNames 1 [] (.value (.cell 0)) looped = _
  rw [resolveBinding_of_ok rfl, resolveValue_list List.not_mem_nil (by decide) rfl
    (resolveItems_of_ok first (resolveItems_of_ok second resolveItems_nil))]
  rfl

theorem resolve_materializes_looped :
    resolve loopedNames (.value (.cell 0)) looped = (.ok (.cell 1),
        (looped.alloc (.list none [.value (.number 1), .value (.cell 0)])).2) ∧
      Materialized loopedNames ⟨[], .value (.cell 0), looped, .cell 1,
        (looped.alloc (.list none [.value (.number 1), .value (.cell 0)])).2⟩ :=
  ⟨resolve_looped, resolve_materializes (closed_of_forall_mem (by decide) (by decide)) (by decide)
    resolve_looped⟩

end AliasScript

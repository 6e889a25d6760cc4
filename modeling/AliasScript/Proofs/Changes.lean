import AliasScript.Proofs.Leads
import AliasScript.Proofs.Store

/-!
# Changes that keep where references lead

Resolving changes a heap in two ways only: it adds a list of values, and it puts into an attribute
the value that the attribute leads to, or a copy of it where that is a list (`Change`). Lists have
no attributes, so one list is as good as another for everything that is looked up through it. So
after such changes every reference leads where it led before, up to copies of lists
(`Leads.changes`), and no reference is met on the way that was not met before
(`ObjectCircle.of_changes`).
-/

namespace AliasScript

open Relation

def Heap.IsList (h : Heap) (v : Value) : Prop :=
  ∃ a type items, v = .cell a ∧ h.get? a = some (.list type items)

/-- The values are the same, or both are lists. -/
def Heap.Alike (h : Heap) (v w : Value) : Prop := v = w ∨ (h.IsList v ∧ h.IsList w)

/-- One change to the heap while the containers in `active` are being resolved. -/
inductive Change (names : Table Binding) (active : List Addr) : Heap → Heap → Prop
  | copy (h : Heap) (type : Option String) (vs : List Value) : (∀ v ∈ vs, v.Within h.size) →
    Change names active h (h.alloc (.list type (vs.map .value))).2
  | settle {h : Heap} {a : Addr} {type : Option String} {attrs : Table Binding} {attr : String}
      {b : Binding} {v w : Value} :
    a ∉ active → h.get? a = some (.object type attrs) → attrs.get? attr = some b →
      Leads names h b v → h.Alike v w → w.Within h.size →
        Change names active h (h.setAttribute a attr (.value w))

/-- Any number of changes. -/
def Changes (names : Table Binding) (active : List Addr) : Heap → Heap → Prop :=
  ReflTransGen (Change names active)

namespace Heap

variable {h : Heap}

theorem Alike.refl (v : Value) : h.Alike v v := .inl rfl

theorem Alike.symm {v w : Value} (g : h.Alike v w) : h.Alike w v :=
  g.imp Eq.symm And.symm

theorem Alike.trans {u v w : Value} (g : h.Alike u v) (k : h.Alike v w) : h.Alike u w := by
  rcases g with rfl | ⟨gu, gv⟩
  · exact k
  · rcases k with rfl | ⟨kv, kw⟩
    · exact .inr ⟨gu, gv⟩
    · exact .inr ⟨gu, kw⟩

theorem IsList.ne_nothing {v : Value} (g : h.IsList v) : v ≠ .nothing := by
  obtain ⟨a, type, items, rfl, -⟩ := g
  exact fun same => nomatch same

theorem Alike.ne_nothing {v w : Value} (g : h.Alike v w) (some : v ≠ .nothing) : w ≠ .nothing := by
  rcases g with rfl | ⟨-, list⟩
  · exact some
  · exact list.ne_nothing

theorem readAttribute_of_get? {a : Addr} {type : Option String} {attrs : Table Binding}
    {attr : String} {b : Binding} (object : h.get? a = some (.object type attrs))
    (slot : attrs.get? attr = some b) : h.readAttribute (.cell a) attr = b := by
  simp [Heap.readAttribute, object, Table.read_of_get? slot]

theorem IsList.readAttribute {v : Value} (g : h.IsList v) (attr : String) :
    h.readAttribute v attr = .nothing := by
  obtain ⟨a, type, items, rfl, there⟩ := g
  simp [Heap.readAttribute, there]

theorem Alike.readAttribute {v w : Value} (g : h.Alike v w) (attr : String) :
    h.readAttribute v attr = h.readAttribute w attr := by
  rcases g with rfl | ⟨left, right⟩
  · rfl
  · rw [left.readAttribute, right.readAttribute]

end Heap

variable {names : Table Binding} {active : List Addr} {heap after : Heap}

/-! ## What stays -/

namespace Change

theorem size_le (c : Change names active heap after) : heap.size ≤ after.size := by
  cases c with
  | copy => simp
  | settle => simp

theorem other (c : Change names active heap after) {a : Addr} {d : Cell}
    (there : heap.get? a = some d) (noObject : ∀ type attrs, d ≠ .object type attrs) :
    after.get? a = some d := by
  cases c with
  | copy => exact Heap.get?_alloc_of_get? there
  | settle _ object =>
    rwa [Heap.get?_setAttribute_of_ne object]
    rintro rfl
    exact noObject _ _ (Option.some.inj (there.symm.trans object))

theorem list (c : Change names active heap after) {a : Addr} {type : Option String}
    {items : List Binding} (there : heap.get? a = some (.list type items)) :
    after.get? a = some (.list type items) := c.other there fun _ _ same => nomatch same

theorem of_mem_active (c : Change names active heap after) {a : Addr} {d : Cell} (mem : a ∈ active)
    (there : heap.get? a = some d) : after.get? a = some d := by
  cases c with
  | copy => exact Heap.get?_alloc_of_get? there
  | settle rest object =>
    rwa [Heap.get?_setAttribute_of_ne object]
    rintro rfl
    exact rest mem

theorem object (c : Change names active heap after) {a : Addr} {type : Option String}
    {attrs : Table Binding} (there : heap.get? a = some (.object type attrs)) :
    ∃ attrs', after.get? a = some (.object type attrs') ∧ attrs'.names = attrs.names := by
  cases c with
  | copy => exact ⟨attrs, Heap.get?_alloc_of_get? there, rfl⟩
  | @settle o _ _ attr _ _ w _ object slot _ _ _ =>
    by_cases same : a = o
    · subst same
      cases object.symm.trans there
      exact ⟨_, Heap.get?_setAttribute_self object attr _,
        Table.names_set_of_mem (Table.mem_names_of_get? slot) _⟩
    · exact ⟨attrs, by rwa [Heap.get?_setAttribute_of_ne object same], rfl⟩

theorem isList (c : Change names active heap after) {v : Value} (g : heap.IsList v) :
    after.IsList v := by
  obtain ⟨a, type, items, rfl, there⟩ := g
  exact ⟨a, type, items, rfl, c.list there⟩

theorem alike (c : Change names active heap after) {v w : Value} (g : heap.Alike v w) :
    after.Alike v w := g.imp_right fun both => ⟨c.isList both.1, c.isList both.2⟩

theorem closed (c : Change names active heap after) (g : Closed names heap) :
    Closed names after := by
  cases c with
  | copy type vs within =>
    refine g.alloc fun b mem => ?_
    obtain ⟨v, inside, rfl⟩ := List.mem_map.1 mem
    exact within v inside
  | settle _ _ _ _ _ within => exact g.setAttribute _ _ within

end Change

/-! ## Where references lead after a change -/

section settle

variable {a : Addr} {type : Option String} {attrs : Table Binding} {attr : String} {b₀ : Binding}
  {v₀ w₀ : Value} (object : heap.get? a = some (.object type attrs))
  (slot : attrs.get? attr = some b₀) (leads : Leads names heap b₀ v₀) (alike : heap.Alike v₀ w₀)
include object slot leads alike

/-- After an attribute has taken the value that it led to, a binding leads where it led before, or
it led there and leads to what the attribute holds now. -/
theorem Leads.settle {b : Binding} {v : Value} (g : Leads names heap b v) :
    Leads names (heap.setAttribute a attr (.value w₀)) b v ∨
      (v = v₀ ∧ Leads names (heap.setAttribute a attr (.value w₀)) b w₀) := by
  induction g with
  | value v => exact .inl (.value v)
  | name _ some ih =>
    rcases ih with same | ⟨rfl, other⟩
    · exact .inl (.name same some)
    · exact .inr ⟨rfl, .name other (alike.ne_nothing some)⟩
  | @path obj key base v _ inner some ihBase ih =>
    -- The object is found where it was, for a list in its place has no attributes.
    have found : Leads names (heap.setAttribute a attr (.value w₀)) (names.read obj) base := by
      rcases ihBase with same | ⟨rfl, other⟩
      · exact same
      · rcases alike with rfl | ⟨list, -⟩
        · exact other
        · rw [list.readAttribute] at inner
          exact absurd (leads_value_iff.1 inner) some
    have read := Heap.readAttribute_setAttribute object attr (.value w₀) base key
    by_cases here : base = .cell a ∧ key = attr
    · rw [if_pos here] at read
      obtain ⟨rfl, rfl⟩ := here
      rw [Heap.readAttribute_of_get? object slot] at inner
      cases inner.unique leads
      exact .inr ⟨rfl, .path found (by rw [read]; exact .value _) (alike.ne_nothing some)⟩
    · rw [if_neg here] at read
      rcases ih with same | ⟨rfl, other⟩
      · exact .inl (.path found (by rwa [read]) some)
      · exact .inr ⟨rfl, .path found (by rwa [read]) (alike.ne_nothing some)⟩

theorem Leads.of_settle {b : Binding} {w : Value}
    (g : Leads names (heap.setAttribute a attr (.value w₀)) b w) :
    Leads names heap b w ∨ (w = w₀ ∧ Leads names heap b v₀) := by
  induction g with
  | value v => exact .inl (.value v)
  | name _ some ih =>
    rcases ih with same | ⟨rfl, other⟩
    · exact .inl (.name same some)
    · exact .inr ⟨rfl, .name other (alike.symm.ne_nothing some)⟩
  | @path obj key base w _ inner some ihBase ih =>
    have read := Heap.readAttribute_setAttribute object attr (.value w₀) base key
    obtain ⟨base₀, found, like⟩ : ∃ base₀, Leads names heap (names.read obj) base₀ ∧
        heap.readAttribute base₀ key = heap.readAttribute base key := by
      rcases ihBase with same | ⟨rfl, other⟩
      · exact ⟨base, same, rfl⟩
      · exact ⟨v₀, other, alike.readAttribute key⟩
    by_cases here : base = .cell a ∧ key = attr
    · rw [if_pos here] at read
      obtain ⟨rfl, rfl⟩ := here
      rw [read] at inner
      cases leads_value_iff.1 inner
      refine .inr ⟨rfl, .path found ?_ (alike.symm.ne_nothing some)⟩
      rwa [like, Heap.readAttribute_of_get? object slot]
    · rw [if_neg here, ← like] at read
      rw [read] at ih
      rcases ih with same | ⟨rfl, other⟩
      · exact .inl (.path found same some)
      · exact .inr ⟨rfl, .path found other (alike.symm.ne_nothing some)⟩

end settle

theorem leads_copy_iff {type : Option String} {items : List Binding} {b : Binding} {v : Value} :
    Leads names (heap.alloc (.list type items)).2 b v ↔ Leads names heap b v :=
  leads_congr (heap.readAttribute_alloc_list type items)

theorem Leads.change {b : Binding} {v : Value} (c : Change names active heap after)
    (g : Leads names heap b v) : ∃ w, Leads names after b w ∧ after.Alike v w := by
  have step := c
  cases c with
  | copy => exact ⟨v, leads_copy_iff.2 g, .refl v⟩
  | settle _ object slot leads alike _ =>
    rcases Leads.settle object slot leads alike g with same | ⟨rfl, other⟩
    · exact ⟨v, same, .refl v⟩
    · exact ⟨_, other, step.alike alike⟩

theorem Leads.of_change {b : Binding} {w : Value} (c : Change names active heap after)
    (g : Leads names after b w) : ∃ v, Leads names heap b v ∧ heap.Alike v w := by
  cases c with
  | copy => exact ⟨w, leads_copy_iff.1 g, .refl w⟩
  | settle _ object slot leads alike _ =>
    rcases Leads.of_settle object slot leads alike g with same | ⟨rfl, other⟩
    · exact ⟨w, same, .refl w⟩
    · exact ⟨_, other, alike⟩

theorem Change.readAttribute_reference {v : Value} {attr : String} {r : Reference}
    (c : Change names active heap after) (g : after.readAttribute v attr = .reference r) :
    heap.readAttribute v attr = .reference r := by
  cases c with
  | copy => rwa [Heap.readAttribute_alloc_list] at g
  | settle _ object _ _ _ _ =>
    rw [Heap.readAttribute_setAttribute object] at g
    split at g
    · cases g
    · exact g

theorem Next.of_change {r q : Reference} (c : Change names active heap after)
    (g : Next names after r q) : Next names heap r q := by
  cases r with
  | name n => exact holds_name_iff.2 (holds_name_iff.1 g)
  | path obj attr =>
    obtain ⟨base, found, read⟩ := holds_path_iff.1 g
    obtain ⟨base₀, found₀, alike⟩ := found.of_change c
    refine holds_path_iff.2 ⟨base₀, found₀, ?_⟩
    rw [alike.readAttribute, c.readAttribute_reference read.symm]

/-! ## Any number of changes -/

theorem Change.mono {active wider : List Addr} (sub : ∀ a ∈ active, a ∈ wider)
    (c : Change names wider heap after) : Change names active heap after := by
  cases c with
  | copy type vs within => exact .copy _ type vs within
  | settle rest object slot leads alike within =>
    exact .settle (fun mem => rest (sub _ mem)) object slot leads alike within

namespace Changes

theorem mono {active wider : List Addr} (sub : ∀ a ∈ active, a ∈ wider)
    (c : Changes names wider heap after) : Changes names active heap after :=
  ReflTransGen.mono (fun _ _ step => step.mono sub) _ _ c

theorem wider (c : Changes names active heap after) : Changes names [] heap after :=
  c.mono fun _ mem => nomatch mem

theorem size_le (c : Changes names active heap after) : heap.size ≤ after.size := by
  induction c with
  | refl => exact Nat.le_refl _
  | tail _ step ih => exact Nat.le_trans ih step.size_le

theorem other (c : Changes names active heap after) {a : Addr} {d : Cell}
    (there : heap.get? a = some d) (noObject : ∀ type attrs, d ≠ .object type attrs) :
    after.get? a = some d := by
  induction c with
  | refl => exact there
  | tail _ step ih => exact step.other ih noObject

theorem list (c : Changes names active heap after) {a : Addr} {type : Option String}
    {items : List Binding} (there : heap.get? a = some (.list type items)) :
    after.get? a = some (.list type items) := c.other there fun _ _ same => nomatch same

theorem of_mem_active (c : Changes names active heap after) {a : Addr} {d : Cell} (mem : a ∈ active)
    (there : heap.get? a = some d) : after.get? a = some d := by
  induction c with
  | refl => exact there
  | tail _ step ih => exact step.of_mem_active mem ih

theorem object (c : Changes names active heap after) {a : Addr} {type : Option String}
    {attrs : Table Binding} (there : heap.get? a = some (.object type attrs)) :
    ∃ attrs', after.get? a = some (.object type attrs') ∧ attrs'.names = attrs.names := by
  induction c with
  | refl => exact ⟨attrs, there, rfl⟩
  | tail _ step ih =>
    obtain ⟨attrs', there', same⟩ := ih
    obtain ⟨attrs'', there'', same'⟩ := step.object there'
    exact ⟨attrs'', there'', same'.trans same⟩

theorem readAttribute_reference (c : Changes names active heap after) {v : Value} {attr : String}
    {r : Reference} (g : after.readAttribute v attr = .reference r) :
    heap.readAttribute v attr = .reference r := by
  induction c with
  | refl => exact g
  | tail _ step ih => exact ih (step.readAttribute_reference g)

theorem closed (c : Changes names active heap after) (g : Closed names heap) :
    Closed names after := by
  induction c with
  | refl => exact g
  | tail _ step ih => exact step.closed ih

end Changes

/-- After changes a binding leads where it led before, or to a copy of the list it led to. -/
theorem Leads.changes {b : Binding} {v : Value} (c : Changes names active heap after)
    (g : Leads names heap b v) : ∃ w, Leads names after b w ∧ after.Alike v w := by
  induction c with
  | refl => exact ⟨v, g, .refl v⟩
  | tail _ step ih =>
    obtain ⟨w, leads, alike⟩ := ih
    obtain ⟨w', leads', alike'⟩ := leads.change step
    exact ⟨w', leads', (step.alike alike).trans alike'⟩

theorem Leads.of_changes {b : Binding} {w : Value} (c : Changes names active heap after)
    (g : Leads names after b w) : ∃ v, Leads names heap b v ∧ after.Alike v w := by
  induction c generalizing w with
  | refl => exact ⟨w, g, .refl w⟩
  | tail _ step ih =>
    obtain ⟨u, leads, alike⟩ := g.of_change step
    obtain ⟨v, leads', alike'⟩ := ih leads
    exact ⟨v, leads', (step.alike alike').trans (step.alike alike)⟩

/-- After changes an attribute holds what it held, or in its place the value that this led to or
another list. -/
theorem Changes.get?_attrs (c : Changes names active heap after) {a : Addr}
    {type type' : Option String} {attrs attrs' : Table Binding}
    (there : heap.get? a = some (.object type attrs))
    (there' : after.get? a = some (.object type' attrs')) (key : String) :
    attrs'.get? key = attrs.get? key ∨ ∃ b v w, attrs.get? key = some b ∧
      Leads names heap b v ∧ after.Alike v w ∧ attrs'.get? key = some (.value w) := by
  induction c generalizing type' attrs' with
  | refl =>
    cases there.symm.trans there'
    exact .inl rfl
  | @tail _ after before step ih =>
    obtain ⟨attrs₁, there₁, -⟩ := Changes.object before there
    have so_far := ih there₁
    have kept : attrs'.get? key = attrs₁.get? key → attrs'.get? key = attrs.get? key ∨
        ∃ b v w, attrs.get? key = some b ∧ Leads names heap b v ∧ after.Alike v w ∧
          attrs'.get? key = some (.value w) := by
      intro same
      rw [same]
      exact so_far.imp_right fun ⟨b, v, w, slot, leads, alike, held⟩ =>
        ⟨b, v, w, slot, leads, step.alike alike, held⟩
    cases id step with
    | copy =>
      rw [Heap.get?_alloc_of_get? there₁] at there'
      cases there'
      exact kept rfl
    | @settle o _ _ attr b₁ v₁ w _ object slot₁ leads₁ alike₁ _ =>
      by_cases here : a = o ∧ key = attr
      · obtain ⟨rfl, rfl⟩ := here
        cases there₁.symm.trans object
        rw [Heap.get?_setAttribute_self object] at there'
        cases there'
        refine .inr ?_
        rw [Table.get?_set_self]
        rcases so_far with same | ⟨b, v, u, slot, leads, alike, held⟩
        · obtain ⟨v, leads, alike⟩ := leads₁.of_changes before
          exact ⟨b₁, v, w, same ▸ slot₁, leads, step.alike (alike.trans alike₁), rfl⟩
        · cases held.symm.trans slot₁
          cases leads_value_iff.1 leads₁
          exact ⟨b, v, w, slot, leads, step.alike (alike.trans alike₁), rfl⟩
      · refine kept ?_
        by_cases same : a = o
        · subst same
          cases there₁.symm.trans object
          rw [Heap.get?_setAttribute_self object] at there'
          cases there'
          rw [Table.get?_set_of_ne _ fun equal => here ⟨rfl, equal⟩]
        · rw [Heap.get?_setAttribute_of_ne object same, there₁] at there'
          cases there'
          rfl

theorem Changes.isList_of_isList (c : Changes names active heap after) {v : Value}
    (within : v.Within heap.size) (list : after.IsList v) : heap.IsList v := by
  obtain ⟨a, type, items, rfl, there⟩ := list
  obtain ⟨d, before⟩ := Option.isSome_iff_exists.1 (Heap.get?_isSome_iff.2 within)
  cases d with
  | object type' attrs =>
    obtain ⟨attrs', there', -⟩ := c.object before
    cases there.symm.trans there'
  | list type' items' => exact ⟨a, type', items', rfl, before⟩
  | _ => cases there.symm.trans (c.other before fun _ _ same => nomatch same)

theorem Next.of_changes {r q : Reference} (c : Changes names active heap after)
    (g : Next names after r q) : Next names heap r q := by
  induction c with
  | refl => exact g
  | tail _ step ih => exact ih (g.of_change step)

theorem Consults.of_changes {r : Reference} {obj : String} (c : Changes names active heap after)
    (g : Consults names after r obj) : Consults names heap r obj := by
  obtain ⟨attr, steps⟩ := g
  exact ⟨attr, ReflTransGen.mono (fun _ _ step => step.of_changes c) _ _ steps⟩

theorem Needs.of_changes {obj other : String} (c : Changes names active heap after)
    (g : Needs names after obj other) : Needs names heap obj other := by
  obtain ⟨r, bound, asks⟩ := g
  exact ⟨r, bound, asks.of_changes c⟩

/-- No changes make an object needed to find itself. -/
theorem ObjectCircle.of_changes {r : Reference} (c : Changes names active heap after)
    (g : ObjectCircle names after r) : ObjectCircle names heap r := by
  obtain ⟨obj, other, asks, path, circle⟩ := g
  exact ⟨obj, other, asks.of_changes c,
    ReflTransGen.mono (fun _ _ step => step.of_changes c) _ _ path,
    TransGen.mono (fun _ _ step => step.of_changes c) _ _ circle⟩

end AliasScript

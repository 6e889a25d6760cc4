import AliasScript.Store.Deref
import Mathlib.Logic.Relation

/-!
# Where references lead

What a reference stands for in the end, said of the slots of the store alone: `Leads` has no record
of the names met on the way and no order of steps. `Holds` says what the slot of a reference holds,
`Next` and `Meets` say which references are met on the way, and `ObjectCircle` says that an object
cannot be found because its own name has to be followed first.
-/

namespace AliasScript

open Relation

section
variable (names : Table Binding) (heap : Heap)

/-- A value leads to itself, and a reference to what its slot leads to, unless that is nothing. The
slot of an attribute belongs to the object that the name in front of it leads to. -/
inductive Leads : Binding → Value → Prop
  | value (v : Value) : Leads (.value v) v
  | name {n : String} {v : Value} :
    Leads (names.read n) v → v ≠ .nothing → Leads (.reference (.name n)) v
  | path {obj attr : String} {base v : Value} :
    Leads (names.read obj) base → Leads (heap.readAttribute base attr) v → v ≠ .nothing →
      Leads (.reference (.path obj attr)) v

/-- What the slot of a reference holds, where there is such a slot. -/
inductive Holds : Reference → Binding → Prop
  | name (n : String) : Holds (.name n) (names.read n)
  | path {obj : String} {base : Value} (attr : String) :
    Leads names heap (names.read obj) base →
      Holds (.path obj attr) (heap.readAttribute base attr)

/-- The slot of one reference holds another one. -/
def Next (r q : Reference) : Prop := Holds names heap r (.reference q)

/-- From one reference another is met: in its slot, or in the name of its object. -/
def Visits (r q : Reference) : Prop :=
  Next names heap r q ∨ ∃ obj attr, r = .path obj attr ∧ names.read obj = .reference q

/-- A reference is met on the way from another one, or is that one. -/
def Meets : Reference → Reference → Prop := ReflTransGen (Visits names heap)

/-- On the way from a reference an attribute of a named object is looked up. -/
def Consults (r : Reference) (obj : String) : Prop :=
  ∃ attr, ReflTransGen (Next names heap) r (.path obj attr)

/-- To find the first object the second must be found. -/
def Needs (obj other : String) : Prop :=
  ∃ r, names.read obj = .reference r ∧ Consults names heap r other

/-- On the way from a reference an object must be found that is needed to find itself. -/
def ObjectCircle (r : Reference) : Prop :=
  ∃ obj other, Consults names heap r obj ∧ ReflTransGen (Needs names heap) obj other ∧
    TransGen (Needs names heap) other other

/-- Different references met on the way are written differently. -/
def WrittenApart (r : Reference) : Prop :=
  ∀ p q, Meets names heap r p → Meets names heap r q → p.render = q.render → p = q

end

variable {names : Table Binding} {heap : Heap}

/-! ## One step at a time -/

@[simp] theorem leads_value_iff {v w : Value} : Leads names heap (.value v) w ↔ w = v := by
  constructor
  · intro h
    cases h
    rfl
  · rintro rfl
    exact .value w

theorem holds_name_iff {n : String} {b : Binding} :
    Holds names heap (.name n) b ↔ b = names.read n := by
  constructor
  · intro h
    cases h
    rfl
  · rintro rfl
    exact .name n

theorem holds_path_iff {obj attr : String} {b : Binding} :
    Holds names heap (.path obj attr) b ↔
      ∃ base, Leads names heap (names.read obj) base ∧ b = heap.readAttribute base attr := by
  constructor
  · intro h
    generalize same : Reference.path obj attr = r at h
    cases h with
    | name n => cases same
    | path _ base =>
      cases same
      exact ⟨_, base, rfl⟩
  · rintro ⟨base, leads, rfl⟩
    exact .path attr leads

theorem leads_reference_iff {r : Reference} {v : Value} :
    Leads names heap (.reference r) v ↔
      v ≠ .nothing ∧ ∃ b, Holds names heap r b ∧ Leads names heap b v := by
  constructor
  · intro h
    cases h with
    | name inner some => exact ⟨some, _, .name _, inner⟩
    | path base inner some => exact ⟨some, _, .path _ base, inner⟩
  · rintro ⟨some, b, held, inner⟩
    cases held with
    | name n => exact .name inner some
    | path attr base => exact .path base inner some

theorem Leads.ne_nothing {r : Reference} {v : Value} (h : Leads names heap (.reference r) v) :
    v ≠ .nothing := (leads_reference_iff.1 h).1

theorem Leads.eq_nothing_iff {b : Binding} {v : Value} (h : Leads names heap b v) :
    v = .nothing ↔ b = .nothing := by
  cases b with
  | value w =>
    rw [leads_value_iff.1 h]
    exact ⟨congrArg Binding.value, Binding.value.inj⟩
  | reference r => exact iff_of_false h.ne_nothing fun same => nomatch same

theorem Leads.unique {b : Binding} {v w : Value} (h : Leads names heap b v)
    (g : Leads names heap b w) : v = w := by
  induction h generalizing w with
  | value v => exact (leads_value_iff.1 g).symm
  | name _ _ ih =>
    cases g with
    | name inner _ => exact ih inner
  | path _ _ _ ihBase ih =>
    cases g with
    | path base inner _ =>
      cases ihBase base
      exact ih inner

theorem Holds.unique {r : Reference} {b c : Binding} (h : Holds names heap r b)
    (g : Holds names heap r c) : b = c := by
  cases h with
  | name n =>
    cases g
    rfl
  | path attr base =>
    cases g with
    | path _ other => rw [base.unique other]

theorem Next.unique {r p q : Reference} (h : Next names heap r p) (g : Next names heap r q) :
    p = q := by
  injection Holds.unique h g

theorem Leads.next {r q : Reference} {v : Value} (h : Leads names heap (.reference r) v)
    (step : Next names heap r q) : Leads names heap (.reference q) v := by
  obtain ⟨-, b, held, inner⟩ := leads_reference_iff.1 h
  rwa [held.unique step] at inner

theorem Leads.base {obj attr : String} {v : Value}
    (h : Leads names heap (.reference (.path obj attr)) v) :
    ∃ base, Leads names heap (names.read obj) base := by
  cases h with
  | path base _ _ => exact ⟨_, base⟩

/-! ## Heaps with the same attributes -/

section congr

variable {heap' : Heap} (same : ∀ v attr, heap'.readAttribute v attr = heap.readAttribute v attr)
include same

theorem leads_congr {b : Binding} {v : Value} : Leads names heap' b v ↔ Leads names heap b v := by
  constructor
  · intro g
    induction g with
    | value v => exact .value v
    | name _ some ih => exact .name ih some
    | path _ _ some ihBase ih =>
      rw [same] at ih
      exact .path ihBase ih some
  · intro g
    induction g with
    | value v => exact .value v
    | name _ some ih => exact .name ih some
    | path _ _ some ihBase ih => exact .path ihBase (by rwa [same]) some

theorem holds_congr {r : Reference} {b : Binding} :
    Holds names heap' r b ↔ Holds names heap r b := by
  cases r with
  | name n => rw [holds_name_iff, holds_name_iff]
  | path obj attr => simp only [holds_path_iff, leads_congr same, same]

theorem writtenApart_congr {r : Reference} :
    WrittenApart names heap' r ↔ WrittenApart names heap r := by
  have visits : Visits names heap' = Visits names heap := by
    funext p q
    rw [Visits, Visits, Next, Next, holds_congr same]
  rw [WrittenApart, WrittenApart, Meets, Meets, visits]

end congr

/-! ## No circles on a way that ends -/

theorem Leads.not_transGen_next {b : Binding} {v : Value} (h : Leads names heap b v) :
    ∀ r, b = .reference r → ¬ TransGen (Next names heap) r r := by
  -- A circle through a reference is also one through the reference that comes next.
  have shift : ∀ {r c}, Holds names heap r c →
      (∀ q, c = .reference q → ¬ TransGen (Next names heap) q q) →
        ¬ TransGen (Next names heap) r r := by
    intro r c held after circle
    obtain ⟨q, step, rest⟩ := TransGen.head'_iff.1 circle
    exact after q (Holds.unique held step) (TransGen.tail' rest step)
  induction h with
  | value v => exact fun r same => nomatch same
  | @name n v inner some ih =>
    rintro r ⟨⟩
    exact shift (.name n) ih
  | @path obj attr base v found inner some _ ih =>
    rintro r ⟨⟩
    exact shift (.path attr found) ih

theorem Leads.acc_needs {b : Binding} {v : Value} (h : Leads names heap b v) :
    ∀ r, b = .reference r → ∀ obj, Consults names heap r obj →
      Acc (fun p o => Needs names heap o p) obj := by
  have shift : ∀ {r c}, Holds names heap r c →
      (∀ obj attr, r = .path obj attr → Acc (fun p o => Needs names heap o p) obj) →
      (∀ q, c = .reference q → ∀ obj, Consults names heap q obj →
        Acc (fun p o => Needs names heap o p) obj) →
      ∀ obj, Consults names heap r obj → Acc (fun p o => Needs names heap o p) obj := by
    intro r c held here after obj ⟨attr, steps⟩
    rcases ReflTransGen.cases_head steps with rfl | ⟨q, step, rest⟩
    · exact here obj attr rfl
    · exact after q (Holds.unique held step) obj ⟨attr, rest⟩
  induction h with
  | value v => exact fun r same => nomatch same
  | @name n v inner some ih =>
    rintro r ⟨⟩
    exact shift (.name n) (fun obj attr same => nomatch same) ih
  | @path obj attr base v found inner some ihBase ih =>
    rintro r ⟨⟩
    refine shift (.path attr found) ?_ ih
    rintro _ _ ⟨⟩
    refine ⟨obj, fun other ⟨r, bound, asks⟩ => ihBase r bound other asks⟩

theorem Leads.not_objectCircle {r : Reference} {v : Value}
    (h : Leads names heap (.reference r) v) : ¬ ObjectCircle names heap r := by
  rintro ⟨obj, other, asks, path, circle⟩
  have start := h.acc_needs r rfl obj asks
  have there : Acc (fun p o => Needs names heap o p) other := by
    clear circle
    induction path with
    | refl => exact start
    | tail _ step ih => exact ih.inv step
  have back : TransGen (fun p o => Needs names heap o p) other other := transGen_swap.2 circle
  clear circle start path
  have ends := there.transGen
  induction ends with
  | intro x _ ih => exact ih x back (there.inv_of_transGen back) back

end AliasScript

import AliasScript.Proofs.Finishing

/-!
# What scripts leave in a store

A script binds names without spaces, keeps references between such names only, makes lists and
objects, and never comes by a function of the host. `Scripted` says so of a store, and the lemmas
here that the operations of the store and resolving keep it so. In such a store no two references
are written alike on the way of any reference (`Scripted.writtenApart`).
-/

namespace AliasScript

open Relation

/-- The text holds no space, as the names in a program. -/
def OneWord (s : String) : Prop := ' ' ∉ s.toList

instance (s : String) : Decidable (OneWord s) :=
  inferInstanceAs (Decidable (' ' ∉ s.toList))

def Reference.Spaceless : Reference → Prop
  | .name n => OneWord n
  | .path obj attr => OneWord obj ∧ OneWord attr

/-- A value that a script can come by with a heap of a size. -/
def Value.Scripted (size : Nat) : Value → Prop
  | .scalar (.function (.host _)) => False
  | .scalar _ => True
  | .cell a => a < size

def Binding.Scripted (size : Nat) : Binding → Prop
  | .value v => v.Scripted size
  | .reference r => r.Spaceless

def Table.Scripted (size : Nat) (t : Table Binding) : Prop :=
  t.names.Nodup ∧ ∀ entry ∈ t.entries, OneWord entry.1 ∧ entry.2.Scripted size

def Cell.Scripted (size : Nat) : Cell → Prop
  | .list _ items => ∀ b ∈ items, b.Scripted size
  | .object _ attrs => attrs.Scripted size
  | _ => False

/-- A store that scripts can make. -/
structure Scripted (names : Table Binding) (heap : Heap) : Prop where
  names : names.Scripted heap.size
  cells : ∀ a c, heap.get? a = some c → c.Scripted heap.size

variable {names : Table Binding} {heap after : Heap} {n m : Nat}

/-! ## A larger heap -/

theorem Value.Scripted.mono (le : n ≤ m) {v : Value} (h : v.Scripted n) : v.Scripted m := by
  unfold Value.Scripted at h ⊢
  split at h
  · exact h
  · trivial
  · exact Nat.lt_of_lt_of_le h le

theorem Binding.Scripted.mono (le : n ≤ m) {b : Binding} (h : b.Scripted n) : b.Scripted m := by
  cases b with
  | value v => exact Value.Scripted.mono le h
  | reference r => exact h

theorem Table.Scripted.mono (le : n ≤ m) {t : Table Binding} (h : t.Scripted n) : t.Scripted m :=
  ⟨h.1, fun entry mem => ⟨(h.2 entry mem).1, (h.2 entry mem).2.mono le⟩⟩

theorem Cell.Scripted.mono (le : n ≤ m) {c : Cell} (h : c.Scripted n) : c.Scripted m := by
  cases c with
  | list type items => exact fun b mem => (h b mem).mono le
  | object type attrs => exact Table.Scripted.mono le h
  | _ => exact h

theorem Value.Scripted.within {v : Value} (h : v.Scripted n) : v.Within n := by
  cases v with
  | scalar s => trivial
  | cell a => exact h

theorem Binding.Scripted.within {b : Binding} (h : b.Scripted n) : b.Within n := by
  cases b with
  | value v => exact Value.Scripted.within h
  | reference r => trivial

/-! ## Reading and binding -/

theorem Table.scripted_empty : (Table.empty : Table Binding).Scripted n :=
  ⟨List.nodup_nil, fun _ mem => nomatch mem⟩

theorem Table.Scripted.read {t : Table Binding} (h : t.Scripted n) (name : String) :
    (t.read name).Scripted n := by
  rcases t.read_eq_or_mem name with none | mem
  · rw [none]
    trivial
  · exact (h.2 _ mem).2

theorem Table.Scripted.oneWord {t : Table Binding} (h : t.Scripted n) {name : String}
    (mem : name ∈ t.names) : OneWord name := by
  obtain ⟨entry, inside, rfl⟩ := List.mem_map.1 mem
  exact (h.2 entry inside).1

theorem Table.Scripted.set {t : Table Binding} (h : t.Scripted n) {name : String} {b : Binding}
    (word : OneWord name) (bound : b.Scripted n) : (t.set name b).Scripted n := by
  refine ⟨?_, fun entry mem => ?_⟩
  · by_cases old : name ∈ t.names
    · rw [t.names_set_of_mem old]
      exact h.1
    · rw [t.names_set_of_not_mem old]
      refine List.nodup_append.2 ⟨h.1, List.pairwise_singleton .., fun x mem y mem' => ?_⟩
      rw [List.mem_singleton.1 mem']
      exact fun same => old (same ▸ mem)
  · rcases Table.mem_entries_set mem with rfl | mem
    · exact ⟨word, bound⟩
    · exact h.2 entry mem

namespace Scripted

theorem readAttribute (g : Scripted names heap) (v : Value) (attr : String) :
    (heap.readAttribute v attr).Scripted heap.size := by
  cases v with
  | scalar s => trivial
  | cell a =>
    rw [Heap.readAttribute]
    split
    · next type attrs there => exact Table.Scripted.read (g.cells a _ there) attr
    · trivial

theorem closed (g : Scripted names heap) : Closed names heap where
  names entry mem := (g.names.2 entry mem).2.within
  cells a c there b mem := by
    have cell := g.cells a c there
    cases c with
    | list type items => exact (cell b mem).within
    | object type attrs =>
      obtain ⟨entry, inside, rfl⟩ := List.mem_map.1 mem
      exact (cell.2 entry inside).2.within
    | _ => exact cell.elim

theorem leads (g : Scripted names heap) {b : Binding} {v : Value} (found : Leads names heap b v)
    (bound : b.Scripted heap.size) : v.Scripted heap.size := by
  induction found with
  | value v => exact bound
  | name _ _ ih => exact ih (g.names.read _)
  | path _ _ _ _ ih => exact ih (g.readAttribute _ _)

theorem alloc (g : Scripted names heap) {c : Cell} (made : c.Scripted heap.size) :
    Scripted names (heap.alloc c).2 := by
  have le : heap.size ≤ (heap.alloc c).2.size := by simp
  refine ⟨g.names.mono le, fun a d there => ?_⟩
  rcases Heap.get?_alloc_eq_some_iff.1 there with ⟨-, rfl⟩ | there
  · exact made.mono le
  · exact (g.cells a d there).mono le

theorem set (g : Scripted names heap) (a : Addr) {c : Cell} (made : c.Scripted heap.size) :
    Scripted names (heap.set a c) := by
  refine ⟨by rw [Heap.size_set]; exact g.names, fun b d there => ?_⟩
  rw [Heap.size_set]
  rcases Heap.get?_set_eq_some there with rfl | there
  · exact made
  · exact g.cells b d there

theorem setAttribute (g : Scripted names heap) (a : Addr) {attr : String} {b : Binding}
    (word : OneWord attr) (bound : b.Scripted heap.size) :
    Scripted names (heap.setAttribute a attr b) := by
  rw [Heap.setAttribute]
  split
  · next type attrs there => exact g.set a (Table.Scripted.set (g.cells a _ there) word bound)
  · exact g

theorem setItems (g : Scripted names heap) (a : Addr) {items : List Binding}
    (bound : ∀ b ∈ items, b.Scripted heap.size) : Scripted names (heap.setItems a items) := by
  rw [Heap.setItems]
  split
  · exact g.set a bound
  · exact g

end Scripted

/-! ## Resolving -/

mutual

theorem Resolves.scripted {active : List Addr} {b : Binding} {h h' : Heap}
    {result : Except Fault Value} (store : Scripted names h) (bound : b.Scripted h.size) :
    Resolves names active b h result h' → Scripted names h' ∧ h.size ≤ h'.size ∧
      ∀ v, result = .ok v → v.Scripted h'.size
  | .lost _ => ⟨store, Nat.le_refl _, fun v same => nomatch same⟩
  | .inert found _ => by
    refine ⟨store, Nat.le_refl _, fun v same => ?_⟩
    cases same
    exact store.leads (leads_of_deref found) bound
  | .list found new there calls => by
    obtain ⟨store', le, results⟩ := calls.scripted store (store.cells _ _ there)
    refine ⟨store'.alloc fun c mem => ?_, Nat.le_trans le (by simp), fun v same => ?_⟩
    · obtain ⟨v, inside, rfl⟩ := List.mem_map.1 mem
      exact results _ rfl v inside
    · cases same
      exact Nat.lt_of_lt_of_eq (Nat.lt_succ_self _) (Heap.size_alloc ..).symm
  | .listFails found new there calls => by
    obtain ⟨store', le, -⟩ := calls.scripted store (store.cells _ _ there)
    exact ⟨store', le, fun v same => nomatch same⟩
  | @Resolves.object _ _ _ _ _ a type attrs r found new there calls => by
    have cell : attrs.Scripted h.size := store.cells a _ there
    obtain ⟨store', le⟩ := calls.scripted store fun key mem => cell.oneWord mem
    refine ⟨store', le, fun v same => ?_⟩
    cases r with
    | error e => cases same
    | ok =>
      cases same
      exact (store.leads (leads_of_deref found) bound).mono le

theorem ResolvesItems.scripted {active : List Addr} {items : List Binding} {h h' : Heap}
    {result : Except Fault (List Value)} (store : Scripted names h)
    (bound : ∀ b ∈ items, b.Scripted h.size) :
    ResolvesItems names active items h result h' → Scripted names h' ∧ h.size ≤ h'.size ∧
      ∀ vs, result = .ok vs → ∀ v ∈ vs, v.Scripted h'.size
  | .noItems => by
    refine ⟨store, Nat.le_refl _, fun vs same v mem => ?_⟩
    cases same
    cases mem
  | @ResolvesItems.item _ _ b _ _ _ _ v r call calls => by
    obtain ⟨store', le, result⟩ := call.scripted store (bound b (List.mem_cons_self ..))
    obtain ⟨store'', le', results⟩ := calls.scripted store' fun c mem =>
      (bound c (List.mem_cons_of_mem _ mem)).mono le
    refine ⟨store'', Nat.le_trans le le', fun vs same w mem => ?_⟩
    cases r with
    | error e => cases same
    | ok ws =>
      cases same
      rcases List.mem_cons.1 mem with rfl | mem
      · exact (result w rfl).mono le'
      · exact results ws rfl w mem
  | .itemFails call => by
    obtain ⟨store', le, -⟩ := call.scripted store (bound _ (List.mem_cons_self ..))
    exact ⟨store', le, fun vs same => nomatch same⟩

theorem ResolvesAttributes.scripted {active : List Addr} {a : Addr} {keys : List String}
    {h h' : Heap} {result : Except Fault Unit} (store : Scripted names h)
    (words : ∀ key ∈ keys, OneWord key) :
    ResolvesAttributes names active a keys h result h' → Scripted names h' ∧ h.size ≤ h'.size
  | .noAttributes => ⟨store, Nat.le_refl _⟩
  | @ResolvesAttributes.attr _ _ _ key _ _ _ _ v _ call calls => by
    obtain ⟨store', le, result⟩ := call.scripted store (store.readAttribute _ _)
    have settled := store'.setAttribute a (words key (List.mem_cons_self ..))
      (show (Binding.value v).Scripted _ from result v rfl)
    obtain ⟨store'', le'⟩ := calls.scripted settled fun other mem =>
      words other (List.mem_cons_of_mem _ mem)
    rw [Heap.size_setAttribute] at le'
    exact ⟨store'', Nat.le_trans le le'⟩
  | .attrFails call => by
    obtain ⟨store', le, -⟩ := call.scripted store (store.readAttribute _ _)
    exact ⟨store', le⟩

end

/-! ## Written forms -/

namespace Reference

theorem count_render (r : Reference) : r.render.toList.count ' ' =
    match r with
    | .name n => n.toList.count ' '
    | .path obj attr => obj.toList.count ' ' + (1 + attr.toList.count ' ') := by
  cases r with
  | name n => rfl
  | path obj attr => simp [render, List.count_append, Nat.add_comm]

theorem path_of_render_eq {obj attr obj' attr' : String} (word : OneWord obj)
    (word' : OneWord obj') (same : (path obj attr).render = (path obj' attr').render) :
    path obj attr = path obj' attr' := by
  have chars := congrArg String.toList same
  simp only [render, String.toList_append] at chars
  have fst := congrArg (List.takeWhile (· ≠ ' ')) chars
  have snd := congrArg (List.dropWhile (· ≠ ' ')) chars
  have stop : ∀ {o a : String}, OneWord o →
      (o.toList ++ " ".toList ++ a.toList).takeWhile (· ≠ ' ') = o.toList ∧
        (o.toList ++ " ".toList ++ a.toList).dropWhile (· ≠ ' ') = ' ' :: a.toList := by
    intro o a free
    have all : ∀ c ∈ o.toList, decide (c ≠ ' ') = true := fun c mem =>
      decide_eq_true fun same => free (same ▸ mem)
    rw [List.append_assoc, List.takeWhile_append_of_pos all, List.dropWhile_append_of_pos all]
    simp
  rw [(stop word).1, (stop word').1] at fst
  rw [(stop word).2, (stop word').2] at snd
  rw [String.toList_inj.1 fst, String.toList_inj.1 (List.cons.inj snd).2]

/-- A reference without spaces in its names is written like no other one, but for names with spaces.
-/
theorem eq_of_render_eq {r q : Reference} (free : q.Spaceless)
    (word : ∀ n, r = .name n → OneWord n) (same : r.render = q.render) : r = q := by
  have count := congrArg (fun s => s.toList.count ' ') same
  simp only [count_render] at count
  cases q with
  | name n =>
    have none : n.toList.count ' ' = 0 := List.count_eq_zero.2 free
    cases r with
    | name m => exact congrArg name same
    | path obj attr =>
      simp only [none] at count
      omega
  | path obj attr =>
    have none : obj.toList.count ' ' = 0 := List.count_eq_zero.2 free.1
    have none' : attr.toList.count ' ' = 0 := List.count_eq_zero.2 free.2
    simp only [none, none'] at count
    cases r with
    | name m =>
      simp only [List.count_eq_zero.2 (word m rfl)] at count
      omega
    | path obj' attr' =>
      refine path_of_render_eq (List.count_eq_zero.1 ?_) free.1 same
      simp only at count
      omega

end Reference

/-- No name and no name in a stored reference holds a space. -/
structure Spaceless (names : Table Binding) (heap : Heap) : Prop where
  bound : ∀ entry ∈ names.entries, OneWord entry.1
  stored : ∀ r, Stored names heap (.reference r) → r.Spaceless

namespace Spaceless

/-- A name with a space in it is unbound. -/
theorem meets_of_not_oneWord (g : Spaceless names heap) {n : String} (spaced : ¬ OneWord n)
    {q : Reference} (way : Meets names heap (.name n) q) : q = .name n := by
  rcases ReflTransGen.cases_head way with same | ⟨p, step, -⟩
  · exact same.symm
  · rcases step with next | ⟨obj, attr, same, -⟩
    · have found := Table.mem_of_get? (Table.get?_of_read (holds_name_iff.1 next).symm)
      exact absurd (g.bound _ found) spaced
    · cases same

theorem writtenApart (g : Spaceless names heap) (r : Reference) : WrittenApart names heap r := by
  intro p q left right same
  by_cases spaced : ∃ n, r = .name n ∧ ¬ OneWord n
  · obtain ⟨n, rfl, spaced⟩ := spaced
    rw [g.meets_of_not_oneWord spaced left, g.meets_of_not_oneWord spaced right]
  · -- Of two references on the way at least one is stored, and written without further spaces.
    have word : ∀ p, Meets names heap r p → ∀ n, p = .name n → OneWord n := by
      rintro p way n rfl
      rcases Stored.of_meets way with rfl | stored
      · by_contra not
        exact spaced ⟨n, rfl, not⟩
      · exact g.stored _ stored
    rcases Stored.of_meets left with rfl | stored
    · rcases Stored.of_meets right with rfl | stored
      · rfl
      · exact Reference.eq_of_render_eq (g.stored _ stored) (word p left) same
    · exact (Reference.eq_of_render_eq (g.stored _ stored) (word q right) same.symm).symm

end Spaceless

namespace Scripted

theorem spaceless_of_stored (g : Scripted names heap) {r : Reference}
    (stored : Stored names heap (.reference r)) : r.Spaceless := by
  cases stored with
  | name mem => exact (g.names.2 _ mem).2
  | item there mem => exact g.cells _ _ there _ mem
  | slot there mem => exact ((g.cells _ _ there).2 _ mem).2

theorem spaceless (g : Scripted names heap) : Spaceless names heap :=
  ⟨fun entry mem => (g.names.2 entry mem).1, fun _ => g.spaceless_of_stored⟩

theorem writtenApart (g : Scripted names heap) (r : Reference) : WrittenApart names heap r :=
  g.spaceless.writtenApart r

end Scripted

end AliasScript

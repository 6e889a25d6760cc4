import AliasScript.Proofs.Plain
import AliasScript.Tree.Same
import Mathlib.Data.List.Nodup
import Mathlib.Data.List.Pairwise
import Mathlib.Data.List.Perm.Subperm

/-!
# Equality of finite values

Finite values in which no key stands twice are compared by what they hold, and that is an
equivalence over all their kinds (`Tree.same_refl`, `Tree.same_symm`, `Tree.same_trans`). Mappings
are the hard case: each entry of one has an equal one in the other, and as both have as many entries
and no key twice, each entry of the other is met as well. Neither the types that containers were
made as nor the order of the entries count (`Tree.Rearranged`).
-/

namespace AliasScript

/-- The scalars that hosts and programs compare by their worth. -/
inductive Scalar.IsPlain : Scalar → Prop
  | nothing : IsPlain .nothing
  | truth (b : Bool) : IsPlain (.truth b)
  | number (n : Int) : IsPlain (.number n)
  | text (s : String) : IsPlain (.text s)

theorem Scalar.IsPlain.same_iff {s t : Scalar} (h : s.IsPlain) :
    s.same t = true ↔ s.normal = t.normal := by
  cases h <;> simp [Scalar.same_iff, Scalar.normal, Scalar.isUndefined]

theorem Scalar.IsPlain.same_refl {s : Scalar} (h : s.IsPlain) : s.same s = true := h.same_iff.2 rfl

namespace Tree

/-- No two keys are equal. -/
def KeysApart (entries : List (Scalar × Tree)) : Prop :=
  entries.Pairwise fun e f => e.1.same f.1 = false

/-- A value made of plain scalars, references and containers, in no mapping of which a key stands
twice. -/
inductive IsComparable : Tree → Prop
  | scalar {s : Scalar} : s.IsPlain → IsComparable (.scalar s)
  | reference (r : Reference) : IsComparable (.reference r)
  | sequence {kind : SequenceKind} {items : List Tree} : (∀ t ∈ items, t.IsComparable) →
    IsComparable (.sequence kind items)
  | mapping {kind : MappingKind} {entries : List (Scalar × Tree)} : KeysApart entries →
    (∀ e ∈ entries, e.1.IsPlain) → (∀ e ∈ entries, e.2.IsComparable) →
      IsComparable (.mapping kind entries)

/-- The same value up to what does not count: the types that containers were made as, the sort of a
mapping or of a list, and the order of entries, at any depth. -/
inductive Rearranged : Tree → Tree → Prop
  | scalar (s : Scalar) : Rearranged (.scalar s) (.scalar s)
  | reference (r : Reference) : Rearranged (.reference r) (.reference r)
  | sequence {kind kind' : SequenceKind} {items items' : List Tree} :
    kind.comparable kind' = true → items.Forall₂ Rearranged items' →
      Rearranged (.sequence kind items) (.sequence kind' items')
  | mapping {kind kind' : MappingKind} {entries middle entries' : List (Scalar × Tree)} :
    entries.map Prod.fst = middle.map Prod.fst →
      (entries.map Prod.snd).Forall₂ Rearranged (middle.map Prod.snd) → middle.Perm entries' →
        Rearranged (.mapping kind entries) (.mapping kind' entries')

@[elab_as_elim]
theorem induction {motive : Tree → Prop} (scalar : ∀ s, motive (.scalar s))
    (reference : ∀ r, motive (.reference r))
    (sequence : ∀ kind items, (∀ t ∈ items, motive t) → motive (.sequence kind items))
    (mapping : ∀ kind entries, (∀ e ∈ entries, motive e.2) → motive (.mapping kind entries))
    (t : Tree) : motive t := by
  induction size : sizeOf t using Nat.strongRecOn generalizing t with
  | ind n ih =>
    cases t with
    | scalar s => exact scalar s
    | reference r => exact reference r
    | sequence kind items =>
      exact sequence kind items fun t mem => ih _ (size ▸ sizeOf_lt_sequence mem) t rfl
    | mapping kind entries =>
      exact mapping kind entries fun e mem => ih _ (size ▸ sizeOf_lt_mapping mem) e.2 rfl

/-! ## Keys -/

section

variable {entries : List (Scalar × Tree)}

theorem differ_symm {e f : Scalar × Tree} (differ : e.1.same f.1 = false) :
    f.1.same e.1 = false := by
  rw [← Bool.not_eq_true] at differ ⊢
  exact fun same => differ (Scalar.same_symm same)

instance : Std.Symm fun e f : Scalar × Tree => e.1.same f.1 = false := ⟨fun _ _ => differ_symm⟩

/-- Plain keys that are apart count as different scalars. Undefined decimals would not: they differ
from themselves. -/
theorem KeysApart.nodup (apart : KeysApart entries) (plain : ∀ e ∈ entries, e.1.IsPlain) :
    (entries.map fun e => e.1.normal).Nodup := by
  rw [List.Nodup, List.pairwise_map]
  refine List.Pairwise.imp_of_mem (fun {e f} mem _ differ equal => ?_) apart
  rw [(plain e mem).same_iff.2 equal] at differ
  cases differ

theorem KeysApart.eq_of_same (apart : KeysApart entries) {e f : Scalar × Tree} (mem : e ∈ entries)
    (mem' : f ∈ entries) (same : e.1.same f.1 = true) : e = f := by
  by_contra other
  have differ := List.Pairwise.forall apart mem mem' other
  rw [same] at differ
  cases differ

theorem KeysApart.valueUnder?_eq_some_iff (apart : KeysApart entries) {key : Scalar} {t : Tree} :
    valueUnder? key entries = some t ↔ ∃ e ∈ entries, key.same e.1 = true ∧ e.2 = t := by
  induction entries with
  | nil => simp [valueUnder?]
  | cons first rest ih =>
    obtain ⟨others, apart⟩ := List.pairwise_cons.1 apart
    rw [valueUnder?]
    by_cases here : key.same first.1 = true
    · rw [if_pos here]
      constructor
      · intro found
        exact ⟨first, List.mem_cons_self .., here, Option.some.inj found⟩
      · rintro ⟨e, mem, same, rfl⟩
        rcases List.mem_cons.1 mem with rfl | mem
        · rfl
        · have again := Scalar.same_trans (Scalar.same_symm here) same
          rw [others e mem] at again
          cases again
    · rw [if_neg here, ih apart]
      constructor
      · rintro ⟨e, mem, found⟩
        exact ⟨e, List.mem_cons_of_mem _ mem, found⟩
      · rintro ⟨e, mem, same, found⟩
        rcases List.mem_cons.1 mem with rfl | mem
        · exact absurd same here
        · exact ⟨e, mem, same, found⟩

/-- Where each of so many different keys is met among no more others, each of the others is met. -/
theorem KeysApart.exists_same {others : List (Scalar × Tree)} (apart : KeysApart entries)
    (plain : ∀ e ∈ entries, e.1.IsPlain) (size : others.length ≤ entries.length)
    (met : ∀ e ∈ entries, ∃ f ∈ others, e.1.same f.1 = true) :
    ∀ f ∈ others, ∃ e ∈ entries, e.1.same f.1 = true := by
  have among : (entries.map fun e => e.1.normal) ⊆ others.map fun f => f.1.normal := by
    intro key inside
    obtain ⟨e, mem, rfl⟩ := List.mem_map.1 inside
    obtain ⟨f, mem', same⟩ := met e mem
    exact List.mem_map.2 ⟨f, mem', ((plain e mem).same_iff.1 same).symm⟩
  have keys : (entries.map fun e => e.1.normal).Perm (others.map fun f => f.1.normal) :=
    ((apart.nodup plain).subperm among).perm_of_length_le (by simpa using size)
  intro f mem
  obtain ⟨e, mem', same⟩ := List.mem_map.1 (keys.mem_iff.2 (List.mem_map.2 ⟨f, mem, rfl⟩))
  exact ⟨e, mem', (plain e mem').same_iff.2 same⟩

end

/-! ## One container -/

theorem comparable_iff {kind kind' : SequenceKind} :
    kind.comparable kind' = true ↔ (kind = .hostTuple ↔ kind' = .hostTuple) := by
  simp [SequenceKind.comparable]

theorem sameItems_iff {items items' : List Tree} : sameItems items items' = true ↔
    items.Forall₂ (fun t u => t.same u = true) items' := by
  induction items generalizing items' with
  | nil => cases items' <;> simp [sameItems]
  | cons t rest ih => cases items' <;> simp [sameItems, ih]

theorem same_sequence_iff {kind kind' : SequenceKind} {items items' : List Tree} :
    (sequence kind items).same (.sequence kind' items') = true ↔
      kind.comparable kind' = true ∧ items.Forall₂ (fun t u => t.same u = true) items' := by
  rw [same, Bool.and_eq_true, sameItems_iff]

theorem sameEntries_iff {entries entries' : List (Scalar × Tree)} (apart : KeysApart entries') :
    sameEntries entries entries' = true ↔
      ∀ e ∈ entries, ∃ f ∈ entries', e.1.same f.1 = true ∧ e.2.same f.2 = true := by
  induction entries with
  | nil => simp [sameEntries]
  | cons e rest ih =>
    rw [sameEntries, Bool.and_eq_true, ih, List.forall_mem_cons]
    refine and_congr_left fun _ => ?_
    cases found : valueUnder? e.1 entries' with
    | none =>
      refine iff_of_false (by simp) ?_
      rintro ⟨f, mem, same, -⟩
      rw [apart.valueUnder?_eq_some_iff.2 ⟨f, mem, same, rfl⟩] at found
      cases found
    | some u =>
      obtain ⟨f, mem, same, rfl⟩ := apart.valueUnder?_eq_some_iff.1 found
      constructor
      · exact fun equal => ⟨f, mem, same, equal⟩
      · rintro ⟨f', mem', same', equal⟩
        rw [apart.eq_of_same mem mem' (Scalar.same_trans (Scalar.same_symm same) same')]
        exact equal

theorem same_mapping_iff {kind kind' : MappingKind} {entries entries' : List (Scalar × Tree)}
    (apart : KeysApart entries') : (mapping kind entries).same (.mapping kind' entries') = true ↔
      entries.length = entries'.length ∧
        ∀ e ∈ entries, ∃ f ∈ entries', e.1.same f.1 = true ∧ e.2.same f.2 = true := by
  rw [same, Bool.and_eq_true, sameEntries_iff apart, beq_iff_eq]

/-! ## Item by item -/

section

variable {α β γ : Type} {R : α → β → Prop} {S : β → γ → Prop} {T : α → γ → Prop}

theorem forall₂_imp_of_mem {R' : α → β → Prop} {xs : List α} {ys : List β} (all : xs.Forall₂ R ys)
    (imp : ∀ x ∈ xs, ∀ y ∈ ys, R x y → R' x y) : xs.Forall₂ R' ys := by
  induction all with
  | nil => exact .nil
  | cons first _ ih =>
    refine .cons (imp _ (List.mem_cons_self ..) _ (List.mem_cons_self ..) first) (ih ?_)
    exact fun x mem y mem' => imp x (List.mem_cons_of_mem _ mem) y (List.mem_cons_of_mem _ mem')

theorem forall₂_trans_of_mem {xs : List α} {ys : List β} {zs : List γ} (all : xs.Forall₂ R ys)
    (all' : ys.Forall₂ S zs) (trans : ∀ x ∈ xs, ∀ y ∈ ys, ∀ z ∈ zs, R x y → S y z → T x z) :
    xs.Forall₂ T zs := by
  induction all generalizing zs with
  | nil =>
    cases all'
    exact .nil
  | cons first _ ih =>
    cases all' with
    | cons first' rest' =>
      refine .cons (trans _ (List.mem_cons_self ..) _ (List.mem_cons_self ..) _
        (List.mem_cons_self ..) first first') (ih rest' ?_)
      exact fun x mem y mem' z mem'' => trans x (List.mem_cons_of_mem _ mem) y
        (List.mem_cons_of_mem _ mem') z (List.mem_cons_of_mem _ mem'')

theorem exists_of_forall₂ {xs : List α} {ys : List β} (all : xs.Forall₂ R ys) {y : β}
    (mem : y ∈ ys) : ∃ x ∈ xs, R x y := by
  induction all with
  | nil => cases mem
  | cons first _ ih =>
    rcases List.mem_cons.1 mem with rfl | mem
    · exact ⟨_, List.mem_cons_self .., first⟩
    · obtain ⟨x, inside, related⟩ := ih mem
      exact ⟨x, List.mem_cons_of_mem _ inside, related⟩

end

/-! ## An equivalence -/

theorem same_refl {t : Tree} (h : t.IsComparable) : t.same t = true := by
  induction t using Tree.induction with
  | scalar s =>
    cases h with
    | scalar plain => exact plain.same_refl
  | reference r => simp [same]
  | sequence kind items ih =>
    cases h with
    | sequence inner =>
      refine same_sequence_iff.2 ⟨comparable_iff.2 Iff.rfl, ?_⟩
      exact List.forall₂_same.2 fun t mem => ih t mem (inner t mem)
  | mapping kind entries ih =>
    cases h with
    | mapping apart plain inner =>
      refine (same_mapping_iff apart).2 ⟨rfl, fun e mem => ⟨e, mem, (plain e mem).same_refl, ?_⟩⟩
      exact ih e mem (inner e mem)

theorem same_symm {t u : Tree} (h : t.IsComparable) (h' : u.IsComparable)
    (equal : t.same u = true) : u.same t = true := by
  induction t using Tree.induction generalizing u with
  | scalar s =>
    cases u with
    | scalar s' => exact Scalar.same_symm equal
    | _ => simp [same] at equal
  | reference r =>
    cases u with
    | reference r' =>
      simp only [same, decide_eq_true_eq] at equal ⊢
      exact equal.symm
    | _ => simp [same] at equal
  | sequence kind items ih =>
    cases h with | sequence inner =>
    cases h' with
    | sequence inner' =>
      obtain ⟨kinds, all⟩ := same_sequence_iff.1 equal
      refine same_sequence_iff.2 ⟨comparable_iff.2 (comparable_iff.1 kinds).symm, ?_⟩
      refine List.Forall₂.flip (forall₂_imp_of_mem all fun x mem y mem' equal => ?_)
      exact ih x mem (inner x mem) (inner' y mem') equal
    | _ => simp [same] at equal
  | mapping kind entries ih =>
    cases h with | mapping apart plain inner =>
    cases h' with
    | @mapping _ entries' apart' _ inner' =>
      obtain ⟨size, met⟩ := (same_mapping_iff apart').1 equal
      -- An entry of the other mapping is not looked up from this side: that it is met comes from
      -- counting the keys.
      refine (same_mapping_iff apart).2 ⟨size.symm, fun f mem => ?_⟩
      have keys : ∀ e ∈ entries, ∃ f ∈ entries', e.1.same f.1 = true := fun e mem => by
        obtain ⟨f, mem', same, -⟩ := met e mem
        exact ⟨f, mem', same⟩
      obtain ⟨e, mem', same⟩ := apart.exists_same plain (Nat.le_of_eq size.symm) keys f mem
      obtain ⟨f', mem'', same', equal⟩ := met e mem'
      have one : f = f' :=
        apart'.eq_of_same mem mem'' (Scalar.same_trans (Scalar.same_symm same) same')
      subst one
      exact ⟨e, mem', Scalar.same_symm same, ih e mem' (inner e mem') (inner' f mem) equal⟩
    | _ => simp [same] at equal

theorem same_trans {t u v : Tree} (h' : u.IsComparable) (h'' : v.IsComparable)
    (first : t.same u = true) (second : u.same v = true) : t.same v = true := by
  induction t using Tree.induction generalizing u v with
  | scalar s =>
    cases u with
    | scalar s' =>
      cases v with
      | scalar s'' => exact Scalar.same_trans first second
      | _ => simp [same] at second
    | _ => simp [same] at first
  | reference r =>
    cases u with
    | reference r' =>
      simp only [same, decide_eq_true_eq] at first
      exact first ▸ second
    | _ => simp [same] at first
  | sequence kind items ih =>
    cases h' with
    | sequence inner' =>
      cases h'' with
      | sequence inner'' =>
        obtain ⟨kinds, all⟩ := same_sequence_iff.1 first
        obtain ⟨kinds', all'⟩ := same_sequence_iff.1 second
        have kinds'' := (comparable_iff.1 kinds).trans (comparable_iff.1 kinds')
        refine same_sequence_iff.2 ⟨comparable_iff.2 kinds'', ?_⟩
        refine forall₂_trans_of_mem all all' fun x mem y mem' z mem'' => ?_
        exact ih x mem (inner' y mem') (inner'' z mem'')
      | _ => simp [same] at second
    | _ => simp [same] at first
  | mapping kind entries ih =>
    cases h' with
    | mapping apart' _ inner' =>
      cases h'' with
      | mapping apart'' _ inner'' =>
        obtain ⟨size, met⟩ := (same_mapping_iff apart').1 first
        obtain ⟨size', met'⟩ := (same_mapping_iff apart'').1 second
        refine (same_mapping_iff apart'').2 ⟨size.trans size', fun e mem => ?_⟩
        obtain ⟨f, mem', same, equal⟩ := met e mem
        obtain ⟨g, mem'', same', equal'⟩ := met' f mem'
        refine ⟨g, mem'', Scalar.same_trans same same', ?_⟩
        exact ih e mem (inner' f mem') (inner'' g mem'') equal equal'
      | _ => simp [same] at second
    | _ => simp [same] at first

/-! ## What does not count -/

theorem forall₂_entries {R : Tree → Tree → Prop} {entries middle : List (Scalar × Tree)}
    (keys : entries.map Prod.fst = middle.map Prod.fst)
    (values : (entries.map Prod.snd).Forall₂ R (middle.map Prod.snd)) :
    entries.Forall₂ (fun e f => e.1 = f.1 ∧ R e.2 f.2) middle := by
  rw [List.forall₂_map_left_iff, List.forall₂_map_right_iff] at values
  induction values with
  | nil => exact .nil
  | cons first _ ih =>
    obtain ⟨key, keys⟩ := List.cons.inj keys
    exact .cons ⟨key, first⟩ (ih keys)

theorem KeysApart.of_perm {entries middle entries' : List (Scalar × Tree)}
    (apart : KeysApart entries) (keys : entries.map Prod.fst = middle.map Prod.fst)
    (moved : middle.Perm entries') : KeysApart entries' := by
  have there : KeysApart middle := by
    have named : (entries.map Prod.fst).Pairwise (·.same · = false) := List.pairwise_map.2 apart
    rw [keys] at named
    exact List.pairwise_map.1 named
  exact (moved.pairwise_iff differ_symm).1 there

namespace Rearranged

theorem isComparable {t u : Tree} (h : t.Rearranged u) (whole : t.IsComparable) :
    u.IsComparable := by
  induction t using Tree.induction generalizing u with
  | scalar s =>
    cases h
    exact whole
  | reference r =>
    cases h
    exact whole
  | sequence kind items ih =>
    cases h with | sequence kinds all =>
    cases whole with | sequence inner =>
    refine .sequence fun y mem => ?_
    obtain ⟨x, mem', related⟩ := exists_of_forall₂ all mem
    exact ih x mem' related (inner x mem')
  | mapping kind entries ih =>
    cases h with | @mapping _ _ _ _ entries' keys all moved =>
    cases whole with | mapping apart plain inner =>
    have one : ∀ f ∈ entries', ∃ e ∈ entries, e.1 = f.1 ∧ Rearranged e.2 f.2 := fun f mem =>
      exists_of_forall₂ (forall₂_entries keys all) (moved.mem_iff.2 mem)
    refine .mapping (apart.of_perm keys moved) (fun f mem => ?_) fun f mem => ?_
    · obtain ⟨e, mem', key, -⟩ := one f mem
      exact key ▸ plain e mem'
    · obtain ⟨e, mem', -, related⟩ := one f mem
      exact ih e mem' related (inner e mem')

theorem same {t u : Tree} (h : t.Rearranged u) (whole : t.IsComparable) : t.same u = true := by
  induction t using Tree.induction generalizing u with
  | scalar s =>
    cases h
    exact same_refl whole
  | reference r =>
    cases h
    exact same_refl whole
  | sequence kind items ih =>
    cases h with | sequence kinds all =>
    cases whole with | sequence inner =>
    refine same_sequence_iff.2 ⟨kinds, forall₂_imp_of_mem all fun x mem y _ related => ?_⟩
    exact ih x mem related (inner x mem)
  | mapping kind entries ih =>
    cases h with | mapping keys all moved =>
    cases whole with | mapping apart plain inner =>
    have pairs := forall₂_entries keys all
    refine (same_mapping_iff (apart.of_perm keys moved)).2
      ⟨pairs.length_eq.trans moved.length_eq, fun e mem => ?_⟩
    obtain ⟨f, mem', key, related⟩ := exists_of_forall₂ pairs.flip mem
    exact ⟨f, moved.mem_iff.1 mem', key ▸ (plain e mem).same_refl, ih e mem related (inner e mem)⟩

theorem same_iff {t u v : Tree} (h : t.Rearranged u) (whole : t.IsComparable)
    (whole' : v.IsComparable) : t.same v = true ↔ u.same v = true := by
  have equal := h.same whole
  have whole'' := h.isComparable whole
  exact ⟨fun first => same_trans whole whole' (same_symm whole whole'' equal) first,
    fun first => same_trans whole'' whole' equal first⟩

end Rearranged

end Tree

end AliasScript

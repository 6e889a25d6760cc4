import AliasScript.Proofs.Retracing
import AliasScript.Tree.Basic

/-!
# Printing what was resolved twice

What two heaps hold prints the same where it is related by a relation that goes on from every
container to what it holds (`Mirrors.unfold_eq`). The two results of resolving a binding twice,
where the first time fills objects with finite values only, are related in this way
(`Call.Reprints`): the results of matching calls are the same container, or copies of the same list;
what has a meaning is without references both times; and whatever else hangs on the results is left
as it is by the second time (`Call.Finitary.mirrors`).
-/

namespace AliasScript

open Relation

/-! ## Heaps that print the same -/

section

variable (h h' : Heap) (R : Binding → Binding → Prop)

/-- Two bindings are the same and no container, or containers of one kind that hold bindings related
to each other. -/
inductive Mirrored : Binding → Binding → Prop
  | same {b : Binding} : (∀ a, b ≠ .value (.cell a)) → Mirrored b b
  | list {a a' : Addr} {type : Option String} {items items' : List Binding} :
    h.get? a = some (.list type items) → h'.get? a' = some (.list type items') →
      items.Forall₂ R items' → Mirrored (.value (.cell a)) (.value (.cell a'))
  | object {a a' : Addr} {type : Option String} {attrs attrs' : Table Binding} :
    h.get? a = some (.object type attrs) → h'.get? a' = some (.object type attrs') →
      attrs.entries.Forall₂ (fun e e' => e.1 = e'.1 ∧ R e.2 e'.2) attrs'.entries →
        Mirrored (.value (.cell a)) (.value (.cell a'))

/-- Whatever is related is mirrored, all the way down. -/
def Mirrors : Prop := ∀ b b', R b b' → Mirrored h h' R b b'

end

variable {h h' : Heap} {R : Binding → Binding → Prop}

theorem eq_of_mapM_of_forall₂ {α β γ : Type} {S : α → β → Prop} {f : α → Option γ}
    {g : β → Option γ} {xs : List α} {ys : List β} (all : xs.Forall₂ S ys) :
    ∀ {zs zs' : List γ}, (∀ x y z z', z ∈ zs → S x y → f x = some z → g y = some z' → z = z') →
      xs.mapM f = some zs → ys.mapM g = some zs' → zs = zs' := by
  induction all with
  | nil =>
    intro zs zs' _ walk walk'
    cases walk
    cases walk'
    rfl
  | @cons x y xs ys here _ ih =>
    intro zs zs' same walk walk'
    rw [List.mapM_cons] at walk walk'
    obtain ⟨z, found, rest⟩ := Option.bind_eq_some_iff.1 walk
    obtain ⟨us, walked, ends⟩ := Option.bind_eq_some_iff.1 rest
    obtain ⟨z', found', rest'⟩ := Option.bind_eq_some_iff.1 walk'
    obtain ⟨us', walked', ends'⟩ := Option.bind_eq_some_iff.1 rest'
    cases ends
    cases ends'
    rw [same x y z z' (List.mem_cons_self ..) here found found',
      ih (fun x y u u' mem => same x y u u' (List.mem_cons_of_mem _ mem)) walked walked']

theorem not_mem_path_of_unfold {a : Addr} {path : List Addr} {t : Tree}
    (unfolded : h.unfold .printed path (.value (.cell a)) = some t) : a ∉ path := by
  intro mem
  rw [Heap.unfold, dif_pos mem] at unfolded
  cases unfolded

/-- What is related and can be printed is printed alike. -/
theorem Mirrors.unfold_eq (mirrors : Mirrors h h' R) {t t' : Tree} {path path' : List Addr}
    {b b' : Binding} (related : R b b') (unfolded : h.unfold .printed path b = some t)
    (unfolded' : h'.unfold .printed path' b' = some t') : t = t' := by
  induction size : sizeOf t using Nat.strongRecOn generalizing t t' path path' b b' with
  | ind n ih =>
    cases mirrors b b' related with
    | same bare =>
      rcases b with (s | a) | r
      · rw [Heap.unfold] at unfolded unfolded'
        exact Option.some.inj (unfolded.symm.trans unfolded')
      · exact absurd rfl (bare a)
      · rw [Heap.unfold] at unfolded unfolded'
        exact Option.some.inj (unfolded.symm.trans unfolded')
    | list there there' all =>
      rw [Heap.unfold_cell _ there (not_mem_path_of_unfold unfolded), Cell.tree?] at unfolded
      rw [Heap.unfold_cell _ there' (not_mem_path_of_unfold unfolded'), Cell.tree?] at unfolded'
      obtain ⟨ts, walk, rfl⟩ := Option.map_eq_some_iff.1 unfolded
      obtain ⟨ts', walk', rfl⟩ := Option.map_eq_some_iff.1 unfolded'
      have same : ts = ts' := by
        refine eq_of_mapM_of_forall₂ all (fun c c' u u' mem related found found' => ?_) walk walk'
        exact ih (sizeOf u) (size ▸ sizeOf_lt_sequence mem) related found found' rfl
      rw [same]
    | object there there' all =>
      rw [Heap.unfold_cell _ there (not_mem_path_of_unfold unfolded), Cell.tree?,
        if_neg (by decide)] at unfolded
      rw [Heap.unfold_cell _ there' (not_mem_path_of_unfold unfolded'), Cell.tree?,
        if_neg (by decide)] at unfolded'
      obtain ⟨es, walk, rfl⟩ := Option.map_eq_some_iff.1 unfolded
      obtain ⟨es', walk', rfl⟩ := Option.map_eq_some_iff.1 unfolded'
      have same : es = es' := by
        refine eq_of_mapM_of_forall₂ all (fun e e' x x' mem both found found' => ?_) walk walk'
        obtain ⟨u, inner, rfl⟩ := Option.map_eq_some_iff.1 found
        obtain ⟨u', inner', rfl⟩ := Option.map_eq_some_iff.1 found'
        have equal := ih (sizeOf u) (size ▸ sizeOf_lt_mapping mem) both.2 inner inner' rfl
        rw [both.1, equal]
      rw [same]

/-! ## Plain bindings -/

section

variable (plain : ∀ t b b', IsPlain h t b → IsPlain h' t b' → R b b')
include plain

theorem forall₂_of_plain_items : ∀ {ts : List Tree} {items items' : List Binding},
    UnfoldsItems h (fun b v => b = .value v) ts items →
      UnfoldsItems h' (fun b v => b = .value v) ts items' → items.Forall₂ R items'
  | [], items, items', all, all' => by
    cases items with
    | nil =>
      cases items' with
      | nil => exact .nil
      | cons => exact all'.elim
    | cons => exact all.elim
  | t :: ts, items, items', all, all' => by
    cases items with
    | nil => exact all.elim
    | cons b items =>
      cases items' with
      | nil => exact all'.elim
      | cons b' items' =>
        rw [UnfoldsItems] at all all'
        exact .cons (plain t b b' all.1 all'.1) (forall₂_of_plain_items all.2 all'.2)

theorem forall₂_of_plain_entries : ∀ {es : List (Scalar × Tree)}
    {entries entries' : List (String × Binding)},
    UnfoldsEntries h (fun b v => b = .value v) es entries →
      UnfoldsEntries h' (fun b v => b = .value v) es entries' →
        entries.Forall₂ (fun e e' => e.1 = e'.1 ∧ R e.2 e'.2) entries'
  | [], entries, entries', all, all' => by
    cases entries with
    | nil =>
      cases entries' with
      | nil => exact .nil
      | cons => exact all'.elim
    | cons => exact all.elim
  | (key, t) :: es, entries, entries', all, all' => by
    cases entries with
    | nil => exact all.elim
    | cons e entries =>
      cases entries' with
      | nil => exact all'.elim
      | cons e' entries' =>
        rw [UnfoldsEntries] at all all'
        obtain ⟨name, one, rest⟩ := all
        obtain ⟨name', other, rest'⟩ := all'
        refine .cons ⟨?_, plain t _ _ one other⟩ (forall₂_of_plain_entries rest rest')
        exact Scalar.text.inj (name.symm.trans name')

theorem mirrored_of_isPlain {t : Tree} {b b' : Binding} (one : IsPlain h t b)
    (other : IsPlain h' t b') : Mirrored h h' R b b' := by
  rw [IsPlain] at one other
  unfold Unfolds at one
  split at one
  · next s =>
    rw [Unfolds] at other
    subst one other
    exact .same (by rintro _ ⟨⟩)
  · next type ts =>
    rw [Unfolds] at other
    obtain ⟨a, items, rfl, there, all⟩ := one
    obtain ⟨a', items', rfl, there', all'⟩ := other
    exact .list there there' (forall₂_of_plain_items plain all all')
  · next type es =>
    rw [Unfolds] at other
    obtain ⟨a, attrs, rfl, there, all⟩ := one
    obtain ⟨a', attrs', rfl, there', all'⟩ := other
    exact .object there there' (forall₂_of_plain_entries plain all all')
  · exact one.elim

end

/-! ## Entry by entry -/

theorem forall₂_of_common {α β γ : Type} {S : α → β → Prop} {T : α → γ → Prop} {U : β → γ → Prop}
    {xs : List α} {ys : List β} {zs : List γ} (left : xs.Forall₂ S ys) (right : xs.Forall₂ T zs)
    (both : ∀ x y z, S x y → T x z → U y z) : ys.Forall₂ U zs := by
  induction left generalizing zs with
  | nil =>
    cases right
    exact .nil
  | cons first _ ih =>
    cases right with
    | cons second rest => exact .cons (both _ _ _ first second) (ih rest)

theorem Table.forall₂_entries {attrs attrs' : Table Binding} (distinct : attrs.names.Nodup)
    (same : attrs'.names = attrs.names)
    (each : ∀ key b b', attrs.get? key = some b → attrs'.get? key = some b' → R b b') :
    attrs.entries.Forall₂ (fun e e' => e.1 = e'.1 ∧ R e.2 e'.2) attrs'.entries := by
  have length : attrs.entries.length = attrs'.entries.length := by
    have := congrArg List.length same
    simpa [Table.names] using this.symm
  refine List.forall₂_iff_get.2 ⟨length, fun i lt lt' => ?_⟩
  have name : (attrs.entries.get ⟨i, lt⟩).1 = (attrs'.entries.get ⟨i, lt'⟩).1 := by
    have := congrArg (·[i]?) same
    simpa [Table.names, lt, lt'] using this.symm
  refine ⟨name, each _ _ _ (Table.get?_of_mem distinct (List.get_mem ..)) ?_⟩
  rw [name]
  exact Table.get?_of_mem (same ▸ distinct) (List.get_mem ..)

/-! ## The second time -/

namespace Call

variable {names : Table Binding}

/-- The call on the same binding on the heap that a call has left, with its result. -/
def again (root : Call) (v : Value) (after : Heap) : Call :=
  ⟨[], root.binding, root.after, v, after⟩

/-- What prints the same when a binding has been resolved for the first and for the second time:
what is without references, the results of matching calls, and what the second time leaves. -/
inductive Reprints (names : Table Binding) (root later : Call) : Binding → Binding → Prop
  | plain {t : Tree} {b b' : Binding} :
    IsPlain root.after t b → IsPlain later.after t b' → Reprints names root later b b'
  | results {c d : Call} : root.Below names c → later.Below names d → c.Matches names d →
    Reprints names root later (.value c.value) (.value d.value)
  | left {b : Binding} : b.Within root.after.size →
    (∀ a, b = .value (.cell a) → Delivered names root a) → Reprints names root later b b

namespace Finitary

variable {root : Call} (first : root.Finitary names)
include first

theorem store_after : Scripted names root.after ∧ root.heap.size ≤ root.after.size := by
  obtain ⟨store, le, -⟩ := Resolves.scripted first.store first.bound first.valid
  exact ⟨store, le⟩

theorem means_of_value {c : Call} (below : root.Below names c) {t : Tree}
    (means : Means names root.after t (.value c.value)) : Means names c.heap t c.binding := by
  obtain ⟨valid, -, ⟨store, bound, -⟩, -⟩ := first.held_below below
  have kept := below.persists_value (guard_below first.finite) first.held
  exact ((Resolves.means store bound valid).2.1 _ rfl t).1 ((kept.means t).1 means)

theorem isPlain_value {c : Call} (below : root.Below names c) {t : Tree}
    (means : Means names c.heap t c.binding) : IsPlain root.after t (.value c.value) :=
  below.isPlain_value (guard_below first.finite) first.held means

variable {v : Value} {after : Heap}
  (second : Resolves names [] root.binding root.after (.ok v) after)
include second

omit second in
theorem matches_again : root.Matches names (root.again v after) :=
  ⟨first.top.symm, (first.steady_after .refl).binding _ first.bound.within⟩

theorem held_again :
    (root.again v after).Held names root.after (Retraces names root) where
  valid := second
  holds := .inr ⟨root, .refl, first.matches_again⟩
  ready := ⟨first.store_after.1, first.bound.mono first.store_after.2, .nil⟩
  since := .refl names _

theorem starts_again : (root.again v after).Starts names :=
  ⟨second, rfl, first.store_after.1.closed, (first.bound.mono first.store_after.2).within⟩

theorem steady_again : Steady names root.after after :=
  ((first.held_again second).steady first.guard_retraces).1

/-! ### What is left -/

theorem reprints_slot {a : Addr} (delivered : Delivered names root a) {type : Option String}
    {attrs attrs' : Table Binding} (there : root.after.get? a = some (.object type attrs))
    (there' : after.get? a = some (.object type attrs')) {key : String} {b b' : Binding}
    (slot : attrs.get? key = some b) (slot' : attrs'.get? key = some b') :
    Reprints names root (root.again v after) b b' := by
  have part : Part root.after a b := .slot there slot
  have steady := first.steady_again second
  have store := first.store_after.1
  have persists := steady.slot a key (Heap.lt_size_of_get? there)
  rw [Heap.readAttribute_of_get? there slot, Heap.readAttribute_of_get? there' slot'] at persists
  have spared : ¬ root.Spared names a := fun spared => by
    obtain ⟨_, type', items, ⟨⟩, list⟩ := (first.starts.copied_of_spared spared).1
    cases ((first.starts.sound .refl).rest.list list).symm.trans there
  obtain ⟨d, below, rfl⟩ :=
    (first.starts.isResult_or_spared delivered part).resolve_right spared
  by_cases means : ∃ t, Means names root.after t (.value d.value)
  · obtain ⟨t, means⟩ := means
    have plain := first.isPlain_value below (first.means_of_value below means)
    exact .plain plain (persists.plain t plain)
  · -- The second time a value is put in its place only if it is the same.
    have same : b' = .value d.value := by
      cases b' with
      | value w =>
        have leads := (persists.leads (not_exists.1 means) w).1 (.value w)
        rw [leads_value_iff.1 leads]
      | reference r =>
        have before := steady.changes.readAttribute_reference
          (Heap.readAttribute_of_get? there' slot')
        rw [Heap.readAttribute_of_get? there slot] at before
        cases before
    rw [same]
    refine .left (part.within store.closed) fun x equal => ?_
    exact first.starts.delivered_of_encloses delivered (equal ▸ part : Part root.after a _)

theorem mirrored_of_delivered {b : Binding} (within : b.Within root.after.size)
    (delivered : ∀ a, b = .value (.cell a) → Delivered names root a) :
    Mirrored root.after after (Reprints names root (root.again v after)) b b := by
  rcases b with (s | a) | r
  · exact .same (by rintro _ ⟨⟩)
  · have store := first.store_after.1
    have steady := first.steady_again second
    obtain ⟨cell, there⟩ := Option.isSome_iff_exists.1 (Heap.get?_isSome_iff.2 within)
    have scripted := store.cells a cell there
    have here := delivered a rfl
    cases cell with
    | list type items =>
      refine .list there (steady.changes.list there) (List.forall₂_same.2 fun c mem => ?_)
      have part : Part root.after a c := .item there mem
      refine .left (part.within store.closed) fun x equal => ?_
      exact first.starts.delivered_of_encloses here (equal ▸ part : Part root.after a _)
    | object type attrs =>
      obtain ⟨attrs', there', same⟩ := steady.changes.object there
      exact .object there there' (Table.forall₂_entries scripted.1 same fun key c c' slot slot' =>
        first.reprints_slot second here there there' slot slot')
    | _ => exact scripted.elim
  · exact .same (by rintro _ ⟨⟩)

/-! ### Results -/

theorem mirrored_of_same {c : Call} (below : root.Below names c) {a : Addr}
    (value : c.value = .cell a) : Mirrored root.after after
      (Reprints names root (root.again v after)) (.value (.cell a)) (.value (.cell a)) := by
  have delivered := first.starts.delivered_of_value below value
  obtain ⟨valid, -, ⟨store, bound, -⟩, -⟩ := first.held_below below
  have inside := ((Resolves.scripted store bound valid).2.2 _ rfl).within.mono
    (first.starts.sound below).behind.size_le
  rw [value] at inside
  refine first.mirrored_of_delivered second inside ?_
  rintro _ ⟨⟩
  exact delivered

theorem mirrored_of_matches {c d : Call} (below : root.Below names c)
    (below' : (root.again v after).Below names d) (same : c.Matches names d) :
    Mirrored root.after after (Reprints names root (root.again v after)) (.value c.value)
      (.value d.value) := by
  have held := first.held_below below
  have again := first.held_again second
  obtain ⟨held', before, -⟩ := below'.steady first.guard_retraces again
  by_cases means : ∃ t, Means names d.heap t d.binding
  · obtain ⟨t, means⟩ := means
    exact mirrored_of_isPlain (fun t b b' one other => .plain one other)
      (first.isPlain_value below ((same.binding.means t).1 means))
      (below'.isPlain_value first.guard_retraces again means)
  · have lost : Meaningless names d.heap d.binding := not_exists.1 means
    obtain ⟨store, bound, -⟩ := held.ready
    have so_far := (first.steady_after below).trans before
    rcases held'.valid.cases with ⟨found, alone, -⟩ | ⟨a, type, items, vs, made, copies⟩ |
      ⟨a, type, attrs, fills⟩
    · have leads := leads_of_deref found
      cases value : d.value with
      | scalar s =>
        rw [value] at leads
        exact absurd ⟨_, (means_iff_of_leads leads).2 ((unfolds_scalar onValues_leads).2 rfl)⟩ means
      | cell a =>
        rw [value] at found leads alone
        have inside := held'.ready.store.closed.leads held'.ready.within leads
        have mem := held'.ready.store.mem_of_leavesAlone inside alone
        have value' := same.value_of_meetsAgain held.valid store lost ⟨found, mem⟩
        rw [value']
        exact first.mirrored_of_same second below value'
    · obtain ⟨vs', made', copies'⟩ := same.copies held.valid store bound so_far lost copies
      have list := first.starts.get?_copy below copies'
      have list' := (first.starts_again second).get?_copy below' copies
      rw [copies.value, copies'.value]
      refine .list list list' ?_
      rw [List.forall₂_map_left_iff, List.forall₂_map_right_iff]
      refine forall₂_of_common copies'.makes copies.makes ?_
      rintro b _ _ ⟨e, makes, binding, rfl⟩ ⟨f, makes', binding', rfl⟩
      have under := below.tail makes
      have under' : (root.again v after).Below names f := below'.tail makes'
      obtain ⟨-, before', -⟩ := under'.steady first.guard_retraces again
      exact .results under under' (same.item copies'.toFinds makes store.closed copies.toFinds
        makes' held'.ready.store.closed (binding.trans binding'.symm)
        ((first.steady_after under).trans before'))
    · obtain ⟨attrs', fills', -⟩ := same.fills held.valid store bound so_far lost fills
      rw [fills.value, fills'.value]
      exact first.mirrored_of_same second below fills'.value

/-- Whatever prints the same the second time is mirrored. -/
theorem mirrors : Mirrors root.after after (Reprints names root (root.again v after)) := by
  intro b b' related
  cases related with
  | plain one other =>
    exact mirrored_of_isPlain (fun t b b' one other => .plain one other) one other
  | results below below' same => exact first.mirrored_of_matches second below below' same
  | left within delivered => exact first.mirrored_of_delivered second within delivered

/-- If both results of resolving a binding twice can be printed, they print the same. -/
theorem unfold_eq {t t' : Tree}
    (printed : root.after.unfold .printed [] (.value root.value) = some t)
    (printed' : after.unfold .printed [] (.value v) = some t') : t = t' :=
  (first.mirrors second).unfold_eq (.results .refl .refl first.matches_again) printed printed'

end Finitary

end Call

end AliasScript

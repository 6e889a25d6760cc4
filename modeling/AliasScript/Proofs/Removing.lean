import AliasScript.Proofs.Assigning
import AliasScript.Proofs.Equality
import AliasScript.Proofs.Printing

/-!
# Adding to a list and removing from it

What a list holds is compared on the heap, where a container may be held by many. A binding that
holds a finite value unfolds to the same tree wherever the heap is as it was for it
(`Heap.unfold_of_agree`), so what a list holds stays equal to what it was equal to while the list
changes (`Heap.same_held`). Removing takes out the first item of a class, and adding before that
leaves the list as it was or with the item at its end (`Heap.equality_of_finite_values`).
-/

namespace AliasScript

theorem Cell.tree?_of_contents {view : View} {inner inner' : View → Binding → Option Tree}
    {c : Cell} {t : Tree} (whole : c.tree? view inner = some t)
    (same : ∀ view b u, inner view b = some u → inner' view b = some u) :
    c.tree? view inner' = some t := by
  have walk {view : View} {items : List Binding} {ts : List Tree}
      (found : items.mapM (inner view) = some ts) : items.mapM (inner' view) = some ts := by
    rw [mapM_eq_some_map id found fun b _ u => same view b u, List.map_id]
  have named {κ : Type} (key : κ → Scalar) {entries : List (κ × Binding)}
      {es : List (Scalar × Tree)}
      (found : (entries.mapM fun e => (inner view e.2).map (key e.1, ·)) = some es) :
      (entries.mapM fun e => (inner' view e.2).map (key e.1, ·)) = some es := by
    rw [mapM_eq_some_map id found fun e _ x here => ?_, List.map_id]
    obtain ⟨u, inside, rfl⟩ := Option.map_eq_some_iff.1 here
    rw [same view e.2 u inside]
    rfl
  cases c with
  | list | hostList | hostTuple =>
    obtain ⟨ts, found, rfl⟩ := Option.map_eq_some_iff.1 whole
    exact congrArg (Option.map _) (walk found)
  | hostDict entries =>
    obtain ⟨es, found, rfl⟩ := Option.map_eq_some_iff.1 whole
    exact congrArg (Option.map _) (named id found)
  | object type attrs =>
    rw [Cell.tree?] at whole ⊢
    split at whole
    · rwa [if_pos ‹_›]
    · rw [if_neg ‹_›]
      obtain ⟨es, found, rfl⟩ := Option.map_eq_some_iff.1 whole
      exact congrArg (Option.map _) (named .text found)
  | context types bindings =>
    rw [Cell.tree?] at whole ⊢
    split at whole
    · rwa [if_pos ‹_›]
    · rw [if_neg ‹_›]
      obtain ⟨es, found, rfl⟩ := Option.map_eq_some_iff.1 whole
      exact congrArg (Option.map _) (named .text found)

namespace Heap

variable {h after : Heap} {a : Addr} {type : Option String} {items : List Binding}
  {b c item : Binding}

/-- The binding holds a finite value that can be compared. -/
def IsComparable (h : Heap) (b : Binding) : Prop :=
  ∃ t, h.unfold .whole [] b = some t ∧ t.IsComparable

/-- A finite value is the same on a heap that agrees on every container that may be in it, with no
more containers around it. -/
theorem unfold_of_agree {view : View} {path path' : List Addr} {t : Tree}
    (agree : ∀ a, a ∉ path → after.get? a = h.get? a) (fewer : path' ⊆ path)
    (unfolded : h.unfold view path b = some t) : after.unfold view path' b = some t := by
  -- The induction is on the containers that are not around yet, as the unfolding itself goes.
  induction left : unseen (List.range h.size) path using Nat.strongRecOn
    generalizing view path path' b t with
  | ind n ih =>
    rcases b with (s | a) | r
    · rw [Heap.unfold] at unfolded ⊢
      exact unfolded
    · have new : a ∉ path := by
        intro mem
        rw [Heap.unfold, dif_pos mem] at unfolded
        cases unfolded
      have new' : a ∉ path' := fun mem => new (fewer mem)
      cases there : h.get? a with
      | none =>
        rw [Heap.unfold_none _ there new] at unfolded
        rw [Heap.unfold_none _ ((agree a new).trans there) new', unfolded]
      | some cell =>
        rw [Heap.unfold_cell _ there new] at unfolded
        rw [Heap.unfold_cell _ ((agree a new).trans there) new']
        refine Cell.tree?_of_contents unfolded fun view b u found => ?_
        have smaller := unseen_cons_lt (List.mem_range.2 (lt_size_of_get? there)) new
        refine ih _ (left ▸ smaller) (fun c away => ?_) (List.cons_subset_cons a fewer) found rfl
        exact agree c fun mem => away (List.mem_cons_of_mem _ mem)
    · rw [Heap.unfold] at unfolded ⊢
      exact unfolded

theorem same_of_unfold {t u : Tree} (found : h.unfold .whole [] b = some t)
    (found' : h.unfold .whole [] c = some u) : h.same b c = t.same u := by
  rw [Heap.same, found, found']

/-! ## What a list holds -/

theorem exists_unfold_held (elsewhere : ∀ c, c ≠ a → h.get? c = after.get? c)
    (there : after.get? a = some (.list type items))
    (whole : after.IsComparable (.value (.cell a))) : ∀ b ∈ items, ∃ t,
      after.unfold .whole [] b = some t ∧ h.unfold .whole [] b = some t ∧ t.IsComparable := by
  obtain ⟨tree, unfolded, inner⟩ := whole
  rw [Heap.unfold_cell _ there List.not_mem_nil, Cell.tree?] at unfolded
  obtain ⟨ts, walk, rfl⟩ := Option.map_eq_some_iff.1 unfolded
  cases inner with | sequence inner =>
  intro b mem
  obtain ⟨t, inside, found⟩ := exists_some_of_mapM walk b mem
  refine ⟨t, unfold_of_agree (fun _ _ => rfl) (List.nil_subset _) found, ?_, inner t inside⟩
  exact unfold_of_agree (fun c away => elsewhere c fun same => away (same ▸ List.mem_cons_self ..))
    (List.nil_subset _) found

/-- What a list holds is compared alike before and after the list has changed. -/
theorem same_held (elsewhere : ∀ c, c ≠ a → h.get? c = after.get? c)
    (there : after.get? a = some (.list type items))
    (whole : after.IsComparable (.value (.cell a))) {b c : Binding} (mem : b ∈ items)
    (mem' : c ∈ items) : after.same b c = h.same b c := by
  obtain ⟨t, found, before, -⟩ := exists_unfold_held elsewhere there whole b mem
  obtain ⟨u, found', before', -⟩ := exists_unfold_held elsewhere there whole c mem'
  rw [same_of_unfold found found', same_of_unfold before before']

theorem same_refl (whole : h.IsComparable b) : h.same b b = true := by
  obtain ⟨t, found, inner⟩ := whole
  rw [same_of_unfold found found, Tree.same_refl inner]

theorem same_symm (whole : h.IsComparable b) (whole' : h.IsComparable c)
    (equal : h.same b c = true) : h.same c b = true := by
  obtain ⟨t, found, inner⟩ := whole
  obtain ⟨u, found', inner'⟩ := whole'
  rw [same_of_unfold found found'] at equal
  rw [same_of_unfold found' found, Tree.same_symm inner inner' equal]

theorem same_trans (whole : h.IsComparable b) (whole' : h.IsComparable c)
    (whole'' : h.IsComparable item) (first : h.same b c = true) (second : h.same c item = true) :
    h.same b item = true := by
  obtain ⟨t, found, -⟩ := whole
  obtain ⟨u, found', inner'⟩ := whole'
  obtain ⟨v, found'', inner''⟩ := whole''
  rw [same_of_unfold found found'] at first
  rw [same_of_unfold found' found''] at second
  rw [same_of_unfold found found'', Tree.same_trans inner' inner'' first second]

/-! ## Removing what was added -/

theorem setItems_of_get? (there : h.get? a = some (.list type items)) (new : List Binding) :
    h.setItems a new = h.set a (.list type new) := by
  rw [setItems, there]

theorem setItems_setItems (there : h.get? a = some (.list type items)) (new new' : List Binding) :
    (h.setItems a new).setItems a new' = h.setItems a new' := by
  have inside := lt_size_of_get? there
  rw [setItems_of_get? there, setItems_of_get? (get?_set_self inside _), setItems_of_get? there,
    set, set, set, Array.setIfInBounds_setIfInBounds]

theorem setItems_self (there : h.get? a = some (.list type items)) : h.setItems a items = h := by
  rw [setItems_of_get? there, set_of_get? there]

theorem removeItem_congr (same : ∀ b ∈ items, after.same b item = h.same b item) :
    after.removeItem items item = h.removeItem items item := by
  induction items with
  | nil => rfl
  | cons b rest ih =>
    have rest := ih fun c mem => same c (List.mem_cons_of_mem _ mem)
    simp only [removeItem, List.eraseP_cons, same b (List.mem_cons_self ..)] at rest ⊢
    rw [rest]

/-- An item that was added behind none of its equals is what is removed. -/
theorem removeItem_concat_of_none (equal : h.same item item = true)
    (none : ∀ b ∈ items, h.same b item = false) : h.removeItem (items ++ [item]) item = items := by
  have last : [item].eraseP (h.same · item) = [] := List.eraseP_cons_of_pos equal
  rw [removeItem, List.eraseP_append_right _ fun b mem => by simp [none b mem], last,
    List.append_nil]

/-- Behind its equals, what was added stays. -/
theorem removeItem_concat_of_equal {front back : List Binding} {old : Binding}
    (others : ∀ b ∈ front, h.same b item = false) (equal : h.same old item = true) :
    h.removeItem (front ++ old :: back ++ [item]) item = front ++ back ++ [item] := by
  have first : (front ++ old :: back).eraseP (h.same · item) = front ++ back := by
    rw [List.eraseP_append_right _ fun b mem => by simp [others b mem]]
    exact congrArg (front ++ ·) (List.eraseP_cons_of_pos equal)
  have inside : old ∈ front ++ old :: back := by simp
  rw [removeItem, List.eraseP_append_left (p := (h.same · item)) equal [item] inside, first]

/-- An item that is removed from a list of a finite value after it has been added is equal to
itself, and is removed as if the list that holds it had not been changed yet. -/
theorem remove_added (there : h.get? a = some (.list type items)) {added : Heap}
    (changed : added = h.setItems a (h.changeItems .add items item))
    (whole : added.IsComparable (.value (.cell a))) : h.same item item = true ∧
      added.setItems a (added.changeItems .remove (items ++ [item]) item) =
        h.setItems a (h.removeItem (items ++ [item]) item) := by
  have there' : added.get? a = some (.list type (items ++ [item])) := by
    rw [changed, setItems_of_get? there, get?_set_self (lt_size_of_get? there)]
    rfl
  have elsewhere : ∀ c, c ≠ a → h.get? c = added.get? c := by
    intro c other
    rw [changed, setItems_of_get? there, get?_set_of_ne _ other.symm]
  have last : item ∈ items ++ [item] := by simp
  obtain ⟨t, -, found, inner⟩ := exists_unfold_held elsewhere there' whole item last
  have alike : added.changeItems .remove (items ++ [item]) item =
      h.removeItem (items ++ [item]) item :=
    removeItem_congr fun b mem => same_held elsewhere there' whole mem last
  refine ⟨same_refl ⟨t, found, inner⟩, ?_⟩
  rw [alike, changed, setItems_setItems there]

/-- Equality of finite values is an equivalence on every heap, whatever kinds they are of, and does
not look at the types of containers or at the order of entries. Removing an item from a list takes
out the first one that is equal to it, if there is one, and nothing else. When the item has been
added before, that gives the heap back if the list held none that is equal to it, and otherwise the
list is left without the first of these and with the item at its end. -/
theorem equality_of_finite_values (h : Heap) :
    Equivalence (fun b c : {b : Binding // h.IsComparable b} => h.same b c = true) ∧
    (∀ b c t u, h.unfold .whole [] b = some t → h.unfold .whole [] c = some u → t.IsComparable →
      t.Rearranged u → h.same b c = true ∧ ∀ d, h.IsComparable d → h.same b d = h.same c d) ∧
    ∀ a type items item, h.get? a = some (.list type items) →
      (h.IsComparable (.value (.cell a)) → h.IsComparable item →
        h.Operates item .remove items (h.changeItems .remove items item)) ∧
      ∀ added, added = h.setItems a (h.changeItems .add items item) →
        added.IsComparable (.value (.cell a)) →
          ((∀ b ∈ items, h.same b item = false) →
            added.setItems a (added.changeItems .remove (items ++ [item]) item) = h) ∧
          ∀ front old back, items = front ++ old :: back → (∀ b ∈ front, h.same b item = false) →
            h.same old item = true →
              added.setItems a (added.changeItems .remove (items ++ [item]) item) =
                h.setItems a (front ++ back ++ [item]) := by
  refine ⟨⟨fun b => same_refl b.2, fun {b c} => same_symm b.2 c.2,
      fun {b c d} => same_trans b.2 c.2 d.2⟩,
    fun b c t u found found' inner moved => ⟨?_, fun d whole => ?_⟩,
    fun a type items item there => ⟨fun _ _ => h.operates_changeItems .remove items item, ?_⟩⟩
  · rw [same_of_unfold found found', moved.same inner]
  · obtain ⟨v, found'', inner'⟩ := whole
    rw [same_of_unfold found found'', same_of_unfold found' found'', Bool.eq_iff_iff]
    exact moved.same_iff inner inner'
  · intro added changed whole
    obtain ⟨equal, left⟩ := remove_added there changed whole
    rw [left]
    constructor
    · intro none
      rw [removeItem_concat_of_none equal none, setItems_self there]
    · rintro front old back rfl others equal'
      rw [removeItem_concat_of_equal others equal']

/-! ## A list of equal values of different kinds -/

/-- The items of a list: the number one, an object and a dictionary of the host. -/
def assortedItems : List Binding := [.value (.number 1), .value (.cell 1), .value (.cell 2)]

/-- The list, the object and the dictionary, and beside them a context. The last three are equal. -/
def assorted (items : List Binding) : Heap where
  cells := #[.list (some "list") items,
    .object (some "box") ⟨[("k", .value (.scalar (.truth true)))]⟩,
    .hostDict [(.text "k", .value (.number 1))], .context ["generic"] ⟨[("k", .value (.number 1))]⟩]

def single (kind : MappingKind) (s : Scalar) : Tree := .mapping kind [(.text "k", .scalar s)]

theorem isComparable_single (kind : MappingKind) {s : Scalar} (plain : s.IsPlain) :
    (single kind s).IsComparable := by
  refine .mapping (List.pairwise_singleton ..) (fun e mem => ?_) fun e mem => ?_
  · cases List.mem_singleton.1 mem
    exact .text "k"
  · cases List.mem_singleton.1 mem
    exact .scalar plain

theorem unfold_assorted (items : List Binding) (path : List Addr) (new : ∀ c ∈ path, c = 0) :
    (assorted items).unfold .whole path (.value (.cell 1)) =
      some (single (.object (some "box")) (.truth true)) ∧
    (assorted items).unfold .whole path (.value (.cell 2)) = some (single .hostDict (.number 1)) ∧
    (assorted items).unfold .whole path (.value (.cell 3)) =
      some (single (.context ["generic"]) (.number 1)) := by
  have away {c : Addr} (other : c ≠ 0) : c ∉ path := fun mem => other (new c mem)
  have scalar (path : List Addr) (s : Scalar) :
      (assorted items).unfold .whole path (.value (.scalar s)) = some (.scalar s) := by
    rw [Heap.unfold]
  refine ⟨?_, ?_, ?_⟩ <;> rw [Heap.unfold_cell .whole rfl (away (by decide))]
  all_goals
    show Option.map _ (List.mapM _ [_]) = _
    simp only [List.mapM_cons, List.mapM_nil, scalar]
    rfl

theorem isComparable_assorted :
    (assorted (assortedItems ++ [.value (.cell 3)])).IsComparable (.value (.cell 0)) := by
  obtain ⟨object, dict, context⟩ :=
    unfold_assorted (assortedItems ++ [.value (.cell 3)]) [0] (by simp)
  refine ⟨.sequence (.list (some "list")) [.scalar (.number 1),
    single (.object (some "box")) (.truth true), single .hostDict (.number 1),
    single (.context ["generic"]) (.number 1)], ?_, .sequence ?_⟩
  · rw [Heap.unfold_cell .whole rfl List.not_mem_nil]
    show Option.map _ (List.mapM _ [_, _, _, _]) = _
    simp only [List.mapM_cons, List.mapM_nil, object, dict, context, Heap.unfold]
    rfl
  · simp only [List.forall_mem_cons]
    exact ⟨.scalar (.number 1), isComparable_single _ (.truth true),
      isComparable_single _ (.number 1), isComparable_single _ (.number 1), by simp⟩

/-- Adding the context to the list and removing it takes out the object and leaves the context. -/
theorem equality_of_finite_values_assorted :
    (assorted assortedItems).get? 0 = some (.list (some "list") assortedItems) ∧
    (assorted (assortedItems ++ [.value (.cell 3)])).IsComparable (.value (.cell 0)) ∧
    (assorted assortedItems).same (.value (.cell 1)) (.value (.cell 3)) = true ∧
    (assorted (assortedItems ++ [.value (.cell 3)])).setItems 0
        ((assorted (assortedItems ++ [.value (.cell 3)])).changeItems .remove
          (assortedItems ++ [.value (.cell 3)]) (.value (.cell 3))) =
      assorted [.value (.number 1), .value (.cell 2), .value (.cell 3)] := by
  obtain ⟨object, dict, context⟩ := unfold_assorted assortedItems [] (by simp)
  have equal : (assorted assortedItems).same (.value (.cell 1)) (.value (.cell 3)) = true := by
    rw [same_of_unfold object context]
    decide
  have other : (assorted assortedItems).same (.value (.number 1)) (.value (.cell 3)) = false := by
    rw [same_of_unfold (t := .scalar (.number 1)) (by rw [Heap.unfold]) context]
    rfl
  refine ⟨rfl, isComparable_assorted, equal, ?_⟩
  obtain ⟨-, -, laws⟩ := equality_of_finite_values (assorted assortedItems)
  obtain ⟨-, left⟩ := laws 0 (some "list") assortedItems (.value (.cell 3)) rfl
  exact (left _ rfl isComparable_assorted).2 [.value (.number 1)] (.value (.cell 1))
    [.value (.cell 2)] rfl (by simpa using other) equal

end Heap

end AliasScript

import AliasScript.Proofs.Unchanged
import AliasScript.Store.Unseen

/-!
# What resolving leaves

Where no container contains itself, a binding shows a finite tree (`exists_shows`): the tree that it
means, or one with nothing in the place of each reference that leads nowhere. Resolving such a
binding either fails or gives a value of the same tree with no reference left in it
(`Resolves.plain`). The containers being resolved show larger trees than what is resolved inside
them, so none of them is met again.
-/

namespace AliasScript

open Relation

section
variable (names : Table Binding) (heap : Heap)

/-- Something that a container holds leads to another container. -/
def Contains (a c : Addr) : Prop :=
  ∃ cell, heap.get? a = some cell ∧ ∃ b ∈ cell.contents, Leads names heap b (.cell c)

/-- A container is met when a binding is unfolded. -/
def Reaches (b : Binding) (a : Addr) : Prop :=
  ∃ c, Leads names heap b (.cell c) ∧ ReflTransGen (Contains names heap) c a

/-- No container that a binding reaches contains itself. -/
def NoCircle (b : Binding) : Prop :=
  ∀ a, Reaches names heap b a → ¬ TransGen (Contains names heap) a a

/-- A binding stands for the value that it leads to, and for nothing where it leads nowhere. -/
def StandsFor (b : Binding) (v : Value) : Prop :=
  Leads names heap b v ∨ (v = .nothing ∧ ∀ w, ¬ Leads names heap b w)

/-- The tree of a binding, with nothing in the place of each reference that leads nowhere. -/
def Shows : Tree → Binding → Prop := Unfolds heap (StandsFor names heap)

end

variable {names : Table Binding} {heap after : Heap}

/-! ## Finite trees -/

/-- Below a container that no circle is reached from there are finitely many steps to make. -/
theorem acc_contains {a : Addr}
    (free : ∀ c, ReflTransGen (Contains names heap) a c → ¬ TransGen (Contains names heap) c c) :
    Acc (fun y x => Contains names heap x y) a := by
  -- The containers on the way to one are different from it, and there are only so many cells.
  suffices ∀ n path c, unseen (List.range heap.size) path = n →
      (∀ x ∈ path, TransGen (Contains names heap) x c) →
        ReflTransGen (Contains names heap) a c → Acc (fun y x => Contains names heap x y) c from
    this _ [] a rfl (fun _ mem => nomatch mem) .refl
  intro n
  induction n using Nat.strongRecOn with
  | ind n ih =>
    intro path c bound above reached
    refine ⟨c, fun y step => ?_⟩
    obtain ⟨cell, there, -⟩ := id step
    have new : c ∉ path := fun mem => free c reached (above c mem)
    have fewer : unseen (List.range heap.size) (c :: path) < n :=
      bound ▸ unseen_cons_lt (List.mem_range.2 (Heap.lt_size_of_get? there)) new
    refine ih _ fewer (c :: path) y rfl (fun x mem => ?_) (reached.tail step)
    rcases List.mem_cons.1 mem with rfl | mem
    · exact .single step
    · exact (above x mem).tail step

theorem onValues_standsFor : OnValues (StandsFor names heap) := by
  intro v w
  constructor
  · rintro (leads | ⟨-, nowhere⟩)
    · exact leads_value_iff.1 leads
    · exact absurd (.value v) (nowhere v)
  · rintro rfl
    exact .inl (.value w)

theorem StandsFor.unique {b : Binding} {v w : Value} (h : StandsFor names heap b v)
    (g : StandsFor names heap b w) : v = w := by
  rcases h with leads | ⟨rfl, nowhere⟩
  · rcases g with leads' | ⟨-, nowhere⟩
    · exact leads.unique leads'
    · exact absurd leads (nowhere v)
  · rcases g with leads' | ⟨rfl, -⟩
    · exact absurd leads' (nowhere w)
    · rfl

theorem Shows.unique {t u : Tree} {b : Binding} (h : Shows names heap t b)
    (g : Shows names heap u b) : t = u :=
  unfolds_unique onValues_standsFor (fun _ _ _ => StandsFor.unique) h g

theorem shows_iff_of_leads {b : Binding} {v : Value} (leads : Leads names heap b v) {t : Tree} :
    Shows names heap t b ↔ Shows names heap t (.value v) := by
  constructor
  · intro h
    obtain ⟨w, stands, inner⟩ := (unfolds_iff onValues_standsFor).1 h
    rwa [(show StandsFor names heap b v from .inl leads).unique stands]
  · exact fun h => (unfolds_iff onValues_standsFor).2 ⟨v, .inl leads, h⟩

/-- A binding that reaches no circle shows a tree. -/
theorem exists_shows (store : Scripted names heap) {b : Binding} (bound : b.Scripted heap.size)
    (free : NoCircle names heap b) : ∃ t, Shows names heap t b := by
  -- A reference shows the tree of what it leads to, or nothing.
  have of_cells : ∀ c : Binding, c.Scripted heap.size →
      (∀ a, Leads names heap c (.cell a) → ∃ t, Shows names heap t (.value (.cell a))) →
        ∃ t, Shows names heap t c := by
    intro c bound cells
    by_cases found : ∃ v, Leads names heap c v
    · obtain ⟨v, leads⟩ := found
      cases v with
      | scalar s =>
        exact ⟨_, (shows_iff_of_leads leads).2 ((unfolds_scalar onValues_standsFor).2 rfl)⟩
      | cell a =>
        obtain ⟨t, shows⟩ := cells a leads
        exact ⟨t, (shows_iff_of_leads leads).2 shows⟩
    · refine ⟨.scalar .nothing, (unfolds_iff onValues_standsFor).2 ⟨.nothing, .inr ⟨rfl, ?_⟩, ?_⟩⟩
      · exact fun w leads => found ⟨w, leads⟩
      · exact (unfolds_scalar onValues_standsFor).2 rfl
  refine of_cells b bound fun a leads => ?_
  have inside : a < heap.size := store.leads leads bound
  have acc := acc_contains fun c way => free c ⟨a, leads, way⟩
  clear leads
  induction acc with
  | intro a _ ih =>
    obtain ⟨cell, there⟩ := Option.isSome_iff_exists.1 (Heap.get?_isSome_iff.2 inside)
    have scripted := store.cells a cell there
    have below : ∀ c ∈ cell.contents, c.Scripted heap.size → ∃ t, Shows names heap t c :=
      fun c mem bound => of_cells c bound fun y leads =>
        ih y ⟨cell, there, c, mem, leads⟩ (store.leads leads bound)
    cases cell with
    | list type items =>
      obtain ⟨ts, all⟩ := exists_unfoldsItems fun c mem => below c mem (scripted c mem)
      exact ⟨_, (unfolds_cell_list onValues_standsFor there).2 ⟨ts, rfl, all⟩⟩
    | object type attrs =>
      obtain ⟨es, all⟩ := exists_unfoldsEntries fun entry mem =>
        below entry.2 (List.mem_map_of_mem (f := Prod.snd) mem) (scripted.2 entry mem).2
      exact ⟨_, (unfolds_cell_object onValues_standsFor there).2 ⟨es, rfl, all⟩⟩
    | _ => exact scripted.elim

/-! ## Trees that stay -/

theorem IsPlain.means (closed : Closed names heap) {t : Tree} {b : Binding}
    (within : b.Within heap.size) (h : IsPlain heap t b) : Means names heap t b := by
  refine (simulates_of_agree closed onValues_eq onValues_leads (fun _ _ => rfl) (fun _ _ => rfl)
    fun c v inside same => ?_).unfolds within h
  subst same
  exact ⟨inside, .value v⟩

theorem Means.shows (closed : Closed names heap) {t : Tree} {b : Binding}
    (within : b.Within heap.size) (h : Means names heap t b) : Shows names heap t b :=
  (simulates_of_agree closed onValues_leads onValues_standsFor (fun _ _ => rfl) (fun _ _ => rfl)
    fun _ _ inside leads => ⟨closed.leads inside leads, .inl leads⟩).unfolds within h

theorem IsPlain.shows (closed : Closed names heap) {t : Tree} {b : Binding}
    (within : b.Within heap.size) (h : IsPlain heap t b) : Shows names heap t b :=
  (h.means closed within).shows closed within

theorem StandsFor.within (closed : Closed names heap) {b : Binding} {v : Value}
    (within : b.Within heap.size) (h : StandsFor names heap b v) : v.Within heap.size := by
  rcases h with leads | ⟨rfl, -⟩
  · exact closed.leads within leads
  · trivial

/-- Every binding shows in the second heap what it shows in the first one, and one without
references stays one. -/
def Keeps (names : Table Binding) (heap after : Heap) : Prop :=
  ∀ (b : Binding) (t : Tree), b.Within heap.size →
    (Shows names heap t b → Shows names after t b) ∧ (IsPlain heap t b → IsPlain after t b)

theorem Keeps.refl : Keeps names heap heap := fun _ _ _ => ⟨id, id⟩

theorem Keeps.trans {last : Heap} (h : Keeps names heap after) (g : Keeps names after last)
    (le : heap.size ≤ after.size) : Keeps names heap last := fun b t within =>
  ⟨fun shows => (g b t (within.mono le)).1 ((h b t within).1 shows),
    fun plain => (g b t (within.mono le)).2 ((h b t within).2 plain)⟩

theorem simulates_alloc_standsFor (closed : Closed names heap) (type : Option String)
    (items : List Binding) : Simulates heap.size heap (StandsFor names heap)
      (heap.alloc (.list type items)).2 (StandsFor names (heap.alloc (.list type items)).2) := by
  refine simulates_of_agree closed onValues_standsFor onValues_standsFor (fun _ _ => rfl)
    (fun a old => Heap.get?_alloc_of_lt old _) fun b v within stands =>
      ⟨stands.within closed within, ?_⟩
  rcases stands with leads | ⟨rfl, nowhere⟩
  · exact .inl (leads_copy_iff.2 leads)
  · exact .inr ⟨rfl, fun w leads => nowhere w (leads_copy_iff.1 leads)⟩

theorem simulates_alloc_eq (closed : Closed names heap) (c : Cell) :
    Simulates heap.size heap (fun b v => b = .value v) (heap.alloc c).2
      fun b v => b = .value v := by
  refine simulates_of_agree closed onValues_eq onValues_eq (fun _ _ => rfl)
    (fun a old => Heap.get?_alloc_of_lt old c) fun b v within same => ⟨?_, same⟩
  subst same
  exact within

theorem keeps_alloc (closed : Closed names heap) (type : Option String) (items : List Binding) :
    Keeps names heap (heap.alloc (.list type items)).2 := fun _ _ within =>
  ⟨(simulates_alloc_standsFor closed type items).unfolds within,
    (simulates_alloc_eq closed _).unfolds within⟩

/-- An attribute that takes a value of the tree that it shows, without references, changes no tree.
-/
theorem keeps_setAttribute (closed : Closed names heap) {a : Addr} {type : Option String}
    {attrs : Table Binding} {attr : String} {b : Binding} {v w : Value} {t : Tree}
    (there : heap.get? a = some (.object type attrs)) (slot : attrs.get? attr = some b)
    (leads : Leads names heap b v) (alike : heap.Alike v w) (inside : w.Within heap.size)
    (shows : Shows names heap t b) (plain : IsPlain heap t (.value w)) :
    Keeps names heap (heap.setAttribute a attr (.value w)) := by
  have inside' : (Binding.value w).Within heap.size := inside
  have shown : Shows names heap t (.value w) := plain.shows closed inside'
  have held : b.Within heap.size :=
    closed.cells a _ there _ (List.mem_map_of_mem (f := Prod.snd) (Table.mem_of_get? slot))
  intro c u within
  refine ⟨(simulates_setAttribute onValues_standsFor onValues_standsFor closed there slot ?_
    ⟨.value w, inside', fun u shows' => ?_, fun _ => id⟩).unfolds within,
    (simulates_setAttribute onValues_eq onValues_eq closed there slot ?_
      ⟨.value w, inside', fun u plain' => ?_, fun _ => id⟩).unfolds within⟩
  · intro c u within stands
    have bound := stands.within closed within
    rcases stands with found | ⟨rfl, nowhere⟩
    · rcases Leads.settle there slot leads alike found with same | ⟨rfl, other⟩
      · exact ⟨u, u, .inl same, bound, fun _ => id, fun _ => id⟩
      · refine ⟨w, w, .inl other, inside, fun u' shows' => ?_, fun _ => id⟩
        rwa [Shows.unique shows' ((shows_iff_of_leads leads).1 shows)]
    · refine ⟨.nothing, .nothing, .inr ⟨rfl, fun w' found => ?_⟩, trivial, fun _ => id, fun _ => id⟩
      rcases Leads.of_settle there slot leads alike found with before | ⟨-, before⟩
      · exact nowhere _ before
      · exact nowhere _ before
  · rwa [Shows.unique shows' shows]
  · rintro c u within rfl
    exact ⟨u, u, rfl, within, fun _ => id, fun _ => id⟩
  · have shows' : Shows names heap u b := IsPlain.shows closed held plain'
    rwa [shows'.unique shows]

/-! ## Containers around a binding -/

/-- The containers show larger trees. -/
def Above (names : Table Binding) (heap : Heap) (active : List Addr) (t : Tree) : Prop :=
  ∀ a ∈ active, ∃ u, Shows names heap u (.value (.cell a)) ∧ sizeOf t < sizeOf u

theorem Shows.lt_size {t : Tree} {a : Addr} (h : Shows names heap t (.value (.cell a))) :
    a < heap.size := by
  rcases exists_cell_of_unfolds onValues_standsFor h with ⟨_, _, there⟩ | ⟨_, _, there⟩ <;>
    exact Heap.lt_size_of_get? there

namespace Above

variable {active : List Addr} {t : Tree}

theorem nil : Above names heap [] t := fun _ mem => nomatch mem

theorem keeps (h : Above names heap active t) (g : Keeps names heap after) :
    Above names after active t := fun a mem => by
  obtain ⟨u, shows, lt⟩ := h a mem
  exact ⟨u, (g (.value (.cell a)) u shows.lt_size).1 shows, lt⟩

theorem cons {u : Tree} {a : Addr} (h : Above names heap active u)
    (shows : Shows names heap u (.value (.cell a))) (lt : sizeOf t < sizeOf u) :
    Above names heap (a :: active) t := fun c mem => by
  rcases List.mem_cons.1 mem with rfl | mem
  · exact ⟨u, shows, lt⟩
  · obtain ⟨w, shows', lt'⟩ := h c mem
    exact ⟨w, shows', Nat.lt_trans lt lt'⟩

theorem not_mem {a : Addr} (h : Above names heap active t)
    (shows : Shows names heap t (.value (.cell a))) : a ∉ active := fun mem => by
  obtain ⟨u, shows', lt⟩ := h a mem
  rw [shows'.unique shows] at lt
  exact Nat.lt_irrefl _ lt

end Above

theorem sizeOf_lt_sequence {kind : SequenceKind} {ts : List Tree} {t : Tree} (mem : t ∈ ts) :
    sizeOf t < sizeOf (Tree.sequence kind ts) := by
  have := List.sizeOf_lt_of_mem mem
  simp only [Tree.sequence.sizeOf_spec]
  omega

theorem sizeOf_lt_mapping {kind : MappingKind} {es : List (Scalar × Tree)} {key : Scalar} {t : Tree}
    (mem : (key, t) ∈ es) : sizeOf t < sizeOf (Tree.mapping kind es) := by
  have := List.sizeOf_lt_of_mem mem
  simp only [Tree.mapping.sizeOf_spec, Prod.mk.sizeOf_spec] at this ⊢
  omega

theorem Shows.exists_attribute {t : Tree} {a : Addr} {type : Option String} {attrs : Table Binding}
    {attr : String} {b : Binding} (h : Shows names heap t (.value (.cell a)))
    (there : heap.get? a = some (.object type attrs)) (slot : attrs.get? attr = some b) :
    ∃ u, sizeOf u < sizeOf t ∧ Shows names heap u b := by
  obtain ⟨es, rfl, entries⟩ := (unfolds_cell_object onValues_standsFor there).1 h
  obtain ⟨u, mem, here⟩ := exists_unfolds_of_mem_entries entries _ (Table.mem_of_get? slot)
  exact ⟨u, sizeOf_lt_mapping mem, here⟩

theorem exists_isPlain_of_attributes {a : Addr} {type : Option String} {attrs : Table Binding}
    (there : heap.get? a = some (.object type attrs)) (distinct : attrs.names.Nodup)
    (each : ∀ key ∈ attrs.names, ∃ t, IsPlain heap t (heap.readAttribute (.cell a) key)) :
    ∃ t, IsPlain heap t (.value (.cell a)) := by
  have each' : ∀ entry ∈ attrs.entries, ∃ t, IsPlain heap t entry.2 := by
    intro entry mem
    obtain ⟨t, plain⟩ := each entry.1 (List.mem_map_of_mem (f := Prod.fst) mem)
    rw [Heap.readAttribute_of_get? there (Table.get?_of_mem distinct mem)] at plain
    exact ⟨t, plain⟩
  obtain ⟨es, all⟩ := exists_unfoldsEntries each'
  exact ⟨_, (unfolds_cell_object onValues_eq there).2 ⟨es, rfl, all⟩⟩

/-! ## Resolving -/

mutual

/-- Resolving a binding that shows a tree keeps what every binding shows, and if it gives a value,
then one of that tree without references. -/
theorem Resolves.plain {active : List Addr} {b : Binding} {h h' : Heap} {t : Tree}
    {result : Except Fault Value} (store : Scripted names h) (bound : b.Scripted h.size)
    (shows : Shows names h t b) (above : Above names h active t) :
    Resolves names active b h result h' →
      Keeps names h h' ∧ ∀ v, result = .ok v → IsPlain h' t (.value v)
  | .lost _ => ⟨.refl, fun v same => nomatch same⟩
  | @Resolves.inert _ _ _ _ v found alone => by
    refine ⟨.refl, fun w same => ?_⟩
    cases same
    have shown := (shows_iff_of_leads (leads_of_deref found)).1 shows
    cases v with
    | scalar s => exact (unfolds_scalar onValues_eq).2 ((unfolds_scalar onValues_standsFor).1 shown)
    | cell a =>
      rcases alone with mem | inert
      · exact absurd mem (above.not_mem shown)
      · rcases exists_cell_of_unfolds onValues_standsFor shown with
          ⟨_, _, there⟩ | ⟨_, _, there⟩
        · exact (inert _ there).elim
        · exact (inert _ there).elim
  | @Resolves.list _ _ _ h h' a type items vs found new there calls => by
    have shown := (shows_iff_of_leads (leads_of_deref found)).1 shows
    obtain ⟨ts, same, all⟩ := (unfolds_cell_list onValues_standsFor there).1 shown
    have inside := store.cells a _ there
    obtain ⟨keeps, plain⟩ := calls.plain store inside all fun u mem =>
      above.cons shown (same ▸ sizeOf_lt_sequence mem)
    obtain ⟨store', le, scripted⟩ := calls.scripted store inside
    refine ⟨keeps.trans (keeps_alloc store'.closed _ _) le, fun v made => ?_⟩
    cases made
    have made : (h'.alloc (.list type (vs.map .value))).2.get? h'.size =
        some (.list type (vs.map .value)) := Heap.get?_alloc_size ..
    refine (unfolds_cell_list onValues_eq made).2 ⟨ts, same, ?_⟩
    refine (simulates_alloc_eq store'.closed _).unfoldsItems ts _ (fun c mem => ?_) (plain vs rfl)
    obtain ⟨v, inside, rfl⟩ := List.mem_map.1 mem
    exact (scripted vs rfl v inside).within
  | .listFails found new there calls => by
    have shown := (shows_iff_of_leads (leads_of_deref found)).1 shows
    obtain ⟨ts, same, all⟩ := (unfolds_cell_list onValues_standsFor there).1 shown
    obtain ⟨keeps, -⟩ := calls.plain store (store.cells _ _ there) all fun u mem =>
      above.cons shown (same ▸ sizeOf_lt_sequence mem)
    exact ⟨keeps, fun v same => nomatch same⟩
  | @Resolves.object _ _ b _ _ a type attrs r found new there calls => by
    have call : Resolves names active b h (r.map fun _ => .cell a) h' :=
      .object found new there calls
    have shown := (shows_iff_of_leads (leads_of_deref found)).1 shows
    have cell : attrs.Scripted h.size := store.cells a _ there
    obtain ⟨keeps, plain⟩ := calls.plain store new (Heap.hasAttributes_of_get? there)
      (fun key mem => cell.oneWord mem) shown above
    refine ⟨keeps, fun v result => ?_⟩
    cases r with
    | error e => cases result
    | ok =>
      cases result
      obtain ⟨store', -, -⟩ := call.scripted store bound
      obtain ⟨attrs', there', same⟩ := (call.changes store.closed bound.within).1.object there
      have cell' : attrs'.Scripted h'.size := store'.cells a _ there'
      obtain ⟨u, whole⟩ := exists_isPlain_of_attributes there' cell'.1 fun key mem =>
        plain rfl key (.inl (same ▸ mem))
      have inside : (Binding.value (.cell a)).Within h'.size := Heap.lt_size_of_get? there'
      have kept := (keeps (.value (.cell a)) t shown.lt_size).1 shown
      rwa [← (IsPlain.shows store'.closed inside whole).unique kept]

theorem ResolvesItems.plain {active : List Addr} {items : List Binding} {h h' : Heap}
    {ts : List Tree} {result : Except Fault (List Value)} (store : Scripted names h)
    (bound : ∀ b ∈ items, b.Scripted h.size)
    (shows : UnfoldsItems h (StandsFor names h) ts items)
    (above : ∀ t ∈ ts, Above names h active t) : ResolvesItems names active items h result h' →
      Keeps names h h' ∧ ∀ vs, result = .ok vs →
        UnfoldsItems h' (fun b v => b = .value v) ts (vs.map .value)
  | .noItems => by
    refine ⟨.refl, fun vs same => ?_⟩
    cases same
    exact unfoldsItems_nil.2 (unfoldsItems_nil.1 shows)
  | @ResolvesItems.item _ _ b items h h' h'' v r call calls => by
    have first := bound b (List.mem_cons_self ..)
    have others := fun c mem => bound c (List.mem_cons_of_mem _ mem)
    obtain ⟨t, us, same, here, rest⟩ := unfoldsItems_cons.1 shows
    obtain ⟨store', le, result⟩ := call.scripted store first
    obtain ⟨keeps, plain⟩ := call.plain store first here
      (above t (same ▸ List.mem_cons_self ..))
    obtain ⟨keeps', plains⟩ := calls.plain store' (fun c mem => (others c mem).mono le)
      (unfoldsItems_imp (fun c mem u => (keeps c u (others c mem).within).1) rest)
      fun u mem => (above u (same ▸ List.mem_cons_of_mem _ mem)).keeps keeps
    refine ⟨keeps.trans keeps' le, fun vs same' => ?_⟩
    cases r with
    | error e => cases same'
    | ok ws =>
      cases same'
      exact unfoldsItems_cons.2 ⟨t, us, same,
        (keeps' (.value v) t (result v rfl).within).2 (plain v rfl), plains ws rfl⟩
  | .itemFails call => by
    obtain ⟨t, us, same, here, -⟩ := unfoldsItems_cons.1 shows
    obtain ⟨keeps, -⟩ := call.plain store (bound _ (List.mem_cons_self ..)) here
      (above t (same ▸ List.mem_cons_self ..))
    exact ⟨keeps, fun vs same => nomatch same⟩

/-- Resolving attributes leaves no references in them, and brings none into the others. -/
theorem ResolvesAttributes.plain {active : List Addr} {a : Addr} {keys : List String}
    {h h' : Heap} {t : Tree} {result : Except Fault Unit} (store : Scripted names h)
    (new : a ∉ active) (object : h.HasAttributes a keys) (words : ∀ key ∈ keys, OneWord key)
    (shows : Shows names h t (.value (.cell a))) (above : Above names h active t) :
    ResolvesAttributes names active a keys h result h' →
      Keeps names h h' ∧ (result = .ok () → ∀ key,
        (key ∈ keys ∨ ∃ u, IsPlain h u (h.readAttribute (.cell a) key)) →
          ∃ u, IsPlain h' u (h'.readAttribute (.cell a) key))
  | .noAttributes => ⟨.refl, fun _ key plain => plain.resolve_left List.not_mem_nil⟩
  | @ResolvesAttributes.attr _ _ _ key keys h h' h'' v r call calls => by
    obtain ⟨type, all, there, named⟩ := id object
    obtain ⟨b, slot⟩ := Table.exists_get?_of_mem_names (named key (List.mem_cons_self ..))
    have held := Heap.readAttribute_of_get? there slot
    have read := store.readAttribute (.cell a) key
    obtain ⟨store', le, scripted⟩ := call.scripted store read
    have so_far := call.changes_setAttribute store.closed new object
    obtain ⟨there', within, w, leads, alike⟩ := call.slot store.closed there slot
    obtain ⟨u, lt, here⟩ := shows.exists_attribute there slot
    obtain ⟨keeps, plain⟩ := call.plain store read (held ▸ here) (above.cons shows lt)
    rw [held] at read
    have bound : (Binding.value v).Scripted h'.size := scripted v rfl
    have settled : Keeps names h' (h'.setAttribute a key (.value v)) :=
      keeps_setAttribute store'.closed there' slot leads alike within
        ((keeps b u read.within).1 here) (plain v rfl)
    have keeps' := keeps.trans settled le
    obtain ⟨keeps'', plains⟩ := calls.plain
      (store'.setAttribute a (words key (List.mem_cons_self ..)) bound) new
      (so_far.hasAttributes object.tail) (fun other mem => words other (List.mem_cons_of_mem _ mem))
      ((keeps' (.value (.cell a)) t shows.lt_size).1 shows) (above.keeps keeps')
    refine ⟨keeps'.trans keeps'' (by rwa [Heap.size_setAttribute]), fun ends other known => ?_⟩
    refine plains ends other ?_
    by_cases same : other = key
    · refine .inr ⟨u, ?_⟩
      rw [Heap.readAttribute_setAttribute there', if_pos ⟨rfl, same⟩]
      exact (settled (.value v) u within).2 (plain v rfl)
    · rcases known with mem | ⟨u', plain'⟩
      · exact .inl ((List.mem_cons.1 mem).resolve_left same)
      · refine .inr ⟨u', ?_⟩
        have read' := Heap.readAttribute_congr (there'.trans there.symm) other
        rw [Heap.readAttribute_setAttribute there', if_neg fun both => same both.2, read']
        exact (keeps' _ u' (store.readAttribute (.cell a) other).within).2 plain'
  | @ResolvesAttributes.attrFails _ _ _ key keys h h' e call => by
    obtain ⟨type, all, there, named⟩ := object
    obtain ⟨b, slot⟩ := Table.exists_get?_of_mem_names (named key (List.mem_cons_self ..))
    obtain ⟨u, lt, here⟩ := shows.exists_attribute there slot
    obtain ⟨keeps, -⟩ := call.plain store (store.readAttribute (.cell a) key)
      (Heap.readAttribute_of_get? there slot ▸ here) (above.cons shows lt)
    exact ⟨keeps, fun same => nomatch same⟩

end

end AliasScript

import AliasScript.Proofs.Meaning

/-!
# Resolving changes no meaning

Whatever a binding means before it is resolved, every binding means the same afterwards, whether the
calls end with a value or with a fault, and in stores with circles too. A value that resolving gives
means what the binding meant, and where resolving fails the binding meant nothing
(`Resolves.means`).
-/

namespace AliasScript

variable {names : Table Binding} {heap : Heap}

theorem means_iff_of_leads {b : Binding} {v : Value} (leads : Leads names heap b v) {t : Tree} :
    Means names heap t b ↔ Means names heap t (.value v) := by
  constructor
  · intro h
    obtain ⟨w, leads', inner⟩ := (unfolds_iff onValues_leads).1 h
    rwa [leads.unique leads']
  · exact fun h => (unfolds_iff onValues_leads).2 ⟨v, leads, h⟩

theorem Means.unique {t u : Tree} {b : Binding} (h : Means names heap t b)
    (g : Means names heap u b) : t = u :=
  unfolds_unique onValues_leads (fun _ _ _ => Leads.unique) h g

theorem means_alloc_iff (closed : Closed names heap) {type : Option String} {items : List Binding}
    {t : Tree} {b : Binding} (within : b.Within heap.size) :
    Means names (heap.alloc (.list type items)).2 t b ↔ Means names heap t b := by
  constructor
  · refine (simulates_of_agree closed onValues_leads onValues_leads
      (fun a old => Heap.get?_alloc_of_lt old _) (fun _ _ => rfl)
      fun b v inside leads => ?_).unfolds within
    have leads' := leads_copy_iff.1 leads
    exact ⟨closed.leads inside leads', leads'⟩
  · refine (simulates_of_agree closed onValues_leads onValues_leads (fun _ _ => rfl)
      (fun a old => Heap.get?_alloc_of_lt old _) fun b v inside leads => ?_).unfolds within
    exact ⟨closed.leads inside leads, leads_copy_iff.2 leads⟩

theorem means_setAttribute_iff (closed : Closed names heap) {a : Addr} {type : Option String}
    {attrs : Table Binding} {attr : String} {b : Binding} {v w : Value}
    (there : heap.get? a = some (.object type attrs)) (slot : attrs.get? attr = some b)
    (leads : Leads names heap b v) (alike : heap.Alike v w) (inside : w.Within heap.size)
    (same : ∀ t, Means names heap t (.value w) ↔ Means names heap t b) {t : Tree} {c : Binding}
    (within : c.Within heap.size) :
    Means names (heap.setAttribute a attr (.value w)) t c ↔ Means names heap t c := by
  have same' : ∀ t, Means names heap t (.value w) ↔ Means names heap t (.value v) := fun t =>
    (same t).trans (means_iff_of_leads leads)
  constructor
  · refine (simulates_of_setAttribute onValues_leads onValues_leads closed there slot ?_
      ⟨.value w, inside, fun _ => id, fun t => (same t).1⟩).unfolds within
    intro c u inside' found
    rcases Leads.of_settle there slot leads alike found with before | ⟨rfl, before⟩
    · exact ⟨u, u, before, closed.leads inside' before, fun _ => id, fun _ => id⟩
    · exact ⟨v, u, before, inside, fun _ => id, fun t => (same' t).1⟩
  · refine (simulates_setAttribute onValues_leads onValues_leads closed there slot ?_
      ⟨.value w, inside, fun t => (same t).2, fun _ => id⟩).unfolds within
    intro c u inside' found
    rcases Leads.settle there slot leads alike found with after | ⟨rfl, after⟩
    · exact ⟨u, u, after, closed.leads inside' found, fun _ => id, fun _ => id⟩
    · exact ⟨w, w, after, inside, fun t => (same' t).2, fun _ => id⟩

mutual

/-- Resolving changes no meaning, gives a value of the meaning of the binding, and fails only on a
binding that means nothing. -/
theorem Resolves.means {active : List Addr} {b : Binding} {h h' : Heap}
    {result : Except Fault Value} (store : Scripted names h) (bound : b.Scripted h.size) :
    Resolves names active b h result h' →
      (∀ c t, c.Within h.size → (Means names h' t c ↔ Means names h t c)) ∧
      (∀ v, result = .ok v → ∀ t, Means names h' t (.value v) ↔ Means names h t b) ∧
      ∀ e, result = .error e → ∀ t, ¬ Means names h t b
  | .lost failed => by
    refine ⟨fun c t _ => .rfl, fun v same => (nomatch same), fun e' _ t meant => ?_⟩
    obtain ⟨v, leads, -⟩ := (unfolds_iff onValues_leads).1 meant
    have found := deref_of_leads (fun r _ => store.writtenApart r) leads
    rw [failed] at found
    cases found
  | .inert found _ => by
    refine ⟨fun c t _ => .rfl, fun w same t => ?_, fun e same => nomatch same⟩
    cases same
    exact (means_iff_of_leads (leads_of_deref found)).symm
  | @Resolves.list _ _ _ h h' a type items vs found new there calls => by
    have inside := store.cells a _ there
    obtain ⟨store', le, scripted⟩ := calls.scripted store inside
    obtain ⟨keeps, results, -⟩ := calls.means store inside
    have copied : ∀ c t, c.Within h'.size →
        (Means names (h'.alloc (.list type (vs.map .value))).2 t c ↔ Means names h' t c) :=
      fun c t => means_alloc_iff store'.closed
    refine ⟨fun c t within => (copied c t (within.mono le)).trans (keeps c t within),
      fun v same t => ?_, fun e same => nomatch same⟩
    cases same
    have items' : ∀ ts, UnfoldsItems (h'.alloc (.list type (vs.map .value))).2
        (Leads names (h'.alloc (.list type (vs.map .value))).2) ts (vs.map .value) ↔
          UnfoldsItems h (Leads names h) ts items := fun ts => by
      rw [← results vs rfl ts]
      refine unfoldsItems_congr fun c mem t => copied c t ?_
      obtain ⟨v, inside, rfl⟩ := List.mem_map.1 mem
      exact (scripted vs rfl v inside).within
    have made : (h'.alloc (.list type (vs.map .value))).2.get? h'.size =
        some (.list type (vs.map .value)) := Heap.get?_alloc_size ..
    rw [means_iff_of_leads (leads_of_deref found), Means, Means,
      unfolds_cell_list onValues_leads made, unfolds_cell_list onValues_leads there]
    exact exists_congr fun ts => and_congr_right fun _ => items' ts
  | .listFails found new there calls => by
    obtain ⟨keeps, -, fails⟩ := calls.means store (store.cells _ _ there)
    refine ⟨keeps, fun v same => (nomatch same), fun e' _ t meant => ?_⟩
    rw [means_iff_of_leads (leads_of_deref found)] at meant
    obtain ⟨ts, -, all⟩ := (unfolds_cell_list onValues_leads there).1 meant
    exact fails _ rfl ts all
  | @Resolves.object _ _ _ _ _ a type attrs r found new there calls => by
    have cell : attrs.Scripted h.size := store.cells a _ there
    have leads := leads_of_deref found
    obtain ⟨keeps, fails⟩ := calls.means store new (Heap.hasAttributes_of_get? there)
      fun key mem => cell.oneWord mem
    refine ⟨keeps, fun v same t => ?_, fun e same t meant => ?_⟩
    · cases r with
      | error e => cases same
      | ok =>
        cases same
        have self := keeps (.value (.cell a)) t (Heap.lt_size_of_get? there)
        exact self.trans (means_iff_of_leads leads).symm
    · cases r with
      | ok => cases same
      | error e' =>
        obtain ⟨key, mem, nothing⟩ := fails e' rfl
        rw [means_iff_of_leads leads] at meant
        obtain ⟨es, -, all⟩ := (unfolds_cell_object onValues_leads there).1 meant
        obtain ⟨c, slot⟩ := Table.exists_get?_of_mem_names mem
        obtain ⟨u, -, meant'⟩ := exists_unfolds_of_mem_entries all _ (Table.mem_of_get? slot)
        rw [Heap.readAttribute_of_get? there slot] at nothing
        exact nothing u meant'

theorem ResolvesItems.means {active : List Addr} {items : List Binding} {h h' : Heap}
    {result : Except Fault (List Value)} (store : Scripted names h)
    (bound : ∀ b ∈ items, b.Scripted h.size) : ResolvesItems names active items h result h' →
      (∀ c t, c.Within h.size → (Means names h' t c ↔ Means names h t c)) ∧
      (∀ vs, result = .ok vs → ∀ ts, UnfoldsItems h' (Leads names h') ts (vs.map .value) ↔
        UnfoldsItems h (Leads names h) ts items) ∧
      ∀ e, result = .error e → ∀ ts, ¬ UnfoldsItems h (Leads names h) ts items
  | .noItems => by
    refine ⟨fun c t _ => .rfl, fun vs same ts => ?_, fun e same => nomatch same⟩
    cases same
    exact unfoldsItems_nil.trans unfoldsItems_nil.symm
  | @ResolvesItems.item _ _ b items h h' h'' v r call calls => by
    have first := bound b (List.mem_cons_self ..)
    have others := fun c mem => bound c (List.mem_cons_of_mem _ mem)
    obtain ⟨store', le, result⟩ := call.scripted store first
    obtain ⟨keeps, means, -⟩ := call.means store first
    obtain ⟨keeps', results, fails⟩ := calls.means store' fun c mem => (others c mem).mono le
    have rest : ∀ ts, UnfoldsItems h' (Leads names h') ts items ↔
        UnfoldsItems h (Leads names h) ts items := fun ts =>
      unfoldsItems_congr fun c mem t => keeps c t (others c mem).within
    refine ⟨fun c t within => (keeps' c t (within.mono le)).trans (keeps c t within),
      fun vs same ts => ?_, fun e same ts all => ?_⟩
    · cases r with
      | error e => cases same
      | ok ws =>
        cases same
        rw [List.map_cons, unfoldsItems_cons, unfoldsItems_cons]
        refine exists_congr fun t => exists_congr fun us => and_congr_right fun _ => and_congr ?_ ?_
        · exact (keeps' (.value v) t (result v rfl).within).trans (means v rfl t)
        · exact (results ws rfl us).trans (rest us)
    · cases r with
      | ok ws => cases same
      | error e' =>
        obtain ⟨t, us, -, -, all'⟩ := unfoldsItems_cons.1 all
        exact fails e' rfl us ((rest us).2 all')
  | .itemFails call => by
    obtain ⟨keeps, -, fails⟩ := call.means store (bound _ (List.mem_cons_self ..))
    refine ⟨keeps, fun vs same => (nomatch same), fun e' _ ts all => ?_⟩
    obtain ⟨t, us, -, meant, -⟩ := unfoldsItems_cons.1 all
    exact fails _ rfl t meant

/-- Where resolving the attributes fails, one of them means nothing. -/
theorem ResolvesAttributes.means {active : List Addr} {a : Addr} {keys : List String}
    {h h' : Heap} {result : Except Fault Unit} (store : Scripted names h) (new : a ∉ active)
    (object : h.HasAttributes a keys) (words : ∀ key ∈ keys, OneWord key) :
    ResolvesAttributes names active a keys h result h' →
      (∀ c t, c.Within h.size → (Means names h' t c ↔ Means names h t c)) ∧
      ∀ e, result = .error e → ∃ key ∈ keys, ∀ t, ¬ Means names h t (h.readAttribute (.cell a) key)
  | .noAttributes => ⟨fun c t _ => .rfl, fun e same => nomatch same⟩
  | @ResolvesAttributes.attr _ _ _ key keys h h' h'' v r call calls => by
    obtain ⟨type, all, there, named⟩ := id object
    obtain ⟨b, slot⟩ := Table.exists_get?_of_mem_names (named key (List.mem_cons_self ..))
    have read := store.readAttribute (.cell a) key
    obtain ⟨store', le, scripted⟩ := call.scripted store read
    obtain ⟨keeps, means, -⟩ := call.means store read
    have so_far := call.changes_setAttribute store.closed new object
    -- The call has left the object as it was, and its attribute means what the result means.
    obtain ⟨there', within, w, leads, alike⟩ := call.slot store.closed there slot
    rw [Heap.readAttribute_of_get? there slot] at read means
    have same : ∀ t, Means names h' t (.value v) ↔ Means names h' t b := fun t =>
      (means v rfl t).trans (keeps b t read.within).symm
    have bound : (Binding.value v).Scripted h'.size := scripted v rfl
    have settled : ∀ c t, c.Within h'.size →
        (Means names (h'.setAttribute a key (.value v)) t c ↔ Means names h' t c) :=
      fun c t => means_setAttribute_iff store'.closed there' slot leads alike within same
    have kept : ∀ c t, c.Within h.size →
        (Means names (h'.setAttribute a key (.value v)) t c ↔ Means names h t c) :=
      fun c t inside => (settled c t (inside.mono le)).trans (keeps c t inside)
    obtain ⟨keeps', fails⟩ := calls.means
      (store'.setAttribute a (words key (List.mem_cons_self ..)) bound) new
      (so_far.hasAttributes object.tail) fun other mem => words other (List.mem_cons_of_mem _ mem)
    refine ⟨fun c t inside => (keeps' c t ?_).trans (kept c t inside), fun e failed => ?_⟩
    · rw [Heap.size_setAttribute]
      exact inside.mono le
    · obtain ⟨other, mem, nothing⟩ := fails e failed
      refine ⟨other, List.mem_cons_of_mem _ mem, fun t meant => nothing t ?_⟩
      have whole := (kept _ t (store.readAttribute (.cell a) other).within).2 meant
      have read' := Heap.readAttribute_congr (there'.trans there.symm) other
      rw [Heap.readAttribute_setAttribute there']
      split
      · next here =>
        rw [here.2, Heap.readAttribute_of_get? there slot] at whole
        have meant' := (settled b t (read.within.mono le)).1 whole
        exact (settled _ t bound.within).2 ((same t).2 meant')
      · rwa [read']
  | .attrFails call => by
    obtain ⟨keeps, -, fails⟩ := call.means store (store.readAttribute _ _)
    exact ⟨keeps, fun e' _ => ⟨_, List.mem_cons_self .., fails _ rfl⟩⟩

end

end AliasScript

import AliasScript.Proofs.CallTree
import AliasScript.Proofs.Steady

/-!
# Calls that are steady

A call is tame if it copies no list without a meaning while an object is being resolved
(`Call.Tame`). Where all calls of a tree are tame, whatever is put into an attribute suits it, so
the whole tree changes the heap steadily, and every result of a binding with a meaning is its tree
without references (`Resolves.steady`, `Call.Below.steady`).

Whether the calls are tame may be known only as the tree is gone through. So the lemmas ask for a
property of calls that is handed on from a call to those that it makes, as long as the heap has
changed steadily so far (`Guard`).
-/

namespace AliasScript

open Relation

variable {names : Table Binding}

namespace Call

/-- An object is being resolved. -/
def InObject (c : Call) : Prop :=
  ∃ o type attrs, o ∈ c.active ∧ c.heap.get? o = some (.object type attrs)

/-- A list that the call copies while an object is being resolved means a tree. -/
def Tame (names : Table Binding) (c : Call) : Prop :=
  ∀ a type items vs made, c.Copies names a type items vs made → c.InObject →
    ∃ t, Means names c.heap t (.value (.cell a))

theorem Valid.leads {c : Call} (valid : c.Valid names) (tame : c.Tame names) (inObject : c.InObject)
    (lost : Meaningless names c.heap c.binding) : Leads names c.heap c.binding c.value := by
  rcases valid.cases with ⟨found, -, -⟩ | ⟨a, type, items, vs, made, copies⟩ |
    ⟨a, type, attrs, fills⟩
  · exact leads_of_deref found
  · obtain ⟨t, means⟩ := tame a type items vs made copies inObject
    exact absurd ((means_iff_of_leads (leads_of_deref copies.found)).2 means) (lost t)
  · rw [fills.value]
    exact leads_of_deref fills.found

end Call

/-- A binding is to be resolved in a store that scripts can make, with the containers that are being
resolved around it. -/
structure Ready (names : Table Binding) (active : List Addr) (b : Binding) (h : Heap) : Prop where
  store : Scripted names h
  bound : b.Scripted h.size
  around : Around names h active b

namespace Ready

variable {active : List Addr} {b b' : Binding} {h h' : Heap}

theorem within (r : Ready names active b h) : b.Within h.size := r.bound.within

theorem item (r : Ready names active b h) {a : Addr} {type : Option String} {items : List Binding}
    (leads : Leads names h b (.cell a)) (there : h.get? a = some (.list type items)) :
    ∀ c ∈ items, Ready names (a :: active) c h := fun c mem =>
  ⟨r.store, r.store.cells a _ there c mem, r.around.part leads (.item there mem)⟩

theorem slot (r : Ready names active b h) {a : Addr} {type : Option String} {attrs : Table Binding}
    (leads : Leads names h b (.cell a)) (there : h.get? a = some (.object type attrs)) :
    ∀ key ∈ attrs.names, Ready names (a :: active) (h.readAttribute (.cell a) key) h := by
  intro key mem
  obtain ⟨c, held⟩ := Table.exists_get?_of_mem_names mem
  refine ⟨r.store, r.store.readAttribute _ _, ?_⟩
  rw [Heap.readAttribute_of_get? there held]
  exact r.around.part leads (.slot there held)

theorem persists (r : Ready names active b h) (store : Scripted names h')
    (steady : Steady names h h') (bound : b'.Scripted h'.size) (same : Persists names h b h' b') :
    Ready names active b' h' := ⟨store, bound, r.around.persists steady same⟩

end Ready

/-- A property of calls that is handed on from a call to those that it makes, while the heap changes
steadily from a first one on. The calls that have it are tame. -/
structure Guard (names : Table Binding) (base : Heap) (P : Call → Prop) : Prop where
  makes : ∀ {c d : Call}, P c → c.Makes names d → Ready names c.active c.binding c.heap →
    Steady names base c.heap → Ready names d.active d.binding d.heap →
      Steady names c.heap d.heap → P d
  tame : ∀ {c : Call}, P c → Ready names c.active c.binding c.heap → Steady names base c.heap →
    c.Tame names

section

variable {base : Heap} {P : Call → Prop}

theorem Resolves.steady_settle {active : List Addr} {a : Addr} {key : String} {h h' : Heap}
    {v : Value} (call : Resolves names (a :: active) (h.readAttribute (.cell a) key) h (.ok v) h')
    (ready : Ready names (a :: active) (h.readAttribute (.cell a) key) h)
    (object : h.HasAttributes a [key])
    (tame : Call.Tame names ⟨a :: active, h.readAttribute (.cell a) key, h, v, h'⟩)
    (steady : Steady names h h')
    (plain : ∀ t, Means names h t (h.readAttribute (.cell a) key) → IsPlain h' t (.value v)) :
    Steady names h' (h'.setAttribute a key (.value v)) := by
  obtain ⟨type, attrs, there, named⟩ := object
  obtain ⟨b, slot⟩ := Table.exists_get?_of_mem_names (named key (List.mem_singleton_self _))
  obtain ⟨store', -, -⟩ := call.scripted ready.store ready.bound
  obtain ⟨there', inside, w, leads, alike⟩ := call.slot ready.store.closed there slot
  have kept := steady.binding _ ready.within
  have held := Heap.readAttribute_of_get? there slot
  refine steady_setAttribute store'.closed there' slot leads alike inside ?_
  by_cases means : ∃ t, Means names h t (h.readAttribute (.cell a) key)
  · obtain ⟨t, means⟩ := means
    exact .inr ⟨t, held ▸ (kept.means t).2 means, plain t means⟩
  · have lost : Meaningless names h (h.readAttribute (.cell a) key) := not_exists.1 means
    have inObject : Call.InObject ⟨a :: active, h.readAttribute (.cell a) key, h, v, h'⟩ :=
      ⟨a, type, attrs, List.mem_cons_self .., there⟩
    have valid : Call.Valid names ⟨a :: active, h.readAttribute (.cell a) key, h, v, h'⟩ := call
    exact .inl (held ▸ (kept.leads lost v).2 (valid.leads tame inObject lost))

theorem Resolves.ready_items {active : List Addr} {b : Binding} {items : List Binding}
    {h h' : Heap} {v : Value} (call : Resolves names active b h (.ok v) h')
    (store : Scripted names h) (ready : ∀ c ∈ b :: items, Ready names active c h)
    (steady : Steady names h h') :
    Scripted names h' ∧ ∀ c ∈ items, Ready names active c h' := by
  obtain ⟨store', le, -⟩ := call.scripted store (ready b (List.mem_cons_self ..)).bound
  refine ⟨store', fun c mem => ?_⟩
  have other := ready c (List.mem_cons_of_mem _ mem)
  exact other.persists store' steady (other.bound.mono le) (steady.binding c other.within)

theorem Resolves.ready_attributes {active : List Addr} {a : Addr} {key : String}
    {keys : List String} {h h' : Heap} {v : Value}
    (call : Resolves names (a :: active) (h.readAttribute (.cell a) key) h (.ok v) h')
    (store : Scripted names h) (fresh : a ∉ active) (object : h.HasAttributes a (key :: keys))
    (ready : ∀ key' ∈ key :: keys, Ready names (a :: active) (h.readAttribute (.cell a) key') h)
    (steady : Steady names h (h'.setAttribute a key (.value v))) :
    Scripted names (h'.setAttribute a key (.value v)) ∧
      (h'.setAttribute a key (.value v)).HasAttributes a keys ∧
      ∀ key' ∈ keys, Ready names (a :: active)
        ((h'.setAttribute a key (.value v)).readAttribute (.cell a) key')
        (h'.setAttribute a key (.value v)) := by
  obtain ⟨type, attrs, there, named⟩ := id object
  have words : attrs.Scripted h.size := store.cells a _ there
  obtain ⟨store', -, scripted⟩ := call.scripted store (ready key (List.mem_cons_self ..)).bound
  have settled := store'.setAttribute a (words.oneWord (named key (List.mem_cons_self ..)))
    (show (Binding.value v).Scripted _ from scripted v rfl)
  refine ⟨settled, ?_, fun other mem => ?_⟩
  · exact (call.changes_setAttribute store.closed fresh object).hasAttributes object.tail
  · exact (ready other (List.mem_cons_of_mem _ mem)).persists settled steady
      (settled.readAttribute _ _) (steady.slot a other (Heap.lt_size_of_get? there))

mutual

/-- Guarded calls on a binding change the heap steadily. If the binding means a tree, their result
is that tree without references. -/
theorem Resolves.steady (guard : Guard names base P) {active : List Addr} {b : Binding}
    {h h' : Heap} {result : Except Fault Value} (ready : Ready names active b h)
    (since : Steady names base h) : Resolves names active b h result h' →
      ∀ v, result = .ok v → P ⟨active, b, h, v, h'⟩ →
        Steady names h h' ∧ ∀ t, Means names h t b → IsPlain h' t (.value v)
  | .lost _ => fun _ same => nomatch same
  | @Resolves.inert _ _ _ _ v found alone => by
    intro w same _
    cases same
    refine ⟨.refl names h, fun t means => ?_⟩
    have leads := leads_of_deref found
    have means' := (means_iff_of_leads leads).1 means
    cases v with
    | scalar s => exact (unfolds_scalar onValues_eq).2 ((unfolds_scalar onValues_leads).1 means')
    | cell a =>
      rcases alone with mem | inert
      · exact absurd mem (ready.around.not_mem leads means)
      · rcases exists_cell_of_unfolds onValues_leads means' with ⟨_, _, there⟩ | ⟨_, _, there⟩
        · exact (inert _ there).elim
        · exact (inert _ there).elim
  | @Resolves.list _ _ _ _ made a type items vs found new there calls => by
    have leads := leads_of_deref found
    have inner := calls.steady guard ready.store (ready.item leads there) since vs rfl
    intro v same holds
    cases same
    have copies : Call.Copies names ⟨active, b, h, _, _⟩ a type items vs made :=
      ⟨⟨found, new, there⟩, calls, rfl, rfl⟩
    have inside := ready.store.cells a _ there
    obtain ⟨store', -, scripted⟩ := calls.scripted ready.store inside
    have within : ∀ v ∈ vs, v.Within made.size := fun v mem => (scripted vs rfl v mem).within
    obtain ⟨steady, plain⟩ := inner fun d call => guard.makes holds (.item copies call) ready since
    refine ⟨steady.trans (steady_alloc store'.closed type within), fun t means => ?_⟩
    obtain ⟨ts, rfl, all⟩ :=
      (unfolds_cell_list onValues_leads there).1 ((means_iff_of_leads leads).1 means)
    have copy : (made.alloc (.list type (vs.map .value))).2.get? made.size =
        some (.list type (vs.map .value)) := Heap.get?_alloc_size ..
    refine (unfolds_cell_list onValues_eq copy).2 ⟨ts, rfl, ?_⟩
    refine (simulates_alloc_eq store'.closed _).unfoldsItems ts _ (fun c mem => ?_) (plain ts all)
    obtain ⟨v, mem', rfl⟩ := List.mem_map.1 mem
    exact within v mem'
  | .listFails .. => fun _ same => nomatch same
  | @Resolves.object _ _ _ _ _ a type attrs r found new there calls => by
    have leads := leads_of_deref found
    have inner := calls.steady guard ready.store new (Heap.hasAttributes_of_get? there)
      (ready.slot leads there) since
    intro v same holds
    cases r with
    | error e => cases same
    | ok =>
      cases same
      have fills : Call.Fills names ⟨active, b, h, _, h'⟩ a type attrs :=
        ⟨⟨found, new, there⟩, calls, rfl⟩
      have call : Resolves names active b h (.ok (.cell a)) h' := .object found new there calls
      have kept := (call.means ready.store ready.bound).2.1 _ rfl
      obtain ⟨store', -, -⟩ := call.scripted ready.store ready.bound
      obtain ⟨steady, plain⟩ := inner rfl fun key d call =>
        guard.makes holds (.slot fills call) ready since
      refine ⟨steady, fun t means => ?_⟩
      have whole := (means_iff_of_leads leads).1 means
      obtain ⟨attrs', there', same⟩ := steady.changes.object there
      have cell' : attrs'.Scripted h'.size := store'.cells a _ there'
      obtain ⟨u, plain'⟩ := exists_isPlain_of_attributes there' cell'.1 fun key mem => by
        obtain ⟨c, slot⟩ := Table.exists_get?_of_mem_names (same ▸ mem)
        obtain ⟨e, means', -⟩ := whole.exists_part (.slot there slot)
        rw [← Heap.readAttribute_of_get? there slot] at means'
        exact ⟨e, plain key (same ▸ mem) e means'⟩
      have inside : (Binding.value (.cell a)).Within h'.size := Heap.lt_size_of_get? there'
      have means' := plain'.means store'.closed inside
      rwa [((kept t).2 means).unique means']

theorem ResolvesItems.steady (guard : Guard names base P) {active : List Addr}
    {items : List Binding} {h h' : Heap} {result : Except Fault (List Value)}
    (store : Scripted names h) (ready : ∀ c ∈ items, Ready names active c h)
    (since : Steady names base h) : ResolvesItems names active items h result h' →
      ∀ vs, result = .ok vs →
        (∀ d, ItemCall names active items h vs h' d → Ready names d.active d.binding d.heap →
          Steady names h d.heap → P d) →
        Steady names h h' ∧ ∀ ts, UnfoldsItems h (Leads names h) ts items →
          UnfoldsItems h' (fun b v => b = .value v) ts (vs.map .value)
  | .noItems => by
    intro vs same _
    cases same
    exact ⟨.refl names h, fun ts all => unfoldsItems_nil.2 (unfoldsItems_nil.1 all)⟩
  | @ResolvesItems.item _ _ b items h h' h'' v r call calls => by
    have first := ready b (List.mem_cons_self ..)
    have here := call.steady guard first since v rfl
    have rest := fun store' ready' since' => calls.steady guard store' ready' since'
    intro vs same holds
    cases r with
    | error e => cases same
    | ok ws =>
      cases same
      obtain ⟨steady, plain⟩ := here (holds _ (.first call calls) first (.refl names h))
      obtain ⟨store', ready'⟩ := call.ready_items store ready steady
      obtain ⟨-, -, scripted⟩ := call.scripted store first.bound
      obtain ⟨steady', plains⟩ := rest store' ready' (since.trans steady) ws rfl
        fun d call' ready' so_far => holds d (.later call call') ready' (steady.trans so_far)
      refine ⟨steady.trans steady', fun ts all => ?_⟩
      obtain ⟨t, us, rfl, here, rest⟩ := unfoldsItems_cons.1 all
      have rest' : UnfoldsItems h' (Leads names h') us items := unfoldsItems_imp
        (fun c mem u => ((steady.binding c
          (ready c (List.mem_cons_of_mem _ mem)).within).means u).2) rest
      have kept := steady'.binding (.value v) (scripted v rfl).within
      exact unfoldsItems_cons.2 ⟨t, us, rfl, kept.plain t (plain t here), plains us rest'⟩
  | .itemFails _ => fun _ same => nomatch same

theorem ResolvesAttributes.steady (guard : Guard names base P) {active : List Addr} {a : Addr}
    {keys : List String} {h h' : Heap} {result : Except Fault Unit} (store : Scripted names h)
    (fresh : a ∉ active) (object : h.HasAttributes a keys)
    (ready : ∀ key ∈ keys, Ready names (a :: active) (h.readAttribute (.cell a) key) h)
    (since : Steady names base h) : ResolvesAttributes names active a keys h result h' →
      result = .ok () →
        (∀ key d, SlotCall names active a keys h h' key d →
          Ready names d.active d.binding d.heap → Steady names h d.heap → P d) →
        Steady names h h' ∧ ∀ key ∈ keys, ∀ t, Means names h t (h.readAttribute (.cell a) key) →
          IsPlain h' t (h'.readAttribute (.cell a) key)
  | .noAttributes => fun _ _ => ⟨.refl names h, fun _ mem => nomatch mem⟩
  | @ResolvesAttributes.attr _ _ _ key keys h h' h'' v r call calls => by
    have mem := List.mem_cons_self (a := key) (l := keys)
    have first := ready key mem
    have here := call.steady guard first since v rfl
    have rest := fun store' object' ready' since' =>
      calls.steady guard store' fresh object' ready' since'
    intro same holds
    subst same
    obtain ⟨type, attrs, there, named⟩ := id object
    have lt : a < h.size := Heap.lt_size_of_get? there
    have holds' := holds key _ (.first call calls) first (.refl names h)
    obtain ⟨steady, plain⟩ := here holds'
    have settled := call.steady_settle first
      ⟨type, attrs, there, fun other one => List.mem_singleton.1 one ▸ named key mem⟩
      (guard.tame holds' first since) steady plain
    have so_far := steady.trans settled
    obtain ⟨store', object', ready'⟩ := call.ready_attributes store fresh object ready so_far
    obtain ⟨steady', plains⟩ := rest store' object' ready' (since.trans so_far) rfl
      fun other d call' ready'' since' =>
        holds other d (.later call call') ready'' (so_far.trans since')
    refine ⟨so_far.trans steady', fun other mem' t means => ?_⟩
    by_cases same : other = key
    · subst same
      have lt' : a < (h'.setAttribute a other (.value v)).size :=
        Nat.lt_of_lt_of_le lt so_far.changes.size_le
      obtain ⟨b, slot⟩ := Table.exists_get?_of_mem_names (named other mem)
      obtain ⟨there', within, -⟩ := call.slot store.closed there slot
      refine (steady'.slot a other lt').plain t ?_
      rw [Heap.readAttribute_setAttribute there', if_pos ⟨rfl, rfl⟩]
      exact (settled.binding (.value v) within).plain t (plain t means)
    · exact plains other ((List.mem_cons.1 mem').resolve_left same) t
        (((so_far.slot a other lt).means t).2 means)
  | .attrFails _ => fun same => nomatch same

end

/-! ## The calls of a tree -/

/-- A guarded call, on a heap that has changed steadily so far. -/
structure Call.Held (names : Table Binding) (base : Heap) (P : Call → Prop) (c : Call) : Prop where
  valid : c.Valid names
  holds : P c
  ready : Ready names c.active c.binding c.heap
  since : Steady names base c.heap

theorem Call.Held.steady {c : Call} (held : c.Held names base P) (guard : Guard names base P) :
    Steady names c.heap c.after ∧
      ∀ t, Means names c.heap t c.binding → IsPlain c.after t (.value c.value) :=
  Resolves.steady guard held.ready held.since held.valid _ rfl held.holds

theorem ItemCall.resolves {active : List Addr} {items : List Binding} {h h' : Heap}
    {vs : List Value} {d : Call} (call : ItemCall names active items h vs h' d) :
    ResolvesItems names active items h (.ok vs) h' := by
  induction call with
  | first call calls => exact .item call calls
  | later call _ ih => exact .item call ih

theorem SlotCall.resolves {active : List Addr} {a : Addr} {keys : List String} {h h' : Heap}
    {key : String} {d : Call} (call : SlotCall names active a keys h h' key d) :
    ResolvesAttributes names active a keys h (.ok ()) h' := by
  induction call with
  | first call calls => exact .attr call calls
  | later call _ ih => exact .attr call ih

theorem ItemCall.steady (guard : Guard names base P) {active : List Addr} {items : List Binding}
    {h h' : Heap} {vs : List Value} {d : Call} (call : ItemCall names active items h vs h' d)
    (store : Scripted names h) (ready : ∀ c ∈ items, Ready names active c h)
    (since : Steady names base h) : (∀ d, ItemCall names active items h vs h' d →
      Ready names d.active d.binding d.heap → Steady names h d.heap → P d) →
        d.Held names base P ∧ Steady names h d.heap ∧ Steady names d.after h' := by
  induction call with
  | @first b items h h₁ _ v vs call calls =>
    intro holds
    have here := ready b (List.mem_cons_self ..)
    have held : Call.Held names base P ⟨active, b, h, v, h₁⟩ :=
      ⟨call, holds _ (.first call calls) here (.refl names h), here, since⟩
    obtain ⟨steady, -⟩ := held.steady guard
    obtain ⟨store', ready'⟩ := call.ready_items store ready steady
    refine ⟨held, .refl names h, ?_⟩
    exact (calls.steady guard store' ready' (since.trans steady) vs rfl
      fun d call' ready'' so_far => holds d (.later call call') ready'' (steady.trans so_far)).1
  | @later b items h h₁ _ v vs d call call' ih =>
    intro holds
    have here := ready b (List.mem_cons_self ..)
    obtain ⟨steady, -⟩ := call.steady guard here since v rfl
      (holds _ (.first call call'.resolves) here (.refl names h))
    obtain ⟨store', ready'⟩ := call.ready_items store ready steady
    obtain ⟨held, before, behind⟩ := ih store' ready' (since.trans steady)
      fun d call'' ready'' so_far => holds d (.later call call'') ready'' (steady.trans so_far)
    exact ⟨held, steady.trans before, behind⟩

theorem SlotCall.steady (guard : Guard names base P) {active : List Addr} {a : Addr}
    {keys : List String} {h h' : Heap} {key : String} {d : Call}
    (call : SlotCall names active a keys h h' key d) (store : Scripted names h)
    (fresh : a ∉ active) (object : h.HasAttributes a keys)
    (ready : ∀ key ∈ keys, Ready names (a :: active) (h.readAttribute (.cell a) key) h)
    (since : Steady names base h) : (∀ key d, SlotCall names active a keys h h' key d →
      Ready names d.active d.binding d.heap → Steady names h d.heap → P d) →
        d.Held names base P ∧ Steady names h d.heap ∧ Steady names d.after h' := by
  -- The call on the first attribute, and the heap when the attribute has taken the result.
  have first : ∀ {key : String} {keys : List String} {h h₁ : Heap} {v : Value},
      Resolves names (a :: active) (h.readAttribute (.cell a) key) h (.ok v) h₁ →
      Scripted names h → h.HasAttributes a (key :: keys) →
      Ready names (a :: active) (h.readAttribute (.cell a) key) h → Steady names base h →
      P ⟨a :: active, h.readAttribute (.cell a) key, h, v, h₁⟩ →
        Steady names h h₁ ∧ Steady names h₁ (h₁.setAttribute a key (.value v)) := by
    rintro key keys h h₁ v call store ⟨type, attrs, there, named⟩ ready since holds
    obtain ⟨steady, plain⟩ := call.steady guard ready since v rfl holds
    refine ⟨steady, call.steady_settle ready ⟨type, attrs, there, fun other one => ?_⟩
      (guard.tame holds ready since) steady plain⟩
    exact List.mem_singleton.1 one ▸ named key (List.mem_cons_self ..)
  induction call with
  | @first key keys h h₁ _ v call calls =>
    intro holds
    have here := ready key (List.mem_cons_self ..)
    have held : Call.Held names base P ⟨a :: active, h.readAttribute (.cell a) key, h, v, h₁⟩ :=
      ⟨call, holds _ _ (.first call calls) here (.refl names h), here, since⟩
    obtain ⟨steady, settled⟩ := first call store object here since held.holds
    have so_far := steady.trans settled
    obtain ⟨store', object', ready'⟩ := call.ready_attributes store fresh object ready so_far
    refine ⟨held, .refl names h, settled.trans ?_⟩
    exact (calls.steady guard store' fresh object' ready' (since.trans so_far) rfl
      fun key d call' ready'' since' =>
        holds key d (.later call call') ready'' (so_far.trans since')).1
  | @later key other keys h h₁ _ v d call call' ih =>
    intro holds
    have here := ready key (List.mem_cons_self ..)
    obtain ⟨steady, settled⟩ := first call store object here since
      (holds _ _ (.first call call'.resolves) here (.refl names h))
    have so_far := steady.trans settled
    obtain ⟨store', object', ready'⟩ := call.ready_attributes store fresh object ready so_far
    obtain ⟨held, before, behind⟩ := ih store' object' ready' (since.trans so_far)
      fun key d call'' ready'' since' =>
        holds key d (.later call call'') ready'' (so_far.trans since')
    exact ⟨held, so_far.trans before, behind⟩

namespace Call

/-- The calls that a guarded call makes are guarded. -/
theorem Makes.steady (guard : Guard names base P) {c d : Call} (makes : c.Makes names d)
    (held : c.Held names base P) :
    d.Held names base P ∧ Steady names c.heap d.heap ∧ Steady names d.after c.after := by
  obtain ⟨-, holds, ready, since⟩ := held
  have handed := fun d makes => guard.makes (d := d) holds makes ready since
  cases makes with
  | @item a type items vs made copies call =>
    have leads := leads_of_deref copies.found
    have inside := ready.store.cells a _ copies.there
    obtain ⟨held, before, behind⟩ := call.steady guard ready.store
      (ready.item leads copies.there) since fun d call => handed d (.item copies call)
    obtain ⟨store', -, scripted⟩ := copies.calls.scripted ready.store inside
    refine ⟨held, before, behind.trans ?_⟩
    rw [copies.after]
    exact steady_alloc store'.closed type fun v mem => (scripted vs rfl v mem).within
  | @slot a type attrs key fills call =>
    have leads := leads_of_deref fills.found
    exact call.steady guard ready.store fills.fresh (Heap.hasAttributes_of_get? fills.there)
      (ready.slot leads fills.there) since fun key d call => handed d (.slot fills call)

/-- All calls below a guarded call are guarded, and the heap changes steadily from the first of them
to the last. -/
theorem Below.steady (guard : Guard names base P) {root c : Call} (below : root.Below names c)
    (held : root.Held names base P) :
    c.Held names base P ∧ Steady names root.heap c.heap ∧ Steady names c.after root.after := by
  induction below with
  | refl => exact ⟨held, .refl names _, .refl names _⟩
  | tail _ makes ih =>
    obtain ⟨above, before, behind⟩ := ih
    obtain ⟨held', before', behind'⟩ := makes.steady guard above
    exact ⟨held', before.trans before', behind'.trans behind⟩

theorem Below.persists_value (guard : Guard names base P) {root c : Call}
    (below : root.Below names c) (held : root.Held names base P) :
    Persists names c.after (.value c.value) root.after (.value c.value) := by
  obtain ⟨⟨valid, -, ready, -⟩, -, behind⟩ := below.steady guard held
  have inside := (Resolves.scripted ready.store ready.bound valid).2.2 _ rfl
  exact behind.binding (.value c.value) inside.within

theorem Below.isPlain_value (guard : Guard names base P) {root c : Call}
    (below : root.Below names c) (held : root.Held names base P) {t : Tree}
    (means : Means names c.heap t c.binding) : IsPlain root.after t (.value c.value) := by
  obtain ⟨held', -, -⟩ := below.steady guard held
  exact (below.persists_value guard held).plain t ((held'.steady guard).2 t means)

end Call

end

end AliasScript

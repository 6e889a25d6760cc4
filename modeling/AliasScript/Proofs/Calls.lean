import AliasScript.Proofs.Changes
import AliasScript.Proofs.Follow
import AliasScript.Store.Resolve

/-!
# Calls of resolve

`Resolves` is the tree of the calls that resolving a binding makes, down to its last: only the
containers being resolved are left alone, nothing else holds a call back. A call ends where it has
such a tree, for a tree is finite. `Resolves.changes` says what the calls do to the heap, and
`resolves_resolve` that resolving as it is computed has a tree of calls.
-/

namespace AliasScript

/-- A cell that has nothing to be resolved. -/
def Cell.IsInert : Cell → Prop
  | .list .. | .object .. => False
  | _ => True

/-- The value is returned as it is. -/
def Heap.LeavesAlone (h : Heap) (active : List Addr) : Value → Prop
  | .scalar _ => True
  | .cell a => a ∈ active ∨ ∀ c, h.get? a = some c → c.IsInert

section
variable (names : Table Binding)

mutual

/-- The calls that a call on a binding makes while the containers in `active` are being resolved,
with its result and the heap after it. -/
inductive Resolves : List Addr → Binding → Heap → Except Fault Value → Heap → Prop
  | lost {active : List Addr} {b : Binding} {h : Heap} {e : Fault} :
    deref names h b = .error e → Resolves active b h (.error e) h
  | inert {active : List Addr} {b : Binding} {h : Heap} {v : Value} :
    deref names h b = .ok v → h.LeavesAlone active v → Resolves active b h (.ok v) h
  | list {active : List Addr} {b : Binding} {h h' : Heap} {a : Addr} {type : Option String}
      {items : List Binding} {vs : List Value} :
    deref names h b = .ok (.cell a) → a ∉ active → h.get? a = some (.list type items) →
      ResolvesItems (a :: active) items h (.ok vs) h' →
        Resolves active b h (.ok (.cell h'.size)) (h'.alloc (.list type (vs.map .value))).2
  | listFails {active : List Addr} {b : Binding} {h h' : Heap} {a : Addr} {type : Option String}
      {items : List Binding} {e : Fault} :
    deref names h b = .ok (.cell a) → a ∉ active → h.get? a = some (.list type items) →
      ResolvesItems (a :: active) items h (.error e) h' → Resolves active b h (.error e) h'
  | object {active : List Addr} {b : Binding} {h h' : Heap} {a : Addr} {type : Option String}
      {attrs : Table Binding} {r : Except Fault Unit} :
    deref names h b = .ok (.cell a) → a ∉ active → h.get? a = some (.object type attrs) →
      ResolvesAttributes active a attrs.names h r h' →
        Resolves active b h (r.map fun _ => .cell a) h'

/-- The calls on the items of a list, from left to right. -/
inductive ResolvesItems : List Addr → List Binding → Heap → Except Fault (List Value) → Heap → Prop
  | noItems {active : List Addr} {h : Heap} : ResolvesItems active [] h (.ok []) h
  | item {active : List Addr} {b : Binding} {items : List Binding} {h h' h'' : Heap} {v : Value}
      {r : Except Fault (List Value)} :
    Resolves active b h (.ok v) h' → ResolvesItems active items h' r h'' →
      ResolvesItems active (b :: items) h (r.map (v :: ·)) h''
  | itemFails {active : List Addr} {b : Binding} {items : List Binding} {h h' : Heap} {e : Fault} :
    Resolves active b h (.error e) h' → ResolvesItems active (b :: items) h (.error e) h'

/-- The calls on the attributes of the object at an address, each of which takes its result. -/
inductive ResolvesAttributes :
    List Addr → Addr → List String → Heap → Except Fault Unit → Heap → Prop
  | noAttributes {active : List Addr} {a : Addr} {h : Heap} :
    ResolvesAttributes active a [] h (.ok ()) h
  | attr {active : List Addr} {a : Addr} {key : String} {keys : List String} {h h' h'' : Heap}
      {v : Value} {r : Except Fault Unit} :
    Resolves (a :: active) (h.readAttribute (.cell a) key) h (.ok v) h' →
      ResolvesAttributes active a keys (h'.setAttribute a key (.value v)) r h'' →
        ResolvesAttributes active a (key :: keys) h r h''
  | attrFails {active : List Addr} {a : Addr} {key : String} {keys : List String} {h h' : Heap}
      {e : Fault} :
    Resolves (a :: active) (h.readAttribute (.cell a) key) h (.error e) h' →
      ResolvesAttributes active a (key :: keys) h (.error e) h'

end

end

variable {names : Table Binding}

theorem Closed.leads {heap : Heap} {b : Binding} {v : Value} (g : Closed names heap)
    (within : b.Within heap.size) (leads : Leads names heap b v) : v.Within heap.size := by
  induction leads with
  | value v => exact within
  | name _ _ ih => exact ih (g.read _)
  | path _ _ _ _ ih => exact ih (g.readAttribute _ _)

/-- The address of an object that has attributes of some names. -/
def Heap.HasAttributes (h : Heap) (a : Addr) (keys : List String) : Prop :=
  ∃ type attrs, h.get? a = some (.object type attrs) ∧ ∀ key ∈ keys, key ∈ attrs.names

theorem Heap.hasAttributes_of_get? {h : Heap} {a : Addr} {type : Option String}
    {attrs : Table Binding} (there : h.get? a = some (.object type attrs)) :
    h.HasAttributes a attrs.names := ⟨type, attrs, there, fun _ mem => mem⟩

theorem Heap.HasAttributes.tail {h : Heap} {a : Addr} {key : String} {keys : List String}
    (g : h.HasAttributes a (key :: keys)) : h.HasAttributes a keys := by
  obtain ⟨type, attrs, there, named⟩ := g
  exact ⟨type, attrs, there, fun other mem => named other (List.mem_cons_of_mem _ mem)⟩

theorem Changes.hasAttributes {active : List Addr} {h h' : Heap} {a : Addr} {keys : List String}
    (c : Changes names active h h') (g : h.HasAttributes a keys) : h'.HasAttributes a keys := by
  obtain ⟨type, attrs, there, named⟩ := g
  obtain ⟨attrs', there', same⟩ := c.object there
  exact ⟨type, attrs', there', fun key mem => same ▸ named key mem⟩

theorem Changes.slot {active : List Addr} {h h' : Heap} {a : Addr} {type : Option String}
    {attrs : Table Binding} {key : String} {b : Binding} {v w : Value}
    (c : Changes names (a :: active) h h') (there : h.get? a = some (.object type attrs))
    (slot : attrs.get? key = some b) (leads : Leads names h (h.readAttribute (.cell a) key) w)
    (alike : h'.Alike w v) : h'.get? a = some (.object type attrs) ∧
      ∃ w', Leads names h' b w' ∧ h'.Alike w' v := by
  rw [Heap.readAttribute_of_get? there slot] at leads
  obtain ⟨w', leads', alike'⟩ := leads.changes c
  exact ⟨c.of_mem_active (List.mem_cons_self ..) there, w', leads', alike'.symm.trans alike⟩

theorem Changes.settle {active : List Addr} {h h' : Heap} {a : Addr} {key : String}
    {keys : List String} {v w : Value} (c : Changes names (a :: active) h h') (new : a ∉ active)
    (object : h.HasAttributes a (key :: keys))
    (leads : Leads names h (h.readAttribute (.cell a) key) w) (alike : h'.Alike w v)
    (within : v.Within h'.size) : Changes names active h (h'.setAttribute a key (.value v)) := by
  obtain ⟨type, attrs, there, named⟩ := object
  obtain ⟨b, slot⟩ := Table.exists_get?_of_mem_names (named key (List.mem_cons_self ..))
  obtain ⟨there', w', leads', alike'⟩ := c.slot there slot leads alike
  exact (c.mono fun _ mem => List.mem_cons_of_mem a mem).tail
    (.settle new there' slot leads' alike' within)

mutual

/-- The calls on a binding change the heap in the two ways of `Change` only, and their result is
what the binding leads to, or a copy of it where that is a list. -/
theorem Resolves.changes {active : List Addr} {b : Binding} {h h' : Heap} {r : Except Fault Value}
    (closed : Closed names h) (within : b.Within h.size) : Resolves names active b h r h' →
      Changes names active h h' ∧ ∀ v, r = .ok v → v.Within h'.size ∧
        ∃ w, Leads names h b w ∧ h'.Alike w v
  | .lost _ => ⟨.refl, fun v same => nomatch same⟩
  | .inert found _ => by
    refine ⟨.refl, fun v same => ?_⟩
    cases same
    have leads := leads_of_deref found
    exact ⟨closed.leads within leads, _, leads, .refl _⟩
  | @Resolves.list _ _ _ _ h' a type items vs found new there calls => by
    obtain ⟨changes, results⟩ := calls.changes closed (closed.cells a _ there)
    have mono := changes.mono fun c mem => List.mem_cons_of_mem a mem
    refine ⟨mono.tail (.copy h' type vs (results vs rfl)), fun v same => ?_⟩
    cases same
    refine ⟨?_, .cell a, leads_of_deref found, .inr ⟨⟨a, type, items, rfl, ?_⟩, ?_⟩⟩
    · rw [Heap.size_alloc]
      exact Nat.lt_succ_self _
    · exact Heap.get?_alloc_of_get? (changes.list there)
    · exact ⟨_, _, _, rfl, Heap.get?_alloc_size ..⟩
  | .listFails found new there calls => by
    obtain ⟨changes, -⟩ := calls.changes closed (closed.cells _ _ there)
    exact ⟨changes.mono fun c mem => List.mem_cons_of_mem _ mem, fun v same => nomatch same⟩
  | @Resolves.object _ _ _ _ _ a type attrs r found new there calls => by
    have changes := calls.changes closed new (Heap.hasAttributes_of_get? there)
    refine ⟨changes, fun v same => ?_⟩
    have leads := leads_of_deref found
    cases r with
    | error e => cases same
    | ok =>
      cases same
      exact ⟨(closed.leads within leads).mono changes.size_le, _, leads, .refl _⟩

theorem ResolvesItems.changes {active : List Addr} {items : List Binding} {h h' : Heap}
    {r : Except Fault (List Value)} (closed : Closed names h)
    (within : ∀ b ∈ items, b.Within h.size) : ResolvesItems names active items h r h' →
      Changes names active h h' ∧ ∀ vs, r = .ok vs → ∀ v ∈ vs, v.Within h'.size
  | .noItems => by
    refine ⟨.refl, fun vs same v mem => ?_⟩
    cases same
    cases mem
  | @ResolvesItems.item _ _ b items h h' h'' v r call calls => by
    obtain ⟨changes, result⟩ := call.changes closed (within b (List.mem_cons_self ..))
    obtain ⟨changes', results⟩ := calls.changes (changes.closed closed) fun c mem =>
      (within c (List.mem_cons_of_mem _ mem)).mono changes.size_le
    refine ⟨changes.trans changes', fun vs same w mem => ?_⟩
    cases r with
    | error e => cases same
    | ok ws =>
      cases same
      rcases List.mem_cons.1 mem with rfl | mem
      · exact (result w rfl).1.mono changes'.size_le
      · exact results ws rfl w mem
  | .itemFails call =>
    ⟨(call.changes closed (within _ (List.mem_cons_self ..))).1, fun vs same => nomatch same⟩

theorem ResolvesAttributes.changes {active : List Addr} {a : Addr} {keys : List String}
    {h h' : Heap} {r : Except Fault Unit} (closed : Closed names h) (new : a ∉ active)
    (object : h.HasAttributes a keys) : ResolvesAttributes names active a keys h r h' →
      Changes names active h h'
  | .noAttributes => .refl
  | @ResolvesAttributes.attr _ _ _ key keys h h' h'' v r call calls => by
    obtain ⟨changes, result⟩ := call.changes closed (closed.readAttribute _ _)
    obtain ⟨within, w, leads, alike⟩ := result v rfl
    have so_far := changes.settle new object leads alike within
    exact so_far.trans (calls.changes (so_far.closed closed) new
      (so_far.hasAttributes object.tail))
  | .attrFails call =>
    (call.changes closed (closed.readAttribute _ _)).1.mono fun c mem => List.mem_cons_of_mem _ mem

end

theorem Resolves.slot {active : List Addr} {a : Addr} {type : Option String}
    {attrs : Table Binding} {key : String} {b : Binding} {h h' : Heap} {v : Value}
    (closed : Closed names h) (there : h.get? a = some (.object type attrs))
    (slot : attrs.get? key = some b)
    (call : Resolves names (a :: active) (h.readAttribute (.cell a) key) h (.ok v) h') :
    h'.get? a = some (.object type attrs) ∧ v.Within h'.size ∧
      ∃ w, Leads names h' b w ∧ h'.Alike w v := by
  obtain ⟨changes, result⟩ := call.changes closed (closed.readAttribute _ _)
  obtain ⟨within, w, leads, alike⟩ := result v rfl
  obtain ⟨there', found⟩ := changes.slot there slot leads alike
  exact ⟨there', within, found⟩

theorem Resolves.changes_setAttribute {active : List Addr} {a : Addr} {key : String}
    {keys : List String} {h h' : Heap} {v : Value} (closed : Closed names h) (new : a ∉ active)
    (object : h.HasAttributes a (key :: keys))
    (call : Resolves names (a :: active) (h.readAttribute (.cell a) key) h (.ok v) h') :
    Changes names active h (h'.setAttribute a key (.value v)) := by
  obtain ⟨changes, result⟩ := call.changes closed (closed.readAttribute _ _)
  obtain ⟨within, w, leads, alike⟩ := result v rfl
  exact changes.settle new object leads alike within

/-! ## Resolving as it is computed -/

section

variable {σ α β : Type} {x : ExceptT Fault (StateM σ) α} {f : α → ExceptT Fault (StateM σ) β}

theorem act_bind_apply (x : ExceptT Fault (StateM σ) α) (f : α → ExceptT Fault (StateM σ) β)
    (s : σ) : (x >>= f) s = match x s with
      | (.ok a, s') => f a s'
      | (.error e, s') => (.error e, s') := by
  show (ExceptT.bind x f) s = _
  simp only [ExceptT.bind, ExceptT.mk, bind, StateT.bind]
  rcases x s with ⟨r, s'⟩
  cases r <;> rfl

theorem act_bind_ok {s s' : σ} {a : α} (run : x s = (.ok a, s')) : (x >>= f) s = f a s' := by
  rw [act_bind_apply, run]

theorem act_bind_error {s s' : σ} {e : Fault} (run : x s = (.error e, s')) :
    (x >>= f) s = (.error e, s') := by rw [act_bind_apply, run]

theorem exists_of_act_bind_ok {s s' : σ} {b : β} (run : (x >>= f) s = (.ok b, s')) :
    ∃ a s₁, x s = (.ok a, s₁) ∧ f a s₁ = (.ok b, s') := by
  rw [act_bind_apply] at run
  rcases first : x s with ⟨e | a, s₁⟩ <;> rw [first] at run
  · cases run
  · exact ⟨a, s₁, rfl, run⟩

theorem exists_of_act_bind_error {s s' : σ} {e : Fault} (run : (x >>= f) s = (.error e, s')) :
    x s = (.error e, s') ∨ ∃ a s₁, x s = (.ok a, s₁) ∧ f a s₁ = (.error e, s') := by
  rw [act_bind_apply] at run
  rcases first : x s with ⟨e' | a, s₁⟩ <;> rw [first] at run
  · cases run
    exact .inl rfl
  · exact .inr ⟨a, s₁, rfl, run⟩

theorem act_bind_pure (x : ExceptT Fault (StateM σ) α) (f : α → β) (s : σ) :
    (x >>= fun a => pure (f a) : ExceptT Fault (StateM σ) β) s = ((x s).1.map f, (x s).2) := by
  rw [act_bind_apply]
  rcases x s with ⟨r, s'⟩
  cases r <;> rfl

end

theorem HeapM.deref_apply (names : Table Binding) (b : Binding) (h : Heap) :
    HeapM.deref names b h = (AliasScript.deref names h b, h) := rfl

section

variable {base : Nat} {active : List Addr} {b : Binding} {a : Addr} {h h' : Heap}

theorem resolveBinding_of_ok {v : Value} (found : deref names h b = .ok v) :
    resolveBinding names base active b h = resolveValue names base active v h := by
  rw [resolveBinding, act_bind_ok ((HeapM.deref_apply ..).trans (by rw [found]))]

theorem resolveBinding_of_scalar {s : Scalar} (found : deref names h b = .ok (.scalar s)) :
    resolveBinding names base active b h = (.ok (.scalar s), h) := by
  rw [resolveBinding_of_ok found, resolveValue]
  rfl

theorem resolveBinding_of_error {e : Fault} (failed : deref names h b = .error e) :
    resolveBinding names base active b h = (.error e, h) := by
  rw [resolveBinding, act_bind_error ((HeapM.deref_apply ..).trans (by rw [failed]))]

theorem resolveValue_of_mem (mem : a ∈ active) :
    resolveValue names base active (.cell a) h = (.ok (.cell a), h) := by
  rw [resolveValue, dif_pos mem]
  rfl

theorem resolveItems_nil : resolveItems names base active [] h = (.ok [], h) := by
  rw [resolveItems]
  rfl

theorem resolveItems_of_ok {h'' : Heap} {items bs : List Binding} {v : Value}
    (first : resolveBinding names base active b h = (.ok v, h'))
    (rest : resolveItems names base active items h' = (.ok bs, h'')) :
    resolveItems names base active (b :: items) h = (.ok (.value v :: bs), h'') := by
  rw [resolveItems, act_bind_ok first, act_bind_ok rest]
  rfl

theorem resolveValue_items {type : Option String} {items : List Binding} (new : a ∉ active)
    (old : a < base) (there : h.get? a = some (.list type items)) :
    resolveValue names base active (.cell a) h =
      (resolveItems names base (a :: active) items >>= fun resolved =>
        HeapM.alloc (.list type resolved)) h := by
  rw [resolveValue, dif_neg new, act_bind_ok (show HeapM.cell? a h = (.ok (h.get? a), h) from rfl),
    there]
  simp only [dif_pos old]

theorem resolveValue_copies {type : Option String} {items : List Binding} (new : a ∉ active)
    (young : ¬ a < base) (there : h.get? a = some (.list type items)) :
    resolveValue names base active (.cell a) h =
      (copyItems names base (a :: active) a items >>= fun resolved =>
        HeapM.alloc (.list type resolved)) h := by
  rw [resolveValue, dif_neg new, act_bind_ok (show HeapM.cell? a h = (.ok (h.get? a), h) from rfl),
    there]
  simp only [dif_neg young]

theorem resolveValue_list {type : Option String} {items bs : List Binding} (new : a ∉ active)
    (old : a < base) (there : h.get? a = some (.list type items))
    (run : resolveItems names base (a :: active) items h = (.ok bs, h')) :
    resolveValue names base active (.cell a) h =
      (.ok (.cell h'.size), (h'.alloc (.list type bs)).2) := by
  rw [resolveValue_items new old there, act_bind_ok run]
  rfl

theorem resolveValue_object {type : Option String} {attrs : Table Binding} (new : a ∉ active)
    (old : a < base) (there : h.get? a = some (.object type attrs)) :
    resolveValue names base active (.cell a) h =
      ((resolveAttributes names base (a :: active) a attrs.names h).1.map fun _ => .cell a,
        (resolveAttributes names base (a :: active) a attrs.names h).2) := by
  rw [resolveValue, dif_neg new, act_bind_ok (show HeapM.cell? a h = (.ok (h.get? a), h) from rfl),
    there]
  simp only [dif_pos old]
  exact act_bind_pure ..

theorem resolveValue_of_inert (new : a ∉ active) (inert : ∀ c, h.get? a = some c → c.IsInert) :
    resolveValue names base active (.cell a) h = (.ok (.cell a), h) := by
  rw [resolveValue, dif_neg new, act_bind_ok (show HeapM.cell? a h = (.ok (h.get? a), h) from rfl)]
  cases there : h.get? a with
  | none => rfl
  | some c =>
    have still := inert c there
    cases c with
    | list | object => exact still.elim
    | _ => rfl

theorem resolveAttributes_of_ok {key : String} {keys : List String} {v : Value}
    (run : resolveBinding names base active (h.readAttribute (.cell a) key) h = (.ok v, h')) :
    resolveAttributes names base active a (key :: keys) h =
      resolveAttributes names base active a keys (h'.setAttribute a key (.value v)) := by
  rw [resolveAttributes, act_bind_ok
    (show HeapM.readAttribute a key h = (.ok (h.readAttribute (.cell a) key), h) from rfl),
    act_bind_ok run, act_bind_ok (show HeapM.setAttribute a key (.value v) h' =
      (.ok (), h'.setAttribute a key (.value v)) from rfl)]

theorem resolveAttributes_of_error {key : String} {keys : List String} {e : Fault}
    (run : resolveBinding names base active (h.readAttribute (.cell a) key) h = (.error e, h')) :
    resolveAttributes names base active a (key :: keys) h = (.error e, h') := by
  rw [resolveAttributes, act_bind_ok
    (show HeapM.readAttribute a key h = (.ok (h.readAttribute (.cell a) key), h) from rfl),
    act_bind_error run]

end

theorem exists_cell_of_resolveValue {names : Table Binding} {base : Nat} {active : List Addr}
    {a : Addr} {h h' : Heap} {v : Value}
    (run : resolveValue names base active (.cell a) h = (.ok v, h')) : ∃ c, v = .cell c := by
  rw [resolveValue] at run
  split at run
  · cases run
    exact ⟨a, rfl⟩
  · obtain ⟨cell, h₁, -, rest⟩ := exists_of_act_bind_ok run
    split at rest
    · split at rest
      all_goals
        obtain ⟨items, h₂, -, made⟩ := exists_of_act_bind_ok rest
        cases made
        exact ⟨_, rfl⟩
    · split at rest
      · obtain ⟨_, h₂, -, done⟩ := exists_of_act_bind_ok rest
        cases done
        exact ⟨a, rfl⟩
      · cases rest
        exact ⟨a, rfl⟩
    · cases rest
      exact ⟨a, rfl⟩

theorem deref_of_resolve_scalar {names : Table Binding} {b : Binding} {h h' : Heap} {s : Scalar}
    (run : resolve names b h = (.ok (.scalar s), h')) :
    deref names h b = .ok (.scalar s) ∧ h' = h := by
  cases found : deref names h b with
  | error e =>
    rw [resolve, resolveBinding_of_error found] at run
    cases run
  | ok v =>
    rw [resolve, resolveBinding_of_ok found] at run
    cases v with
    | scalar s' =>
      rw [resolveValue] at run
      cases run
      exact ⟨rfl, rfl⟩
    | cell a =>
      obtain ⟨c, same⟩ := exists_cell_of_resolveValue run
      cases same

/-- The cells beyond a size are lists of values, each of which was there before its list. -/
def Heap.Orderly (base : Nat) (h : Heap) : Prop :=
  ∀ a c, base ≤ a → h.get? a = some c → ∃ type, ∃ vs : List Value,
    c = .list type (vs.map .value) ∧ ∀ v ∈ vs, v.Within a

theorem Heap.orderly_size (h : Heap) : h.Orderly h.size := by
  intro a c le there
  exact absurd (Heap.lt_size_of_get? there) (Nat.not_lt.2 le)

theorem Change.orderly {active : List Addr} {h h' : Heap} {base : Nat}
    (c : Change names active h h') (g : h.Orderly base) : h'.Orderly base := by
  intro a d le there
  cases c with
  | copy type vs within =>
    rcases Heap.get?_alloc_eq_some_iff.1 there with ⟨rfl, rfl⟩ | there
    · exact ⟨type, vs, rfl, within⟩
    · exact g a d le there
  | @settle o _ _ _ _ _ _ _ object =>
    by_cases same : a = o
    · subst same
      obtain ⟨type, vs, list, -⟩ := g a _ le object
      cases list
    · rw [Heap.get?_setAttribute_of_ne object same] at there
      exact g a d le there

theorem Changes.orderly {active : List Addr} {h h' : Heap} {base : Nat}
    (c : Changes names active h h') (g : h.Orderly base) : h'.Orderly base := by
  induction c with
  | refl => exact g
  | tail _ step ih => exact step.orderly ih

theorem resolves_list {active : List Addr} {b : Binding} {h : Heap} {a : Addr}
    {type : Option String} {items : List Binding} {act : HeapM (List Binding)}
    {r : Except Fault (List Value)}
    (found : deref names h b = .ok (.cell a)) (new : a ∉ active)
    (there : h.get? a = some (.list type items)) (result : (act h).1 = r.map (List.map .value))
    (calls : ResolvesItems names (a :: active) items h r (act h).2) :
    Resolves names active b h ((act >>= fun resolved => HeapM.alloc (.list type resolved)) h).1
      ((act >>= fun resolved => HeapM.alloc (.list type resolved)) h).2 := by
  rw [act_bind_apply]
  rcases run : act h with ⟨r', h'⟩
  rw [run] at result calls
  simp only at result calls
  subst result
  cases r with
  | error e => exact .listFails found new there calls
  | ok vs => exact .list found new there calls

theorem resolvesItems_cons {active : List Addr} {b : Binding} {items : List Binding} {h : Heap}
    {first : HeapM Value} {rest : HeapM (List Binding)}
    (call : Resolves names active b h (first h).1 (first h).2)
    (calls : ∀ v h', first h = (.ok v, h') → ∃ r, (rest h').1 = r.map (List.map .value) ∧
      ResolvesItems names active items h' r (rest h').2) :
    ∃ r, ((first >>= fun v => rest >>= fun vs => pure (.value v :: vs) : HeapM _) h).1 =
        r.map (List.map Binding.value) ∧
      ResolvesItems names active (b :: items) h r
        ((first >>= fun v => rest >>= fun vs => pure (.value v :: vs) : HeapM _) h).2 := by
  rw [act_bind_apply]
  rcases run : first h with ⟨r, h'⟩
  rw [run] at call
  cases r with
  | error e => exact ⟨.error e, rfl, .itemFails call⟩
  | ok v =>
    obtain ⟨r, result, calls⟩ := calls v h' run
    simp only [act_bind_pure, result]
    refine ⟨r.map (v :: ·), ?_, .item call calls⟩
    cases r <;> rfl

section

variable (names : Table Binding) (base : Nat)

/-- Resolving the binding, as it is computed, has a tree of calls. -/
def CallsOfBinding (active : List Addr) (b : Binding) : Prop :=
  ∀ h : Heap, Closed names h → h.Orderly base → b.Within h.size →
    Resolves names active b h (resolveBinding names base active b h).1
      (resolveBinding names base active b h).2

def CallsOfValue (active : List Addr) (v : Value) : Prop :=
  ∀ (h : Heap) (b : Binding), Closed names h → h.Orderly base → b.Within h.size →
    deref names h b = .ok v → Resolves names active b h (resolveValue names base active v h).1
      (resolveValue names base active v h).2

def CallsOfItems (active : List Addr) (items : List Binding) : Prop :=
  ∀ h : Heap, Closed names h → h.Orderly base → (∀ b ∈ items, b.Within h.size) →
    ∃ r, (resolveItems names base active items h).1 = r.map (List.map .value) ∧
      ResolvesItems names active items h r (resolveItems names base active items h).2

/-- A list that was made during the call holds values, which are older than the list. -/
def CallsOfCopies (active : List Addr) (a : Addr) (items : List Binding) : Prop :=
  ∀ (h : Heap) (vs : List Value), Closed names h → h.Orderly base → items = vs.map .value →
    (∀ v ∈ vs, v.Within a) → a ≤ h.size →
      ∃ r, (copyItems names base active a items h).1 = r.map (List.map .value) ∧
        ResolvesItems names active items h r (copyItems names base active a items h).2

/-- The object is the innermost container that is being resolved. -/
def CallsOfAttributes (all : List Addr) (a : Addr) (keys : List String) : Prop :=
  ∀ (active : List Addr) (h : Heap), all = a :: active → Closed names h → h.Orderly base →
    a ∉ active → h.HasAttributes a keys →
      ResolvesAttributes names active a keys h (resolveAttributes names base all a keys h).1
        (resolveAttributes names base all a keys h).2

end

section

variable {base : Nat} {active : List Addr} {a : Addr} {b : Binding} {h : Heap}

theorem CallsOfValue.binding (calls : ∀ v, CallsOfValue names base active v) :
    CallsOfBinding names base active b := by
  intro h closed orderly within
  cases found : deref names h b with
  | error e =>
    rw [resolveBinding_of_error found]
    exact .lost found
  | ok v =>
    rw [resolveBinding_of_ok found]
    exact calls v h b closed orderly within found

/-- A list that is older than the call has its items resolved, and one that was made during the call
has the containers in it resolved. -/
theorem resolves_of_list {type : Option String} {items : List Binding}
    (ofItems : a < base → CallsOfItems names base (a :: active) items)
    (ofCopies : ¬ a < base → CallsOfCopies names base (a :: active) a items)
    (closed : Closed names h) (orderly : h.Orderly base) (found : deref names h b = .ok (.cell a))
    (new : a ∉ active) (there : h.get? a = some (.list type items)) :
    Resolves names active b h (resolveValue names base active (.cell a) h).1
      (resolveValue names base active (.cell a) h).2 := by
  by_cases old : a < base
  · rw [resolveValue_items new old there]
    obtain ⟨r, result, calls⟩ := ofItems old h closed orderly (closed.cells a _ there)
    exact resolves_list found new there result calls
  · rw [resolveValue_copies new old there]
    obtain ⟨type', vs, same, older⟩ := orderly a _ (Nat.le_of_not_lt old) there
    cases same
    obtain ⟨r, result, calls⟩ := ofCopies old h vs closed orderly rfl older
      (Nat.le_of_lt (Heap.lt_size_of_get? there))
    exact resolves_list found new there result calls

/-- All objects are older than the call. -/
theorem resolves_of_object {type : Option String} {attrs : Table Binding}
    (ofAttributes : a < base → CallsOfAttributes names base (a :: active) a attrs.names)
    (closed : Closed names h) (orderly : h.Orderly base) (found : deref names h b = .ok (.cell a))
    (new : a ∉ active) (there : h.get? a = some (.object type attrs)) :
    Resolves names active b h (resolveValue names base active (.cell a) h).1
      (resolveValue names base active (.cell a) h).2 := by
  by_cases old : a < base
  · rw [resolveValue_object new old there]
    have calls := ofAttributes old active h rfl closed orderly new
      (Heap.hasAttributes_of_get? there)
    exact .object found new there calls
  · obtain ⟨_, _, same, -⟩ := orderly a _ (Nat.le_of_not_lt old) there
    cases same

theorem CallsOfAttributes.cons {all : List Addr} {key : String} {keys : List String}
    (first : ∀ b, CallsOfBinding names base all b) (rest : CallsOfAttributes names base all a keys) :
    CallsOfAttributes names base all a (key :: keys) := by
  rintro active h rfl closed orderly new object
  have call := first (h.readAttribute (.cell a) key) h closed orderly (closed.readAttribute _ _)
  rcases found : resolveBinding names base (a :: active) (h.readAttribute (.cell a) key) h with
    ⟨r, h'⟩
  rw [found] at call
  cases r with
  | error e =>
    rw [resolveAttributes_of_error found]
    exact .attrFails call
  | ok v =>
    rw [resolveAttributes_of_ok found]
    have so_far := call.changes_setAttribute closed new object
    exact .attr call (rest active _ rfl (so_far.closed closed) (so_far.orderly orderly) new
      (so_far.hasAttributes object.tail))

theorem CallsOfItems.cons {items : List Binding} (first : CallsOfBinding names base active b)
    (rest : CallsOfItems names base active items) :
    CallsOfItems names base active (b :: items) := by
  intro h closed orderly within
  have inside := within b (List.mem_cons_self ..)
  have call := first h closed orderly inside
  rw [resolveItems]
  refine resolvesItems_cons call fun v h' run => ?_
  rw [run] at call
  have changes := (call.changes closed inside).1
  exact rest h' (changes.closed closed) (changes.orderly orderly) fun c mem =>
    (within c (List.mem_cons_of_mem _ mem)).mono changes.size_le

theorem CallsOfCopies.cell {items : List Binding} {c : Addr} (older : c < a)
    (first : CallsOfValue names base active (.cell c))
    (rest : CallsOfCopies names base active a items) :
    CallsOfCopies names base active a (.value (.cell c) :: items) := by
  intro h vs closed orderly same within le
  obtain ⟨v, vs, rfl, head, rfl⟩ := List.map_eq_cons_iff.1 same.symm
  cases head
  have inside : (Binding.value (.cell c)).Within h.size := Nat.lt_of_lt_of_le older le
  have call := first h (.value (.cell c)) closed orderly inside rfl
  rw [copyItems, dif_pos older]
  refine resolvesItems_cons call fun v h' run => ?_
  rw [run] at call
  have changes := (call.changes closed inside).1
  exact rest h' vs (changes.closed closed) (changes.orderly orderly) rfl
    (fun w mem => within w (List.mem_cons_of_mem _ mem)) (Nat.le_trans le changes.size_le)

theorem CallsOfCopies.scalar {items : List Binding} (other : ∀ c, b ≠ .value (.cell c))
    (rest : CallsOfCopies names base active a items) :
    CallsOfCopies names base active a (b :: items) := by
  intro h vs closed orderly same within le
  obtain ⟨v, vs, rfl, rfl, rfl⟩ := List.map_eq_cons_iff.1 same.symm
  have call : Resolves names active (.value v) h ((pure v : HeapM Value) h).1
      ((pure v : HeapM Value) h).2 := by
    cases v with
    | scalar s => exact .inert rfl trivial
    | cell c => exact absurd rfl (other c)
  rw [copyItems]
  · refine resolvesItems_cons call fun w h' run => ?_
    cases run
    exact rest h vs closed orderly rfl (fun w mem => within w (List.mem_cons_of_mem _ mem)) le
  · exact other

end

theorem resolves_resolveBinding (base : Nat) (active : List Addr) (b : Binding) :
    CallsOfBinding names base active b := by
  induction active, b using resolveBinding.induct base _ (CallsOfValue names base)
    (CallsOfAttributes names base) (CallsOfCopies names base) (CallsOfItems names base) with
  | case1 active b calls => exact CallsOfValue.binding calls
  | case2 active s =>
    intro h b closed orderly within found
    rw [resolveValue]
    exact .inert found trivial
  | case3 active a mem =>
    intro h b closed orderly within found
    rw [resolveValue_of_mem mem]
    exact .inert found (.inl mem)
  | case4 active a new ofItems ofCopies ofAttributes =>
    intro h b closed orderly within found
    by_cases inert : ∀ c, h.get? a = some c → c.IsInert
    · rw [resolveValue_of_inert new inert]
      exact .inert found (.inr inert)
    · push Not at inert
      obtain ⟨c, there, live⟩ := inert
      cases c with
      | list type items =>
        exact resolves_of_list (ofItems items) (ofCopies items) closed orderly found new there
      | object type attrs =>
        exact resolves_of_object (ofAttributes attrs) closed orderly found new there
      | _ => exact absurd trivial live
  | case5 active a =>
    intro outer h same closed orderly new there
    rw [resolveAttributes]
    exact .noAttributes
  | case6 all a key keys first rest => exact .cons first rest
  | case7 active a =>
    intro h vs closed orderly same within le
    rw [copyItems]
    exact ⟨.ok [], rfl, .noItems⟩
  | case8 active a c items older first rest => exact .cell older first rest
  | case9 active a c items young =>
    intro h vs closed orderly same within le
    obtain ⟨v, vs, rfl, first, rfl⟩ := List.map_eq_cons_iff.1 same.symm
    cases first
    exact absurd (within (.cell c) (List.mem_cons_self ..)) young
  | case10 active a b items other rest => exact .scalar other rest
  | case11 active =>
    intro h closed orderly within
    rw [resolveItems]
    exact ⟨.ok [], rfl, .noItems⟩
  | case12 active b items first rest => exact .cons first rest

/-- Resolving a binding of a store without dangling addresses has a tree of calls. -/
theorem resolves_resolve {b : Binding} {h : Heap} (closed : Closed names h)
    (within : b.Within h.size) :
    Resolves names [] b h (resolve names b h).1 (resolve names b h).2 :=
  resolves_resolveBinding h.size [] b h closed h.orderly_size within

end AliasScript

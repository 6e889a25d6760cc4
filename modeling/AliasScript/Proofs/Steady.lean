import AliasScript.Proofs.Parts
import AliasScript.Proofs.Plain

/-!
# Steady changes

Resolving puts copies of lists into attributes, and where a list has a meaning its copy is as good
as the list itself. A list without a meaning is another matter: a reference that led to it leads to
the copy afterwards. Changes are steady if this does not happen (`Steady`): a binding without a
meaning goes on leading where it led, and so does what an attribute holds. A new list is a steady
change (`steady_alloc`), and so is an attribute taking the value that it leads to, or a value of its
meaning without references (`steady_setAttribute`).
-/

namespace AliasScript

variable {names : Table Binding}

/-- Nothing finite comes of following every reference. -/
def Meaningless (names : Table Binding) (heap : Heap) (b : Binding) : Prop :=
  ∀ t, ¬ Means names heap t b

/-- One binding is in one heap what another is in another heap: it means the same, holds no reference
if the other holds none, and leads to the same value if it is without a meaning. -/
structure Persists (names : Table Binding) (h : Heap) (b : Binding) (h' : Heap) (b' : Binding) :
    Prop where
  means : ∀ t, Means names h' t b' ↔ Means names h t b
  plain : ∀ t, IsPlain h t b → IsPlain h' t b'
  leads : Meaningless names h b → ∀ v, Leads names h' b' v ↔ Leads names h b v

/-- A heap has been changed while every binding, and whatever an attribute holds, has persisted. -/
structure Steady (names : Table Binding) (h h' : Heap) : Prop where
  changes : Changes names [] h h'
  binding : ∀ b, b.Within h.size → Persists names h b h' b
  slot : ∀ a key, a < h.size →
    Persists names h (h.readAttribute (.cell a) key) h' (h'.readAttribute (.cell a) key)

/-! ## One change after the other -/

namespace Persists

variable {h h' h'' : Heap} {b b' b'' : Binding}

theorem refl (names : Table Binding) (h : Heap) (b : Binding) : Persists names h b h b :=
  ⟨fun _ => .rfl, fun _ => id, fun _ _ => .rfl⟩

theorem meaningless_iff (p : Persists names h b h' b') :
    Meaningless names h' b' ↔ Meaningless names h b :=
  forall_congr' fun t => not_congr (p.means t)

theorem trans (p : Persists names h b h' b') (q : Persists names h' b' h'' b'') :
    Persists names h b h'' b'' where
  means t := (q.means t).trans (p.means t)
  plain t := fun plain => q.plain t (p.plain t plain)
  leads lost v := (q.leads (p.meaningless_iff.2 lost) v).trans (p.leads lost v)

end Persists

namespace Steady

variable {h h' h'' : Heap}

theorem refl (names : Table Binding) (h : Heap) : Steady names h h :=
  ⟨.refl, fun b _ => .refl names h b, fun _ _ _ => .refl names h _⟩

theorem trans (s : Steady names h h') (s' : Steady names h' h'') : Steady names h h'' where
  changes := s.changes.trans s'.changes
  binding b within := (s.binding b within).trans (s'.binding b (within.mono s.changes.size_le))
  slot a key lt := (s.slot a key lt).trans (s'.slot a key (Nat.lt_of_lt_of_le lt s.changes.size_le))

end Steady

/-! ## The two changes -/

variable {heap : Heap}

/-- A new list changes nothing that was there before. -/
theorem steady_alloc (closed : Closed names heap) (type : Option String) {vs : List Value}
    (within : ∀ v ∈ vs, v.Within heap.size) :
    Steady names heap (heap.alloc (.list type (vs.map .value))).2 := by
  have kept : ∀ b, b.Within heap.size →
      Persists names heap b (heap.alloc (.list type (vs.map .value))).2 b := fun b inside =>
    ⟨fun _ => means_alloc_iff closed inside,
      fun t => (simulates_alloc_eq closed _).unfolds inside, fun _ _ => leads_copy_iff⟩
  refine ⟨.single (.copy heap type vs within), kept, fun a key _ => ?_⟩
  rw [Heap.readAttribute_alloc_list]
  exact kept _ (closed.readAttribute _ _)

section setAttribute

variable {a : Addr} {type : Option String} {attrs : Table Binding} {attr : String} {b : Binding}
  {v w : Value}

/-- What an attribute can take without loss: the value that it leads to, or one of its meaning that
holds no references. -/
def Suits (names : Table Binding) (heap : Heap) (b : Binding) (v : Value) : Prop :=
  Leads names heap b v ∨ ∃ t, Means names heap t b ∧ IsPlain heap t (.value v)

namespace Suits

variable (suits : Suits names heap b v) (closed : Closed names heap) (inside : v.Within heap.size)
include suits closed

include inside in
theorem means_iff (t : Tree) : Means names heap t (.value v) ↔ Means names heap t b := by
  rcases suits with leads | ⟨u, means, plain⟩
  · exact (means_iff_of_leads leads).symm
  · have means' : Means names heap u (.value v) :=
      IsPlain.means closed (show (Binding.value v).Within _ from inside) plain
    constructor
    · intro h
      rwa [h.unique means']
    · intro h
      rwa [h.unique means]

theorem plain (within : b.Within heap.size) {t : Tree} (plain : IsPlain heap t b) :
    IsPlain heap t (.value v) := by
  rcases suits with leads | ⟨u, means, plain'⟩
  · obtain ⟨x, rfl, inner⟩ := (unfolds_iff onValues_eq).1 plain
    rw [leads_value_iff.1 leads]
    exact inner
  · have means' := plain.means closed within
    rwa [means'.unique means]

omit closed in
theorem leads_of_meaningless (lost : Meaningless names heap b) : Leads names heap b v :=
  suits.resolve_right fun ⟨t, means, _⟩ => lost t means

end Suits

variable (closed : Closed names heap) (there : heap.get? a = some (.object type attrs))
  (slot : attrs.get? attr = some b) (leads : Leads names heap b w) (alike : heap.Alike w v)
  (inside : v.Within heap.size) (suits : Suits names heap b v)
include closed there slot

include inside suits in
theorem isPlain_setAttribute {t : Tree} {c : Binding} (within : c.Within heap.size)
    (plain : IsPlain heap t c) : IsPlain (heap.setAttribute a attr (.value v)) t c := by
  have held : b.Within heap.size :=
    closed.cells a _ there _ (List.mem_map_of_mem (f := Prod.snd) (Table.mem_of_get? slot))
  refine (simulates_setAttribute onValues_eq onValues_eq closed there slot ?_
    ⟨.value v, inside, fun _ => suits.plain closed held, fun _ => id⟩).unfolds within plain
  rintro c u within rfl
  exact ⟨u, u, rfl, within, fun _ => id, fun _ => id⟩

include leads alike suits in
omit closed in
theorem leads_setAttribute_iff {c : Binding} (lost : Meaningless names heap c) (u : Value) :
    Leads names (heap.setAttribute a attr (.value v)) c u ↔ Leads names heap c u := by
  -- A binding that leads where the attribute leads means what the attribute means.
  have same : Leads names heap c w → v = w := by
    intro led
    have lost' : Meaningless names heap b := fun t means =>
      lost t ((means_iff_of_leads led).2 ((means_iff_of_leads leads).1 means))
    exact (suits.leads_of_meaningless lost').unique leads
  constructor
  · intro found
    rcases Leads.of_settle there slot leads alike found with before | ⟨rfl, before⟩
    · exact before
    · rwa [same before]
  · intro found
    rcases Leads.settle there slot leads alike found with after | ⟨rfl, after⟩
    · exact after
    · rwa [← same found]

include leads alike inside suits in
/-- An attribute that takes a value that suits it is a steady change. -/
theorem steady_setAttribute : Steady names heap (heap.setAttribute a attr (.value v)) := by
  have same := suits.means_iff closed inside
  have kept : ∀ c, c.Within heap.size →
      Persists names heap c (heap.setAttribute a attr (.value v)) c := fun c within =>
    ⟨fun t => means_setAttribute_iff closed there slot leads alike inside same within,
      fun t => isPlain_setAttribute closed there slot inside suits within,
      leads_setAttribute_iff there slot leads alike suits⟩
  refine ⟨.single (.settle List.not_mem_nil there slot leads alike inside), kept, ?_⟩
  intro o key _
  have held : b.Within heap.size :=
    closed.cells a _ there _ (List.mem_map_of_mem (f := Prod.snd) (Table.mem_of_get? slot))
  rw [Heap.readAttribute_setAttribute there]
  split
  · next here =>
    obtain ⟨⟨⟩, rfl⟩ := here
    rw [Heap.readAttribute_of_get? there slot]
    have new := kept (.value v) inside
    refine ⟨fun t => (new.means t).trans (same t), fun t plain => ?_, fun lost u => ?_⟩
    · exact new.plain t (suits.plain closed held plain)
    · have led := suits.leads_of_meaningless lost
      rw [leads_value_iff]
      exact ⟨fun equal => equal ▸ led, fun other => other.unique led⟩
  · exact kept _ (closed.readAttribute _ _)

end setAttribute

/-! ## Containers around a binding -/

theorem Means.exists_part {w : Tree} {a : Addr} {b : Binding}
    (h : Means names heap w (.value (.cell a))) (part : Part heap a b) :
    ∃ t, Means names heap t b ∧ sizeOf t < sizeOf w := by
  cases part with
  | item there mem =>
    obtain ⟨ts, rfl, all⟩ := (unfolds_cell_list onValues_leads there).1 h
    obtain ⟨t, inside, means⟩ := exists_unfolds_of_mem_items all b mem
    exact ⟨t, means, sizeOf_lt_sequence inside⟩
  | slot there held =>
    obtain ⟨es, rfl, all⟩ := (unfolds_cell_object onValues_leads there).1 h
    obtain ⟨t, inside, means⟩ := exists_unfolds_of_mem_entries all _ (Table.mem_of_get? held)
    exact ⟨t, means, sizeOf_lt_mapping inside⟩

/-- Where one of the containers means a tree, the binding means a smaller one. -/
def Around (names : Table Binding) (heap : Heap) (active : List Addr) (b : Binding) : Prop :=
  ∀ a ∈ active, a < heap.size ∧ ∀ w, Means names heap w (.value (.cell a)) →
    ∃ t, Means names heap t b ∧ sizeOf t < sizeOf w

namespace Around

variable {active : List Addr} {b : Binding}

theorem nil : Around names heap [] b := fun _ mem => nomatch mem

theorem not_mem (around : Around names heap active b) {a : Addr} {t : Tree}
    (leads : Leads names heap b (.cell a)) (means : Means names heap t b) : a ∉ active := by
  intro mem
  obtain ⟨u, means', lt⟩ := (around a mem).2 t ((means_iff_of_leads leads).1 means)
  rw [means.unique means'] at lt
  exact Nat.lt_irrefl _ lt

theorem part (around : Around names heap active b) {a : Addr} {c : Binding}
    (leads : Leads names heap b (.cell a)) (part : Part heap a c) :
    Around names heap (a :: active) c := by
  intro x mem
  rcases List.mem_cons.1 mem with rfl | mem
  · exact ⟨part.lt_size, fun w means => means.exists_part part⟩
  · obtain ⟨lt, smaller⟩ := around x mem
    refine ⟨lt, fun w means => ?_⟩
    obtain ⟨u, means', less⟩ := smaller w means
    obtain ⟨t, means'', less'⟩ := ((means_iff_of_leads leads).1 means').exists_part part
    exact ⟨t, means'', Nat.lt_trans less' less⟩

theorem persists {h' : Heap} {b' : Binding} (around : Around names heap active b)
    (steady : Steady names heap h') (same : Persists names heap b h' b') :
    Around names h' active b' := by
  intro a mem
  obtain ⟨lt, smaller⟩ := around a mem
  refine ⟨Nat.lt_of_lt_of_le lt steady.changes.size_le, fun w means => ?_⟩
  obtain ⟨t, means', less⟩ := smaller w (((steady.binding (.value (.cell a)) lt).means w).1 means)
  exact ⟨t, (same.means t).2 means', less⟩

end Around

end AliasScript

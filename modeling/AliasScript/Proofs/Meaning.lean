import AliasScript.Proofs.Scripted
import AliasScript.Tree.Basic
import Mathlib.Data.List.Forall2

/-!
# What a store means

A binding means the finite tree that following every reference unfolds it to (`Means`); it means
nothing where a reference on the way leads nowhere. One store simulates another when it has the same
lists, objects with the same attributes, and leads every binding to a value of the same meaning
(`Simulates`); then what a binding means in the one it means in the other.

Both ways in which resolving changes a heap are simulated forwards and backwards, so resolving
changes no meaning (`Resolves.means`).
-/

namespace AliasScript

open Relation

section
variable (heap : Heap) (leads : Binding → Value → Prop)

mutual

/-- A binding unfolds to a tree, when `leads` says which value a binding stands for. -/
def Unfolds : Tree → Binding → Prop
  | .scalar s, b => leads b (.scalar s)
  | .sequence (.list type) ts, b => ∃ a items, leads b (.cell a) ∧
    heap.get? a = some (.list type items) ∧ UnfoldsItems ts items
  | .mapping (.object type) es, b => ∃ a attrs, leads b (.cell a) ∧
    heap.get? a = some (.object type attrs) ∧ UnfoldsEntries es attrs.entries
  | _, _ => False

def UnfoldsItems : List Tree → List Binding → Prop
  | [], [] => True
  | t :: ts, b :: bs => Unfolds t b ∧ UnfoldsItems ts bs
  | _, _ => False

def UnfoldsEntries : List (Scalar × Tree) → List (String × Binding) → Prop
  | [], [] => True
  | (key, t) :: es, (name, b) :: entries =>
    key = .text name ∧ Unfolds t b ∧ UnfoldsEntries es entries
  | _, _ => False

end

end

/-- The tree that a binding stands for when every reference is followed. -/
def Means (names : Table Binding) (heap : Heap) : Tree → Binding → Prop :=
  Unfolds heap (Leads names heap)

/-- The tree of a binding without any reference. -/
def IsPlain (heap : Heap) : Tree → Binding → Prop := Unfolds heap fun b v => b = .value v

/-- A value stands for itself. -/
def OnValues (leads : Binding → Value → Prop) : Prop := ∀ v w, leads (.value v) w ↔ w = v

theorem onValues_leads {names : Table Binding} {heap : Heap} : OnValues (Leads names heap) :=
  fun _ _ => leads_value_iff

theorem onValues_eq : OnValues fun b v => b = .value v :=
  fun _ _ => ⟨fun same => (Binding.value.inj same).symm, fun same => same ▸ rfl⟩

/-! ## Unfolding -/

section

variable {heap : Heap} {leads : Binding → Value → Prop}

theorem unfolds_iff (values : OnValues leads) {t : Tree} {b : Binding} :
    Unfolds heap leads t b ↔ ∃ v, leads b v ∧ Unfolds heap leads t (.value v) := by
  constructor
  · intro h
    unfold Unfolds at h
    split at h
    · exact ⟨_, h, by rw [Unfolds]; exact (values _ _).2 rfl⟩
    · obtain ⟨a, items, lead, there, all⟩ := h
      exact ⟨_, lead, by rw [Unfolds]; exact ⟨a, items, (values _ _).2 rfl, there, all⟩⟩
    · obtain ⟨a, attrs, lead, there, all⟩ := h
      exact ⟨_, lead, by rw [Unfolds]; exact ⟨a, attrs, (values _ _).2 rfl, there, all⟩⟩
    · exact h.elim
  · rintro ⟨v, lead, h⟩
    unfold Unfolds at h ⊢
    split at h
    · rw [(values _ _).1 h]
      exact lead
    · obtain ⟨a, items, self, there, all⟩ := h
      exact ⟨a, items, by rwa [(values _ _).1 self], there, all⟩
    · obtain ⟨a, attrs, self, there, all⟩ := h
      exact ⟨a, attrs, by rwa [(values _ _).1 self], there, all⟩
    · exact h.elim

theorem unfolds_cell_list (values : OnValues leads) {a : Addr} {type : Option String}
    {items : List Binding} (there : heap.get? a = some (.list type items)) {t : Tree} :
    Unfolds heap leads t (.value (.cell a)) ↔
      ∃ ts, t = .sequence (.list type) ts ∧ UnfoldsItems heap leads ts items := by
  constructor
  · intro h
    unfold Unfolds at h
    split at h
    · cases (values _ _).1 h
    · obtain ⟨a', items', self, there', all⟩ := h
      cases (values _ _).1 self
      cases there.symm.trans there'
      exact ⟨_, rfl, all⟩
    · obtain ⟨a', attrs, self, there', -⟩ := h
      cases (values _ _).1 self
      cases there.symm.trans there'
    · exact h.elim
  · rintro ⟨ts, rfl, all⟩
    rw [Unfolds]
    exact ⟨a, items, (values _ _).2 rfl, there, all⟩

theorem unfolds_cell_object (values : OnValues leads) {a : Addr} {type : Option String}
    {attrs : Table Binding} (there : heap.get? a = some (.object type attrs)) {t : Tree} :
    Unfolds heap leads t (.value (.cell a)) ↔
      ∃ es, t = .mapping (.object type) es ∧ UnfoldsEntries heap leads es attrs.entries := by
  constructor
  · intro h
    unfold Unfolds at h
    split at h
    · cases (values _ _).1 h
    · obtain ⟨a', items, self, there', -⟩ := h
      cases (values _ _).1 self
      cases there.symm.trans there'
    · obtain ⟨a', attrs', self, there', all⟩ := h
      cases (values _ _).1 self
      cases there.symm.trans there'
      exact ⟨_, rfl, all⟩
    · exact h.elim
  · rintro ⟨es, rfl, all⟩
    rw [Unfolds]
    exact ⟨a, attrs, (values _ _).2 rfl, there, all⟩

theorem exists_cell_of_unfolds (values : OnValues leads) {a : Addr} {t : Tree}
    (h : Unfolds heap leads t (.value (.cell a))) :
    (∃ type items, heap.get? a = some (.list type items)) ∨
      ∃ type attrs, heap.get? a = some (.object type attrs) := by
  unfold Unfolds at h
  split at h
  · cases (values _ _).1 h
  · obtain ⟨a', items, self, there, -⟩ := h
    cases (values _ _).1 self
    exact .inl ⟨_, items, there⟩
  · obtain ⟨a', attrs, self, there, -⟩ := h
    cases (values _ _).1 self
    exact .inr ⟨_, attrs, there⟩
  · exact h.elim

theorem unfolds_scalar (values : OnValues leads) {s : Scalar} {t : Tree} :
    Unfolds heap leads t (.value (.scalar s)) ↔ t = .scalar s := by
  constructor
  · intro h
    unfold Unfolds at h
    split at h
    · cases (values _ _).1 h
      rfl
    · obtain ⟨a, items, self, -⟩ := h
      cases (values _ _).1 self
    · obtain ⟨a, attrs, self, -⟩ := h
      cases (values _ _).1 self
    · exact h.elim
  · rintro rfl
    rw [Unfolds]
    exact (values _ _).2 rfl

theorem unfoldsItems_nil {ts : List Tree} : UnfoldsItems heap leads ts [] ↔ ts = [] := by
  cases ts <;> simp [UnfoldsItems]

theorem unfoldsItems_cons {ts : List Tree} {b : Binding} {bs : List Binding} :
    UnfoldsItems heap leads ts (b :: bs) ↔
      ∃ t us, ts = t :: us ∧ Unfolds heap leads t b ∧ UnfoldsItems heap leads us bs := by
  cases ts with
  | nil => simp [UnfoldsItems]
  | cons t ts =>
    rw [UnfoldsItems]
    constructor
    · rintro ⟨here, rest⟩
      exact ⟨t, ts, rfl, here, rest⟩
    · rintro ⟨_, _, ⟨rfl, rfl⟩, here, rest⟩
      exact ⟨here, rest⟩

theorem unfoldsEntries_nil {es : List (Scalar × Tree)} :
    UnfoldsEntries heap leads es [] ↔ es = [] := by
  rcases es with _ | ⟨⟨key, t⟩, es⟩ <;> simp [UnfoldsEntries]

theorem unfoldsEntries_cons {es : List (Scalar × Tree)} {entry : String × Binding}
    {entries : List (String × Binding)} : UnfoldsEntries heap leads es (entry :: entries) ↔
      ∃ t fs, es = (.text entry.1, t) :: fs ∧ Unfolds heap leads t entry.2 ∧
        UnfoldsEntries heap leads fs entries := by
  obtain ⟨name, b⟩ := entry
  rcases es with _ | ⟨⟨key, t⟩, es⟩
  · simp [UnfoldsEntries]
  · simp only [UnfoldsEntries, List.cons.injEq, Prod.mk.injEq]
    constructor
    · rintro ⟨rfl, here, rest⟩
      exact ⟨t, es, ⟨⟨rfl, rfl⟩, rfl⟩, here, rest⟩
    · rintro ⟨_, _, ⟨⟨rfl, rfl⟩, rfl⟩, here, rest⟩
      exact ⟨rfl, here, rest⟩

mutual

theorem unfolds_unique (values : OnValues leads)
    (functional : ∀ b v w, leads b v → leads b w → v = w) :
    ∀ {t u : Tree} {b : Binding}, Unfolds heap leads t b → Unfolds heap leads u b → t = u
  | .scalar s, u, b, h, g => by
    rw [Unfolds] at h
    obtain ⟨v, lead, inner⟩ := (unfolds_iff values).1 g
    cases functional b _ _ h lead
    exact ((unfolds_scalar values).1 inner).symm
  | .sequence (.list type) ts, u, b, h, g => by
    rw [Unfolds] at h
    obtain ⟨a, items, first, there, all⟩ := h
    obtain ⟨v, lead, inner⟩ := (unfolds_iff values).1 g
    cases functional b _ _ first lead
    obtain ⟨us, rfl, others⟩ := (unfolds_cell_list values there).1 inner
    rw [unfoldsItems_unique values functional all others]
  | .mapping (.object type) es, u, b, h, g => by
    rw [Unfolds] at h
    obtain ⟨a, attrs, first, there, all⟩ := h
    obtain ⟨v, lead, inner⟩ := (unfolds_iff values).1 g
    cases functional b _ _ first lead
    obtain ⟨fs, rfl, others⟩ := (unfolds_cell_object values there).1 inner
    rw [unfoldsEntries_unique values functional all others]
  | .reference _, _, _, h, _ | .sequence .hostList _, _, _, h, _
  | .sequence .hostTuple _, _, _, h, _ | .mapping (.context _) _, _, _, h, _
  | .mapping .hostDict _, _, _, h, _ => by
    unfold Unfolds at h
    exact h.elim

theorem unfoldsItems_unique (values : OnValues leads)
    (functional : ∀ b v w, leads b v → leads b w → v = w) :
    ∀ {ts us : List Tree} {bs : List Binding}, UnfoldsItems heap leads ts bs →
      UnfoldsItems heap leads us bs → ts = us
  | [], us, bs, h, g => by
    cases bs with
    | nil => exact (unfoldsItems_nil.1 g).symm
    | cons b bs =>
      obtain ⟨_, _, same, -⟩ := unfoldsItems_cons.1 h
      cases same
  | t :: ts, us, bs, h, g => by
    cases bs with
    | nil => cases unfoldsItems_nil.1 h
    | cons b bs =>
      rw [UnfoldsItems] at h
      obtain ⟨u, us, rfl, here, rest⟩ := unfoldsItems_cons.1 g
      rw [unfolds_unique values functional h.1 here, unfoldsItems_unique values functional h.2 rest]

theorem unfoldsEntries_unique (values : OnValues leads)
    (functional : ∀ b v w, leads b v → leads b w → v = w) :
    ∀ {es fs : List (Scalar × Tree)} {entries : List (String × Binding)},
      UnfoldsEntries heap leads es entries → UnfoldsEntries heap leads fs entries → es = fs
  | [], fs, entries, h, g => by
    cases entries with
    | nil => exact (unfoldsEntries_nil.1 g).symm
    | cons entry entries =>
      obtain ⟨_, _, same, -⟩ := unfoldsEntries_cons.1 h
      cases same
  | (key, t) :: es, fs, entries, h, g => by
    cases entries with
    | nil => cases unfoldsEntries_nil.1 h
    | cons entry entries =>
      rw [UnfoldsEntries] at h
      obtain ⟨u, fs, rfl, here, rest⟩ := unfoldsEntries_cons.1 g
      rw [h.1, unfolds_unique values functional h.2.1 here,
        unfoldsEntries_unique values functional h.2.2 rest]

end

end

/-! ## The parts of a container -/

section

variable {heap heap' : Heap} {leads leads' : Binding → Value → Prop}

theorem exists_unfoldsItems {items : List Binding}
    (each : ∀ b ∈ items, ∃ t, Unfolds heap leads t b) : ∃ ts, UnfoldsItems heap leads ts items := by
  induction items with
  | nil => exact ⟨[], unfoldsItems_nil.2 rfl⟩
  | cons b items ih =>
    obtain ⟨t, here⟩ := each b (List.mem_cons_self ..)
    obtain ⟨ts, rest⟩ := ih fun c mem => each c (List.mem_cons_of_mem _ mem)
    exact ⟨t :: ts, unfoldsItems_cons.2 ⟨t, ts, rfl, here, rest⟩⟩

theorem exists_unfoldsEntries {entries : List (String × Binding)}
    (each : ∀ entry ∈ entries, ∃ t, Unfolds heap leads t entry.2) :
    ∃ es, UnfoldsEntries heap leads es entries := by
  induction entries with
  | nil => exact ⟨[], unfoldsEntries_nil.2 rfl⟩
  | cons entry entries ih =>
    obtain ⟨t, here⟩ := each entry (List.mem_cons_self ..)
    obtain ⟨es, rest⟩ := ih fun c mem => each c (List.mem_cons_of_mem _ mem)
    exact ⟨(.text entry.1, t) :: es, unfoldsEntries_cons.2 ⟨t, es, rfl, here, rest⟩⟩

theorem exists_unfolds_of_mem_items {items : List Binding} :
    ∀ {ts : List Tree}, UnfoldsItems heap leads ts items →
      ∀ b ∈ items, ∃ t ∈ ts, Unfolds heap leads t b := by
  induction items with
  | nil => exact fun _ _ mem => nomatch mem
  | cons first rest ih =>
    intro ts h b mem
    obtain ⟨t, us, rfl, here, others⟩ := unfoldsItems_cons.1 h
    rcases List.mem_cons.1 mem with rfl | mem
    · exact ⟨t, List.mem_cons_self .., here⟩
    · obtain ⟨u, inside, there⟩ := ih others b mem
      exact ⟨u, List.mem_cons_of_mem _ inside, there⟩

theorem exists_unfolds_of_mem_entries {entries : List (String × Binding)} :
    ∀ {es : List (Scalar × Tree)}, UnfoldsEntries heap leads es entries →
      ∀ entry ∈ entries, ∃ t, (.text entry.1, t) ∈ es ∧ Unfolds heap leads t entry.2 := by
  induction entries with
  | nil => exact fun _ _ mem => nomatch mem
  | cons first rest ih =>
    intro es h entry mem
    obtain ⟨t, fs, rfl, here, others⟩ := unfoldsEntries_cons.1 h
    rcases List.mem_cons.1 mem with rfl | mem
    · exact ⟨t, List.mem_cons_self .., here⟩
    · obtain ⟨u, inside, there⟩ := ih others entry mem
      exact ⟨u, List.mem_cons_of_mem _ inside, there⟩

theorem unfoldsItems_imp {items : List Binding}
    (each : ∀ b ∈ items, ∀ t, Unfolds heap leads t b → Unfolds heap' leads' t b) :
    ∀ {ts : List Tree}, UnfoldsItems heap leads ts items → UnfoldsItems heap' leads' ts items := by
  induction items with
  | nil => exact fun h => unfoldsItems_nil.2 (unfoldsItems_nil.1 h)
  | cons b items ih =>
    intro ts h
    obtain ⟨t, us, rfl, here, rest⟩ := unfoldsItems_cons.1 h
    exact unfoldsItems_cons.2 ⟨t, us, rfl, each b (List.mem_cons_self ..) t here,
      ih (fun c mem => each c (List.mem_cons_of_mem _ mem)) rest⟩

theorem unfoldsItems_congr {items : List Binding}
    (same : ∀ b ∈ items, ∀ t, Unfolds heap' leads' t b ↔ Unfolds heap leads t b) {ts : List Tree} :
    UnfoldsItems heap' leads' ts items ↔ UnfoldsItems heap leads ts items :=
  ⟨unfoldsItems_imp fun b mem t => (same b mem t).1,
    unfoldsItems_imp fun b mem t => (same b mem t).2⟩

end

/-! ## Simulation -/

/-- What one binding unfolds to in the first store the other unfolds to in the second one, by way of
a third binding that unfolds alike in both. -/
def Carries (size : Nat) (heap : Heap) (leads : Binding → Value → Prop) (heap' : Heap)
    (leads' : Binding → Value → Prop) (b b' : Binding) : Prop :=
  ∃ c : Binding, c.Within size ∧ (∀ t, Unfolds heap leads t b → Unfolds heap leads t c) ∧
    ∀ t, Unfolds heap' leads' t c → Unfolds heap' leads' t b'

theorem Carries.refl {size : Nat} {heap heap' : Heap} {leads leads' : Binding → Value → Prop}
    {b : Binding} (within : b.Within size) : Carries size heap leads heap' leads' b b :=
  ⟨b, within, fun _ => id, fun _ => id⟩

/-- The second store has the lists and the objects of the first one, with attributes that carry what
they unfold to, and a binding stands for a value that carries it as well. -/
structure Simulates (size : Nat) (heap : Heap) (leads : Binding → Value → Prop) (heap' : Heap)
    (leads' : Binding → Value → Prop) : Prop where
  values : OnValues leads
  values' : OnValues leads'
  lead : ∀ b v, b.Within size → leads b v → ∃ w u : Value, leads' b w ∧ u.Within size ∧
    (∀ t, Unfolds heap leads t (.value v) → Unfolds heap leads t (.value u)) ∧
      ∀ t, Unfolds heap' leads' t (.value u) → Unfolds heap' leads' t (.value w)
  list : ∀ a type items, a < size → heap.get? a = some (.list type items) →
    heap'.get? a = some (.list type items) ∧ ∀ b ∈ items, b.Within size
  object : ∀ a type attrs, a < size → heap.get? a = some (.object type attrs) →
    ∃ attrs', heap'.get? a = some (.object type attrs') ∧
      List.Forall₂ (fun old new => old.1 = new.1 ∧ Carries size heap leads heap' leads' old.2 new.2)
        attrs.entries attrs'.entries

namespace Simulates

variable {size : Nat} {heap heap' : Heap} {leads leads' : Binding → Value → Prop}
  (s : Simulates size heap leads heap' leads')
include s

theorem of_values {t : Tree} (onValues : ∀ v, v.Within size → Unfolds heap leads t (.value v) →
    Unfolds heap' leads' t (.value v)) {b : Binding} (within : b.Within size)
    (h : Unfolds heap leads t b) : Unfolds heap' leads' t b := by
  obtain ⟨v, lead, inner⟩ := (unfolds_iff s.values).1 h
  obtain ⟨w, u, lead', inside, before, after⟩ := s.lead b v within lead
  exact (unfolds_iff s.values').2 ⟨w, lead', after t (onValues u inside (before t inner))⟩

mutual

theorem unfolds_value : ∀ (t : Tree) (v : Value), v.Within size →
    Unfolds heap leads t (.value v) → Unfolds heap' leads' t (.value v)
  | .scalar r, v, _, h => by
    rw [Unfolds] at h ⊢
    exact (s.values' _ _).2 ((s.values _ _).1 h)
  | .sequence (.list type) ts, v, within, h => by
    rw [Unfolds] at h
    obtain ⟨a, items, lead, there, all⟩ := h
    cases (s.values _ _).1 lead
    obtain ⟨there', inside⟩ := s.list a type items within there
    exact (unfolds_cell_list s.values' there').2 ⟨ts, rfl, unfoldsItems ts items inside all⟩
  | .mapping (.object type) es, v, within, h => by
    rw [Unfolds] at h
    obtain ⟨a, attrs, lead, there, all⟩ := h
    cases (s.values _ _).1 lead
    obtain ⟨attrs', there', pairs⟩ := s.object a type attrs within there
    exact (unfolds_cell_object s.values' there').2 ⟨es, rfl, unfoldsEntries es _ _ pairs all⟩
  | .reference _, _, _, h | .sequence .hostList _, _, _, h | .sequence .hostTuple _, _, _, h
  | .mapping (.context _) _, _, _, h | .mapping .hostDict _, _, _, h => by
    unfold Unfolds at h
    exact h.elim

theorem unfoldsItems : ∀ (ts : List Tree) (items : List Binding), (∀ b ∈ items, b.Within size) →
    UnfoldsItems heap leads ts items → UnfoldsItems heap' leads' ts items
  | [], items, _, h => by
    cases items with
    | nil => exact unfoldsItems_nil.2 rfl
    | cons b items =>
      obtain ⟨_, _, same, -⟩ := unfoldsItems_cons.1 h
      cases same
  | t :: ts, items, inside, h => by
    cases items with
    | nil => cases unfoldsItems_nil.1 h
    | cons b items =>
      rw [UnfoldsItems] at h ⊢
      exact ⟨s.of_values (unfolds_value t) (inside b (List.mem_cons_self ..)) h.1,
        unfoldsItems ts items (fun c mem => inside c (List.mem_cons_of_mem _ mem)) h.2⟩

theorem unfoldsEntries : ∀ (es : List (Scalar × Tree)) (entries entries' : List (String × Binding)),
    List.Forall₂ (fun old new => old.1 = new.1 ∧ Carries size heap leads heap' leads' old.2 new.2)
        entries entries' →
      UnfoldsEntries heap leads es entries → UnfoldsEntries heap' leads' es entries'
  | [], entries, entries', pairs, h => by
    cases pairs with
    | nil => exact unfoldsEntries_nil.2 rfl
    | cons pair rest =>
      obtain ⟨_, _, same, -⟩ := unfoldsEntries_cons.1 h
      cases same
  | (key, t) :: es, entries, entries', pairs, h => by
    cases pairs with
    | nil => cases unfoldsEntries_nil.1 h
    | @cons old new entries entries' pair rest =>
      rw [UnfoldsEntries] at h ⊢
      obtain ⟨name, c, within, before, after⟩ := pair
      have carried := s.of_values (unfolds_value t) within (before t h.2.1)
      exact ⟨name ▸ h.1, after t carried, unfoldsEntries es entries entries' rest h.2.2⟩

end

theorem unfolds {t : Tree} {b : Binding} (within : b.Within size) (h : Unfolds heap leads t b) :
    Unfolds heap' leads' t b := s.of_values (s.unfolds_value t) within h

end Simulates

/-! ## The two changes -/

theorem simulates_of_agree {names : Table Binding} {base heap heap' : Heap}
    {leads leads' : Binding → Value → Prop} (closed : Closed names base) (values : OnValues leads)
    (values' : OnValues leads') (agree : ∀ a < base.size, heap.get? a = base.get? a)
    (agree' : ∀ a < base.size, heap'.get? a = base.get? a)
    (lead : ∀ b v, b.Within base.size → leads b v → v.Within base.size ∧ leads' b v) :
    Simulates base.size heap leads heap' leads' where
  values := values
  values' := values'
  lead b v within found := by
    obtain ⟨inside, found'⟩ := lead b v within found
    exact ⟨v, v, found', inside, fun _ => id, fun _ => id⟩
  list a type items old there := by
    rw [agree a old] at there
    exact ⟨(agree' a old).trans there, closed.cells a _ there⟩
  object a type attrs old there := by
    rw [agree a old] at there
    exact ⟨attrs, (agree' a old).trans there, List.forall₂_same.2 fun entry mem =>
      ⟨rfl, .refl (closed.cells a _ there _ (List.mem_map_of_mem (f := Prod.snd) mem))⟩⟩

theorem Table.forall₂_put {α : Type} {r : String × α → String × α → Prop} {name : String} {a b : α}
    {entries : List (String × α)} (refl : ∀ entry ∈ entries, r entry entry)
    (found : find? name entries = some a) (changed : r (name, a) (name, b)) :
    List.Forall₂ r entries (put name b entries) := by
  induction entries with
  | nil => cases found
  | cons entry rest ih =>
    obtain ⟨key, c⟩ := entry
    have others := fun e mem => refl e (List.mem_cons_of_mem _ mem)
    rw [find?] at found
    split at found
    · next same =>
      cases found
      subst same
      rw [put, if_pos rfl]
      exact .cons changed (List.forall₂_same.2 others)
    · next different =>
      rw [put, if_neg different]
      exact .cons (refl _ (List.mem_cons_self ..)) (ih others found)

theorem Table.forall₂_entries_set {size : Nat} {attrs : Table Binding} {attr : String}
    {b b' : Binding} (r : Binding → Binding → Prop)
    (within : ∀ entry ∈ attrs.entries, entry.2.Within size) (refl : ∀ b, b.Within size → r b b)
    (slot : attrs.get? attr = some b) (changed : r b b') :
    List.Forall₂ (fun old new => old.1 = new.1 ∧ r old.2 new.2) attrs.entries
      (attrs.set attr b').entries :=
  forall₂_put (fun entry mem => ⟨rfl, refl _ (within entry mem)⟩) slot ⟨rfl, changed⟩

section

variable {names : Table Binding} {heap : Heap} {leads leads' : Binding → Value → Prop}
  (values : OnValues leads) (values' : OnValues leads') (closed : Closed names heap)
  {a : Addr} {type : Option String} {attrs : Table Binding} {attr : String} {b : Binding}
  {w : Value}
  (there : heap.get? a = some (.object type attrs)) (slot : attrs.get? attr = some b)
include values values' closed there slot

theorem simulates_setAttribute
    (lead : ∀ b v, b.Within heap.size → leads b v → ∃ w' u : Value, leads' b w' ∧
      u.Within heap.size ∧
      (∀ t, Unfolds heap leads t (.value v) → Unfolds heap leads t (.value u)) ∧
      ∀ t, Unfolds (heap.setAttribute a attr (.value w)) leads' t (.value u) →
        Unfolds (heap.setAttribute a attr (.value w)) leads' t (.value w'))
    (carried : Carries heap.size heap leads (heap.setAttribute a attr (.value w)) leads' b
      (.value w)) :
    Simulates heap.size heap leads (heap.setAttribute a attr (.value w)) leads' where
  values := values
  values' := values'
  lead := lead
  list c type' items _ found := by
    have other : c ≠ a := by
      rintro rfl
      cases there.symm.trans found
    rw [Heap.get?_setAttribute_of_ne there other]
    exact ⟨found, closed.cells c _ found⟩
  object c type' attrs' _ found := by
    have inside : ∀ entry ∈ attrs'.entries, entry.2.Within heap.size := fun entry mem =>
      closed.cells c _ found _ (List.mem_map_of_mem (f := Prod.snd) mem)
    by_cases same : c = a
    · subst same
      cases there.symm.trans found
      exact ⟨_, Heap.get?_setAttribute_self there attr _, Table.forall₂_entries_set
        (Carries heap.size heap leads (heap.setAttribute c attr (.value w)) leads') inside
        (fun b within => .refl within) slot carried⟩
    · rw [Heap.get?_setAttribute_of_ne there same]
      exact ⟨attrs', found, List.forall₂_same.2 fun entry mem => ⟨rfl, .refl (inside entry mem)⟩⟩

theorem simulates_of_setAttribute
    (lead : ∀ b v, b.Within heap.size → leads b v → ∃ w' u : Value, leads' b w' ∧
      u.Within heap.size ∧
      (∀ t, Unfolds (heap.setAttribute a attr (.value w)) leads t (.value v) →
        Unfolds (heap.setAttribute a attr (.value w)) leads t (.value u)) ∧
      ∀ t, Unfolds heap leads' t (.value u) → Unfolds heap leads' t (.value w'))
    (carried : Carries heap.size (heap.setAttribute a attr (.value w)) leads heap leads' (.value w)
      b) :
    Simulates heap.size (heap.setAttribute a attr (.value w)) leads heap leads' where
  values := values
  values' := values'
  lead := lead
  list c type' items _ found := by
    have other : c ≠ a := by
      rintro rfl
      rw [Heap.get?_setAttribute_self there] at found
      cases found
    rw [Heap.get?_setAttribute_of_ne there other] at found
    exact ⟨found, closed.cells c _ found⟩
  object c type' attrs' _ found := by
    by_cases same : c = a
    · subst same
      rw [Heap.get?_setAttribute_self there] at found
      cases found
      have inside : ∀ entry ∈ attrs.entries, entry.2.Within heap.size := fun entry mem =>
        closed.cells c _ there _ (List.mem_map_of_mem (f := Prod.snd) mem)
      refine ⟨attrs, there, List.Forall₂.flip ?_⟩
      have pairs := Table.forall₂_entries_set (fun new old =>
        Carries heap.size (heap.setAttribute c attr (.value w)) leads heap leads' old new)
        inside (fun b within => .refl within) slot carried
      exact pairs.imp fun _ _ both => ⟨both.1.symm, both.2⟩
    · rw [Heap.get?_setAttribute_of_ne there same] at found
      exact ⟨attrs', found, List.forall₂_same.2 fun entry mem =>
        ⟨rfl, .refl (closed.cells c _ found _ (List.mem_map_of_mem (f := Prod.snd) mem))⟩⟩

end

end AliasScript

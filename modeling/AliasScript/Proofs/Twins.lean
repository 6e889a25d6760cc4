import AliasScript.Eval.Interpret
import AliasScript.Proofs.Follow
import AliasScript.Proofs.Store
import Mathlib.Data.List.Forall2
import Mathlib.Order.Basic

/-!
# Stores that differ in addresses only

Two stores are twins when a pairing of addresses makes what they hold the same: names hold values
that are paired, and so do the containers at paired addresses. Each address has one partner at most,
and containers that no name leads to need have none.

Whatever is looked up, unfolded, compared or printed gives the same on twins (`follow_twins`,
`Heap.Twins.unfold`), and twins that are changed alike stay twins; a new container on either
side makes a new pair.
-/

namespace AliasScript

/-- Which containers of two heaps stand for each other. -/
abbrev Pairing := Addr → Addr → Prop

def Pairing.extend (ρ : Pairing) (a b : Addr) : Pairing := fun c d => ρ c d ∨ (c = a ∧ d = b)

theorem Pairing.le_extend (ρ : Pairing) (a b : Addr) : ρ ≤ ρ.extend a b := fun _ _ => .inl

/-- Two acts end alike: with results that stand for each other, or with the same fault. -/
inductive SameEnd {α β : Type} (R : α → β → Prop) : Except Fault α → Except Fault β → Prop
  | ok {a : α} {b : β} : R a b → SameEnd R (.ok a) (.ok b)
  | error (e : Fault) : SameEnd R (.error e) (.error e)

namespace SameEnd

variable {α β γ δ : Type} {R : α → β → Prop} {S : γ → δ → Prop} {x : Except Fault α}
  {y : Except Fault β}

theorem of_eq {R : α → α → Prop} (refl : ∀ a, R a a) (x : Except Fault α) : SameEnd R x x := by
  cases x with
  | error e => exact .error e
  | ok a => exact .ok (refl a)

theorem imp {S : α → β → Prop} (h : SameEnd R x y) (implies : ∀ a b, R a b → S a b) :
    SameEnd S x y := by
  cases h with
  | ok related => exact .ok (implies _ _ related)
  | error e => exact .error e

theorem bind {f : α → Except Fault γ} {g : β → Except Fault δ} (h : SameEnd R x y)
    (rest : ∀ a b, R a b → SameEnd S (f a) (g b)) : SameEnd S (x >>= f) (y >>= g) := by
  cases h with
  | ok related => exact rest _ _ related
  | error e => exact .error e

theorem map {f : α → γ} {g : β → δ} (h : SameEnd R x y) (rest : ∀ a b, R a b → S (f a) (g b)) :
    SameEnd S (x.map f) (y.map g) := by
  cases h with
  | ok related => exact .ok (rest _ _ related)
  | error e => exact .error e

end SameEnd

section

variable (ρ : Pairing)

inductive Value.Twins : Value → Value → Prop
  | scalar (s : Scalar) : Twins (.scalar s) (.scalar s)
  | cell {a b : Addr} : ρ a b → Twins (.cell a) (.cell b)

inductive Binding.Twins : Binding → Binding → Prop
  | value {v w : Value} : v.Twins ρ w → Twins (.value v) (.value w)
  | reference (r : Reference) : Twins (.reference r) (.reference r)

/-- The same keys in the same order, bound to twins. -/
def EntriesTwins {κ : Type} : List (κ × Binding) → List (κ × Binding) → Prop :=
  List.Forall₂ fun e e' => e.1 = e'.1 ∧ e.2.Twins ρ e'.2

def Table.Twins (t t' : Table Binding) : Prop := EntriesTwins ρ t.entries t'.entries

inductive Cell.Twins : Cell → Cell → Prop
  | list {type : Option String} {items items' : List Binding} :
    items.Forall₂ (Binding.Twins ρ) items' → Twins (.list type items) (.list type items')
  | object {type : Option String} {attrs attrs' : Table Binding} :
    attrs.Twins ρ attrs' → Twins (.object type attrs) (.object type attrs')
  | context {types : List String} {bindings bindings' : Table Binding} :
    bindings.Twins ρ bindings' → Twins (.context types bindings) (.context types bindings')
  | hostList {items items' : List Binding} :
    items.Forall₂ (Binding.Twins ρ) items' → Twins (.hostList items) (.hostList items')
  | hostTuple {items items' : List Binding} :
    items.Forall₂ (Binding.Twins ρ) items' → Twins (.hostTuple items) (.hostTuple items')
  | hostDict {entries entries' : List (Scalar × Binding)} :
    EntriesTwins ρ entries entries' → Twins (.hostDict entries) (.hostDict entries')

structure Heap.Twins (h h' : Heap) : Prop where
  unique : ∀ {a b c d : Addr}, ρ a b → ρ c d → (a = c ↔ b = d)
  cells : ∀ {a b : Addr}, ρ a b → ∃ c c', h.get? a = some c ∧ h'.get? b = some c' ∧ c.Twins ρ c'

end

variable {ρ ρ' : Pairing}

/-! ## More pairs -/

section

variable (le : ρ ≤ ρ')
include le

theorem Value.Twins.mono {v w : Value} (h : v.Twins ρ w) : v.Twins ρ' w := by
  cases h with
  | scalar s => exact .scalar s
  | cell pair => exact .cell (le _ _ pair)

theorem Binding.Twins.mono {b b' : Binding} (h : b.Twins ρ b') : b.Twins ρ' b' := by
  cases h with
  | value twins => exact .value (twins.mono le)
  | reference r => exact .reference r

theorem Binding.Twins.mono_all {bs bs' : List Binding} (h : bs.Forall₂ (Binding.Twins ρ) bs') :
    bs.Forall₂ (Binding.Twins ρ') bs' := h.imp fun _ _ twins => twins.mono le

theorem EntriesTwins.mono {κ : Type} {es es' : List (κ × Binding)} (h : EntriesTwins ρ es es') :
    EntriesTwins ρ' es es' := List.Forall₂.imp (fun _ _ twins => ⟨twins.1, twins.2.mono le⟩) h

theorem Table.Twins.mono {t t' : Table Binding} (h : t.Twins ρ t') : t.Twins ρ' t' :=
  EntriesTwins.mono le h

theorem Cell.Twins.mono {c c' : Cell} (h : c.Twins ρ c') : c.Twins ρ' c' := by
  cases h with
  | list twins => exact .list (Binding.Twins.mono_all le twins)
  | object twins => exact .object (twins.mono le)
  | context twins => exact .context (twins.mono le)
  | hostList twins => exact .hostList (Binding.Twins.mono_all le twins)
  | hostTuple twins => exact .hostTuple (Binding.Twins.mono_all le twins)
  | hostDict twins => exact .hostDict (twins.mono le)

end

/-! ## Nothing -/

theorem Value.Twins.eq_nothing_iff {v w : Value} (h : v.Twins ρ w) : v = .nothing ↔ w = .nothing := by
  cases h <;> simp

theorem Binding.Twins.eq_nothing_iff {b b' : Binding} (h : b.Twins ρ b') :
    b = .nothing ↔ b' = .nothing := by
  cases h with
  | value same => simpa using same.eq_nothing_iff
  | reference r => simp

theorem Value.Twins.bound {v w : Value} (h : v.Twins ρ w) (r : Reference) : SameEnd (Value.Twins ρ)
    (if v = .nothing then .error (.failure (.unboundVariable r.render)) else .ok v)
    (if w = .nothing then .error (.failure (.unboundVariable r.render)) else .ok w) := by
  simp only [h.eq_nothing_iff]
  split
  · exact .error _
  · exact .ok h

/-! ## Tables -/

namespace Table.Twins

variable {t t' : Table Binding} (h : t.Twins ρ t')
include h

theorem names : t.names = t'.names := by
  obtain ⟨entries⟩ := t
  obtain ⟨entries'⟩ := t'
  simp only [Twins, Table.names] at h ⊢
  induction h with
  | nil => rfl
  | cons first _ ih => rw [List.map_cons, List.map_cons, first.1, ih]

theorem read (name : String) : (t.read name).Twins ρ (t'.read name) := by
  obtain ⟨entries⟩ := t
  obtain ⟨entries'⟩ := t'
  simp only [Twins, Table.read, Table.get?] at h ⊢
  induction h with
  | nil => exact .value (.scalar .nothing)
  | @cons e e' _ _ first _ ih =>
    obtain ⟨key, b⟩ := e
    obtain ⟨key', b'⟩ := e'
    obtain ⟨rfl, twins⟩ := first
    rw [Table.find?, Table.find?]
    split
    · exact twins
    · exact ih

theorem read_reference {name : String} {r : Reference} (held : t.read name = .reference r) :
    t'.read name = .reference r := by
  have same := h.read name
  rw [held] at same
  generalize t'.read name = b' at same
  cases same
  rfl

theorem set (name : String) {b b' : Binding} (bound : b.Twins ρ b') :
    (t.set name b).Twins ρ (t'.set name b') := by
  obtain ⟨entries⟩ := t
  obtain ⟨entries'⟩ := t'
  simp only [Twins, Table.set] at h ⊢
  induction h with
  | nil => exact .cons ⟨rfl, bound⟩ .nil
  | @cons e e' _ _ first rest ih =>
    obtain ⟨key, c⟩ := e
    obtain ⟨key', c'⟩ := e'
    obtain ⟨rfl, twins⟩ := first
    rw [Table.put, Table.put]
    split
    · exact .cons ⟨rfl, bound⟩ rest
    · exact .cons ⟨rfl, twins⟩ ih

end Table.Twins

/-! ## Heaps -/

namespace Heap.Twins

variable {h h' : Heap} (twins : h.Twins ρ h')
include twins

theorem lt_size {a b : Addr} (pair : ρ a b) : a < h.size ∧ b < h'.size := by
  obtain ⟨c, c', there, there', -⟩ := twins.cells pair
  exact ⟨Heap.lt_size_of_get? there, Heap.lt_size_of_get? there'⟩

theorem value_within {v w : Value} (same : v.Twins ρ w) : v.Within h.size ∧ w.Within h'.size := by
  cases same with
  | scalar s => exact ⟨trivial, trivial⟩
  | cell pair => exact twins.lt_size pair

theorem within {b b' : Binding} (same : b.Twins ρ b') : b.Within h.size ∧ b'.Within h'.size := by
  cases same with
  | value same => exact twins.value_within same
  | reference r => exact ⟨trivial, trivial⟩

theorem get? {a b : Addr} (pair : ρ a b) {c : Cell} (there : h.get? a = some c) :
    ∃ c', h'.get? b = some c' ∧ c.Twins ρ c' := by
  obtain ⟨d, c', found, there', same⟩ := twins.cells pair
  cases there.symm.trans found
  exact ⟨c', there', same⟩

theorem readAttribute {v w : Value} (same : v.Twins ρ w) (attr : String) :
    (h.readAttribute v attr).Twins ρ (h'.readAttribute w attr) := by
  cases same with
  | scalar s => exact .value (.scalar .nothing)
  | cell pair =>
    obtain ⟨c, c', there, there', same⟩ := twins.cells pair
    rw [Heap.readAttribute, Heap.readAttribute, there, there']
    cases same with
    | object attrs => exact attrs.read attr
    | _ => exact .value (.scalar .nothing)

theorem mem_iff {path path' : List Addr} (paths : path.Forall₂ ρ path') {a b : Addr}
    (pair : ρ a b) : a ∈ path ↔ b ∈ path' := by
  induction paths with
  | nil => simp
  | cons first _ ih => rw [List.mem_cons, List.mem_cons, twins.unique pair first, ih]

/-! ### Changing both -/

theorem alloc {c c' : Cell} (same : c.Twins ρ c') :
    (h.alloc c).2.Twins (ρ.extend h.size h'.size) (h'.alloc c').2 where
  unique := by
    rintro a b d e (pair | ⟨rfl, rfl⟩) (pair' | ⟨rfl, rfl⟩)
    · exact twins.unique pair pair'
    · obtain ⟨lt, lt'⟩ := twins.lt_size pair
      exact iff_of_false (Nat.ne_of_lt lt) (Nat.ne_of_lt lt')
    · obtain ⟨lt, lt'⟩ := twins.lt_size pair'
      exact iff_of_false (Nat.ne_of_gt lt) (Nat.ne_of_gt lt')
    · simp
  cells := by
    have le := ρ.le_extend h.size h'.size
    rintro a b (pair | ⟨rfl, rfl⟩)
    · obtain ⟨d, d', there, there', same⟩ := twins.cells pair
      exact ⟨d, d', Heap.get?_alloc_of_get? there, Heap.get?_alloc_of_get? there', same.mono le⟩
    · exact ⟨c, c', Heap.get?_alloc_size .., Heap.get?_alloc_size .., same.mono le⟩

theorem set {a b : Addr} (pair : ρ a b) {c c' : Cell} (same : c.Twins ρ c') :
    (h.set a c).Twins ρ (h'.set b c') where
  unique := twins.unique
  cells := by
    intro d e pair'
    by_cases here : d = a
    · obtain ⟨lt, lt'⟩ := twins.lt_size pair
      obtain rfl := here
      obtain rfl := (twins.unique pair' pair).1 rfl
      exact ⟨c, c', Heap.get?_set_self lt c, Heap.get?_set_self lt' c', same⟩
    · have here' : e ≠ b := fun same => here ((twins.unique pair' pair).2 same)
      rw [Heap.get?_set_of_ne h (Ne.symm here), Heap.get?_set_of_ne h' (Ne.symm here')]
      exact twins.cells pair'

theorem setAttribute {a b : Addr} (pair : ρ a b) (attr : String) {x x' : Binding}
    (bound : x.Twins ρ x') : (h.setAttribute a attr x).Twins ρ (h'.setAttribute b attr x') := by
  obtain ⟨c, c', there, there', same⟩ := twins.cells pair
  rw [Heap.setAttribute, Heap.setAttribute, there, there']
  cases same with
  | object attrs => exact twins.set pair (.object (attrs.set attr bound))
  | _ => exact twins

theorem setItems {a b : Addr} (pair : ρ a b) {items items' : List Binding}
    (bound : items.Forall₂ (Binding.Twins ρ) items') :
    (h.setItems a items).Twins ρ (h'.setItems b items') := by
  obtain ⟨c, c', there, there', same⟩ := twins.cells pair
  rw [Heap.setItems, Heap.setItems, there, there']
  cases same with
  | list => exact twins.set pair (.list bound)
  | _ => exact twins

end Heap.Twins

/-! ## Following references -/

section

variable {names names' : Table Binding} {h h' : Heap}

/-- Following a reference leads to twins, or fails in the same way. -/
theorem follow_twins (bound : names.Twins ρ names') (twins : h.Twins ρ h')
    (bases seen : List String) (r : Reference) :
    SameEnd (Value.Twins ρ) (follow names h bases seen r) (follow names' h' bases seen r) := by
  induction bases, seen, r using follow.induct names h
    (fun bases obj => SameEnd (Value.Twins ρ) (baseOf names h bases obj) (baseOf names' h' bases obj))
    _
    (fun bases r => SameEnd (Binding.Twins ρ) (slotOf names h bases r) (slotOf names' h' bases r))
  case case1 bases obj v held =>
    have same := bound.read obj
    rw [held] at same
    rw [baseOf_value held]
    generalize held' : names'.read obj = b' at same
    cases same with
    | value same =>
      rw [baseOf_value held']
      exact .ok same
  case case2 bases obj r held mem =>
    rw [baseOf_reference held, baseOf_reference (bound.read_reference held), if_pos mem, if_pos mem]
    exact .error _
  case case3 bases obj r held new ih =>
    rw [baseOf_reference held, baseOf_reference (bound.read_reference held), if_neg new, if_neg new]
    exact ih
  case case4 bases seen r old =>
    rw [follow_eq, follow_eq, if_pos old, if_pos old]
    exact .error _
  case case5 bases seen r new e failed ih =>
    rw [slotOf_of_lookUp_error failed] at ih
    rw [follow_eq, follow_eq, if_neg new, if_neg new, slotOf_of_lookUp_error failed]
    generalize slotOf names' h' bases r = slot at ih ⊢
    cases ih
    exact .error e
  case case6 bases seen r new met found ih | case7 bases seen r new v met found some ih =>
    rw [slotOf_of_lookUp found] at ih
    rw [follow_eq, follow_eq, if_neg new, if_neg new, slotOf_of_lookUp found]
    generalize slotOf names' h' bases r = slot at ih ⊢
    cases ih with
    | ok same =>
      cases same with
      | value same => exact same.bound r
  case case8 bases seen r new next met found ih after =>
    rw [slotOf_of_lookUp found] at ih
    rw [follow_eq, follow_eq, if_neg new, if_neg new, slotOf_of_lookUp found]
    generalize slotOf names' h' bases r = slot at ih ⊢
    cases ih with
    | ok same =>
      cases same
      exact after
  case case9 bases n =>
    rw [slotOf_name, slotOf_name]
    exact .ok (bound.read n)
  case case10 bases obj attr ih =>
    rw [slotOf_path, slotOf_path]
    exact ih.map fun v w same => twins.readAttribute same attr

variable (bound : names.Twins ρ names') (twins : h.Twins ρ h')
include bound twins

theorem deref_twins {b b' : Binding} (same : b.Twins ρ b') :
    SameEnd (Value.Twins ρ) (deref names h b) (deref names' h' b') := by
  cases same with
  | value same => exact .ok same
  | reference r => exact follow_twins bound twins [] [] r

theorem deref_cell_twins {b b' : Binding} (same : b.Twins ρ b') {a : Addr}
    (found : deref names h b = .ok (.cell a)) :
    ∃ a', deref names' h' b' = .ok (.cell a') ∧ ρ a a' := by
  have ends := deref_twins bound twins same
  rw [found] at ends
  generalize deref names' h' b' = result at ends ⊢
  cases ends with
  | ok same =>
    cases same with
    | cell pair => exact ⟨_, rfl, pair⟩

theorem baseOf_twins (bases : List String) (obj : String) :
    SameEnd (Value.Twins ρ) (baseOf names h bases obj) (baseOf names' h' bases obj) := by
  have same := bound.read obj
  generalize held : names.read obj = b, held' : names'.read obj = b' at same
  cases same with
  | value same =>
    rw [baseOf_value held, baseOf_value held']
    exact .ok same
  | reference r =>
    rw [baseOf_reference held, baseOf_reference held']
    split
    · exact .error _
    · exact follow_twins bound twins (obj :: bases) [] r

theorem readPath_twins (obj attr : String) :
    SameEnd (Binding.Twins ρ) (readPath names h obj attr) (readPath names' h' obj attr) :=
  (baseOf_twins bound twins [] obj).map fun _ _ same => twins.readAttribute same attr

end

/-! ## Finite values -/

theorem mapM_twins {α β γ : Type} {R : α → β → Prop} {f : α → Option γ} {g : β → Option γ}
    {xs : List α} {ys : List β} (same : ∀ x y, R x y → f x = g y) (all : xs.Forall₂ R ys) :
    xs.mapM f = ys.mapM g := by
  induction all with
  | nil => rfl
  | cons first _ ih => rw [List.mapM_cons, List.mapM_cons, same _ _ first, ih]

theorem EntriesTwins.mapM {κ : Type} (key : κ → Scalar) {f g : Binding → Option Tree}
    (same : ∀ b b', b.Twins ρ b' → f b = g b') {es es' : List (κ × Binding)}
    (twins : EntriesTwins ρ es es') : (es.mapM fun e => (f e.2).map (key e.1, ·)) =
      es'.mapM fun e => (g e.2).map (key e.1, ·) :=
  mapM_twins (fun e e' both => by rw [both.1, same _ _ both.2]) twins

theorem Cell.Twins.tree? {inner inner' : View → Binding → Option Tree} (view : View)
    (same : ∀ view b b', b.Twins ρ b' → inner view b = inner' view b') {c c' : Cell}
    (twins : c.Twins ρ c') : c.tree? view inner = c'.tree? view inner' := by
  cases twins with
  | list items | hostList items => rw [Cell.tree?, Cell.tree?, mapM_twins (same view) items]
  | hostTuple items => rw [Cell.tree?, Cell.tree?, mapM_twins (same view.inTuple) items]
  | hostDict entries =>
    rw [Cell.tree?, Cell.tree?]
    exact congrArg _ (entries.mapM id (same view))
  | object attrs | context attrs =>
    rw [Cell.tree?, Cell.tree?, attrs.names, EntriesTwins.mapM Scalar.text (same view) attrs]

namespace Heap.Twins

variable {h h' : Heap} (twins : h.Twins ρ h')
include twins

/-- Twins unfold to the same tree. -/
theorem unfold (view : View) (path path' : List Addr) (b b' : Binding)
    (paths : path.Forall₂ ρ path') (same : b.Twins ρ b') :
    h.unfold view path b = h'.unfold view path' b' := by
  induction length : unseen (List.range h.size) path using Nat.strongRecOn
    generalizing view path path' b b' with
  | _ n ih =>
  cases same with
  | reference r => rw [Heap.unfold, Heap.unfold]
  | value same =>
    cases same with
    | scalar s => rw [Heap.unfold, Heap.unfold]
    | @cell a a' pair =>
      by_cases mem : a ∈ path
      · rw [Heap.unfold, Heap.unfold, dif_pos mem, dif_pos ((twins.mem_iff paths pair).1 mem)]
      · have mem' : a' ∉ path' := mt (twins.mem_iff paths pair).2 mem
        have below := fun view b b' => ih _ (length ▸ unseen_cons_lt
          (List.mem_range.2 (twins.lt_size pair).1) mem) view (a :: path) (a' :: path') b b'
            (.cons pair paths)
        obtain ⟨c, c', there, there', same⟩ := twins.cells pair
        rw [Heap.unfold_cell view there mem, Heap.unfold_cell view there' mem',
          same.tree? view fun view b b' same => below view b b' same rfl]

variable {b b' : Binding} (same : b.Twins ρ b')
include same

theorem print : h.print b = h'.print b' := by
  rw [Heap.print, Heap.print, Heap.pretty?, Heap.pretty?,
    twins.unfold .printed [] [] b b' .nil same]

theorem describe : h.describe b = h'.describe b' := by
  cases same with
  | reference r => rfl
  | value same =>
    cases same with
    | scalar s => rfl
    | cell pair =>
      obtain ⟨c, c', there, there', same⟩ := twins.cells pair
      rw [Heap.describe, Heap.describe, there, there']
      cases same <;> rfl

theorem same_iff {c c' : Binding} (other : c.Twins ρ c') : h.same b c = h'.same b' c' := by
  rw [Heap.same, Heap.same, twins.unfold .whole [] [] b b' .nil same,
    twins.unfold .whole [] [] c c' .nil other]

theorem changeItems (op : ListOperation) {items items' : List Binding}
    (all : items.Forall₂ (Binding.Twins ρ) items') :
    (h.changeItems op items b).Forall₂ (Binding.Twins ρ) (h'.changeItems op items' b') := by
  cases op with
  | add => exact List.rel_append all (.cons same .nil)
  | remove =>
    rw [Heap.changeItems, Heap.changeItems, Heap.removeItem, Heap.removeItem]
    induction all with
    | nil => exact .nil
    | cons first rest ih =>
      rw [List.eraseP_cons, List.eraseP_cons, twins.same_iff first same]
      cases h'.same _ b' with
      | true => exact rest
      | false => exact .cons first ih

end Heap.Twins

/-! ## Stores -/

theorem EntriesTwins.bindings {κ : Type} {es es' : List (κ × Binding)} (h : EntriesTwins ρ es es') :
    (es.map Prod.snd).Forall₂ (Binding.Twins ρ) (es'.map Prod.snd) :=
  List.forall₂_map_left_iff.2 (List.forall₂_map_right_iff.2
    (List.Forall₂.imp (fun _ _ both => both.2) h))

theorem Cell.Twins.contents {c c' : Cell} (h : c.Twins ρ c') :
    c.contents.Forall₂ (Binding.Twins ρ) c'.contents := by
  cases h with
  | list items | hostList items | hostTuple items => exact items
  | object attrs | context attrs => exact EntriesTwins.bindings attrs
  | hostDict entries => exact entries.bindings

theorem Heap.Twins.within_all {h h' : Heap} (twins : h.Twins ρ h') {bs bs' : List Binding}
    (all : bs.Forall₂ (Binding.Twins ρ) bs') :
    (∀ b ∈ bs, b.Within h.size) ∧ ∀ b ∈ bs', b.Within h'.size := by
  induction all with
  | nil => simp
  | cons first _ ih =>
    obtain ⟨within, within'⟩ := twins.within first
    exact ⟨List.forall_mem_cons.2 ⟨within, ih.1⟩, List.forall_mem_cons.2 ⟨within', ih.2⟩⟩

/-- Names and containers of two stores are twins, and no address dangles in either. -/
structure StoreTwins (ρ : Pairing) (t : Table Binding) (h : Heap) (t' : Table Binding)
    (h' : Heap) : Prop where
  names : t.Twins ρ t'
  heap : h.Twins ρ h'
  closed : Closed t h
  closed' : Closed t' h'

namespace StoreTwins

variable {names names' : Table Binding} {h h' : Heap} (twins : StoreTwins ρ names h names' h')
include twins

theorem bind (name : String) {b b' : Binding} (same : b.Twins ρ b') :
    StoreTwins ρ (names.set name b) h (names'.set name b') h' where
  names := twins.names.set name same
  heap := twins.heap
  closed := twins.closed.bind name (twins.heap.within same).1
  closed' := twins.closed'.bind name (twins.heap.within same).2

theorem alloc {c c' : Cell} (same : c.Twins ρ c') :
    StoreTwins (ρ.extend h.size h'.size) names (h.alloc c).2 names' (h'.alloc c').2 where
  names := twins.names.mono (ρ.le_extend _ _)
  heap := twins.heap.alloc same
  closed := twins.closed.alloc (twins.heap.within_all same.contents).1
  closed' := twins.closed'.alloc (twins.heap.within_all same.contents).2

variable {a a' : Addr} (pair : ρ a a')
include pair

theorem setAttribute (attr : String) {b b' : Binding} (same : b.Twins ρ b') :
    StoreTwins ρ names (h.setAttribute a attr b) names' (h'.setAttribute a' attr b') where
  names := twins.names
  heap := twins.heap.setAttribute pair attr same
  closed := twins.closed.setAttribute a attr (twins.heap.within same).1
  closed' := twins.closed'.setAttribute a' attr (twins.heap.within same).2

theorem setItems {items items' : List Binding} (all : items.Forall₂ (Binding.Twins ρ) items') :
    StoreTwins ρ names (h.setItems a items) names' (h'.setItems a' items') where
  names := twins.names
  heap := twins.heap.setItems pair all
  closed := twins.closed.setItems a (twins.heap.within_all all).1
  closed' := twins.closed'.setItems a' (twins.heap.within_all all).2

end StoreTwins

end AliasScript

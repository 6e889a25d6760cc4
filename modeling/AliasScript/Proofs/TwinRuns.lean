import AliasScript.Proofs.LineRuns
import AliasScript.Proofs.TwinCalls

/-!
# Nothing but bindings carries over

On two machines that bind the same, up to the addresses of containers, a script does the same
(`Runner.run_of_sameStore`): what earlier runs have recorded and returned and where they have stopped
does not matter. While the script runs the two machines stay twins, which have also recorded and
returned the same (`interpret_twins`). The functions of the host have to treat twins alike
(`Hosts.EvenHanded`).
-/

namespace AliasScript

/-- The machines have the same types and bind the same, up to the addresses of containers. -/
structure Machine.SameStore (ρ : Pairing) (m m' : Machine) : Prop where
  store : StoreTwins ρ m.names m.heap m'.names m'.heap
  types : m.types = m'.types

/-- The machines have also recorded and returned the same, and the same statement has begun last. The
traces may differ. -/
structure Machine.Twins (ρ : Pairing) (m m' : Machine) : Prop where
  store : StoreTwins ρ m.names m.heap m'.names m'.heap
  types : m.types = m'.types
  ret : m.ret.Twins ρ m'.ret
  effects : m.effects = m'.effects
  statement : m.statement = m'.statement

structure Reading.Twins (ρ : Pairing) (r r' : Reading) : Prop where
  val : r.val.Twins ρ r'.val
  ref : r.ref = r'.ref

inductive Outcome.Twins (ρ : Pairing) : Outcome → Outcome → Prop
  | done {b b' : Binding} : b.Twins ρ b' → Twins ρ (.done b) (.done b')
  | reading {r r' : Reading} : r.Twins ρ r' → Twins ρ (.reading r) (.reading r')
  | leaf (s : Scalar) : Twins ρ (.leaf s) (.leaf s)

/-- On twins the runs end alike and leave twins, with more pairs perhaps. -/
def Run.Twins {α β : Type} (ρ : Pairing) (R : Pairing → α → β → Prop) (x : Run α) (y : Run β) :
    Prop :=
  ∀ ρ₁ m m', ρ ≤ ρ₁ → m.Twins ρ₁ m' →
    ∃ ρ₂, ρ₁ ≤ ρ₂ ∧ (x m).2.Twins ρ₂ (y m').2 ∧ SameEnd (R ρ₂) (x m).1 (y m').1

/-- The functions of the host tell twins apart neither by addresses nor by anything that they
remember. -/
def Hosts.EvenHanded (hosts : Hosts) : Prop :=
  ∀ name ρ b b', b.Twins ρ b' → Run.Twins ρ Binding.Twins (hosts name b) (hosts name b')

variable {ρ ρ' : Pairing} {m m' : Machine}

theorem Reading.Twins.mono (le : ρ ≤ ρ') {r r' : Reading} (h : r.Twins ρ r') : r.Twins ρ' r' :=
  ⟨h.val.mono le, h.ref⟩

theorem Outcome.Twins.mono (le : ρ ≤ ρ') {o o' : Outcome} (h : o.Twins ρ o') : o.Twins ρ' o' := by
  cases h with
  | done same => exact .done (same.mono le)
  | reading same => exact .reading (same.mono le)
  | leaf s => exact .leaf s

/-! ## Asking twins -/

section

variable {r r' : Reading} (same : r.Twins ρ r')
include same

theorem Reading.Twins.storedForm : r.storedForm.Twins ρ r'.storedForm := by
  rw [Reading.storedForm, Reading.storedForm, ← same.ref]
  split
  · exact same.val
  · exact .reference _

theorem Reading.Twins.render : r.render = r'.render := by
  rw [Reading.render, Reading.render, same.ref]

theorem argument_twins : SameEnd (Binding.Twins ρ) (argument r) (argument r') := by
  rw [argument, argument, ← same.ref]
  simp only [same.val.eq_nothing_iff]
  split
  · split
    · exact .error _
    · exact .ok same.val
  · exact .ok same.val

end

section

variable {o o' : Outcome} (same : o.Twins ρ o')
include same

theorem Outcome.Twins.reading? : SameEnd (Reading.Twins ρ) o.reading? o'.reading? := by
  cases same with
  | reading same => exact .ok same
  | _ => exact .error _

theorem Outcome.Twins.name? : o.name? = o'.name? := by
  cases same <;> rfl

theorem Outcome.Twins.literal? : SameEnd (Reading.Twins ρ) o.literal? o'.literal? := by
  cases same with
  | leaf s => exact .ok ⟨.value (.scalar s), rfl⟩
  | _ => exact .error _

end

namespace Machine.Twins

variable (h : m.Twins ρ m')
include h

theorem withStore {names names' : Table Binding} {heap heap' : Heap} (le : ρ ≤ ρ')
    (store : StoreTwins ρ' names heap names' heap') :
    Machine.Twins ρ' { m with names, heap } { m' with names := names', heap := heap' } :=
  ⟨store, h.types, h.ret.mono le, h.effects, h.statement⟩

theorem deref {b b' : Binding} (same : b.Twins ρ b') : SameEnd (Value.Twins ρ)
    (AliasScript.deref m.names m.heap b) (AliasScript.deref m'.names m'.heap b') :=
  deref_twins h.store.names h.store.heap same

theorem templateFor (type : String) :
    AliasScript.templateFor m.types type = AliasScript.templateFor m'.types type := by
  rw [h.types]

theorem objectAt (obj attr : String) :
    SameEnd ρ (AliasScript.objectAt m obj attr) (AliasScript.objectAt m' obj attr) := by
  rw [AliasScript.objectAt, AliasScript.objectAt]
  refine (baseOf_twins h.store.names h.store.heap [] obj).bind fun v w same => ?_
  cases same with
  | scalar s => exact .error _
  | @cell a a' pair =>
    obtain ⟨c, c', there, there', same⟩ := h.store.heap.cells pair
    simp only [there, there']
    cases same with
    | object => exact .ok pair
    | _ => exact .error _

theorem listAt {r r' : Reading} (same : r.Twins ρ r') :
    SameEnd (fun t t' => ρ t.1 t'.1 ∧ t.2.Forall₂ (Binding.Twins ρ) t'.2)
      (AliasScript.listAt m r) (AliasScript.listAt m' r') := by
  rw [AliasScript.listAt, AliasScript.listAt, ← same.render]
  have found : SameEnd (Value.Twins ρ)
      (asListTarget r.render (AliasScript.deref m.names m.heap r.val))
      (asListTarget r.render (AliasScript.deref m'.names m'.heap r'.val)) := by
    have ends := h.deref same.val
    generalize AliasScript.deref m.names m.heap r.val = x,
      AliasScript.deref m'.names m'.heap r'.val = y at ends ⊢
    cases ends with
    | ok same => exact .ok same
    | error e =>
      have fails : ∃ e', asListTarget r.render (.error e) = .error e' := by
        unfold asListTarget
        split
        · exact ⟨_, rfl⟩
        · exact ⟨e, rfl⟩
      obtain ⟨e', fails⟩ := fails
      rw [fails]
      exact .error e'
  refine found.bind fun v w same => ?_
  cases same with
  | scalar s => exact .error _
  | @cell a a' pair =>
    obtain ⟨c, c', there, there', same⟩ := h.store.heap.cells pair
    simp only [there, there']
    cases same with
    | list items => exact .ok ⟨pair, items⟩
    | _ => exact .error _

theorem size? {v w : Value} (same : v.Twins ρ w) :
    Library.size? m.heap v = Library.size? m'.heap w := by
  cases same with
  | scalar s => cases s <;> rfl
  | cell pair =>
    obtain ⟨c, c', there, there', same⟩ := h.store.heap.cells pair
    rw [Library.size?, Library.size?, there, there']
    cases same with
    | list items => exact congrArg some items.length_eq
    | object attrs => exact congrArg some (List.Forall₂.length_eq attrs)
    | _ => rfl

theorem message {v w : Value} (same : v.Twins ρ w) :
    Library.message m.heap v = Library.message m'.heap w := by
  have printed := h.store.heap.print (.value same)
  cases same with
  | scalar s => cases s <;> first | rfl | exact printed
  | cell pair => exact printed

end Machine.Twins

/-! ## Running on twins -/

namespace Run

variable {α β γ δ : Type} {R : Pairing → α → β → Prop} {S : Pairing → γ → δ → Prop}
  {x : Run α} {y : Run β} {f : α → Run γ} {g : β → Run δ}

theorem twins_bind (first : Twins ρ R x y)
    (rest : ∀ ρ' a b, ρ ≤ ρ' → R ρ' a b → Twins ρ' S (f a) (g b)) :
    Twins ρ S (x >>= f) (y >>= g) := by
  intro ρ₁ m m' le twins
  obtain ⟨ρ₂, le₂, after, ends⟩ := first ρ₁ m m' le twins
  rw [act_bind_apply, act_bind_apply]
  rcases here : x m with ⟨e | a, s⟩ <;> rcases there : y m' with ⟨e' | b, s'⟩ <;>
    rw [here, there] at after ends <;> cases ends
  · exact ⟨ρ₂, le₂, after, .error _⟩
  · next related =>
    obtain ⟨ρ₃, le₃, ends⟩ := rest ρ₂ a b (le.trans le₂) related ρ₂ s s' le_rfl after
    exact ⟨ρ₃, le₂.trans le₃, ends⟩

theorem twins_pure {a : α} {b : β} (h : ∀ ρ', ρ ≤ ρ' → R ρ' a b) : Twins ρ R (pure a) (pure b) :=
  fun ρ₁ _ _ le twins => ⟨ρ₁, le_rfl, twins, .ok (h ρ₁ le)⟩

theorem twins_throw (e : Fault) : Twins ρ R (throw e) (throw e) :=
  fun ρ₁ _ _ _ twins => ⟨ρ₁, le_rfl, twins, .error e⟩

theorem twins_ask {q : Machine → Except Fault α} {q' : Machine → Except Fault β}
    (h : ∀ ρ' m m', ρ ≤ ρ' → m.Twins ρ' m' → SameEnd (R ρ') (q m) (q' m')) :
    Twins ρ R (ask q) (ask q') :=
  fun ρ₁ m m' le twins => ⟨ρ₁, le_rfl, twins, h ρ₁ m m' le twins⟩

theorem twins_ask_eq (result : Except Fault α) :
    Twins ρ (fun _ => Eq) (ask fun _ => result) (ask fun _ => result) :=
  twins_ask fun _ _ _ _ _ => .of_eq (fun _ => rfl) result

theorem twins_change {change change' : Machine → Machine}
    (h : ∀ ρ' m m', ρ ≤ ρ' → m.Twins ρ' m' → (change m).Twins ρ' (change' m')) :
    Twins ρ (fun _ => Eq) (Run.change change) (Run.change change') :=
  fun ρ₁ m m' le twins => ⟨ρ₁, le_rfl, h ρ₁ m m' le twins, .ok rfl⟩

theorem twins_note {line line' : Machine → String} :
    Twins ρ (fun _ => Eq) (note line) (note line') :=
  twins_change fun _ _ _ _ twins =>
    ⟨twins.store, twins.types, twins.ret, twins.effects, twins.statement⟩

theorem twins_assign (place : Reference) {b b' : Binding} (same : b.Twins ρ b') :
    Twins ρ (fun _ => Eq) (assign place b) (assign place b') := by
  cases place with
  | name n =>
    exact twins_change fun ρ' m m' le twins =>
      twins.withStore le_rfl (twins.store.bind n (same.mono le))
  | path obj attr =>
    refine twins_bind (twins_ask fun _ _ _ _ twins => twins.objectAt obj attr) ?_
    exact fun ρ₁ a a' le pair => twins_change fun ρ₂ m m' le' twins =>
      twins.withStore le_rfl
        (twins.store.setAttribute (le' _ _ pair) attr (same.mono (le.trans le')))

theorem twins_instantiate (template : Template) (type : String) :
    Twins ρ Value.Twins (instantiate template type) (instantiate template type) := by
  intro ρ₁ m m' le twins
  have empty : (template.cell type).Twins ρ₁ (template.cell type) := by
    cases template with
    | generic => exact .object .nil
    | list => exact .list .nil
  have le' := ρ₁.le_extend m.heap.size m'.heap.size
  exact ⟨_, le', twins.withStore le' (twins.store.alloc empty), .ok (.cell (.inr ⟨rfl, rfl⟩))⟩

theorem twins_resolve {b b' : Binding} (same : b.Twins ρ b') :
    Twins ρ Value.Twins (Run.resolve b) (Run.resolve b') := by
  intro ρ₁ m m' le twins
  obtain ⟨ρ₂, le', store, ends⟩ := twins.store.resolve (same.mono le)
  exact ⟨ρ₂, le', twins.withStore le' store, ends⟩

theorem twins_functionNamed (name : String) :
    Twins ρ (fun _ => Eq) (functionNamed name) (functionNamed name) := by
  refine twins_bind (twins_resolve (.reference (.name name))) fun ρ₁ v w le same => ?_
  cases same with
  | scalar s =>
    cases s with
    | function f => exact twins_pure fun _ _ => rfl
    | _ => exact twins_throw _
  | cell => exact twins_throw _

theorem twins_changeList (op : Node) {a a' : Addr} (pair : ρ a a') {items items' : List Binding}
    (all : items.Forall₂ (Binding.Twins ρ) items') {b b' : Binding} (same : b.Twins ρ b') :
    Twins ρ (fun _ => Eq) (changeList op a items b) (changeList op a' items' b') := by
  refine twins_bind (twins_ask_eq _) fun ρ₁ keyword _ le => ?_
  rintro rfl
  refine twins_bind (twins_ask_eq _) fun ρ₂ op _ le' => ?_
  rintro rfl
  refine twins_change fun ρ₃ m m' le'' twins => ?_
  have le := le.trans (le'.trans le'')
  exact twins.withStore le_rfl (twins.store.setItems (le _ _ pair)
    (twins.store.heap.changeItems (same.mono le) op (Binding.Twins.mono_all le all)))

theorem twins_call {hosts : Hosts} (even : hosts.EvenHanded) (f : Function) {b b' : Binding}
    (same : b.Twins ρ b') : Twins ρ Binding.Twins (f.call hosts b) (f.call hosts b') := by
  cases f with
  | count =>
    refine twins_bind (twins_ask fun _ _ _ le twins => twins.deref (same.mono le)) ?_
    refine fun ρ₁ v w le same => twins_ask fun ρ₂ m m' le' twins => ?_
    have same := same.mono le'
    rw [twins.size? same, twins.store.heap.describe (.value same)]
    split
    · exact .ok (.value (.scalar _))
    · exact .error _
  | describe =>
    refine twins_bind (twins_resolve same) fun ρ₁ v w le same => twins_ask fun ρ₂ m m' le' twins => ?_
    rw [twins.store.heap.describe (.value (same.mono le'))]
    exact .ok (.value (.scalar _))
  | write =>
    refine twins_bind (twins_resolve same) fun ρ₁ v w le same => ?_
    refine twins_bind (R := fun _ => Eq) (twins_ask fun ρ₂ m m' le' twins => ?_) ?_
    · rw [twins.message (same.mono le')]
      exact .of_eq (fun _ => rfl) _
    · rintro ρ₂ text _ le' rfl
      refine twins_bind (twins_change fun ρ₃ m m' _ twins => ?_) fun _ _ _ _ _ =>
        twins_pure fun _ _ => .value (.scalar _)
      exact ⟨twins.store, twins.types, twins.ret, congrArg (· ++ _) twins.effects,
        twins.statement⟩
  | host name => exact even name ρ b b' same

theorem twins_begin (node : Node) : Twins ρ (fun _ => Eq) (begin node) (begin node) :=
  twins_change fun _ _ _ _ twins =>
    ⟨twins.store, twins.types, .value (.scalar _), twins.effects, rfl⟩

theorem twins_ret {f : Binding → Run α} {g : Binding → Run β}
    (rest : ∀ ρ' b b', ρ ≤ ρ' → b.Twins ρ' b' → Twins ρ' R (f b) (g b')) :
    Twins ρ R (get >>= fun m => f m.ret) (get >>= fun m => g m.ret) :=
  fun ρ₁ m m' le twins => rest ρ₁ m.ret m'.ret le twins.ret ρ₁ m m' le_rfl twins

end Run

open Run

section

variable {hosts : Hosts}

mutual

/-- A node does the same on twins. -/
theorem interpret_twins (even : hosts.EvenHanded) : ∀ (node : Node) (ρ : Pairing),
    Run.Twins ρ Outcome.Twins (interpret hosts node) (interpret hosts node)
  | .root body _, ρ | .block body _, ρ => by
    rw [interpret]
    exact twins_ret fun ρ₁ _ _ _ same => runSequence_twins even body ρ₁ (.done same)
  | .expression inner _, ρ => by
    rw [interpret]
    exact interpret_twins even inner ρ
  | .valueAssignment aim value _, ρ => by
    rw [interpret]
    refine twins_bind (interpret_twins even value ρ) fun ρ₁ _ _ _ outcome => ?_
    refine twins_bind (twins_ask fun _ _ _ le _ => (outcome.mono le).reading?) ?_
    refine fun ρ₂ r r' _ same => twins_bind (twins_ask_eq _) ?_
    rintro ρ₃ place _ le rfl
    refine twins_bind twins_note fun ρ₄ _ _ le' _ => ?_
    exact twins_bind (twins_assign place (same.mono (le.trans le')).storedForm)
      fun _ _ _ _ _ => twins_pure fun _ _ => .done (.value (.scalar _))
  | .typeAssignment aim type _, ρ => by
    rw [interpret]
    refine twins_bind (interpret_twins even type ρ) fun ρ₁ _ _ _ outcome => ?_
    rw [outcome.name?]
    refine twins_bind (twins_ask_eq _) ?_
    rintro ρ₂ name _ _ rfl
    refine twins_bind (R := fun _ => Eq) (twins_ask fun _ _ _ _ twins => ?_) ?_
    · rw [twins.templateFor]
      exact .of_eq (fun _ => rfl) _
    rintro ρ₃ template _ _ rfl
    refine twins_bind (twins_instantiate template name) fun ρ₄ v w _ same => ?_
    refine twins_bind (twins_ask_eq _) ?_
    rintro ρ₅ place _ le rfl
    exact twins_bind (twins_assign place (.value (same.mono le))) fun _ _ _ _ _ =>
      twins_pure fun _ _ => .done (.value (.scalar _))
  | .listAssignment op item aim _, ρ => by
    rw [interpret]
    refine twins_bind (evaluateInner_twins even aim ρ) fun ρ₁ now now' _ current => ?_
    rw [current.render]
    simp only [current.val.eq_nothing_iff]
    split
    · exact twins_throw _
    refine twins_bind (interpret_twins even item ρ₁) fun ρ₂ _ _ le₂ outcome => ?_
    refine twins_bind (twins_ask fun _ _ _ le _ => (outcome.mono le).reading?) ?_
    refine fun ρ₃ r r' le₃ same => ?_
    have current := current.mono (le₂.trans le₃)
    refine twins_bind (twins_ask fun _ _ _ le twins => twins.listAt (current.mono le)) ?_
    rintro ρ₄ ⟨a, items⟩ ⟨a', items'⟩ le₄ ⟨pair, all⟩
    refine twins_bind (twins_changeList op pair all (same.mono le₄).storedForm) ?_
    refine fun ρ₅ _ _ le₅ _ => twins_bind (twins_ask_eq _) ?_
    rintro ρ₆ place _ le₆ rfl
    have held := current.val.mono (le₄.trans (le₅.trans le₆))
    exact twins_bind (twins_assign place held) fun _ _ _ _ _ =>
      twins_pure fun _ _ => .done (.value (.scalar _))
  | .invocation callee arg _, ρ => by
    rw [interpret]
    refine twins_bind (interpret_twins even callee ρ) fun ρ₁ _ _ _ outcome => ?_
    rw [outcome.name?]
    refine twins_bind (twins_ask_eq _) ?_
    rintro ρ₂ name _ _ rfl
    refine twins_bind (twins_functionNamed name) ?_
    rintro ρ₃ f _ _ rfl
    refine twins_bind (interpret_twins even arg ρ₃) fun ρ₄ _ _ _ outcome => ?_
    refine twins_bind (twins_ask fun _ _ _ le _ => (outcome.mono le).reading?) ?_
    refine fun ρ₅ r r' _ same => ?_
    refine twins_bind (twins_ask fun _ _ _ le _ => argument_twins (same.mono le)) ?_
    refine fun ρ₆ b b' _ same => twins_bind twins_note fun ρ₇ _ _ le _ => ?_
    exact twins_bind (twins_call even f (same.mono le)) fun _ _ _ _ ret =>
      twins_pure fun _ le => .done (ret.mono le)
  | .value inner _, ρ => by
    rw [interpret]
    exact twins_bind (evaluateValue_twins even inner ρ) fun _ _ _ _ same =>
      twins_pure fun _ le => .reading (same.mono le)
  | .integer .., ρ | .string .., ρ | .identifier .., ρ => by
    rw [interpret]
    exact twins_pure fun _ _ => .leaf _
  | .literal .., ρ | .scalar .., ρ | .object .., ρ | .variable .., ρ | .assignee .., ρ
  | .listOperation .., ρ => by
    simp only [interpret]
    exact twins_throw _

theorem evaluateValue_twins (even : hosts.EvenHanded) : ∀ (node : Node) (ρ : Pairing),
    Run.Twins ρ Reading.Twins (evaluateValue hosts node) (evaluateValue hosts node)
  | .literal inner _, ρ => by
    rw [evaluateValue]
    exact twins_bind (interpret_twins even inner ρ) fun _ _ _ _ outcome =>
      twins_ask fun _ _ _ le _ => (outcome.mono le).literal?
  | .variable inner _, ρ => by
    rw [evaluateValue]
    exact evaluateValue_twins even inner ρ
  | .scalar inner _, ρ => by
    rw [evaluateValue]
    refine twins_bind (interpret_twins even inner ρ) fun ρ₁ _ _ _ outcome => ?_
    rw [outcome.name?]
    refine twins_bind (twins_ask_eq _) ?_
    rintro ρ₂ name _ _ rfl
    exact twins_ask fun _ _ _ _ twins => .ok ⟨twins.store.names.read name, rfl⟩
  | .object obj attr _, ρ => by
    rw [evaluateValue]
    refine twins_bind (twins_ask_eq _) ?_
    rintro ρ₁ obj _ _ rfl
    refine twins_bind (twins_ask_eq _) ?_
    rintro ρ₂ attr _ _ rfl
    refine twins_bind (twins_ask fun _ _ _ _ twins =>
      readPath_twins twins.store.names twins.store.heap obj attr) ?_
    exact fun _ _ _ _ same => twins_pure fun _ le => ⟨same.mono le, rfl⟩
  | .identifier .., ρ | .integer .., ρ | .string .., ρ | .value .., ρ | .assignee .., ρ
  | .valueAssignment .., ρ | .typeAssignment .., ρ | .listOperation .., ρ | .listAssignment .., ρ
  | .invocation .., ρ | .expression .., ρ | .block .., ρ | .root .., ρ => by
    simp only [evaluateValue]
    exact twins_throw _

theorem evaluateInner_twins (even : hosts.EvenHanded) : ∀ (node : Node) (ρ : Pairing),
    Run.Twins ρ Reading.Twins (evaluateInner hosts node) (evaluateInner hosts node)
  | .literal inner _, ρ | .variable inner _, ρ | .value inner _, ρ | .assignee inner _, ρ
  | .expression inner _, ρ => by
    rw [evaluateInner]
    exact evaluateValue_twins even inner ρ
  | .identifier .., ρ | .integer .., ρ | .string .., ρ | .scalar .., ρ | .object .., ρ
  | .valueAssignment .., ρ | .typeAssignment .., ρ | .listOperation .., ρ | .listAssignment .., ρ
  | .invocation .., ρ | .block .., ρ | .root .., ρ => by
    simp only [evaluateInner]
    exact twins_throw _

theorem runSequence_twins (even : hosts.EvenHanded) : ∀ (nodes : List Node) (ρ : Pairing)
    {last last' : Outcome}, last.Twins ρ last' →
      Run.Twins ρ Outcome.Twins (runSequence hosts nodes last) (runSequence hosts nodes last')
  | [], ρ, last, last', same => by
    rw [runSequence, runSequence]
    exact twins_pure fun _ le => same.mono le
  | node :: nodes, ρ, _, _, .done _ => by
    rw [runSequence, runSequence]
    refine twins_bind (twins_begin node) fun ρ₁ _ _ _ _ => ?_
    refine twins_bind (interpret_twins even node ρ₁) fun ρ₂ _ _ _ outcome => ?_
    exact runSequence_twins even nodes ρ₂ outcome
  | node :: nodes, ρ, _, _, .reading _ | node :: nodes, ρ, _, _, .leaf _ => by
    simp only [runSequence]
    exact twins_bind (twins_begin node) fun _ _ _ _ _ => twins_throw _

end

end

/-! ## Scripts -/

/-- The reports say the same, and report twins. -/
structure Report.Twins (ρ : Pairing) (report report' : Report) : Prop where
  status : report.status = report'.status
  value : report.value.Twins ρ report'.value
  message : report.message = report'.message
  token : report.token = report'.token
  effects : report.effects = report'.effects

theorem Report.Twins.mono (le : ρ ≤ ρ') {report report' : Report} (h : report.Twins ρ report') :
    report.Twins ρ' report' := ⟨h.status, h.value.mono le, h.message, h.token, h.effects⟩

namespace Runner

variable {hosts : Hosts}

/-- Two runs of a script end alike, and leave the same store. -/
def EndAlike (ρ : Pairing) (p p' : Except Fault Report × Machine) : Prop :=
  ∃ ρ', ρ ≤ ρ' ∧ SameEnd (Report.Twins ρ') p.1 p'.1 ∧ p.2.SameStore ρ' p'.2

theorem conclude_endAlike (source : String) (e : Fault) (same : m.SameStore ρ m')
    (effects : m.effects = m'.effects) (statement : m.statement = m'.statement) :
    EndAlike ρ (conclude source m e) (conclude source m' e) := by
  rw [conclude, conclude, ← statement, ← effects]
  cases Report.account source m.statement e with
  | error other => exact ⟨ρ, le_rfl, .error other, same⟩
  | ok told => exact ⟨ρ, le_rfl, .ok ⟨rfl, .value (.scalar _), rfl, rfl, rfl⟩, same.store, same.types⟩

/-- A program does the same where the same is bound, whatever earlier runs have left. -/
theorem runProgram_endAlike (even : hosts.EvenHanded) (source : String)
    (program : Except Fault Node) (same : m.SameStore ρ m') :
    EndAlike ρ (runProgram hosts source program m) (runProgram hosts source program m') := by
  cases program with
  | error e => exact conclude_endAlike source e ⟨same.store, same.types⟩ rfl rfl
  | ok root =>
    have begins : (begun m).Twins ρ (begun m') :=
      ⟨same.store, same.types, .value (.scalar _), rfl, rfl⟩
    obtain ⟨ρ', le, after, ends⟩ := interpret_twins even root ρ ρ _ _ le_rfl begins
    rcases run : interpret hosts root (begun m) with ⟨x, s⟩
    rcases run' : interpret hosts root (begun m') with ⟨x', s'⟩
    rw [run, run'] at after ends
    cases ends with
    | error e =>
      rw [runProgram_error run, runProgram_error run']
      obtain ⟨ρ'', le', rest⟩ := conclude_endAlike source e ⟨after.store, after.types⟩
        after.effects after.statement
      exact ⟨ρ'', le.trans le', rest⟩
    | ok outcome =>
      refine ⟨ρ', le, ?_⟩
      cases outcome with
      | done ret =>
        rw [runProgram_ok run, runProgram_ok run']
        exact ⟨.ok ⟨rfl, ret, rfl, rfl, after.effects⟩, after.store, after.types⟩
      | reading | leaf =>
        rw [begun] at run run'
        simp only [runProgram, run, run']
        exact ⟨.error _, after.store, after.types⟩

theorem runAll_endAlike (even : hosts.EvenHanded) (sources : List String) :
    ∀ {ρ : Pairing} {r r' : Runner}, r.machine.SameStore ρ r'.machine →
      ∃ ρ', ρ ≤ ρ' ∧ List.Forall₂ (SameEnd (Report.Twins ρ')) (runAll hosts r sources).1
          (runAll hosts r' sources).1 ∧
        (runAll hosts r sources).2.machine.SameStore ρ' (runAll hosts r' sources).2.machine := by
  induction sources with
  | nil => exact fun same => ⟨_, le_rfl, .nil, same⟩
  | cons source sources ih =>
    intro ρ r r' same
    obtain ⟨ρ₁, le₁, ends, after⟩ := runProgram_endAlike even source (parse source) same
    obtain ⟨ρ₂, le₂, all, last⟩ := @ih _ (r.run hosts source).2 (r'.run hosts source).2 after
    exact ⟨ρ₂, le₁.trans le₂, .cons (ends.imp fun _ _ same => same.mono le₂) all, last⟩

theorem builtins_twins (ρ : Pairing) : Machine.builtins.Twins ρ Machine.builtins := by
  have builtIn : ∀ f : Function, (Binding.value (.scalar (.function f))).Twins ρ
      (.value (.scalar (.function f))) := fun f => .value (.scalar _)
  exact .cons ⟨rfl, builtIn .count⟩ (.cons ⟨rfl, builtIn .describe⟩
    (.cons ⟨rfl, builtIn .write⟩ .nil))

theorem sameStore_reset (r : Runner) :
    r.reset.machine.SameStore (fun _ _ => False) (fresh r.library).machine := by
  have closed := (scripted_fresh r.library).store.closed
  refine ⟨⟨?names, ⟨nofun, nofun⟩, closed, closed⟩, rfl⟩
  show (Machine.fresh r.library).names.Twins _ (Machine.fresh r.library).names
  cases r.library with
  | false => exact .nil
  | true => exact builtins_twins _

/-- On runners that bind the same, up to the addresses of containers, every script ends alike: with
the same report or the same fault. It leaves runners that bind the same. Nothing else of a runner
matters, be it what earlier scripts have written and returned or where they have stopped. So
scripts that run on a runner that has forgotten all names do what they do on a fresh one. -/
theorem run_of_sameStore (even : hosts.EvenHanded) :
    (∀ (ρ : Pairing) (r r' : Runner), r.machine.SameStore ρ r'.machine → ∀ source : String,
      ∃ ρ', ρ ≤ ρ' ∧
        SameEnd (Report.Twins ρ') (r.run hosts source).1 (r'.run hosts source).1 ∧
        (r.run hosts source).2.machine.SameStore ρ' (r'.run hosts source).2.machine) ∧
    ∀ (r : Runner) (sources : List String), ∃ ρ : Pairing,
      List.Forall₂ (SameEnd (Report.Twins ρ)) (runAll hosts r.reset sources).1
        (runAll hosts (fresh r.library) sources).1 ∧
      (runAll hosts r.reset sources).2.machine.SameStore ρ
        (runAll hosts (fresh r.library) sources).2.machine := by
  constructor
  · exact fun ρ r r' same source => runProgram_endAlike even source (parse source) same
  · intro r sources
    obtain ⟨ρ, -, all, last⟩ := runAll_endAlike even sources (sameStore_reset r)
    exact ⟨ρ, all, last⟩

/-! ## Two runners with one box -/

theorem evenHanded_seeing : Hosts.EvenHanded seeing := by
  refine fun _ ρ b b' _ => Run.twins_ask fun ρ' m m' _ twins => ?_
  simp only [twins.ret.eq_nothing_iff]
  exact .ok (.value (.scalar _))

/-- A runner with a box, made after a list that is not bound any more. Scripts have written and
returned something on it, and the last one has stopped halfway. -/
def usedBox : Runner where
  machine :=
    { names := Machine.builtins.set "o" (.value (.cell 1))
      types := Template.defaults
      heap := ⟨#[.list (some "list") [], .object (some "box") .empty]⟩
      ret := .value (.text "left")
      effects := [⟨.stdout, "left"⟩, ⟨.stderr, "failed"⟩]
      statement := some ⟨3, 1, "expression", .text "x y"⟩
      trace := ["[DBG] call x y"] }
  library := true

def newBox : Runner where
  machine :=
    { Machine.fresh true with
      names := Machine.builtins.set "o" (.value (.cell 0))
      heap := ⟨#[.object (some "box") .empty]⟩ }
  library := true

/-- A script that gives the box a list and writes it out. -/
theorem run_of_sameStore_of_box : Hosts.EvenHanded seeing ∧
    usedBox.machine.SameStore (fun a b => a = 1 ∧ b = 0) newBox.machine ∧
    ∃ ρ : Pairing, ρ 1 0 ∧
      SameEnd (Report.Twins ρ) (usedBox.run seeing "o p is a list\nwrite o").1
        (newBox.run seeing "o p is a list\nwrite o").1 ∧
      (usedBox.run seeing "o p is a list\nwrite o").2.machine.SameStore ρ
        (newBox.run seeing "o p is a list\nwrite o").2.machine := by
  have same : usedBox.machine.SameStore (fun a b => a = 1 ∧ b = 0) newBox.machine := by
    refine ⟨⟨?names, ⟨?unique, ?cells⟩, ?closed, ?closed'⟩, rfl⟩
    case names => exact (builtins_twins _).set "o" (.value (.cell ⟨rfl, rfl⟩))
    case unique =>
      rintro a b c d ⟨rfl, rfl⟩ ⟨rfl, rfl⟩
      exact iff_of_true rfl rfl
    case cells =>
      rintro a b ⟨rfl, rfl⟩
      exact ⟨_, _, rfl, rfl, .object .nil⟩
    case closed => exact closed_of_forall_mem (by decide) (by decide)
    case closed' => exact closed_of_forall_mem (by decide) (by decide)
  obtain ⟨ρ, le, ends, after⟩ := (run_of_sameStore evenHanded_seeing).1 _ _ _ same
    "o p is a list\nwrite o"
  exact ⟨evenHanded_seeing, same, ρ, le 1 0 ⟨rfl, rfl⟩, ends, after⟩

end Runner

end AliasScript

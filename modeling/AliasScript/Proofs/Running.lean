import AliasScript.Proofs.Safe

/-!
# Running statements

Reading a value never changes the machine (`Node.IsValue.exists_reading`). Each statement then is
safe (`Node.IsStatement.safe`), and so is a whole program (`Node.IsProgram.safe`).
-/

namespace AliasScript

structure Reading.Scripted (size : Nat) (r : Reading) : Prop where
  val : r.val.Scripted size
  ref : ∀ q, r.ref = some q → q.Spaceless

theorem Reading.Scripted.storedForm {size : Nat} {r : Reading} (h : r.Scripted size) :
    r.storedForm.Scripted size := by
  rw [Reading.storedForm]
  split
  · exact h.val
  · next q same => exact h.ref q same

/-- Reading a reference: what its slot holds, without following it. -/
def Reference.read (r : Reference) (m : Machine) : Except Fault Reading :=
  match r with
  | .name n => .ok ⟨m.names.read n, some r⟩
  | .path obj attr => (readPath m.names m.heap obj attr).map (⟨·, some r⟩)

theorem Reference.read_eq_ok {x : Reference} {m : Machine} {r : Reading} (h : x.read m = .ok r) :
    r.ref = some x ∧ Holds m.names m.heap x r.val := by
  cases x with
  | name n =>
    cases h
    exact ⟨rfl, .name n⟩
  | path obj attr =>
    rw [read, readPath] at h
    cases found : baseOf m.names m.heap [] obj with
    | error e =>
      rw [found] at h
      cases h
    | ok base =>
      rw [found] at h
      cases h
      exact ⟨rfl, .path attr (leads_of_baseOf found)⟩

theorem Reference.Spaceless.read {r : Reference} (free : r.Spaceless) {m : Machine}
    (machine : m.Scripted) {found : Reading} (h : r.read m = .ok found) :
    found.Scripted m.heap.size := by
  cases r with
  | name n =>
    cases h
    exact ⟨machine.store.names.read n, fun q same => Option.some.inj same ▸ free⟩
  | path obj attr =>
    rw [Reference.read] at h
    cases path : readPath m.names m.heap obj attr with
    | error e =>
      rw [path] at h
      cases h
    | ok b =>
      rw [path] at h
      cases h
      exact ⟨machine.store.readPath path, fun q same => Option.some.inj same ▸ free⟩

theorem Reference.ofProgram_of_read {r : Reference} {m : Machine} {e : Fault}
    (h : r.read m = .error e) : e.OfProgram := by
  cases r with
  | name n => cases h
  | path obj attr =>
    rw [Reference.read] at h
    cases path : readPath m.names m.heap obj attr with
    | error e' =>
      rw [path] at h
      cases h
      exact ofProgram_of_readPath path
    | ok b =>
      rw [path] at h
      cases h

section

variable (hosts : Hosts) {m : Machine}

/-! ## Reading -/

theorem interpret_identifier (word : String) (loc : Option Loc) (m : Machine) :
    interpret hosts (.identifier word loc) m = (.ok (.leaf (.text word)), m) := by
  rw [interpret]
  rfl

namespace Node

theorem IsName.exists_word {node : Node} (h : node.IsName) :
    ∃ word, OneWord word ∧ node.name? = some word ∧
      ∀ m, interpret hosts node m = (.ok (.leaf (.text word)), m) := by
  cases h with
  | @identifier word loc free here =>
    exact ⟨word, free, rfl, interpret_identifier hosts word loc⟩

/-- The place that a reference stands for, as a program writes it. -/
inductive Places : Reference → Node → Prop
  | name {n : String} {loc loc' : Option Loc} :
    Places (.name n) (.scalar (.identifier n loc) loc')
  | path {obj attr : String} {loc loc' loc'' : Option Loc} :
    Places (.path obj attr) (.object (.identifier obj loc) (.identifier attr loc') loc'')

namespace Places

variable {x : Reference} {node : Node} (h : node.Places x)
include h

theorem target (loc : Option Loc) : AliasScript.target (.assignee node loc) = .ok x := by
  cases h with
  | name => rfl
  | path => rfl

theorem evaluateValue : AliasScript.evaluateValue hosts node m = (x.read m, m) := by
  cases h with
  | name =>
    rw [AliasScript.evaluateValue, act_bind_ok (interpret_identifier hosts _ _ m)]
    rfl
  | @path obj attr =>
    rw [AliasScript.evaluateValue]
    show ((Run.ask fun m => readPath m.names m.heap obj attr) >>= fun b =>
      pure ⟨b, some (.path obj attr)⟩ : Run Reading) m = _
    rw [act_bind_pure]
    rfl

theorem interpret_value (loc loc' : Option Loc) :
    interpret hosts (.value (.variable node loc) loc') m = ((x.read m).map .reading, m) := by
  rw [interpret, AliasScript.evaluateValue, act_bind_pure, h.evaluateValue hosts]

end Places

theorem IsPlace.exists_places {node : Node} (h : node.IsPlace) :
    ∃ x : Reference, x.Spaceless ∧ node.Places x := by
  cases h with
  | @scalar name loc word =>
    obtain @⟨n, loc', free, -⟩ := word
    exact ⟨.name n, free, .name⟩
  | @object obj attr loc first second =>
    obtain @⟨o, loc', free, -⟩ := first
    obtain @⟨a, loc'', free', -⟩ := second
    exact ⟨.path o a, ⟨free, free'⟩, .path⟩

theorem IsTarget.exists_reference {node : Node} (h : node.IsTarget) :
    ∃ r : Reference, r.Spaceless ∧ target node = .ok r ∧
      ∀ m, evaluateInner hosts node m = (r.read m, m) := by
  cases h with
  | @assignee place loc inner here =>
    obtain ⟨r, free, places⟩ := inner.exists_places
    refine ⟨r, free, places.target loc, fun m => ?_⟩
    rw [evaluateInner]
    exact places.evaluateValue hosts

theorem IsLiteral.exists_scalar {node : Node} (h : node.IsLiteral) :
    ∃ s : Scalar, (∀ size, (Value.scalar s).Scripted size) ∧
      ∀ m, interpret hosts node m = (.ok (.leaf s), m) := by
  cases h with
  | @integer n text loc numeral here =>
    refine ⟨.number n, fun _ => trivial, fun m => ?_⟩
    rw [interpret]
    rfl
  | @string text loc here =>
    refine ⟨.text (String.ofList (unquote text.toList)), fun _ => trivial, fun m => ?_⟩
    rw [interpret]
    rfl

theorem IsValue.reads {node : Node} (h : node.IsValue) :
    (∃ s : Scalar, (∀ size, (Value.scalar s).Scripted size) ∧
      ∀ m, interpret hosts node m = (.ok (.reading ⟨.value (.scalar s), none⟩), m)) ∨
    ∃ q : Reference, q.Spaceless ∧ ∀ m, interpret hosts node m = ((q.read m).map .reading, m) := by
  cases h with
  | @literal inner loc loc' literal here here' =>
    obtain ⟨s, scripted, run⟩ := literal.exists_scalar hosts
    refine .inl ⟨s, scripted, fun m => ?_⟩
    rw [interpret, evaluateValue, act_bind_pure, act_bind_ok (run m)]
    rfl
  | @reading inner loc loc' place here here' =>
    obtain ⟨q, free, places⟩ := place.exists_places
    exact .inr ⟨q, free, fun m => places.interpret_value hosts loc loc'⟩

/-- What reading a value gives scripts can come by. -/
theorem IsValue.exists_reading {node : Node} (h : node.IsValue) (machine : m.Scripted) :
    ∃ read : Except Fault Reading, interpret hosts node m = (read.map .reading, m) ∧
      (∀ r, read = .ok r → r.Scripted m.heap.size) ∧ ∀ e, read = .error e → e.OfProgram := by
  rcases h.reads hosts with ⟨s, scripted, run⟩ | ⟨q, free, run⟩
  · refine ⟨.ok ⟨.value (.scalar s), none⟩, run m, ?_, fun e same => nomatch same⟩
    rintro r ⟨⟩
    exact ⟨scripted _, fun q same => nomatch same⟩
  · exact ⟨q.read m, run m, fun _ => free.read machine, fun _ => Reference.ofProgram_of_read⟩

end Node

/-! ## Changing -/

namespace Run

variable {α : Type} {p : α → Prop}

theorem safe_interpret {node : Node} (h : node.IsValue) (machine : m.Scripted)
    {f : Outcome → Run α}
    (rest : ∀ r : Reading, r.Scripted m.heap.size → Safe m (f (.reading r)) p) :
    Safe m (interpret hosts node >>= f) p := by
  obtain ⟨read, run, scripted, fails⟩ := h.exists_reading hosts machine
  cases read with
  | error e => exact safe_bind_error run machine (fails e rfl)
  | ok r => exact safe_bind_ok run (rest r (scripted r rfl))

theorem safe_assign {place : Reference} {b : Binding} (free : place.Spaceless)
    (bound : b.Scripted m.heap.size) (machine : m.Scripted) {f : Unit → Run α}
    (rest : ∀ m', m'.Scripted → Safe m' (f ()) p) : Safe m (assign place b >>= f) p := by
  obtain ⟨store, types⟩ := machine
  refine safe_bind (p := fun _ => True) ?_ fun _ m' _ after _ => rest m' after
  cases place with
  | name n => exact ⟨⟨⟨store.names.set free bound, store.cells⟩, types⟩, trivial⟩
  | path obj attr =>
    refine safe_ask ⟨store, types⟩ (fun e => ofProgram_of_objectAt) fun a found => ?_
    exact ⟨⟨store.setAttribute a free.2 bound, types⟩, trivial⟩

theorem safe_note {line : Machine → String} (machine : m.Scripted) {f : Unit → Run α}
    (rest : ∀ m', m'.Scripted → m'.heap = m.heap → m'.names = m.names → Safe m' (f ()) p) :
    Safe m (Run.note line >>= f) p :=
  safe_change (rest _ ⟨machine.store, machine.types⟩ rfl rfl)

theorem safe_resolve {b : Binding} (machine : m.Scripted) (bound : b.Scripted m.heap.size)
    {f : Value → Run α}
    (rest : ∀ v m', m'.Scripted → v.Scripted m'.heap.size → Safe m' (f v) p) :
    Safe m (Run.resolve b >>= f) p := by
  obtain ⟨store, types⟩ := machine
  have calls := resolves_resolve store.closed bound.within
  obtain ⟨store', -, result⟩ := calls.scripted store bound
  rcases ends : AliasScript.resolve m.names b m.heap with ⟨r, heap⟩
  rw [ends] at calls store' result
  have run := Run.resolve_of_apply ends
  have machine' : Machine.Scripted { m with heap } := ⟨store', types⟩
  cases r with
  | error e =>
    obtain ⟨h₁, q, -, -, failed⟩ := calls.exists_lost store.closed bound.within e rfl
    exact safe_bind_error run machine' (ofProgram_of_follow failed)
  | ok v => exact safe_bind_ok run (rest v _ machine' (result v rfl))

theorem safe_functionNamed {name : String} (word : OneWord name) (machine : m.Scripted) :
    Safe m (functionNamed name) fun f => ∀ other, f ≠ .host other := by
  rw [functionNamed]
  refine safe_resolve machine (b := .reference (.name name)) word fun v m' machine' found => ?_
  split
  · refine safe_pure machine' fun other same => ?_
    subst same
    exact found
  · exact safe_throw machine' (.notAFunction name)

theorem safe_call {f : Function} {arg : Binding} (builtIn : ∀ other, f ≠ .host other)
    (machine : m.Scripted) (bound : arg.Scripted m.heap.size) :
    Safe m (f.call hosts arg) fun _ => True := by
  cases f with
  | count =>
    refine safe_ask machine (fun e => ofProgram_of_deref) fun v _ => ⟨machine, ?_⟩
    cases size : Library.size? m.heap v with
    | some n =>
      simp only [Run.ask, size]
    | none =>
      simp only [Run.ask, size]
      exact .wrongArgument _
  | describe => exact safe_resolve machine bound fun v m' machine' _ => ⟨machine', trivial⟩
  | write =>
    refine safe_resolve machine bound fun v m' machine' _ => ?_
    refine safe_ask machine' (fun e failed => ?_) fun text _ => ?_
    · rw [Library.message.eq_def] at failed
      split at failed
      · cases failed
      · rw [Heap.print] at failed
        split at failed
        · cases failed
        · cases failed
          exact .endless
    · exact safe_change (safe_pure ⟨machine'.store, machine'.types⟩ trivial)
  | host other => exact absurd rfl (builtIn other)

end Run

/-! ## Statements and programs -/

open Run

theorem templateFor_defaults (type : String) :
    ∃ t, templateFor Template.defaults type = .ok t := by
  have generic : Template.defaults.get? "generic" = some .generic := by decide
  rw [templateFor, generic]
  cases Template.defaults.get? type with
  | some t => exact ⟨t, rfl⟩
  | none => exact ⟨.generic, rfl⟩

theorem Template.scripted_cell (t : Template) (type : String) (size : Nat) :
    (t.cell type).Scripted size := by
  cases t with
  | generic => exact Table.scripted_empty
  | list => exact fun _ mem => nomatch mem

theorem ofProgram_of_argument {r : Reading} {e : Fault} (h : argument r = .error e) :
    e.OfProgram := by
  rw [argument] at h
  split at h
  · split at h
    · cases h
      exact .unboundVariable _
    · cases h
  · cases h

theorem Reading.Scripted.argument {size : Nat} {r : Reading} (h : r.Scripted size) {b : Binding}
    (argued : argument r = .ok b) : b.Scripted size := by
  rw [AliasScript.argument] at argued
  split at argued
  · split at argued
    · cases argued
    · cases argued
      exact h.val
  · cases argued
    exact h.val

theorem ofProgram_of_listAt {current : Reading} {e : Fault}
    (h : listAt m current = .error e) : e.OfProgram := by
  rw [listAt] at h
  cases found : deref m.names m.heap current.val with
  | error e' =>
    have known := ofProgram_of_deref found
    rw [found, asListTarget.eq_def] at h
    split at h
    · cases h
      exact .unboundListTarget _
    · cases h
      exact known
  | ok v =>
    rw [found, show asListTarget current.render (.ok v) = .ok v from rfl] at h
    simp only [bind, Except.bind] at h
    split at h
    · split at h
      · cases h
      · cases h
        exact .unboundListTarget _
    · cases h
      exact .unboundListTarget _

theorem listAt_eq_ok_iff {current : Reading} {a : Addr} {items : List Binding} :
    listAt m current = .ok (a, items) ↔ deref m.names m.heap current.val = .ok (.cell a) ∧
      ∃ type, m.heap.get? a = some (.list type items) := by
  rw [listAt]
  rcases found : deref m.names m.heap current.val with e | s | c
  · have failed : ∃ e', asListTarget current.render (.error e) = .error e' := by
      rw [asListTarget.eq_def]
      split
      · exact ⟨_, rfl⟩
      · exact ⟨e, rfl⟩
    obtain ⟨e', failed⟩ := failed
    rw [failed]
    exact iff_of_false (by rintro ⟨⟩) (by rintro ⟨⟨⟩, -⟩)
  · exact iff_of_false (by rintro ⟨⟩) (by rintro ⟨⟨⟩, -⟩)
  · have kept : asListTarget current.render (.ok (.cell c)) = .ok (.cell c) := rfl
    rw [kept]
    dsimp only [bind, Except.bind]
    constructor
    · intro h
      split at h
      · next type items there =>
        cases h
        exact ⟨rfl, type, there⟩
      · cases h
    · rintro ⟨same, type, there⟩
      cases same
      rw [there]
      rfl

theorem Heap.scripted_changeItems (h : Heap) (op : ListOperation) {items : List Binding}
    {item : Binding} {size : Nat} (old : ∀ b ∈ items, b.Scripted size) (new : item.Scripted size) :
    ∀ b ∈ h.changeItems op items item, b.Scripted size := by
  cases op with
  | add => exact List.forall_mem_append.2 ⟨old, List.forall_mem_singleton.2 new⟩
  | remove => exact fun b mem => old b (List.mem_of_mem_eraseP mem)

theorem changeList_keyword (op : ListOperation) (loc : Option Loc) (a : Addr)
    (items : List Binding) (item : Binding) (m : Machine) :
    changeList (.listOperation (.text op.keyword) loc) a items item m =
      (.ok (), { m with heap := m.heap.setItems a (m.heap.changeItems op items item) }) := by
  have known : listOperation (.text op.keyword) = .ok op := by
    rw [listOperation, ListOperation.ofKeyword?_keyword]
  show ((Run.ask fun _ => listOperation (.text op.keyword)) >>= fun op => Run.change fun m =>
    { m with heap := m.heap.setItems a (m.heap.changeItems op items item) }) m = _
  rw [known]
  rfl

theorem Node.IsStatement.safe {node : Node} (h : node.IsStatement) (machine : m.Scripted) :
    Safe m (interpret hosts node) fun outcome => ∃ b, outcome = .done b := by
  cases h with
  | @valueAssignment aim value loc isTarget isValue here =>
    obtain ⟨place, free, named, -⟩ := isTarget.exists_reference hosts
    rw [interpret]
    refine safe_interpret hosts isValue machine fun r scripted => ?_
    refine safe_ask_ok (a := r) rfl (safe_ask_ok (a := place) named ?_)
    refine safe_note machine fun m₁ machine₁ heap names => ?_
    refine safe_assign free (heap ▸ scripted.storedForm) machine₁ fun m₂ machine₂ => ?_
    exact safe_pure machine₂ ⟨_, rfl⟩
  | @typeAssignment aim type loc isTarget isName here =>
    obtain ⟨place, free, named, -⟩ := isTarget.exists_reference hosts
    obtain ⟨word, -, -, run⟩ := isName.exists_word hosts
    obtain ⟨t, template⟩ := templateFor_defaults word
    have made : (t.cell word).Scripted m.heap.size := t.scripted_cell word _
    have new : instantiate t word m = (.ok (.cell m.heap.size),
      { m with heap := (m.heap.alloc (t.cell word)).2 }) := rfl
    rw [interpret]
    refine safe_bind_ok (run m) (safe_ask_ok (a := word) rfl ?_)
    refine safe_ask_ok (a := t) (machine.types ▸ template) (safe_bind_ok new ?_)
    refine safe_ask_ok (a := place) named ?_
    have inside : (Binding.value (.cell m.heap.size)).Scripted
        (m.heap.alloc (t.cell word)).2.size := by
      rw [Heap.size_alloc]
      exact Nat.lt_succ_self m.heap.size
    have machine₁ : Machine.Scripted { m with heap := (m.heap.alloc (t.cell word)).2 } :=
      ⟨machine.store.alloc made, machine.types⟩
    refine safe_assign free inside machine₁ fun m₂ machine₂ => ?_
    exact safe_pure machine₂ ⟨_, rfl⟩
  | @listAssignment op item aim loc loc' isValue isTarget here here' =>
    obtain ⟨place, free, named, run⟩ := isTarget.exists_reference hosts
    rw [interpret]
    cases read : place.read m with
    | error e =>
      have ends := (run m).trans (by rw [read])
      exact safe_bind_error ends machine (Reference.ofProgram_of_read read)
    | ok current =>
      have currentScripted := free.read machine read
      refine safe_bind_ok ((run m).trans (by rw [read])) ?_
      split
      · exact safe_throw machine (.unboundListTarget _)
      · refine safe_interpret hosts isValue machine fun r scripted => ?_
        refine safe_ask_ok (a := r) rfl ?_
        refine safe_ask machine (fun e => ofProgram_of_listAt) fun ⟨a, items⟩ found => ?_
        obtain ⟨-, type, there⟩ := listAt_eq_ok_iff.1 found
        have items' := m.heap.scripted_changeItems op (machine.store.cells a _ there)
          scripted.storedForm
        have machine₁ : Machine.Scripted { m with
            heap := m.heap.setItems a (m.heap.changeItems op items r.storedForm) } :=
          ⟨machine.store.setItems a items', machine.types⟩
        refine safe_bind_ok (changeList_keyword op loc a items r.storedForm m) ?_
        refine safe_ask_ok (a := place) named ?_
        refine safe_assign free ?_ machine₁ fun m₂ machine₂ => ?_
        · show current.val.Scripted (m.heap.setItems a _).size
          rw [Heap.size_setItems]
          exact currentScripted.val
        · exact safe_pure machine₂ ⟨_, rfl⟩
  | @invocation callee arg loc isName isValue here =>
    obtain ⟨word, free, -, run⟩ := isName.exists_word hosts
    rw [interpret]
    refine safe_bind_ok (run m) (safe_ask_ok (a := word) rfl ?_)
    refine safe_bind (safe_functionNamed free machine) fun f m₁ _ machine₁ builtIn => ?_
    refine safe_interpret hosts isValue machine₁ fun r scripted => ?_
    refine safe_ask_ok (a := r) rfl ?_
    refine safe_ask machine₁ (fun e => ofProgram_of_argument) fun b argued => ?_
    refine safe_note machine₁ fun m₂ machine₂ heap names => ?_
    refine safe_bind (safe_call hosts builtIn machine₂ (heap ▸ scripted.argument argued))
      fun ret m₃ _ machine₃ _ => ?_
    exact safe_pure machine₃ ⟨ret, rfl⟩

theorem Node.IsExpression.safe {node : Node} (h : node.IsExpression) (machine : m.Scripted) :
    Safe m (interpret hosts node) fun outcome => ∃ b, outcome = .done b := by
  cases h with
  | expression statement here =>
    rw [interpret]
    exact statement.safe hosts machine

theorem safe_runSequence {body : List Node} (fits : ∀ node ∈ body, node.IsExpression) :
    ∀ {m : Machine} {b : Binding}, m.Scripted →
      Safe m (runSequence hosts body (.done b)) fun outcome => ∃ b, outcome = .done b := by
  induction body with
  | nil =>
    intro m b machine
    rw [runSequence]
    exact safe_pure machine ⟨b, rfl⟩
  | cons node rest ih =>
    intro m b machine
    have first := fits node (List.mem_cons_self ..)
    rw [runSequence]
    refine safe_change (safe_bind (first.safe hosts ⟨machine.store, machine.types⟩) ?_)
    rintro outcome m₁ - machine₁ ⟨b', rfl⟩
    exact ih (fun other mem => fits other (List.mem_cons_of_mem _ mem)) machine₁

theorem interpret_root_one (node : Node) (loc : Option Loc) :
    interpret hosts (.root [node] loc) m =
      interpret hosts node { m with statement := node.loc, ret := .nothing } := by
  have ends : ∀ s, (interpret hosts node >>= fun outcome => runSequence hosts [] outcome) s =
      interpret hosts node s := by
    intro s
    rw [act_bind_apply]
    rcases interpret hosts node s with ⟨e | outcome, s'⟩
    · rfl
    · simp only [runSequence]
      rfl
  rw [interpret, act_bind_ok (show (get : Run Machine) m = (.ok m, m) from rfl), runSequence]
  exact ends _

/-- The tree of a program runs without a fault of the interpreter. -/
theorem Node.IsProgram.safe {root : Node} (h : root.IsProgram) (machine : m.Scripted) :
    Safe m (interpret hosts root) fun outcome => ∃ b, outcome = .done b := by
  cases h with
  | root fits here =>
    rw [interpret]
    exact safe_bind_ok (show (get : Run Machine) m = (.ok m, m) from rfl)
      (safe_runSequence hosts fits machine)

end

end AliasScript

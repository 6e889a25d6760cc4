import AliasScript.Proofs.Running

/-!
# What a statement does

Every statement first asks the machine what it needs to know, and changes the machine when it knows
all of it. One equation for each kind of statement says what is asked and what is changed then; the
place that the statement is about is any name or attribute.
-/

namespace AliasScript

namespace Run

variable {α β : Type} {m m' : Machine} {question : Machine → Except Fault α} {f : α → Run β}

theorem ask_bind_ok {a : α} (answer : question m = .ok a) : (ask question >>= f) m = f a m :=
  act_bind_ok (congrArg (·, m) answer)

theorem ask_bind_error {e : Fault} (answer : question m = .error e) :
    (ask question >>= f) m = (.error e, m) :=
  act_bind_error (congrArg (·, m) answer)

theorem eq_of_ask {result : Except Fault α} (run : ask question m = (result, m')) :
    question m = result ∧ m' = m := by
  cases run
  exact ⟨rfl, rfl⟩

end Run

def Machine.noted (m : Machine) (line : String) : Machine := { m with trace := m.trace ++ [line] }

variable {hosts : Hosts} {m : Machine} {x : Reference} {place : Node}

theorem assign_path_of_ok {obj attr : String} {b : Binding} {a : Addr}
    (found : objectAt m obj attr = .ok a) :
    assign (.path obj attr) b m = (.ok (), { m with heap := m.heap.setAttribute a attr b }) :=
  (Run.ask_bind_ok found).trans rfl

theorem objectAt_of_value {obj attr : String} {a : Addr} {type : Option String}
    {attrs : Table Binding} (bound : m.names.read obj = .value (.cell a))
    (there : m.heap.get? a = some (.object type attrs)) : objectAt m obj attr = .ok a := by
  rw [objectAt, baseOf_value bound]
  dsimp only [bind, Except.bind]
  rw [there]
  rfl

theorem Reference.read_path_of_value {obj attr : String} {base : Value}
    (bound : m.names.read obj = .value base) : (Reference.path obj attr).read m =
      .ok ⟨m.heap.readAttribute base attr, some (.path obj attr)⟩ := by
  rw [read, readPath, baseOf_value bound]
  rfl

theorem assign_path_of_error {obj attr : String} {b : Binding} {e : Fault}
    (failed : objectAt m obj attr = .error e) : assign (.path obj attr) b m = (.error e, m) :=
  Run.ask_bind_error failed

theorem functionNamed_eq_ok {name : String} {m' : Machine} {f : Function}
    (run : functionNamed name m = (.ok f, m')) :
    deref m.names m.heap (.reference (.name name)) = .ok (.scalar (.function f)) ∧ m' = m := by
  obtain ⟨v, m₁, resolved, rest⟩ := exists_of_act_bind_ok run
  split at rest
  · next g =>
    rcases ends : resolve m.names (.reference (.name name)) m.heap with ⟨result, heap⟩
    rw [Run.resolve_of_apply ends] at resolved
    cases resolved
    cases rest
    obtain ⟨found, rfl⟩ := deref_of_resolve_scalar ends
    exact ⟨found, rfl⟩
  · cases rest

theorem resolve_of_scalar {names : Table Binding} {heap : Heap} {b : Binding} {s : Scalar}
    (found : deref names heap b = .ok (.scalar s)) :
    resolve names b heap = (.ok (.scalar s), heap) := resolveBinding_of_scalar found

theorem functionNamed_of_bound {name : String} {f : Function}
    (bound : m.names.read name = .value (.scalar (.function f))) :
    functionNamed name m = (.ok f, m) := by
  have found : deref m.names m.heap (.reference (.name name)) = .ok (.scalar (.function f)) :=
    deref_name_of_value bound nofun
  rw [functionNamed, act_bind_ok (Run.resolve_of_apply (resolve_of_scalar found))]
  rfl

theorem functionNamed_of_unbound {name : String} (unbound : m.names.read name = .nothing) :
    functionNamed name m = (.error (.failure (.unboundVariable name)), m) := by
  have lost : resolve m.names (.reference (.name name)) m.heap = _ :=
    resolveBinding_of_error (deref_name_of_unbound unbound)
  rw [functionNamed, act_bind_error (Run.resolve_of_apply lost)]

namespace Node.Places

section

variable {loc loc' : Option Loc} (h : place.Places x)
include h

theorem interpret_valueAssignment {value : Node} {r : Reading}
    (reads : interpret hosts value m = (.ok (.reading r), m)) :
    interpret hosts (.valueAssignment (.assignee place loc) value loc') m =
      let noted := m.noted ("[DBG] assign " ++ tracedPlace x ++ " <- " ++ m.heap.plain r.storedForm)
      ((assign x r.storedForm noted).1.map fun _ => .done .nothing,
        (assign x r.storedForm noted).2) := by
  rw [interpret, act_bind_ok reads, Run.ask_bind_ok (a := r) rfl, Run.ask_bind_ok (h.target loc),
    act_bind_ok (show Run.note _ m = _ from rfl), act_bind_pure]
  rfl

theorem interpret_typeAssignment {type : String} {loc'' : Option Loc} :
    interpret hosts (.typeAssignment (.assignee place loc) (.identifier type loc') loc'') m =
      match templateFor m.types type with
      | .error e => (.error e, m)
      | .ok t =>
        let made := { m with heap := (m.heap.alloc (t.cell type)).2 }
        ((assign x (.value (.cell m.heap.size)) made).1.map fun _ => .done .nothing,
          (assign x (.value (.cell m.heap.size)) made).2) := by
  rw [interpret, act_bind_ok (interpret_identifier hosts type loc' m), Run.ask_bind_ok (a := type) rfl]
  cases template : templateFor m.types type with
  | error e => exact Run.ask_bind_error template
  | ok t =>
    rw [Run.ask_bind_ok template,
      act_bind_ok (show instantiate t type m = (.ok (.cell m.heap.size), _) from rfl),
      Run.ask_bind_ok (h.target loc), act_bind_pure]

end

end Node.Places

/-- What a list statement has to know: the list, its new items, and what the place holds. -/
def Reference.listChange (x : Reference) (op : ListOperation) (read : Except Fault Reading)
    (m : Machine) : Except Fault (Addr × List Binding × Binding) :=
  x.read m >>= fun current =>
    if current.val = .nothing then .error (.failure (.unboundListTarget current.render))
    else read >>= fun r => (listAt m current).map fun target =>
      (target.1, m.heap.changeItems op target.2 r.storedForm, current.val)

/-- Calling a function on what a reference reads as. The trace gets a line before the call. -/
def Reference.passTo (x : Reference) (hosts : Hosts) (f : Function) (word : String) (m : Machine) :
    Except Fault Outcome × Machine :=
  match x.read m >>= argument with
  | .error e => (.error e, m)
  | .ok b =>
    let noted := m.noted ("[DBG] call " ++ word ++ " " ++ m.heap.plain b)
    ((f.call hosts b noted).1.map .done, (f.call hosts b noted).2)

/-! ## Calls -/

theorem interpret_integer (hosts : Hosts) (n : Int) (loc loc' loc'' : Option Loc) (m : Machine) :
    interpret hosts (.value (.literal (.integer n loc) loc') loc'') m =
      (.ok (.reading ⟨.value (.number n), none⟩), m) := by
  rw [interpret, evaluateValue, act_bind_pure, interpret]
  rfl

theorem interpret_string (hosts : Hosts) (s : String) (loc loc' loc'' : Option Loc) (m : Machine) :
    interpret hosts (.value (.literal (.string s loc) loc') loc'') m =
      (.ok (.reading ⟨.value (.text s), none⟩), m) := by
  rw [interpret, evaluateValue, act_bind_pure, interpret]
  rfl

section

variable {word : String} {arg : Node} {loc loc' : Option Loc} {m' : Machine}

theorem interpret_invocation_of_error {e : Fault} (failed : functionNamed word m = (.error e, m')) :
    interpret hosts (.invocation (.identifier word loc) arg loc') m = (.error e, m') := by
  rw [interpret, act_bind_ok (interpret_identifier hosts word loc m),
    Run.ask_bind_ok (a := word) rfl, act_bind_error failed]

theorem interpret_invocation_of_found {f : Function} {read : Except Fault Reading}
    (found : functionNamed word m = (.ok f, m'))
    (reads : interpret hosts arg m' = (read.map .reading, m')) :
    interpret hosts (.invocation (.identifier word loc) arg loc') m =
      match read >>= argument with
      | .error e => (.error e, m')
      | .ok b =>
        let noted := m'.noted ("[DBG] call " ++ word ++ " " ++ m'.heap.plain b)
        ((f.call hosts b noted).1.map .done, (f.call hosts b noted).2) := by
  rw [interpret, act_bind_ok (interpret_identifier hosts word loc m),
    Run.ask_bind_ok (a := word) rfl, act_bind_ok found]
  cases read with
  | error e => exact act_bind_error reads
  | ok r =>
    rw [act_bind_ok reads, Run.ask_bind_ok (a := r) rfl, show (Except.ok r >>= argument) = argument r
      from rfl]
    cases argument r with
    | error e => exact Run.ask_bind_error rfl
    | ok b =>
      rw [Run.ask_bind_ok (a := b) rfl, act_bind_ok (show Run.note _ m' = _ from rfl), act_bind_pure]
      rfl

theorem interpret_invocation_of_literal {f : Function} {v : Value}
    (bound : m.names.read word = .value (.scalar (.function f)))
    (reads : interpret hosts arg m = (.ok (.reading ⟨.value v, none⟩), m)) :
    ∃ line, interpret hosts (.invocation (.identifier word loc) arg loc') m =
      ((f.call hosts (.value v) (m.noted line)).1.map .done,
        (f.call hosts (.value v) (m.noted line)).2) := by
  have passed : interpret hosts arg m = ((Except.ok ⟨.value v, none⟩).map .reading, m) := reads
  rw [interpret_invocation_of_found (functionNamed_of_bound bound) passed]
  exact ⟨_, rfl⟩

end

namespace Node.Places

variable {loc loc' loc'' loc''' : Option Loc} (h : place.Places x)
include h

theorem interpret_listAssignment {op : ListOperation} {item : Node} {read : Except Fault Reading}
    (reads : interpret hosts item m = (read.map .reading, m)) :
    interpret hosts (.listAssignment (.listOperation (.text op.keyword) loc) item
        (.assignee place loc') loc'') m =
      match x.listChange op read m with
      | .error e => (.error e, m)
      | .ok (a, items, b) =>
        ((assign x b { m with heap := m.heap.setItems a items }).1.map fun _ => .done .nothing,
          (assign x b { m with heap := m.heap.setItems a items }).2) := by
  have current : evaluateInner hosts (.assignee place loc') m = (x.read m, m) := by
    rw [evaluateInner]
    exact h.evaluateValue hosts
  rw [interpret]
  cases found : x.read m with
  | error e =>
    have plan : x.listChange op read m = .error e := by
      rw [Reference.listChange, found]
      rfl
    rw [found] at current
    rw [act_bind_error current, plan]
  | ok now =>
    rw [found] at current
    rw [act_bind_ok current]
    by_cases nothing : now.val = .nothing
    · have plan : x.listChange op read m =
          .error (.failure (.unboundListTarget now.render)) := by
        rw [Reference.listChange, found]
        exact if_pos nothing
      rw [if_pos nothing, plan]
      exact act_bind_error rfl
    · have plan : x.listChange op read m = read >>= fun r => (listAt m now).map fun target =>
          (target.1, m.heap.changeItems op target.2 r.storedForm, now.val) := by
        rw [Reference.listChange, found]
        exact if_neg nothing
      rw [if_neg nothing, plan]
      cases read with
      | error e => exact act_bind_error reads
      | ok r =>
        show (interpret hosts item >>= _) m = _
        rw [act_bind_ok reads, Run.ask_bind_ok (a := r) rfl]
        cases target : listAt m now with
        | error e => exact Run.ask_bind_error target
        | ok found =>
          obtain ⟨a, items⟩ := found
          rw [Run.ask_bind_ok target]
          show (changeList _ a items r.storedForm >>= fun _ => _) m = _
          rw [act_bind_ok (changeList_keyword op loc a items r.storedForm m),
            Run.ask_bind_ok (h.target loc'), act_bind_pure]
          rfl

theorem interpret_invocation {word : String} :
    interpret hosts (.invocation (.identifier word loc) (.value (.variable place loc') loc'')
        loc''') m =
      match functionNamed word m with
      | (.error e, after) => (.error e, after)
      | (.ok f, after) => x.passTo hosts f word after := by
  rcases found : functionNamed word m with ⟨e | f, after⟩
  · exact interpret_invocation_of_error found
  · show _ = x.passTo hosts f word after
    exact interpret_invocation_of_found found (h.interpret_value hosts loc' loc'')

end Node.Places

/-! ## Statements in a row -/

theorem runSequence_cons {node : Node} {rest : List Node} {b : Binding} {outcome : Outcome}
    {m' : Machine} (run : interpret hosts node { m with statement := node.loc, ret := .nothing } =
      (.ok outcome, m')) :
    runSequence hosts (node :: rest) (.done b) m = runSequence hosts rest outcome m' := by
  rw [runSequence, act_bind_ok (show begin node m = (.ok (), _) from rfl), act_bind_ok run]

/-- The names and the containers of a machine. -/
structure Store where
  names : Table Binding
  heap : Heap

def Machine.store (m : Machine) : Store := ⟨m.names, m.heap⟩

/-- On every machine with the first store and the types that there are at first, the statements
succeed and leave the second store. -/
def Moves (hosts : Hosts) (body : List Node) (s s' : Store) : Prop :=
  ∀ m : Machine, m.store = s → m.types = Template.defaults →
    ∃ m', runSequence hosts body (.done .nothing) m = (.ok (.done .nothing), m') ∧
      m'.store = s' ∧ m'.types = Template.defaults

/-- Storing a binding in a place leads from one store to another. -/
def Reference.Puts (x : Reference) (b : Binding) (s s' : Store) : Prop :=
  ∀ m : Machine, m.store = s →
    ∃ m', assign x b m = (.ok (), m') ∧ m'.store = s' ∧ m'.types = m.types

/-- On a store a value is read as something that is stored in this form. -/
def Node.ReadsAs (hosts : Hosts) (value : Node) (s : Store) (b : Binding) : Prop :=
  ∀ m : Machine, m.store = s →
    ∃ r, interpret hosts value m = (.ok (.reading r), m) ∧ r.storedForm = b

theorem Moves.nil (s : Store) : Moves hosts [] s s := by
  intro m store types
  exact ⟨m, by rw [runSequence]; rfl, store, types⟩

section

variable {names : Table Binding} {heap : Heap} {rest : List Node} {value : Node} {b : Binding}
  {loc₁ loc₂ loc₃ loc₄ loc₅ : Option Loc} {s s' s'' : Store}

theorem Moves.cons {node : Node} (first : ∀ m : Machine, m.store = s →
      m.types = Template.defaults → ∃ m', interpret hosts node m = (.ok (.done .nothing), m') ∧
        m'.store = s' ∧ m'.types = Template.defaults)
    (later : Moves hosts rest s' s'') : Moves hosts (node :: rest) s s'' := by
  intro m store types
  obtain ⟨m₁, run, store₁, types₁⟩ :=
    first { m with statement := node.loc, ret := .nothing } store types
  obtain ⟨m₂, runs, ends⟩ := later m₁ store₁ types₁
  exact ⟨m₂, (runSequence_cons run).trans runs, ends⟩

theorem Node.readsAs_integer (n : Int) :
    (Node.value (.literal (.integer n loc₁) loc₂) loc₃).ReadsAs hosts s (.value (.number n)) :=
  fun m _ => ⟨_, interpret_integer hosts n loc₁ loc₂ loc₃ m, rfl⟩

theorem Node.readsAs_name (n : String) :
    (Node.value (.variable (.scalar (.identifier n loc₁) loc₂) loc₃) loc₄).ReadsAs hosts s
      (.reference (.name n)) :=
  fun _ _ => ⟨_, Node.Places.name.interpret_value hosts _ _, rfl⟩

theorem Node.readsAs_path {obj : String} {base : Value} (bound : names.read obj = .value base)
    (attr : String) : (Node.value (.variable (.object (.identifier obj loc₁) (.identifier attr loc₂)
      loc₃) loc₄) loc₅).ReadsAs hosts ⟨names, heap⟩ (.reference (.path obj attr)) := by
  rintro m ⟨⟩
  exact ⟨_, (Node.Places.path.interpret_value hosts _ _).trans
    (by rw [Reference.read_path_of_value bound]; rfl), rfl⟩

theorem Reference.puts_name (n : String) :
    (Reference.name n).Puts b ⟨names, heap⟩ ⟨names.set n b, heap⟩ := by
  rintro m ⟨⟩
  exact ⟨_, rfl, rfl, rfl⟩

theorem Reference.puts_path {obj : String} {a : Addr} {type : Option String}
    {attrs : Table Binding} (bound : names.read obj = .value (.cell a))
    (there : heap.get? a = some (.object type attrs)) (attr : String) :
    (Reference.path obj attr).Puts b ⟨names, heap⟩ ⟨names, heap.setAttribute a attr b⟩ := by
  rintro m ⟨⟩
  exact ⟨_, assign_path_of_ok (objectAt_of_value bound there), rfl, rfl⟩

theorem Moves.bind (places : place.Places x) (reads : value.ReadsAs hosts s b)
    (puts : x.Puts b s s') (later : Moves hosts rest s' s'') :
    Moves hosts (.expression (.valueAssignment (.assignee place loc₁) value loc₂) loc₃ :: rest)
      s s'' := by
  refine .cons (fun m store types => ?_) later
  obtain ⟨r, read, rfl⟩ := reads m store
  rw [interpret, places.interpret_valueAssignment read]
  generalize "[DBG] assign " ++ tracedPlace x ++ " <- " ++ m.heap.plain r.storedForm = line
  obtain ⟨m', run, store', types'⟩ := puts (m.noted line) store
  dsimp only
  rw [run]
  exact ⟨m', rfl, store', types'.trans types⟩

theorem Moves.make {type : String} {t : Template} (places : place.Places x)
    (template : templateFor Template.defaults type = .ok t)
    (puts : x.Puts (.value (.cell heap.size)) ⟨names, (heap.alloc (t.cell type)).2⟩ s')
    (later : Moves hosts rest s' s'') :
    Moves hosts (.expression (.typeAssignment (.assignee place loc₁) (.identifier type loc₂) loc₃)
      loc₄ :: rest) ⟨names, heap⟩ s'' := by
  refine .cons (fun m store types => ?_) later
  cases store
  rw [← types] at template
  obtain ⟨m', run, store', types'⟩ := puts { m with heap := (m.heap.alloc (t.cell type)).2 } rfl
  rw [interpret, places.interpret_typeAssignment, template]
  dsimp only
  rw [run]
  exact ⟨m', rfl, store', types'.trans types⟩

theorem Moves.change (op : ListOperation) {a : Addr} {type : Option String} {items : List Binding}
    (places : place.Places x) (reads : value.ReadsAs hosts ⟨names, heap⟩ b)
    (held : ∀ m : Machine, m.store = ⟨names, heap⟩ →
      ∃ r, x.read m = .ok r ∧ r.val = .value (.cell a))
    (there : heap.get? a = some (.list type items))
    (puts : x.Puts (.value (.cell a)) ⟨names, heap.setItems a (heap.changeItems op items b)⟩ s')
    (later : Moves hosts rest s' s'') :
    Moves hosts (.expression (.listAssignment (.listOperation (.text op.keyword) loc₁) value
      (.assignee place loc₂) loc₃) loc₄ :: rest) ⟨names, heap⟩ s'' := by
  refine .cons (fun m store types => ?_) later
  obtain ⟨r, read, rfl⟩ := reads m store
  obtain ⟨current, read', val⟩ := held m store
  cases store
  have list : listAt m current = .ok (a, items) :=
    listAt_eq_ok_iff.2 ⟨val ▸ deref_value .., type, there⟩
  have target : x.listChange op (.ok r) m =
      .ok (a, m.heap.changeItems op items r.storedForm, .value (.cell a)) := by
    rw [Reference.listChange, read']
    show (if current.val = .nothing then _ else (listAt m current).map _) = _
    rw [if_neg (val ▸ nofun), val, list]
    rfl
  obtain ⟨m', run, store', types'⟩ := puts { m with heap := m.heap.setItems a _ } rfl
  have passed : interpret hosts value m = ((Except.ok r).map .reading, m) := read
  rw [interpret, places.interpret_listAssignment passed, target]
  dsimp only
  rw [run]
  exact ⟨m', rfl, store', types'.trans types⟩

end

end AliasScript

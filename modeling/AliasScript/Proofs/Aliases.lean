import AliasScript.Proofs.Statements
import AliasScript.Run.Console

/-!
# An alias is as good as the name

A name bound to a reference to another name can stand for that name in every statement that works on
what the name stands for: changing a list, binding an attribute and calling a function
(`interpret_alias`). The statement about the one name succeeds where the one about the other does,
and then returns the same and leaves the same store; where they fail, they leave the same store as
well, though what they report can differ.

A statement asks where a binding leads, and the two names lead to the same values
(`leads_alias_iff`); beyond that nothing it does depends on which of them it was given.
-/

namespace AliasScript

/-! ## Runs that end alike -/

/-- The machines have the same names, types, heap and messages. -/
structure Machine.Agrees (m m' : Machine) : Prop where
  names : m.names = m'.names
  types : m.types = m'.types
  heap : m.heap = m'.heap
  effects : m.effects = m'.effects

/-- Two runs end with the same result or both with a fault, on machines that agree and have the names
of a given machine. -/
structure EndAlike {α : Type} (m : Machine) (p q : Except Fault α × Machine) : Prop where
  result : (∃ a, p.1 = .ok a ∧ q.1 = .ok a) ∨ ∃ e e', p.1 = .error e ∧ q.1 = .error e'
  agrees : p.2.Agrees q.2
  names : p.2.names = m.names

namespace Machine.Agrees

theorem refl (m : Machine) : m.Agrees m := ⟨rfl, rfl, rfl, rfl⟩

theorem symm {m m' : Machine} (h : m.Agrees m') : m'.Agrees m :=
  ⟨h.names.symm, h.types.symm, h.heap.symm, h.effects.symm⟩

theorem trans {m m' m'' : Machine} (h : m.Agrees m') (g : m'.Agrees m'') : m.Agrees m'' :=
  ⟨h.names.trans g.names, h.types.trans g.types, h.heap.trans g.heap,
    h.effects.trans g.effects⟩

theorem noted (m : Machine) (line line' : String) : (m.noted line).Agrees (m.noted line') :=
  ⟨rfl, rfl, rfl, rfl⟩

end Machine.Agrees

variable {m m₁ m₂ : Machine}

theorem endAlike_error {α : Type} (agrees : m₁.Agrees m₂) (names : m₁.names = m.names)
    (e e' : Fault) : EndAlike (α := α) m (.error e, m₁) (.error e', m₂) :=
  ⟨.inr ⟨e, e', rfl, rfl⟩, agrees, names⟩

theorem EndAlike.map {α β : Type} {p q : Except Fault α × Machine} (h : EndAlike m p q)
    (f : α → β) : EndAlike m (p.1.map f, p.2) (q.1.map f, q.2) := by
  refine ⟨?_, h.agrees, h.names⟩
  rcases h.result with ⟨a, left, right⟩ | ⟨e, e', left, right⟩
  · exact .inl ⟨f a, by rw [left]; rfl, by rw [right]; rfl⟩
  · exact .inr ⟨e, e', by rw [left]; rfl, by rw [right]; rfl⟩

/-- A run that keeps the names and does the same on machines that agree. -/
def Run.Steady {α : Type} (x : Run α) : Prop :=
  ∀ m m', m.Agrees m' → (x m).1 = (x m').1 ∧ (x m).2.Agrees (x m').2 ∧ (x m).2.names = m.names

namespace Run

variable {α β : Type} {x : Run α} {f : α → Run β}

theorem steady_bind (first : x.Steady) (rest : ∀ a, (f a).Steady) : (x >>= f).Steady := by
  intro m m' agrees
  obtain ⟨result, after, names⟩ := first m m' agrees
  rw [act_bind_apply, act_bind_apply]
  rcases left : x m with ⟨e | a, s⟩ <;> rcases right : x m' with ⟨e' | a', s'⟩ <;>
    rw [left, right] at result after <;> rw [left] at names <;> cases result
  · exact ⟨rfl, after, names⟩
  · obtain ⟨result, after', names'⟩ := rest a s s' after
    exact ⟨result, after', names'.trans names⟩

theorem steady_ask {question : Machine → Except Fault α}
    (same : ∀ m m', m.Agrees m' → question m = question m') : (ask question).Steady :=
  fun m m' agrees => ⟨same m m' agrees, agrees, rfl⟩

theorem steady_deref (b : Binding) : (Run.deref b).Steady :=
  steady_ask fun m m' agrees => by rw [agrees.names, agrees.heap]

theorem steady_resolve (b : Binding) : (Run.resolve b).Steady := by
  intro m m' agrees
  have same : AliasScript.resolve m.names b m.heap = AliasScript.resolve m'.names b m'.heap := by
    rw [agrees.names, agrees.heap]
  rcases run : AliasScript.resolve m.names b m.heap with ⟨result, heap⟩
  rw [resolve_of_apply run, resolve_of_apply (same ▸ run)]
  exact ⟨rfl, ⟨agrees.names, agrees.types, rfl, agrees.effects⟩, rfl⟩

theorem steady_say (topic : Topic) (message : String) : (say topic message).Steady := by
  intro m m' agrees
  refine ⟨rfl, ⟨agrees.names, agrees.types, agrees.heap, ?_⟩, rfl⟩
  exact congrArg (· ++ [⟨topic, message⟩]) agrees.effects

theorem steady_pure (a : α) : (pure a : Run α).Steady := fun _ _ agrees => ⟨rfl, agrees, rfl⟩

theorem steady_call {hosts : Hosts} {g : Function} (builtIn : ∀ other, g ≠ .host other)
    (b : Binding) : (g.call hosts b).Steady := by
  cases g with
  | count =>
    refine steady_bind (steady_deref b) fun v => steady_ask fun m m' agrees => ?_
    rw [agrees.heap]
  | describe =>
    refine steady_bind (steady_resolve b) fun v => steady_ask fun m m' agrees => ?_
    rw [agrees.heap]
  | write =>
    refine steady_bind (steady_resolve b) fun v => ?_
    refine steady_bind (steady_ask fun m m' agrees => by rw [agrees.heap]) fun text => ?_
    exact steady_bind (steady_say .stdout text) fun _ => steady_pure _
  | host other => exact absurd rfl (builtIn other)

theorem steady_functionNamed (name : String) : (functionNamed name).Steady := by
  refine steady_bind (steady_resolve _) fun v => ?_
  split
  · exact steady_pure _
  · exact fun _ _ agrees => ⟨rfl, agrees, rfl⟩

theorem Steady.endAlike (h : x.Steady) (agrees : m₁.Agrees m₂) (names : m₁.names = m.names) :
    EndAlike m (x m₁) (x m₂) := by
  obtain ⟨result, after, kept⟩ := h m₁ m₂ agrees
  refine ⟨?_, after, kept.trans names⟩
  cases ends : (x m₁).1 with
  | ok a => exact .inl ⟨a, rfl, result ▸ ends⟩
  | error e => exact .inr ⟨e, e, rfl, result ▸ ends⟩

end Run

/-! ## Where an alias leads -/

section

variable {names : Table Binding} {heap : Heap} {x y : String}
  (apart : ∀ r, WrittenApart names heap r)
include apart

theorem deref_eq_ok_iff {b : Binding} {v : Value} :
    deref names heap b = .ok v ↔ Leads names heap b v :=
  ⟨leads_of_deref, deref_of_leads fun r _ => apart r⟩

theorem baseOf_eq_ok_iff {obj : String} {v : Value} :
    baseOf names heap [] obj = .ok v ↔ Leads names heap (names.read obj) v :=
  ⟨leads_of_baseOf, baseOf_of_leads fun r _ => apart r⟩

end

section

variable {names : Table Binding} {heap : Heap} {x y : String}
  (bound : names.read y = .reference (.name x))
include bound

/-- An alias leads where the name leads, but for a name that is not bound. -/
theorem leads_alias_iff {v : Value} : Leads names heap (names.read y) v ↔
    v ≠ .nothing ∧ Leads names heap (names.read x) v := by
  rw [bound, leads_reference_iff]
  simp only [holds_name_iff, exists_eq_left]

theorem baseOf_alias_iff (apart : ∀ r, WrittenApart names heap r) {v : Value} :
    baseOf names heap [] y = .ok v ↔ v ≠ .nothing ∧ baseOf names heap [] x = .ok v := by
  rw [baseOf_eq_ok_iff apart, baseOf_eq_ok_iff apart, leads_alias_iff bound]

end

/-- A name, or an attribute of it. -/
def Reference.under (name : String) : Option String → Reference
  | none => .name name
  | some attr => .path name attr

theorem objectAt_eq_ok_iff {obj attr : String} {a : Addr} : objectAt m obj attr = .ok a ↔
    baseOf m.names m.heap [] obj = .ok (.cell a) ∧
      ∃ type attrs, m.heap.get? a = some (.object type attrs) := by
  rw [objectAt]
  rcases baseOf m.names m.heap [] obj with e | s | c <;> dsimp only [bind, Except.bind]
  · exact iff_of_false (by rintro ⟨⟩) (by rintro ⟨⟨⟩, -⟩)
  · exact iff_of_false (by rintro ⟨⟩) (by rintro ⟨⟨⟩, -⟩)
  · constructor
    · intro h
      split at h
      · next type attrs there =>
        cases h
        exact ⟨rfl, type, attrs, there⟩
      · cases h
    · rintro ⟨same, type, attrs, there⟩
      cases same
      rw [there]
      rfl

section

variable {x y : String} (apart : ∀ r, WrittenApart m.names m.heap r)
  (bound : m.names.read y = .reference (.name x))
include apart bound

theorem objectAt_alias_iff {attr : String} {a : Addr} :
    objectAt m y attr = .ok a ↔ objectAt m x attr = .ok a := by
  have some : Value.cell a ≠ .nothing := fun same => nomatch same
  rw [objectAt_eq_ok_iff, objectAt_eq_ok_iff, baseOf_alias_iff bound apart, and_iff_right some]

theorem endAlike_assign {attr : String} {b : Binding} (agrees : m.Agrees m₁)
    (names : m.names = m₂.names) :
    EndAlike m₂ (assign (.path y attr) b m) (assign (.path x attr) b m₁) := by
  have same : objectAt m₁ x attr = objectAt m x attr := by
    rw [objectAt, objectAt, agrees.names, agrees.heap]
  cases left : objectAt m y attr with
  | ok a =>
    have right := (objectAt_alias_iff apart bound).1 left
    rw [assign_path_of_ok left, assign_path_of_ok (same.trans right)]
    refine ⟨.inl ⟨(), rfl, rfl⟩, ⟨agrees.names, agrees.types, ?_, agrees.effects⟩, names⟩
    exact congrArg (Heap.setAttribute · a attr b) agrees.heap
  | error e =>
    rw [assign_path_of_error left]
    cases right : objectAt m x attr with
    | ok a => cases left.symm.trans ((objectAt_alias_iff apart bound).2 right)
    | error e' =>
      rw [assign_path_of_error (same.trans right)]
      exact endAlike_error agrees names e e'

end

/-! ## Reading an alias -/

/-- Something is read that leads to a value. -/
def Reference.Finds (p : Reference) (m : Machine) (v : Value) : Prop :=
  ∃ r, p.read m = .ok r ∧ r.val ≠ .nothing ∧ deref m.names m.heap r.val = .ok v

namespace Reference

theorem read_path_eq_ok {obj attr : String} {r : Reading}
    (h : (path obj attr).read m = .ok r) : ∃ v, baseOf m.names m.heap [] obj = .ok v ∧
      r = ⟨m.heap.readAttribute v attr, some (.path obj attr)⟩ := by
  rw [read, readPath] at h
  cases found : baseOf m.names m.heap [] obj with
  | error e =>
    rw [found] at h
    cases h
  | ok v =>
    rw [found] at h
    cases h
    exact ⟨v, rfl, rfl⟩

theorem read_path_of_ok {obj attr : String} {v : Value}
    (h : baseOf m.names m.heap [] obj = .ok v) :
    (path obj attr).read m = .ok ⟨m.heap.readAttribute v attr, some (.path obj attr)⟩ := by
  rw [read, readPath, h]
  rfl

end Reference

section

variable {x y : String} (apart : ∀ r, WrittenApart m.names m.heap r)
  (bound : m.names.read y = .reference (.name x))
include apart bound

theorem read_path_alias {attr : String} {r : Reading}
    (h : (Reference.path y attr).read m = .ok r) :
    ∃ r', (Reference.path x attr).read m = .ok r' ∧ r'.val = r.val := by
  obtain ⟨v, base, rfl⟩ := Reference.read_path_eq_ok h
  exact ⟨_, Reference.read_path_of_ok ((baseOf_alias_iff bound apart).1 base).2, rfl⟩

theorem finds_alias_iff {k : Option String} {v : Value} :
    (Reference.under y k).Finds m v ↔ (Reference.under x k).Finds m v := by
  cases k with
  | none =>
    have byName : ∀ n, (Reference.name n).Finds m v ↔
        m.names.read n ≠ .nothing ∧ Leads m.names m.heap (m.names.read n) v := by
      intro n
      rw [← deref_eq_ok_iff apart]
      constructor
      · rintro ⟨r, read, some, found⟩
        cases read
        exact ⟨some, found⟩
      · exact fun ⟨thing, found⟩ => ⟨_, rfl, thing, found⟩
    rw [Reference.under, Reference.under, byName, byName, leads_alias_iff bound]
    constructor
    · exact fun ⟨_, thing, leads⟩ => ⟨fun none => thing (leads.eq_nothing_iff.2 none), leads⟩
    · rintro ⟨some, leads⟩
      refine ⟨?_, fun none => some (leads.eq_nothing_iff.1 none), leads⟩
      rw [bound]
      exact fun same => nomatch same
  | some attr =>
    constructor
    · rintro ⟨r, read, some, found⟩
      obtain ⟨r', read', same⟩ := read_path_alias apart bound read
      exact ⟨r', read', by rwa [same], by rwa [same]⟩
    · rintro ⟨r, read, some, found⟩
      obtain ⟨base, here, rfl⟩ := Reference.read_path_eq_ok read
      -- Nothing has no attributes.
      have object : base ≠ .nothing := by
        rintro rfl
        exact some rfl
      exact ⟨_, Reference.read_path_of_ok ((baseOf_alias_iff bound apart).2 ⟨object, here⟩), some,
        found⟩

end

/-! ## Statements -/

section

variable {p : Reference} {op : ListOperation} {read : Except Fault Reading} {a : Addr}
  {items : List Binding} {b : Binding}

theorem Reference.listChange_eq_ok_iff : p.listChange op read m = .ok (a, items, b) ↔
    (∃ r, p.read m = .ok r ∧ r.val = b ∧ b ≠ .nothing ∧
      deref m.names m.heap b = .ok (.cell a)) ∧
    ∃ r type old, read = .ok r ∧ m.heap.get? a = some (.list type old) ∧
      items = m.heap.changeItems op old r.storedForm := by
  rw [listChange]
  cases found : p.read m with
  | error e => exact iff_of_false (by rintro ⟨⟩) (by rintro ⟨⟨_, ⟨⟩, _⟩, _⟩)
  | ok current =>
    show (if current.val = .nothing then _ else _) = _ ↔ _
    by_cases nothing : current.val = .nothing
    · rw [if_pos nothing]
      refine iff_of_false (by rintro ⟨⟩) ?_
      rintro ⟨⟨_, ⟨⟩, rfl, thing, _⟩, _⟩
      exact thing nothing
    · rw [if_neg nothing]
      cases read with
      | error e =>
        exact iff_of_false (by rintro ⟨⟩) (by rintro ⟨-, _, _, _, ⟨⟩, _⟩)
      | ok r =>
        show (listAt m current).map _ = _ ↔ _
        constructor
        · intro h
          cases target : listAt m current with
          | error e =>
            rw [target] at h
            cases h
          | ok target' =>
            rw [target] at h
            cases h
            obtain ⟨led, type, there⟩ := listAt_eq_ok_iff.1 target
            exact ⟨⟨_, rfl, rfl, nothing, led⟩, _, type, _, rfl, there, rfl⟩
        · rintro ⟨⟨_, ⟨⟩, rfl, -, led⟩, _, type, old, ⟨⟩, there, rfl⟩
          rw [listAt_eq_ok_iff.2 ⟨led, type, there⟩]
          rfl

end

section

variable {x y : String} (apart : ∀ r, WrittenApart m.names m.heap r)
  (bound : m.names.read y = .reference (.name x))
include apart bound

theorem endAlike_assign_read {k : Option String} {h : Heap} {r r' : Reading}
    (same : ∀ v attr, h.readAttribute v attr = m.heap.readAttribute v attr)
    (reads : (Reference.under y k).read m = .ok r) (reads' : (Reference.under x k).read m = .ok r')
    (thing : r'.val ≠ .nothing) :
    EndAlike m (assign (.under y k) r.val { m with heap := h })
      (assign (.under x k) r'.val { m with heap := h }) := by
  cases k with
  | none =>
    have again : ∀ n, m.names.read n ≠ .nothing → assign (.name n) (m.names.read n)
        { m with heap := h } = (.ok (), { m with heap := h }) := by
      intro n thing
      show (Except.ok (), { m with names := m.names.set n (m.names.read n), heap := h }) = _
      rw [Table.set_read thing]
    cases reads
    cases reads'
    have aliased : m.names.read y ≠ .nothing := by
      rw [bound]
      exact fun same => nomatch same
    rw [Reference.under, Reference.under, again y aliased, again x thing]
    exact ⟨.inl ⟨(), rfl, rfl⟩, .refl _, rfl⟩
  | some attr =>
    obtain ⟨r'', reads'', val⟩ := read_path_alias apart bound reads
    cases reads'.symm.trans reads''
    rw [val]
    have apart' : ∀ r, WrittenApart m.names h r := fun r => (writtenApart_congr same).2 (apart r)
    exact endAlike_assign (m := { m with heap := h }) apart' bound (.refl _) rfl

end

/-! ## Calls -/

section

variable {hosts : Hosts} {g : Function} (builtIn : ∀ other, g ≠ .host other) {b : Binding}
include builtIn

theorem call_of_deref {v : Value} (found : deref m.names m.heap b = .ok v) :
    g.call hosts b m = g.call hosts (.value v) m := by
  have resolved : Run.resolve b m = Run.resolve (.value v) m := by
    have same : resolve m.names b m.heap = resolve m.names (.value v) m.heap := by
      rw [resolve, resolve, resolveBinding_of_ok found, resolveBinding_of_ok (deref_value ..)]
    rcases run : resolve m.names b m.heap with ⟨result, heap⟩
    rw [Run.resolve_of_apply run, Run.resolve_of_apply (same ▸ run)]
  have looked : Run.deref b m = Run.deref (.value v) m := congrArg (·, m) found
  cases g with
  | count =>
    show (Run.deref b >>= _) m = (Run.deref (.value v) >>= _) m
    rw [act_bind_apply, act_bind_apply, looked]
  | describe | write =>
    show (Run.resolve b >>= _) m = (Run.resolve (.value v) >>= _) m
    rw [act_bind_apply, act_bind_apply, resolved]
  | host other => exact absurd rfl (builtIn other)

theorem call_of_deref_error {e : Fault} (failed : deref m.names m.heap b = .error e) :
    g.call hosts b m = (.error e, m) := by
  have resolved : Run.resolve b m = (.error e, m) := Run.resolve_of_apply (by
    rw [resolve, resolveBinding_of_error failed])
  cases g with
  | count => exact act_bind_error (congrArg (·, m) failed)
  | describe | write => exact act_bind_error resolved
  | host other => exact absurd rfl (builtIn other)

end

theorem argument_eq_ok_iff {p : Reference} {b : Binding} :
    (p.read m >>= argument) = .ok b ↔ ∃ r, p.read m = .ok r ∧ r.val = b ∧ b ≠ .nothing := by
  cases read : p.read m with
  | error e => exact iff_of_false (by rintro ⟨⟩) (by rintro ⟨_, ⟨⟩, _⟩)
  | ok r =>
    have ref := (Reference.read_eq_ok read).1
    show argument r = .ok b ↔ _
    rw [argument, ref]
    show (if r.val = .nothing then _ else _) = _ ↔ _
    by_cases nothing : r.val = .nothing
    · rw [if_pos nothing]
      refine iff_of_false (by rintro ⟨⟩) ?_
      rintro ⟨_, ⟨⟩, rfl, thing⟩
      exact thing nothing
    · rw [if_neg nothing]
      constructor
      · rintro ⟨⟩
        exact ⟨r, rfl, rfl, nothing⟩
      · rintro ⟨_, ⟨⟩, rfl, -⟩
        rfl

theorem passTo_of_not_finds {hosts : Hosts} {g : Function} (builtIn : ∀ other, g ≠ .host other)
    {p : Reference} {word : String} (lost : ∀ v, ¬ p.Finds m v) :
    ∃ e after, p.passTo hosts g word m = (.error e, after) ∧ m.Agrees after := by
  rw [Reference.passTo]
  cases argued : p.read m >>= argument with
  | error e => exact ⟨e, m, rfl, .refl m⟩
  | ok b =>
    obtain ⟨r, read, rfl, thing⟩ := argument_eq_ok_iff.1 argued
    cases found : deref m.names m.heap r.val with
    | ok v => exact absurd ⟨r, read, thing, found⟩ (lost v)
    | error e =>
      dsimp only
      rw [call_of_deref_error builtIn (m := m.noted _) found]
      exact ⟨e, _, rfl, rfl, rfl, rfl, rfl⟩

section

variable {hosts : Hosts} {x y : String} {k : Option String} {aliased named : Node}
  {loc₁ loc₂ loc₃ loc₄ loc₅ loc₆ loc₇ loc₈ : Option Loc}
  (apart : ∀ r, WrittenApart m.names m.heap r) (bound : m.names.read y = .reference (.name x))
  (left : aliased.Places (.under y k)) (right : named.Places (.under x k))
include apart bound left right

theorem endAlike_listAssignment {op : ListOperation} {item : Node} {read : Except Fault Reading}
    (reads : interpret hosts item m = (read.map .reading, m)) :
    EndAlike m
      (interpret hosts (.listAssignment (.listOperation (.text op.keyword) loc₁) item
        (.assignee aliased loc₂) loc₃) m)
      (interpret hosts (.listAssignment (.listOperation (.text op.keyword) loc₄) item
        (.assignee named loc₅) loc₆) m) := by
  rw [left.interpret_listAssignment reads, right.interpret_listAssignment reads]
  cases asked : (Reference.under y k).listChange op read m with
  | ok found =>
    obtain ⟨a, items, b⟩ := found
    obtain ⟨⟨r, readY, rfl, thing, led⟩, change⟩ := Reference.listChange_eq_ok_iff.1 asked
    obtain ⟨r', readX, thing', led'⟩ :=
      (finds_alias_iff apart bound).1 (⟨r, readY, thing, led⟩ : Reference.Finds _ m _)
    rw [Reference.listChange_eq_ok_iff.2 ⟨⟨r', readX, rfl, thing', led'⟩, change⟩]
    exact (endAlike_assign_read apart bound (m.heap.readAttribute_setItems a items) readY readX
      thing').map _
  | error e =>
    cases asked' : (Reference.under x k).listChange op read m with
    | error e' => exact endAlike_error (.refl m) rfl e e'
    | ok found =>
      obtain ⟨a, items, b⟩ := found
      obtain ⟨⟨r', readX, rfl, thing', led'⟩, change⟩ := Reference.listChange_eq_ok_iff.1 asked'
      obtain ⟨r, readY, thing, led⟩ :=
        (finds_alias_iff apart bound).2 (⟨r', readX, thing', led'⟩ : Reference.Finds _ m _)
      have done := Reference.listChange_eq_ok_iff.2 ⟨⟨r, readY, rfl, thing, led⟩, change⟩
      cases asked.symm.trans done

theorem endAlike_invocation {word : String}
    (builtIn : ∀ other, ¬ Leads m.names m.heap (.reference (.name word))
      (.scalar (.function (.host other)))) :
    EndAlike m
      (interpret hosts (.invocation (.identifier word loc₁) (.value (.variable aliased loc₂) loc₃)
        loc₄) m)
      (interpret hosts (.invocation (.identifier word loc₅) (.value (.variable named loc₆) loc₇)
        loc₈) m) := by
  rw [left.interpret_invocation, right.interpret_invocation]
  rcases asked : functionNamed word m with ⟨e | g, after⟩
  · obtain ⟨-, -, names⟩ := Run.steady_functionNamed word m m (.refl m)
    rw [asked] at names
    exact endAlike_error (.refl after) names e e
  · obtain ⟨found, rfl⟩ := functionNamed_eq_ok asked
    have builtIn' : ∀ other, g ≠ .host other := fun other same =>
      builtIn other (leads_of_deref (same ▸ found))
    show EndAlike after ((Reference.under y k).passTo hosts g word after)
      ((Reference.under x k).passTo hosts g word after)
    by_cases finds : ∃ v, (Reference.under y k).Finds after v
    · obtain ⟨v, r, readY, thing, led⟩ := finds
      obtain ⟨r', readX, thing', led'⟩ :=
        (finds_alias_iff apart bound).1 (⟨r, readY, thing, led⟩ : Reference.Finds _ after _)
      rw [Reference.passTo, Reference.passTo, argument_eq_ok_iff.2 ⟨r, readY, rfl, thing⟩,
        argument_eq_ok_iff.2 ⟨r', readX, rfl, thing'⟩]
      dsimp only
      rw [call_of_deref builtIn' (m := after.noted _) led,
        call_of_deref builtIn' (m := after.noted _) led']
      refine EndAlike.map ?_ Outcome.done
      exact (Run.steady_call builtIn' (.value v)).endAlike (.noted after _ _) rfl
    · have lost := not_exists.1 finds
      have lost' := fun v there => lost v ((finds_alias_iff apart bound).2 there)
      obtain ⟨e, s, run, agrees⟩ := passTo_of_not_finds builtIn' lost
      obtain ⟨e', s', run', agrees'⟩ := passTo_of_not_finds builtIn' lost'
      rw [run, run']
      exact endAlike_error (agrees.symm.trans agrees') agrees.names.symm e e'

end

section

variable {hosts : Hosts} {x y attr : String} {aliased named : Node}
  {loc₁ loc₂ loc₃ loc₄ loc₅ loc₆ : Option Loc}
  (apart : ∀ r, WrittenApart m.names m.heap r) (bound : m.names.read y = .reference (.name x))
  (left : aliased.Places (.path y attr)) (right : named.Places (.path x attr))
include apart bound left right

theorem endAlike_valueAssignment {value : Node} {read : Except Fault Reading}
    (reads : interpret hosts value m = (read.map .reading, m)) :
    EndAlike m (interpret hosts (.valueAssignment (.assignee aliased loc₁) value loc₂) m)
      (interpret hosts (.valueAssignment (.assignee named loc₃) value loc₄) m) := by
  cases read with
  | error e =>
    rw [interpret, interpret, act_bind_error reads, act_bind_error reads]
    exact endAlike_error (.refl m) rfl e e
  | ok r =>
    rw [left.interpret_valueAssignment reads, right.interpret_valueAssignment reads]
    refine EndAlike.map ?_ _
    exact endAlike_assign (m := m.noted _) apart bound (.noted m _ _) rfl

theorem endAlike_typeAssignment {type : String} :
    EndAlike m
      (interpret hosts (.typeAssignment (.assignee aliased loc₁) (.identifier type loc₂) loc₃) m)
      (interpret hosts (.typeAssignment (.assignee named loc₄) (.identifier type loc₅) loc₆) m) := by
  rw [left.interpret_typeAssignment, right.interpret_typeAssignment]
  cases templateFor m.types type with
  | error e => exact endAlike_error (.refl m) rfl e e
  | ok t =>
    have bare : ∀ type' attrs, t.cell type = .object type' attrs → attrs = .empty := by
      intro type' attrs same
      cases t <;> cases same
      rfl
    have same := m.heap.readAttribute_alloc bare
    have apart' : ∀ r, WrittenApart m.names (m.heap.alloc (t.cell type)).2 r := fun r =>
      (writtenApart_congr same).2 (apart r)
    refine EndAlike.map ?_ _
    exact endAlike_assign (m := { m with heap := (m.heap.alloc (t.cell type)).2 }) apart' bound
      (.refl _) rfl

end

/-- What a statement does to a name or to an attribute of it. -/
inductive Command where
  /-- An item is added to the list there, or removed from it. -/
  | change (op : ListOperation) (item : Node)
  /-- The attribute is bound to something read. -/
  | bind (value : Node)
  /-- The attribute is bound to a new thing of a type. -/
  | make (type : String)
  /-- A function is called on what is there. -/
  | call (word : String)

/-- The statement that gives a command for a name or for an attribute of it. -/
inductive Node.Gives (n : String) (k : Option String) : Command → Node → Prop
  | change {op : ListOperation} {item place : Node} {loc₁ loc₂ loc₃ loc₄ : Option Loc} :
    item.IsValue → place.Places (.under n k) → Gives n k (.change op item)
      (.expression (.listAssignment (.listOperation (.text op.keyword) loc₁) item
        (.assignee place loc₂) loc₃) loc₄)
  | bind {attr : String} {value place : Node} {loc₁ loc₂ loc₃ : Option Loc} :
    k = some attr → value.IsValue → place.Places (.path n attr) → Gives n k (.bind value)
      (.expression (.valueAssignment (.assignee place loc₁) value loc₂) loc₃)
  | make {attr type : String} {place : Node} {loc₁ loc₂ loc₃ loc₄ : Option Loc} :
    k = some attr → place.Places (.path n attr) → Gives n k (.make type)
      (.expression (.typeAssignment (.assignee place loc₁) (.identifier type loc₂) loc₃) loc₄)
  | call {word : String} {place : Node} {loc₁ loc₂ loc₃ loc₄ loc₅ : Option Loc} :
    place.Places (.under n k) → Gives n k (.call word)
      (.expression (.invocation (.identifier word loc₁) (.value (.variable place loc₂) loc₃) loc₄)
        loc₅)

theorem Node.IsValue.exists_read {item : Node} (hosts : Hosts) (h : item.IsValue) (m : Machine) :
    ∃ read : Except Fault Reading, interpret hosts item m = (read.map .reading, m) := by
  rcases h.reads hosts with ⟨s, -, run⟩ | ⟨q, -, run⟩
  · exact ⟨.ok _, run m⟩
  · exact ⟨q.read m, run m⟩

/-- A statement about an alias does what the same statement does about the name: it succeeds with the
same result or fails as that one does, leaving the same names, types, containers and messages. The
names are the ones before, so the alias stays an alias. -/
theorem interpret_alias {hosts : Hosts} (free : Spaceless m.names m.heap) {x y : String}
    (bound : m.names.read y = .reference (.name x)) {k : Option String} {c : Command}
    (builtIn : ∀ word, c = .call word → ∀ other, ¬ Leads m.names m.heap (.reference (.name word))
      (.scalar (.function (.host other))))
    {aliased named : Node} (left : aliased.Gives y k c) (right : named.Gives x k c) :
    EndAlike m (interpret hosts aliased m) (interpret hosts named m) := by
  have apart := free.writtenApart
  cases left with
  | change isValue places =>
    cases right with
    | change _ places' =>
    obtain ⟨read, reads⟩ := isValue.exists_read hosts m
    rw [interpret, interpret]
    exact endAlike_listAssignment apart bound places places' reads
  | bind same isValue places =>
    cases right with
    | bind same' _ places' =>
    cases same.symm.trans same'
    obtain ⟨read, reads⟩ := isValue.exists_read hosts m
    rw [interpret, interpret]
    exact endAlike_valueAssignment apart bound places places' reads
  | make same places =>
    cases right with
    | make same' places' =>
    cases same.symm.trans same'
    rw [interpret, interpret]
    exact endAlike_typeAssignment apart bound places places'
  | call places =>
    cases right with
    | call places' =>
    rw [interpret, interpret]
    exact endAlike_invocation apart bound places places' (builtIn _ rfl)

def listAliased : Machine := { Machine.fresh true with
  names := .ofList [("x", .value (.cell 0)), ("y", .reference (.name "x"))]
  heap := ⟨#[.list (some "list") [.value (.number 1)]]⟩ }

def two : Node :=
  .value (.literal (.integer 2 (some ⟨1, 5, "integer", .text "2"⟩))
    (some ⟨1, 5, "literal", .text "2"⟩)) (some ⟨1, 5, "value", .text "2"⟩)

def adding (name : String) : Node :=
  .expression (.listAssignment (.listOperation (.text ListOperation.add.keyword) none) two
    (.assignee (.scalar (.identifier name none) none) none) none) none

theorem interpret_alias_listAliased :
    EndAlike listAliased (interpret Console.noHosts (adding "y") listAliased)
      (interpret Console.noHosts (adding "x") listAliased) ∧
    interpret Console.noHosts (adding "x") listAliased = (.ok (.done .nothing), { listAliased with
      heap := ⟨#[.list (some "list") [.value (.number 1), .value (.number 2)]]⟩ }) := by
  have free : Spaceless listAliased.names listAliased.heap := by
    refine ⟨by decide, fun r stored => ?_⟩
    have known : storedReferences listAliased.names listAliased.heap = [.name "x"] := rfl
    have mem := stored.mem_storedReferences
    rw [known, List.mem_singleton] at mem
    rw [mem, Reference.Spaceless]
    decide
  have item : two.IsValue :=
    .literal (.integer rfl ⟨1, 5, rfl⟩) ⟨"2", 1, 5, rfl⟩ ⟨"2", 1, 5, rfl⟩
  refine ⟨interpret_alias free (k := none) (c := .change .add _) rfl (by rintro _ ⟨⟩)
    (.change item .name) (.change item .name), ?_⟩
  have reads : interpret Console.noHosts two listAliased = ((Except.ok
      ⟨.value (.number 2), none⟩ : Except Fault Reading).map .reading, listAliased) :=
    interpret_integer ..
  have found : (Reference.name "x").listChange .add (.ok ⟨.value (.number 2), none⟩) listAliased =
      .ok (0, [.value (.number 1), .value (.number 2)], .value (.cell 0)) := by
    rw [Reference.listChange_eq_ok_iff]
    exact ⟨⟨_, rfl, rfl, by decide, rfl⟩, _, _, _, rfl, rfl, rfl⟩
  rw [adding, interpret, Node.Places.name.interpret_listAssignment reads, found]
  rfl

end AliasScript

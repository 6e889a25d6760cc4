import AliasScript.Proofs.Assigning
import AliasScript.Proofs.FailedCalls

/-!
# Targets of list statements

Where references do not go round in circles (`Uncircled`), following one ends: at a value, or at a
reference whose slot holds nothing (`Breaks`), and then that reference is what is reported as
unbound (`follow_of_uncircled`). A list statement finds its target in two steps. It reads the slot
of the target, and it follows what the slot holds. When the second step does not end at a list, it
is the target that is reported. The object of an attribute is looked up in the first step, so a
break on the way to that object is reported as it is (`Runner.list_statement_of_reachable`).
-/

namespace AliasScript

open Relation

variable {names : Table Binding} {heap : Heap}

/-- No reference is met again on the way from it. -/
def Uncircled (names : Table Binding) (heap : Heap) : Prop :=
  ∀ r, ¬ TransGen (Visits names heap) r r

/-- On the way from a reference one is met whose slot holds nothing. -/
def Breaks (names : Table Binding) (heap : Heap) (r q : Reference) : Prop :=
  Meets names heap r q ∧ Holds names heap q .nothing

/-! ## Following without circles -/

theorem Visits.inner {obj attr : String} {q : Reference} (bound : names.read obj = .reference q) :
    Visits names heap (.path obj attr) q :=
  .inr ⟨obj, attr, rfl, bound⟩

theorem exists_circle_of_needs {obj other : String} (h : TransGen (Needs names heap) obj other) :
    ∃ r, names.read obj = .reference r ∧
      ∀ q, names.read other = .reference q → TransGen (Visits names heap) r q := by
  have step : ∀ {r : Reference} {o : String}, Consults names heap r o →
      ∀ q, names.read o = .reference q → TransGen (Visits names heap) r q := by
    rintro r o ⟨attr, path⟩ q bound
    have visits : ReflTransGen (Visits names heap) r (.path o attr) :=
      ReflTransGen.mono (fun _ _ next => .inl next) _ _ path
    exact TransGen.tail' visits (.inner bound)
  induction h with
  | single needs =>
    obtain ⟨r, bound, asks⟩ := needs
    exact ⟨r, bound, step asks⟩
  | tail _ needs ih =>
    obtain ⟨r, bound, before⟩ := ih
    obtain ⟨p, bound', asks⟩ := needs
    exact ⟨r, bound, fun q bound'' => (before p bound').trans (step asks q bound'')⟩

theorem Uncircled.not_needs (h : Uncircled names heap) (obj : String) :
    ¬ TransGen (Needs names heap) obj obj := by
  intro circle
  obtain ⟨r, bound, back⟩ := exists_circle_of_needs circle
  exact h r (back r bound)

/-- A walk that fails has met a slot that holds nothing, and reports the reference to it. -/
theorem breaks_of_followWithin (free : Uncircled names heap) {root : Reference}
    (apart : WrittenApart names heap root) {n : Nat} :
    ∀ (visited : List Reference) {r : Reference} {e : Fault},
      followWithin names heap n (visited.map Reference.render) r = some (.error e) →
        Meets names heap root r → (∀ s ∈ visited, Meets names heap root s) →
          (∀ s ∈ visited, TransGen (Visits names heap) s r) →
            ∃ q, Breaks names heap r q ∧ e = .failure (.unboundVariable q.render) := by
  induction n with
  | zero => exact fun _ _ _ h => nomatch h
  | succ n ih =>
    intro visited r e h met before behind
    rw [followWithin_succ] at h
    split at h
    · next old => exact absurd (behind r (mem_visited apart met before old)) (free r)
    · split at h
      · cases h
      · next e' found =>
        cases h
        obtain ⟨obj, attr, p, rfl, bound, failed⟩ := baseBy_error found
        obtain ⟨q, ⟨inner, empty⟩, rfl⟩ := ih [] failed (met.inner bound)
          (fun _ mem => nomatch mem) (fun _ mem => nomatch mem)
        exact ⟨q, ⟨.head (.inner bound) inner, empty⟩, rfl⟩
      · next w found =>
        have held := slotBy_ok (fun q v => leads_of_followWithin) found
        split at h
        · next none =>
          cases h
          subst none
          exact ⟨r, ⟨.refl, held⟩, rfl⟩
        · cases h
      · next next found =>
        have step : Next names heap r next := slotBy_ok (fun q v => leads_of_followWithin) found
        have met' : ∀ s ∈ visited ++ [r], Meets names heap root s :=
          List.forall_mem_append.2 ⟨before, List.forall_mem_singleton.2 met⟩
        have behind' : ∀ s ∈ visited ++ [r], TransGen (Visits names heap) s next :=
          List.forall_mem_append.2 ⟨fun s mem => (behind s mem).tail (.inl step),
            List.forall_mem_singleton.2 (.single (.inl step))⟩
        obtain ⟨q, ⟨inner, empty⟩, rfl⟩ :=
          ih (visited ++ [r]) (by simpa using h) (met.next step) met' behind'
        exact ⟨q, ⟨.head (.inl step) inner, empty⟩, rfl⟩

theorem Uncircled.follow_ne_endless (h : Uncircled names heap) {obj : String} {r : Reference}
    (bound : names.read obj = .reference r) :
    follow names heap [obj] [] r ≠ .error .endless := by
  intro endless
  obtain ⟨first, other, asks, path, ends⟩ := exists_needs_of_endless [obj] [] r endless
  rcases ends with mem | circle
  · rw [List.mem_singleton.1 mem] at path
    exact h.not_needs obj (TransGen.head' ⟨r, bound, asks⟩ path)
  · exact h.not_needs other circle

/-- Without circles a reference is followed to a value, or to a slot that holds nothing. -/
theorem follow_of_uncircled (free : Uncircled names heap) {bases : List String} {r : Reference}
    (apart : WrittenApart names heap r)
    (finite : follow names heap bases [] r ≠ .error .endless) :
    (∃ v, follow names heap bases [] r = .ok v) ∨ ∃ q, Breaks names heap r q ∧
      follow names heap bases [] r = .error (.failure (.unboundVariable q.render)) := by
  obtain ⟨n, walk⟩ := exists_followWithin bases [] r finite
  cases found : follow names heap bases [] r with
  | ok v => exact .inl ⟨v, rfl⟩
  | error e =>
    rw [found] at walk
    obtain ⟨q, breaks, rfl⟩ := breaks_of_followWithin free apart [] walk .refl
      (fun _ mem => nomatch mem) (fun _ mem => nomatch mem)
    exact .inr ⟨q, breaks, rfl⟩

theorem deref_of_uncircled (free : Uncircled names heap)
    (apart : ∀ r, WrittenApart names heap r) (b : Binding) :
    (∃ v, deref names heap b = .ok v) ∨ ∃ name, deref names heap b =
      .error (.failure (.unboundVariable name)) := by
  cases b with
  | value v => exact .inl ⟨v, rfl⟩
  | reference r =>
    have finite : follow names heap [] [] r ≠ .error .endless := by
      intro endless
      obtain ⟨-, other, -, -, circle⟩ := objectCircle_of_endless endless
      exact free.not_needs other circle
    rcases follow_of_uncircled free (apart r) finite with led | ⟨q, -, broken⟩
    · exact .inl led
    · exact .inr ⟨_, broken⟩

theorem baseOf_of_uncircled (free : Uncircled names heap) (apart : ∀ r, WrittenApart names heap r)
    (obj : String) : (∃ v, baseOf names heap [] obj = .ok v) ∨
      ∃ r q, names.read obj = .reference r ∧ Breaks names heap r q ∧
        baseOf names heap [] obj = .error (.failure (.unboundVariable q.render)) := by
  cases bound : names.read obj with
  | value v => exact .inl ⟨v, baseOf_value bound⟩
  | reference r =>
    rw [baseOf_reference bound, if_neg List.not_mem_nil]
    rcases follow_of_uncircled free (apart r) (free.follow_ne_endless bound) with
      led | ⟨q, breaks, broken⟩
    · exact .inl led
    · exact .inr ⟨r, q, rfl, breaks, broken⟩

/-! ## List statements -/

/-- The target of a list statement leads to a list. -/
def Reference.FindsList (x : Reference) (m : Machine) : Prop :=
  ∃ a type items, Leads m.names m.heap (.reference x) (.cell a) ∧
    m.heap.get? a = some (.list type items)

/-- The object that an attribute is looked up in is found; a name is found always. -/
def Reference.IsFound (x : Reference) (m : Machine) : Prop :=
  ∀ obj attr, x = .path obj attr → ∃ base, Leads m.names m.heap (m.names.read obj) base

variable {m : Machine} {x : Reference}

theorem Reference.FindsList.isFound (h : x.FindsList m) : x.IsFound m := by
  rintro obj attr rfl
  obtain ⟨a, type, items, leads, -⟩ := h
  exact leads.base

theorem Reference.findsList_iff_of_read (apart : ∀ r, WrittenApart m.names m.heap r) {r : Reading}
    (read : x.read m = .ok r) : x.FindsList m ↔
      r.val ≠ .nothing ∧ ∃ a items, listAt m r = .ok (a, items) := by
  have held := (Reference.read_eq_ok read).2
  constructor
  · rintro ⟨a, type, items, leads, list⟩
    obtain ⟨-, b, held', inner⟩ := leads_reference_iff.1 leads
    cases held.unique held'
    refine ⟨fun nothing => ?_, a, items, listAt_eq_ok_iff.2
      ⟨(deref_eq_ok_iff apart).2 inner, type, list⟩⟩
    cases inner.eq_nothing_iff.2 nothing
  · rintro ⟨thing, a, items, target⟩
    obtain ⟨found, type, list⟩ := listAt_eq_ok_iff.1 target
    have leads := leads_of_deref found
    exact ⟨a, type, items, leads_reference_iff.2 ⟨fun nothing => thing (leads.eq_nothing_iff.1 nothing),
      r.val, held, leads⟩, list⟩

/-- Reading the target fails only where the object of an attribute is not found, and then for the
reference on the way to it whose slot holds nothing. -/
theorem Reference.read_of_uncircled (free : Uncircled m.names m.heap)
    (apart : ∀ r, WrittenApart m.names m.heap r) (x : Reference) :
    (x.IsFound m ∧ ∃ r, x.read m = .ok r) ∨
    ¬ x.IsFound m ∧ ∃ obj attr p q, x = .path obj attr ∧ m.names.read obj = .reference p ∧
      Breaks m.names m.heap p q ∧ x.read m = .error (.failure (.unboundVariable q.render)) := by
  cases x with
  | name n => exact .inl ⟨fun _ _ => Reference.noConfusion, _, rfl⟩
  | path obj attr =>
    rcases baseOf_of_uncircled free apart obj with ⟨v, base⟩ | ⟨p, q, bound, breaks, failed⟩
    · refine .inl ⟨?_, _, Reference.read_path_of_ok base⟩
      rintro _ _ ⟨⟩
      exact ⟨v, leads_of_baseOf base⟩
    · refine .inr ⟨fun found => ?_, obj, attr, p, q, rfl, bound, breaks, ?_⟩
      · obtain ⟨v, base⟩ := found obj attr rfl
        cases failed.symm.trans ((baseOf_eq_ok_iff apart).2 base)
      · rw [Reference.read, readPath, failed]
        rfl

theorem listAt_of_uncircled (free : Uncircled m.names m.heap)
    (apart : ∀ r, WrittenApart m.names m.heap r) (current : Reading) :
    (∃ a items, listAt m current = .ok (a, items)) ∨
      listAt m current = .error (.failure (.unboundListTarget current.render)) := by
  rw [listAt]
  rcases deref_of_uncircled free apart current.val with ⟨s | a, led⟩ | ⟨name, broken⟩
  · rw [led]
    exact .inr rfl
  · have kept : asListTarget current.render (.ok (.cell a)) = .ok (.cell a) := rfl
    rw [led, kept]
    dsimp only [bind, Except.bind]
    split
    · exact .inl ⟨_, _, rfl⟩
    · exact .inr rfl
  · rw [broken]
    exact .inr rfl

/-- What a list statement has to know it learns from the target alone: it is a list, or an unknown
target, or an attribute whose object is not found. -/
theorem Reference.listChange_of_uncircled (free : Uncircled m.names m.heap)
    (apart : ∀ r, WrittenApart m.names m.heap r) (x : Reference) (op : ListOperation)
    (item : Reading) :
    (x.FindsList m ∧ ∃ a items r, x.read m = .ok r ∧ r.val ≠ .nothing ∧
      x.listChange op (.ok item) m = .ok (a, items, r.val)) ∨
    (¬ x.FindsList m ∧ x.IsFound m ∧
      x.listChange op (.ok item) m = .error (.failure (.unboundListTarget x.render))) ∨
    (¬ x.IsFound m ∧ ∃ obj attr p q, x = .path obj attr ∧ m.names.read obj = .reference p ∧
      Breaks m.names m.heap p q ∧
      x.listChange op (.ok item) m = .error (.failure (.unboundVariable q.render))) := by
  rcases x.read_of_uncircled free apart with
    ⟨found, r, read⟩ | ⟨lost, obj, attr, p, q, same, bound, breaks, failed⟩
  · have written : r.render = x.render := by
      rw [Reading.render, (Reference.read_eq_ok read).1]
      rfl
    rw [findsList_iff_of_read apart read]
    by_cases nothing : r.val = .nothing
    · refine .inr (.inl ⟨fun finds => finds.1 nothing, found, ?_⟩)
      rw [listChange, read, ← written]
      exact if_pos nothing
    · have plan : x.listChange op (.ok item) m = (listAt m r).map fun target =>
          (target.1, m.heap.changeItems op target.2 item.storedForm, r.val) := by
        rw [listChange, read]
        exact if_neg nothing
      rw [plan]
      rcases listAt_of_uncircled free apart r with ⟨a, items, target⟩ | unknown
      · exact .inl ⟨⟨nothing, a, items, target⟩, a, m.heap.changeItems op items item.storedForm, r,
          read, nothing, by rw [target]; rfl⟩
      · refine .inr (.inl ⟨?_, found, by rw [unknown, ← written]; rfl⟩)
        rintro ⟨-, a, items, target⟩
        cases unknown.symm.trans target
  · refine .inr (.inr ⟨lost, obj, attr, p, q, same, bound, breaks, ?_⟩)
    rw [listChange, failed]
    rfl

/-! ## Statements of scripts -/

/-- A literal or a plain name. -/
inductive Node.IsPlainItem : Node → Prop
  | literal {inner : Node} {loc loc' : Option Loc} : inner.IsLiteral →
    IsPlainItem (.value (.literal inner loc) loc')
  | name {place : Node} {n : String} {loc loc' : Option Loc} : place.Places (.name n) →
    IsPlainItem (.value (.variable place loc) loc')

theorem Node.IsPlainItem.exists_reading {item : Node} (h : item.IsPlainItem) (hosts : Hosts)
    (m : Machine) : ∃ r, interpret hosts item m = ((Except.ok r).map .reading, m) := by
  cases h with
  | literal literal =>
    obtain ⟨s, -, run⟩ := literal.exists_scalar hosts
    refine ⟨⟨.value (.scalar s), none⟩, ?_⟩
    rw [interpret, evaluateValue, act_bind_pure, act_bind_ok (run m)]
    rfl
  | @name place n _ _ places => exact ⟨_, places.interpret_value hosts _ _⟩

namespace Runner

variable {hosts : Hosts} {r : Runner} {source : String}

/-- A list statement with a literal or a plain name as its item, on a machine without circles of
references: it is carried out if its target leads to a list. Else nothing changes and it fails. It is
the target that is reported, as it is written; but where the object of an attribute is not found, it
is the reference on the way to that object whose slot holds nothing. -/
theorem list_statement_of_reachable (reachable : Reachable hosts r)
    {operation item place : Node} {loc loc' loc'' : Option Loc}
    (comes : r.ComesTo hosts source
      (.expression (.listAssignment operation item (.assignee place loc) loc') loc'') m)
    (free : Uncircled m.names m.heap) (places : place.Places x) (plain : item.IsPlainItem)
    {result : Except Fault Outcome} {after : Machine}
    (run : interpret hosts
      (.expression (.listAssignment operation item (.assignee place loc) loc') loc'') m =
        (result, after)) :
    (result = .ok (.done .nothing) ↔ x.FindsList m) ∧
    (¬ x.FindsList m → x.IsFound m →
      result = .error (.failure (.unboundListTarget x.render)) ∧ after = m) ∧
    (¬ x.IsFound m → ∃ obj attr p q, x = .path obj attr ∧ m.names.read obj = .reference p ∧
      Breaks m.names m.heap p q ∧
      result = .error (.failure (.unboundVariable q.render)) ∧ after = m) := by
  obtain ⟨fits, machine⟩ := comes.scripted reachable.scripted
  have apart := machine.store.writtenApart
  cases fits with
  | expression statement =>
  cases statement with
  | @listAssignment op =>
  obtain ⟨read, reads⟩ := plain.exists_reading hosts m
  rw [interpret, places.interpret_listAssignment reads] at run
  rcases x.listChange_of_uncircled free apart op read with
    ⟨finds, a, items, current, known, thing, plan⟩ | ⟨lost, found, plan⟩ |
    ⟨lost, obj, attr, p, q, same, bound, breaks, plan⟩ <;> rw [plan] at run
  · have stored := assign_read (a := a) known thing items
    dsimp only at run
    rw [stored] at run
    cases run
    exact ⟨iff_of_true rfl finds, fun lost => absurd finds lost, fun lost => absurd finds.isFound lost⟩
  · cases run
    exact ⟨iff_of_false (by rintro ⟨⟩) lost, fun _ _ => ⟨rfl, rfl⟩, fun other => absurd found other⟩
  · cases run
    exact ⟨iff_of_false (by rintro ⟨⟩) fun finds => lost finds.isFound,
      fun _ found => absurd found lost,
      fun _ => ⟨obj, attr, p, q, same, bound, breaks, rfl, rfl⟩⟩

/-! ## An object that is not found -/

def aliasing : Runner := ((fresh true).run Console.noHosts "p is q").2

def aliasingNode : Node :=
  let at? (col : Int) (tag text : String) : Option Loc := some ⟨1, col, tag, .text text⟩
  let name (col : Int) (text : String) : Node :=
    .scalar (.identifier text (at? col "identifier" text)) (at? col "scalar" text)
  .expression (.valueAssignment (.assignee (name 1 "p") (at? 1 "assignee" "p"))
    (.value (.variable (name 6 "q") (at? 6 "variable" "q")) (at? 6 "value" "q"))
    (at? 1 "value_assignment" "p is q")) (at? 1 "expression" "p is q")

def addition : Node :=
  let at? (col : Int) (tag text : String) : Option Loc := some ⟨1, col, tag, .text text⟩
  let target : Node := .object (.identifier "p" (at? 10 "identifier" "p"))
    (.identifier "k" (at? 12 "identifier" "k")) (at? 10 "object" "p k")
  .expression (.listAssignment (.listOperation (.text "add") (at? 1 "list_operation" "add"))
    (.value (.literal (.integer 1 (at? 5 "integer" "1")) (at? 5 "literal" "1")) (at? 5 "value" "1"))
    (.assignee target (at? 10 "assignee" "p k")) (at? 1 "list_assignment" "add 1 to p k"))
    (at? 1 "expression" "add 1 to p k")

def additionBegun : Machine := { begun aliasing.machine with statement := addition.loc }

theorem machine_aliasing :
    aliasing.machine.names = Machine.builtins.set "p" (.reference (.name "q")) ∧
      aliasing.machine.heap = .empty := by
  have first : Grammar.statement ⟨1, 1, "p is q".toList⟩ = some (aliasingNode, ⟨1, 7, []⟩) := rfl
  have last : Grammar.statement ⟨1, 7, []⟩ = none := rfl
  have read := Grammar.statements_of_some first (by decide)
  rw [Grammar.statements_of_none last] at read
  have program := Node.ofSource_of_statements "p is q" read rfl rfl
  have moves : Moves Console.noHosts [aliasingNode] ⟨Machine.builtins, .empty⟩
      ⟨Machine.builtins.set "p" (.reference (.name "q")), .empty⟩ :=
    .bind .name (Node.readsAs_name "q") (Reference.puts_name "p") (.nil _)
  exact Store.mk.inj (machine_of_moves (r := fresh true) program rfl moves).1

theorem comesTo_addition :
    aliasing.ComesTo Console.noHosts "add 1 to p k" addition additionBegun := by
  have first : Grammar.statement ⟨1, 1, "add 1 to p k".toList⟩ = some (addition, ⟨1, 13, []⟩) := rfl
  have last : Grammar.statement ⟨1, 13, []⟩ = none := rfl
  have read := Grammar.statements_of_some first (by decide)
  rw [Grammar.statements_of_none last] at read
  have program := Node.ofSource_of_statements "add 1 to p k" read rfl rfl
  refine ⟨[], [], _, .nothing, _, program, ?_, rfl⟩
  rw [runSequence]
  rfl

theorem read_addition : additionBegun.names.read "p" = .reference (.name "q") ∧
    additionBegun.names.read "q" = .nothing := by
  show aliasing.machine.names.read "p" = _ ∧ aliasing.machine.names.read "q" = _
  rw [machine_aliasing.1]
  exact ⟨rfl, rfl⟩

theorem eq_of_read_addition {n : String} {b : Reference}
    (bound : additionBegun.names.read n = .reference b) : n = "p" ∧ b = .name "q" := by
  change aliasing.machine.names.read n = _ at bound
  rw [machine_aliasing.1] at bound
  have entry : (n, Binding.reference b) ∈ [("count", Binding.value (.scalar (.function .count))),
      ("describe", .value (.scalar (.function .describe))),
      ("write", .value (.scalar (.function .write))), ("p", .reference (.name "q"))] :=
    Table.mem_of_get? (Table.get?_of_read bound)
  simpa using entry

theorem eq_of_visits_addition {a b : Reference}
    (h : Visits additionBegun.names additionBegun.heap a b) :
    b = .name "q" ∧ a ≠ .name "q" := by
  rcases h with held | ⟨obj, attr, rfl, bound⟩
  · cases a with
    | name n =>
      obtain ⟨rfl, rfl⟩ := eq_of_read_addition (holds_name_iff.1 held).symm
      exact ⟨rfl, by decide⟩
    | path obj attr =>
      obtain ⟨base, -, same⟩ := holds_path_iff.1 held
      change _ = aliasing.machine.heap.readAttribute base attr at same
      rw [machine_aliasing.2] at same
      cases base <;> cases same
  · exact ⟨(eq_of_read_addition bound).2, nofun⟩

theorem uncircled_addition : Uncircled additionBegun.names additionBegun.heap := by
  intro r circle
  obtain ⟨a, -, last⟩ := TransGen.tail'_iff.1 circle
  obtain ⟨b, first, -⟩ := TransGen.head'_iff.1 circle
  exact (eq_of_visits_addition first).2 (eq_of_visits_addition last).1

/-- The alias whose attribute is the target leads to a name that is not bound, and it is this name
that is reported and not the target. -/
theorem interpret_addition : Reachable Console.noHosts aliasing ∧
    aliasing.ComesTo Console.noHosts "add 1 to p k" addition additionBegun ∧
    Uncircled additionBegun.names additionBegun.heap ∧
    interpret Console.noHosts addition additionBegun =
      (.error (.failure (.unboundVariable "q")), additionBegun) ∧
    Failure.unboundVariable "q" ≠ .unboundListTarget (Reference.path "p" "k").render := by
  refine ⟨.run _ (.fresh true), comesTo_addition, uncircled_addition, ?_, nofun⟩
  obtain ⟨bound, unbound⟩ := read_addition
  have failed : (Reference.path "p" "k").read additionBegun =
      .error (.failure (.unboundVariable "q")) := by
    rw [Reference.read, readPath, baseOf_reference bound, if_neg List.not_mem_nil, follow_eq,
      if_neg List.not_mem_nil, slotOf_name, unbound]
    rfl
  have literal : ∀ (loc loc' loc'' : Option Loc), interpret Console.noHosts
      (.value (.literal (.integer 1 loc) loc') loc'') additionBegun =
        ((Except.ok ⟨.value (.number 1), none⟩).map .reading, additionBegun) :=
    fun _ _ _ => interpret_integer ..
  rw [addition, interpret]
  show interpret _ (.listAssignment (.listOperation (.text (ListOperation.keyword .add)) _) _ _ _)
    _ = _
  refine (Node.Places.path.interpret_listAssignment (literal _ _ _)).trans ?_
  rw [Reference.listChange, failed]
  rfl

theorem list_statement_of_aliasing :
    aliasing.ComesTo Console.noHosts "add 1 to p k" addition additionBegun ∧
    Uncircled additionBegun.names additionBegun.heap ∧
    ∃ result after, interpret Console.noHosts addition additionBegun = (result, after) ∧
      (result = .ok (.done .nothing) ↔ (Reference.path "p" "k").FindsList additionBegun) ∧
      ∃ obj attr p q, Reference.path "p" "k" = .path obj attr ∧
        additionBegun.names.read obj = .reference p ∧
        Breaks additionBegun.names additionBegun.heap p q ∧
        result = .error (.failure (.unboundVariable q.render)) ∧ after = additionBegun := by
  refine ⟨comesTo_addition, uncircled_addition, _, _, rfl, ?_⟩
  have one : Text.readNumeral? "1" = some 1 := by decide
  have spec := list_statement_of_reachable (.run _ (.fresh true)) comesTo_addition
    uncircled_addition .path (.literal (.integer one ⟨1, 5, rfl⟩)) rfl
  refine ⟨spec.1, spec.2.2 fun found => ?_⟩
  obtain ⟨bound, unbound⟩ := read_addition
  obtain ⟨base, leads⟩ := found "p" "k" rfl
  rw [bound, leads_reference_iff] at leads
  obtain ⟨thing, b, held, inner⟩ := leads
  rw [holds_name_iff.1 held, unbound] at inner
  exact thing (leads_value_iff.1 inner)

end Runner

end AliasScript

import AliasScript.Proofs.Aliases
import AliasScript.Proofs.FailedCalls
import AliasScript.Proofs.Reprinting
import AliasScript.Proofs.Writing

/-!
# Writing twice

The statement `write x` leaves resolved attributes behind, and the next one resolves what it finds
there. If both succeed they write the same, also of containers that reach themselves, unless the
first one has put into an object the copy of a list that has no finite value
(`Runner.write_twice_of_reachable`). Such a copy is copied again by the second one, and then shows
one more level of the list (`Runner.write_again_of_selfHeld`).
-/

namespace AliasScript

/-! ## The statement -/

section

variable {hosts : Hosts} {call : Node} {x : Reference} {m m' : Machine}

theorem Reference.resolve_of_argument (apart : ∀ r, WrittenApart m.names m.heap r) {b : Binding}
    {v : Value} {after : Heap} (argued : x.argument m = .ok b)
    (resolved : resolve m.names b m.heap = (.ok v, after)) :
    resolve m.names (.reference x) m.heap = (.ok v, after) := by
  obtain ⟨r, read, rfl, thing⟩ := (argument_eq_ok_iff (p := x)).1 argued
  rw [resolve] at resolved ⊢
  cases found : deref m.names m.heap r.val with
  | error e =>
    rw [resolveBinding_of_error found] at resolved
    cases resolved
  | ok w =>
    have leads := leads_of_deref found
    have some : w ≠ .nothing := fun nothing => thing (leads.eq_nothing_iff.1 nothing)
    have whole : Leads m.names m.heap (.reference x) w :=
      leads_reference_iff.2 ⟨some, _, (Reference.read_eq_ok read).2, leads⟩
    rw [resolveBinding_of_ok found] at resolved
    rw [resolveBinding_of_ok (deref_of_leads (fun r _ => apart r) whole), resolved]

theorem Reference.passTo_eq_ok {f : Function} {word : String} {o : Outcome}
    (run : x.passTo hosts f word m = (.ok o, m')) :
    ∃ b line ret, x.argument m = .ok b ∧ f.call hosts b (m.noted line) = (.ok ret, m') ∧
      o = .done ret := by
  rw [passTo] at run
  split at run
  · cases run
  · next b argued =>
    dsimp only at run
    rcases called : f.call hosts b (m.noted ("[DBG] call " ++ word ++ " " ++ m.heap.plain b)) with
      ⟨e | ret, m₁⟩ <;> rw [called] at run <;> cases run
    exact ⟨b, _, ret, argued, called, rfl⟩

theorem write_eq_ok {b ret : Binding} (run : Library.write b m = (.ok ret, m')) :
    ∃ v text, resolve m.names b m.heap = (.ok v, m'.heap) ∧
      Library.message m'.heap v = .ok text ∧ ret = .value (.text text) ∧
      m' = { m with heap := m'.heap, effects := m.effects ++ [⟨.stdout, text⟩] } := by
  rcases resolved : resolve m.names b m.heap with ⟨e | v, after⟩
  · rw [write_of_error resolved] at run
    cases run
  · rw [Library.write, act_bind_ok (Run.resolve_of_apply resolved)] at run
    obtain ⟨text, m₁, asked, rest⟩ := exists_of_act_bind_ok run
    obtain ⟨written, rfl⟩ := Run.eq_of_ask asked
    cases rest
    exact ⟨v, text, rfl, written, rfl, rfl⟩

namespace Node.Writes

theorem spaceless (writes : call.Writes x) (fits : call.IsExpression) : x.Spaceless := by
  obtain ⟨places⟩ := writes
  cases fits with
  | expression statement =>
  cases statement with
  | invocation isName isValue =>
  cases isValue with
  | reading isPlace =>
  obtain ⟨q, free, places'⟩ := isPlace.exists_places
  cases places <;> cases places' <;> exact free

variable (writes : call.Writes x)
  (builtIn : m.names.read "write" = .value (.scalar (.function .write)))
include writes builtIn

theorem of_ok (machine : m.Scripted) {o : Outcome} (run : interpret hosts call m = (.ok o, m')) :
    ∃ v t, resolve m.names (.reference x) m.heap = (.ok v, m'.heap) ∧
      m'.heap.unfold .printed [] (.value v) = some t ∧ o = .done (.value (.text t.message)) ∧
      m'.names = m.names ∧ m'.effects = m.effects ++ [⟨.stdout, t.message⟩] := by
  rw [writes.interpret_eq hosts builtIn] at run
  obtain ⟨b, line, ret, argued, called, rfl⟩ := Reference.passTo_eq_ok run
  obtain ⟨v, text, resolved, written, rfl, same⟩ := write_eq_ok called
  obtain ⟨t, whole, rfl⟩ := message_eq_ok_iff.1 written
  have apart := fun r => machine.store.writtenApart r
  refine ⟨v, t, Reference.resolve_of_argument apart argued resolved, whole, rfl, ?_⟩
  rw [same]
  exact ⟨rfl, rfl⟩

theorem interpret_of_resolve {b : Binding} {v : Value} {after : Heap} {t : Tree}
    (argued : x.argument m = .ok b) (resolved : resolve m.names b m.heap = (.ok v, after))
    (whole : after.unfold .printed [] (.value v) = some t) :
    ∃ trace, interpret hosts call m = (.ok (.done (.value (.text t.message))),
      { m with heap := after, effects := m.effects ++ [⟨.stdout, t.message⟩], trace }) := by
  have written := message_eq_ok_iff.2 ⟨t, whole, rfl⟩
  rw [writes.interpret_eq hosts builtIn, Reference.passTo,
    show (x.read m >>= AliasScript.argument) = .ok b from argued]
  dsimp only
  rw [show ∀ s, Function.call hosts .write b s = Library.write b s from fun _ => rfl,
    write_of_ok (m := m.noted _) resolved written]
  exact ⟨_, rfl⟩

end Node.Writes

end

/-! ## In turn -/

/-- The statement after one that has ended on a machine begins on another one: the next statement of
the script, or the first statement of the next script. -/
inductive Machine.Precedes (m : Machine) : Machine → Prop
  | statement (node : Node) : Precedes m { m with statement := node.loc, ret := .nothing }
  | script (ret : Binding) (node : Node) :
    Precedes m { Runner.begun { m with ret } with statement := node.loc, ret := .nothing }

theorem Machine.Precedes.same {m m' : Machine} (h : m.Precedes m') :
    m'.names = m.names ∧ m'.heap = m.heap := by
  cases h <;> exact ⟨rfl, rfl⟩

theorem Machine.Precedes.scripted {m m' : Machine} (h : m.Precedes m') (machine : m.Scripted) :
    m'.Scripted := by
  cases h <;> exact ⟨machine.store, machine.types⟩

/-- Resolving the reference copies no list without a finite value into an object. -/
def Reference.FillsFinitely (x : Reference) (m : Machine) : Prop :=
  ∀ v after, resolve m.names (.reference x) m.heap = (.ok v, after) →
    Call.FillsFinitely m.names ⟨[], .reference x, m.heap, v, after⟩

/-- Where a reference means a tree, all lists that it leads to have finite values. -/
theorem Reference.fillsFinitely_of_means {x : Reference} {m : Machine} (machine : m.Scripted)
    (free : x.Spaceless) {t : Tree} (means : Means m.names m.heap t (.reference x)) :
    x.FillsFinitely m := by
  intro v after resolved
  have bound : (Binding.reference x).Scripted m.heap.size := free
  have calls := resolves_resolve machine.store.closed bound.within
  rw [resolved] at calls
  exact Call.HasMeaning.fillsFinitely ⟨t, means⟩ calls ⟨machine.store, bound, .nil⟩

namespace Runner

variable {hosts : Hosts} {r : Runner} {source : String} {call call' : Node} {x : Reference}

/-- If the statement `write x` succeeds twice in turn, and the first time copies no list without a
finite value into an object, then both times write the same message. -/
theorem write_twice_of_reachable (reachable : Reachable hosts r) {m m₁ m₂ m₃ : Machine}
    (comes : r.ComesTo hosts source call m) (writes : call.Writes x) (writes' : call'.Writes x)
    (builtIn : m.names.read "write" = .value (.scalar (.function .write)))
    (finite : x.FillsFinitely m) {o o' : Outcome} (run : interpret hosts call m = (.ok o, m₁))
    (next : m₁.Precedes m₂) (run' : interpret hosts call' m₂ = (.ok o', m₃)) :
    ∃ text, o = .done (.value (.text text)) ∧ m₁.effects = m.effects ++ [⟨.stdout, text⟩] ∧
      o' = .done (.value (.text text)) ∧ m₃.effects = m₂.effects ++ [⟨.stdout, text⟩] := by
  obtain ⟨fits, machine⟩ := comes.scripted reachable.scripted
  have machine₁ : m₁.Scripted := by
    have after := (fits.safe hosts machine).1
    rwa [run] at after
  obtain ⟨v, t, resolved, printed, rfl, names, effects⟩ := writes.of_ok builtIn machine run
  have free : ∀ n, (Binding.reference x).Scripted n := fun _ => writes.spaceless fits
  have calls := resolves_resolve machine.store.closed (free _).within
  rw [resolved] at calls
  have first : Call.Finitary m.names ⟨[], .reference x, m.heap, v, m₁.heap⟩ :=
    ⟨calls, rfl, machine.store, free _, finite v _ resolved⟩
  -- The second statement finds the names and the heap that the first one has left.
  obtain ⟨names', heap'⟩ := next.same
  rw [names] at names'
  obtain ⟨v', t', resolved', printed', rfl, -, effects'⟩ :=
    writes'.of_ok (by rw [names', builtIn]) (next.scripted machine₁) run'
  rw [names', heap'] at resolved'
  have calls' := resolves_resolve machine₁.store.closed (free _).within
  rw [names, resolved'] at calls'
  obtain rfl := first.unfold_eq calls' printed printed'
  exact ⟨_, rfl, effects, rfl, effects'⟩

def writing (line : Int) (name text : String) : Node :=
  let at? (col : Int) (tag text : String) : Option Loc := some ⟨line, col, tag, .text text⟩
  let place : Node := .scalar (.identifier name (at? 7 "identifier" name)) (at? 7 "scalar" name)
  .expression (.invocation (.identifier "write" (at? 1 "identifier" "write"))
    (.value (.variable place (at? 7 "variable" name)) (at? 7 "value" name))
    (at? 1 "invocation" text)) (at? 1 "expression" text)

theorem writes_writing (line : Int) (name text : String) :
    (writing line name text).Writes (.name name) := .statement .name

theorem argument_of_read {m : Machine} {n : String} {a : Addr}
    (bound : m.names.read n = .value (.cell a)) :
    (Reference.name n).argument m = .ok (.value (.cell a)) :=
  (argument_eq_ok_iff (p := .name n)).2 ⟨_, rfl, bound, nofun⟩

def holder (b : Binding) : Cell := .object (some "box") (.ofList [("k", b)])

theorem resolve_holder {names : Table Binding} {h h' : Heap} {b : Binding} {v : Value}
    (there : h.get? 1 = some (holder b))
    (inner : resolveBinding names h.size [1] b h = (.ok v, h')) :
    resolve names (.value (.cell 1)) h = (.ok (.cell 1), h'.setAttribute 1 "k" (.value v)) := by
  have slot : h.readAttribute (.cell 1) "k" = b := by
    rw [Heap.readAttribute, there]
    rfl
  rw [← slot] at inner
  rw [resolve, resolveBinding_of_ok rfl, resolveValue_object List.not_mem_nil
    (Heap.lt_size_of_get? there) there]
  show (Except.map _ (resolveAttributes names h.size [1] 1 ["k"] h).1,
    (resolveAttributes names h.size [1] 1 ["k"] h).2) = _
  rw [resolveAttributes_of_ok inner, resolveAttributes]
  rfl

theorem unfold_holder {h : Heap} {b : Binding} {t : Tree} (there : h.get? 1 = some (holder b))
    (inner : h.unfold .printed [1] b = some t) : h.unfold .printed [] (.value (.cell 1)) =
      some (.mapping (.object (some "box")) [(.text "k", t)]) := by
  rw [Heap.unfold_cell _ there List.not_mem_nil, holder, Cell.tree?, if_neg nofun]
  show (List.mapM (fun e : String × Binding =>
    (h.unfold .printed [1] e.2).map (Scalar.text e.1, ·)) [("k", b)]).map _ = _
  rw [List.mapM_cons, inner]
  rfl

theorem unfold_list {h : Heap} {a : Addr} {type : Option String} {b : Binding} {t : Tree}
    {path : List Addr} (there : h.get? a = some (.list type [b])) (new : a ∉ path)
    (inner : h.unfold .printed (a :: path) b = some t) :
    h.unfold .printed path (.value (.cell a)) = some (.sequence (.list type) [t]) := by
  rw [Heap.unfold_cell _ there new, Cell.tree?, List.mapM_cons, inner]
  rfl

/-! ## An object that refers to a list -/

/-- A script that makes a list, and an object with an attribute that refers to it. -/
def listHolding : String := "m is a list\nadd 1 to m\no is a box\no k is m"

def listHeld : Runner := ((fresh true).run Console.noHosts listHolding).2

def listHoldingNodes : List Node :=
  let at? (line col : Int) (tag text : String) : Option Loc := some ⟨line, col, tag, .text text⟩
  let name (line col : Int) (text : String) : Node :=
    .scalar (.identifier text (at? line col "identifier" text)) (at? line col "scalar" text)
  let attr : Node := .object (.identifier "o" (at? 4 1 "identifier" "o"))
    (.identifier "k" (at? 4 3 "identifier" "k")) (at? 4 1 "object" "o k")
  [.expression (.typeAssignment (.assignee (name 1 1 "m") (at? 1 1 "assignee" "m"))
      (.identifier "list" (at? 1 8 "identifier" "list")) (at? 1 1 "type_assignment" "m is a list"))
      (at? 1 1 "expression" "m is a list"),
    .expression (.listAssignment (.listOperation (.text "add") (at? 2 1 "list_operation" "add"))
      (.value (.literal (.integer 1 (at? 2 5 "integer" "1")) (at? 2 5 "literal" "1"))
        (at? 2 5 "value" "1"))
      (.assignee (name 2 10 "m") (at? 2 10 "assignee" "m")) (at? 2 1 "list_assignment" "add 1 to m"))
      (at? 2 1 "expression" "add 1 to m"),
    .expression (.typeAssignment (.assignee (name 3 1 "o") (at? 3 1 "assignee" "o"))
      (.identifier "box" (at? 3 8 "identifier" "box")) (at? 3 1 "type_assignment" "o is a box"))
      (at? 3 1 "expression" "o is a box"),
    .expression (.valueAssignment (.assignee attr (at? 4 1 "assignee" "o k"))
      (.value (.variable (name 4 8 "m") (at? 4 8 "variable" "m")) (at? 4 8 "value" "m"))
      (at? 4 1 "value_assignment" "o k is m")) (at? 4 1 "expression" "o k is m")]

theorem ofSource_listHolding : Node.ofSource listHolding =
    .ok (.root listHoldingNodes (some ⟨1, 1, "root", .text listHolding⟩)) := by
  have first : Grammar.statement ⟨1, 1, listHolding.toList⟩ =
    some (listHoldingNodes[0], ⟨2, 1, "add 1 to m\no is a box\no k is m".toList⟩) := rfl
  have second : Grammar.statement ⟨2, 1, "add 1 to m\no is a box\no k is m".toList⟩ =
    some (listHoldingNodes[1], ⟨3, 1, "o is a box\no k is m".toList⟩) := rfl
  have third : Grammar.statement ⟨3, 1, "o is a box\no k is m".toList⟩ =
    some (listHoldingNodes[2], ⟨4, 1, "o k is m".toList⟩) := rfl
  have fourth : Grammar.statement ⟨4, 1, "o k is m".toList⟩ =
    some (listHoldingNodes[3], ⟨4, 9, []⟩) := rfl
  have last : Grammar.statement ⟨4, 9, []⟩ = none := rfl
  have read := Grammar.statements_of_some first (by decide)
  rw [Grammar.statements_of_some second (by decide), Grammar.statements_of_some third (by decide),
    Grammar.statements_of_some fourth (by decide), Grammar.statements_of_none last] at read
  exact Node.ofSource_of_statements listHolding read rfl rfl

def single : Cell := .list (some "list") [.value (.number 1)]

def listNames : Table Binding :=
  (Machine.builtins.set "m" (.value (.cell 0))).set "o" (.value (.cell 1))

theorem moves_listHoldingNodes : Moves Console.noHosts listHoldingNodes ⟨Machine.builtins, .empty⟩
    ⟨listNames, ⟨#[single, holder (.reference (.name "m"))]⟩⟩ := by
  have there : (⟨#[.list (some "list") []]⟩ : Heap).get? 0 = some (.list (some "list") []) := rfl
  refine .make .name rfl (Reference.puts_name "m") <| .change .add .name (Node.readsAs_integer 1)
    (fun m store => ?_) there (Reference.puts_name "m") <|
    .make .name rfl (Reference.puts_name "o") <|
    .bind .path (Node.readsAs_name "m") (Reference.puts_path rfl rfl "k") <| .nil _
  obtain ⟨names, -⟩ := Store.mk.inj store
  exact ⟨_, rfl, by rw [names]; rfl⟩

/-- The machine on which the script that writes the object twice begins. -/
def objectWriting : Machine :=
  { begun listHeld.machine with statement := some ⟨1, 1, "expression", .text "write o"⟩ }

theorem store_objectWriting : objectWriting.store =
    ⟨listNames, ⟨#[single, holder (.reference (.name "m"))]⟩⟩ :=
  (machine_of_moves (r := fresh true) ofSource_listHolding rfl moves_listHoldingNodes).1

theorem comesTo_objectWriting : listHeld.ComesTo Console.noHosts "write o\nwrite o"
    (writing 1 "o" "write o") objectWriting := by
  have first : Grammar.statement ⟨1, 1, "write o\nwrite o".toList⟩ =
    some (writing 1 "o" "write o", ⟨2, 1, "write o".toList⟩) := rfl
  have second : Grammar.statement ⟨2, 1, "write o".toList⟩ =
    some (writing 2 "o" "write o", ⟨2, 8, []⟩) := rfl
  have last : Grammar.statement ⟨2, 8, []⟩ = none := rfl
  have read := Grammar.statements_of_some first (by decide)
  rw [Grammar.statements_of_some second (by decide), Grammar.statements_of_none last] at read
  have program := Node.ofSource_of_statements "write o\nwrite o" read rfl rfl
  refine ⟨[], [writing 2 "o" "write o"], _, .nothing, _, program, ?_, rfl⟩
  rw [runSequence]
  rfl

theorem interpret_writing_holder {m : Machine} {h : Heap} {b : Binding} {a : Addr}
    (store : m.store = ⟨listNames, h⟩) (object : h.get? 1 = some (holder b))
    (found : deref listNames h b = .ok (.cell a)) (list : h.get? a = some single) (other : a ≠ 1)
    (line : Int) : ∃ m', interpret Console.noHosts (writing line "o" "write o") m =
        (.ok (.done (.value (.text "a box with k = [1]"))), m') ∧
      m'.store = ⟨listNames, (h.alloc single).2.setAttribute 1 "k" (.value (.cell h.size))⟩ := by
  obtain ⟨names, heap⟩ := Store.mk.inj store
  have old := Heap.lt_size_of_get? list
  have item : resolveBinding listNames h.size [a, 1] (.value (.number 1)) h = (.ok (.number 1), h) :=
    resolveBinding_of_scalar (deref_value ..)
  have inner := (resolveBinding_of_ok found).trans (resolveValue_list (by simpa using other) old list
    (resolveItems_of_ok item resolveItems_nil))
  have resolved := resolve_holder object inner
  have object' := Heap.get?_alloc_of_get? (c := single) object
  have taken : ((h.alloc single).2.setAttribute 1 "k" (.value (.cell h.size))).get? 1 =
      some (holder (.value (.cell h.size))) := Heap.get?_setAttribute_self object' ..
  have apart : h.size ≠ 1 := Nat.ne_of_gt (Heap.lt_size_of_get? object)
  have copied : ((h.alloc single).2.setAttribute 1 "k" (.value (.cell h.size))).get? h.size =
      some single :=
    (Heap.get?_setAttribute_of_ne object' apart ..).trans (h.get?_alloc_size single)
  have shown := unfold_holder taken
    (unfold_list copied (by simpa using apart) (by rw [Heap.unfold]))
  have builtIn : m.names.read "write" = .value (.scalar (.function .write)) := by
    rw [names]
    rfl
  have bound : m.names.read "o" = .value (.cell 1) := by
    rw [names]
    rfl
  rw [← names, ← heap] at resolved
  rw [← heap] at shown
  obtain ⟨trace, run⟩ := (writes_writing line "o" "write o").interpret_of_resolve builtIn
    (argument_of_read bound) resolved shown
  rw [← heap]
  exact ⟨_, run, congrArg (Store.mk · _) names⟩

theorem write_twice_of_listHeld :
    listHeld.ComesTo Console.noHosts "write o\nwrite o" (writing 1 "o" "write o") objectWriting ∧
    (Reference.name "o").FillsFinitely objectWriting ∧
    ∃ m₁ o' m₃, interpret Console.noHosts (writing 1 "o" "write o") objectWriting =
        (.ok (.done (.value (.text "a box with k = [1]"))), m₁) ∧
      interpret Console.noHosts (writing 2 "o" "write o")
        { m₁ with statement := (writing 2 "o" "write o").loc, ret := .nothing } = (.ok o', m₃) ∧
      m₁.heap.get? 1 = some (holder (.value (.cell 2))) ∧
      m₁.effects = objectWriting.effects ++ [⟨.stdout, "a box with k = [1]"⟩] ∧
      o' = .done (.value (.text "a box with k = [1]")) ∧
      m₃.effects = m₁.effects ++ [⟨.stdout, "a box with k = [1]"⟩] := by
  have reachable : Reachable Console.noHosts listHeld := .run _ (.fresh true)
  obtain ⟨-, machine⟩ := comesTo_objectWriting.scripted reachable.scripted
  obtain ⟨names, heap⟩ := Store.mk.inj store_objectWriting
  have means : Means objectWriting.names objectWriting.heap (.mapping (.object (some "box"))
      [(.text "k", .sequence (.list (some "list")) [.scalar (.number 1)])])
      (.reference (.name "o")) := by
    rw [names, heap]
    exact ⟨1, _, .name (.value _) nofun, rfl, rfl,
      ⟨0, _, .name (.value _) nofun, rfl, .value _, trivial⟩, trivial⟩
  have finite : (Reference.name "o").FillsFinitely objectWriting :=
    Reference.fillsFinitely_of_means machine (by decide : OneWord "o") means
  obtain ⟨m₁, run, store₁⟩ := interpret_writing_holder store_objectWriting rfl
    (deref_name_of_value rfl nofun) rfl nofun 1
  have next := Machine.Precedes.statement (m := m₁) (writing 2 "o" "write o")
  obtain ⟨m₃, run', -⟩ := interpret_writing_holder
    (m := { m₁ with statement := (writing 2 "o" "write o").loc, ret := .nothing })
    store₁ rfl rfl rfl nofun 2
  obtain ⟨text, same, effects, same', effects'⟩ := write_twice_of_reachable reachable
    comesTo_objectWriting (writes_writing ..) (writes_writing ..) (by rw [names]; rfl) finite run
    next run'
  cases same
  refine ⟨comesTo_objectWriting, finite, m₁, _, m₃, run, run', ?_, effects, same', effects'⟩
  rw [(Store.mk.inj store₁).2]
  rfl

/-! ## A list that holds itself -/

/-- The list that holds a reference to the name `l`. -/
def ring : Cell := .list (some "list") [.reference (.name "l")]

theorem unfold_ring {h : Heap} (there : h.get? 0 = some ring) {path : List Addr} (new : 0 ∉ path) :
    h.unfold .printed path (.value (.cell 0)) =
      some (.sequence (.list (some "list")) [.reference (.name "l")]) :=
  unfold_list there new (by rw [Heap.unfold])

theorem deref_ring {names : Table Binding} (l : names.read "l" = .value (.cell 0)) (h : Heap) :
    deref names h (.reference (.name "l")) = .ok (.cell 0) :=
  deref_name_of_value l nofun

theorem resolve_ring {names : Table Binding} (l : names.read "l" = .value (.cell 0)) {h : Heap}
    (there : h.get? 0 = some ring) {base : Nat} (old : 0 < base) {active : List Addr}
    (new : 0 ∉ active) {b : Binding} (found : deref names h b = .ok (.cell 0)) :
    resolveBinding names base active b h =
      (.ok (.cell h.size), (h.alloc (.list (some "list") [.value (.cell 0)])).2) := by
  have again : resolveBinding names base (0 :: active) (.reference (.name "l")) h =
      (.ok (.cell 0), h) := by
    rw [resolveBinding_of_ok (deref_ring l h), resolveValue_of_mem (List.mem_cons_self ..)]
  rw [resolveBinding_of_ok found, resolveValue_list new old there
    (resolveItems_of_ok again resolveItems_nil)]

def selfListed : Runner := ((fresh true).run Console.noHosts "l is a list\nadd l to l").2

def selfListing : List Node :=
  let at? (line col : Int) (tag text : String) : Option Loc := some ⟨line, col, tag, .text text⟩
  let name (line col : Int) : Node :=
    .scalar (.identifier "l" (at? line col "identifier" "l")) (at? line col "scalar" "l")
  [.expression (.typeAssignment (.assignee (name 1 1) (at? 1 1 "assignee" "l"))
      (.identifier "list" (at? 1 8 "identifier" "list")) (at? 1 1 "type_assignment" "l is a list"))
      (at? 1 1 "expression" "l is a list"),
    .expression (.listAssignment (.listOperation (.text "add") (at? 2 1 "list_operation" "add"))
      (.value (.variable (name 2 5) (at? 2 5 "variable" "l")) (at? 2 5 "value" "l"))
      (.assignee (name 2 10) (at? 2 10 "assignee" "l")) (at? 2 1 "list_assignment" "add l to l"))
      (at? 2 1 "expression" "add l to l")]

theorem ofSource_selfListing : Node.ofSource "l is a list\nadd l to l" =
    .ok (.root selfListing (some ⟨1, 1, "root", .text "l is a list\nadd l to l"⟩)) := by
  have first : Grammar.statement ⟨1, 1, "l is a list\nadd l to l".toList⟩ =
    some (selfListing[0], ⟨2, 1, "add l to l".toList⟩) := rfl
  have second : Grammar.statement ⟨2, 1, "add l to l".toList⟩ =
    some (selfListing[1], ⟨2, 11, []⟩) := rfl
  have last : Grammar.statement ⟨2, 11, []⟩ = none := rfl
  have read := Grammar.statements_of_some first (by decide)
  rw [Grammar.statements_of_some second (by decide), Grammar.statements_of_none last] at read
  exact Node.ofSource_of_statements "l is a list\nadd l to l" read rfl rfl

theorem moves_selfListing : Moves Console.noHosts selfListing ⟨Machine.builtins, .empty⟩
    ⟨Machine.builtins.set "l" (.value (.cell 0)), ⟨#[ring]⟩⟩ := by
  have there : (⟨#[.list (some "list") []]⟩ : Heap).get? 0 = some (.list (some "list") []) := rfl
  refine .make .name rfl (Reference.puts_name "l") <| .change .add .name (Node.readsAs_name "l")
    (fun m store => ?_) there (Reference.puts_name "l") (.nil _)
  obtain ⟨names, -⟩ := Store.mk.inj store
  exact ⟨_, rfl, by rw [names]; rfl⟩

theorem machine_selfListed :
    selfListed.machine.store =
      ⟨Machine.builtins.set "l" (.value (.cell 0)), ⟨#[ring]⟩⟩ ∧
    selfListed.machine.types = Template.defaults :=
  machine_of_moves (r := fresh true) ofSource_selfListing rfl moves_selfListing

def selfHeld : Runner := (selfListed.run Console.noHosts "o is a box\no k is l").2

def selfHolding : List Node :=
  let at? (line col : Int) (tag text : String) : Option Loc := some ⟨line, col, tag, .text text⟩
  let name (line col : Int) (text : String) : Node :=
    .scalar (.identifier text (at? line col "identifier" text)) (at? line col "scalar" text)
  let attr : Node := .object (.identifier "o" (at? 2 1 "identifier" "o"))
    (.identifier "k" (at? 2 3 "identifier" "k")) (at? 2 1 "object" "o k")
  [.expression (.typeAssignment (.assignee (name 1 1 "o") (at? 1 1 "assignee" "o"))
      (.identifier "box" (at? 1 8 "identifier" "box")) (at? 1 1 "type_assignment" "o is a box"))
      (at? 1 1 "expression" "o is a box"),
    .expression (.valueAssignment (.assignee attr (at? 2 1 "assignee" "o k"))
      (.value (.variable (name 2 8 "l") (at? 2 8 "variable" "l")) (at? 2 8 "value" "l"))
      (at? 2 1 "value_assignment" "o k is l")) (at? 2 1 "expression" "o k is l")]

theorem ofSource_selfHolding : Node.ofSource "o is a box\no k is l" =
    .ok (.root selfHolding (some ⟨1, 1, "root", .text "o is a box\no k is l"⟩)) := by
  have first : Grammar.statement ⟨1, 1, "o is a box\no k is l".toList⟩ =
    some (selfHolding[0], ⟨2, 1, "o k is l".toList⟩) := rfl
  have second : Grammar.statement ⟨2, 1, "o k is l".toList⟩ =
    some (selfHolding[1], ⟨2, 9, []⟩) := rfl
  have last : Grammar.statement ⟨2, 9, []⟩ = none := rfl
  have read := Grammar.statements_of_some first (by decide)
  rw [Grammar.statements_of_some second (by decide), Grammar.statements_of_none last] at read
  exact Node.ofSource_of_statements "o is a box\no k is l" read rfl rfl

def held : Heap := ⟨#[ring, holder (.reference (.name "l"))]⟩

theorem machine_selfHeld :
    selfHeld.machine.names.read "write" = .value (.scalar (.function .write)) ∧
    selfHeld.machine.names.read "l" = .value (.cell 0) ∧
    selfHeld.machine.names.read "o" = .value (.cell 1) ∧
    selfHeld.machine.heap = held := by
  have moves : Moves Console.noHosts selfHolding
      ⟨Machine.builtins.set "l" (.value (.cell 0)), ⟨#[ring]⟩⟩
      ⟨(Machine.builtins.set "l" (.value (.cell 0))).set "o" (.value (.cell 1)), held⟩ :=
    .make .name rfl (Reference.puts_name "o") <|
    .bind .path (Node.readsAs_name "l") (Reference.puts_path rfl rfl "k") <|
    .nil _
  obtain ⟨made, types⟩ := machine_selfListed
  obtain ⟨store, -⟩ := machine_of_moves ofSource_selfHolding types (made ▸ moves)
  obtain ⟨names, heap⟩ := Store.mk.inj store
  rw [selfHeld, names]
  exact ⟨rfl, rfl, rfl, heap⟩

theorem ofSource_objectWriting : Node.ofSource "write o" =
    .ok (.root [writing 1 "o" "write o"] (some ⟨1, 1, "root", .text "write o"⟩)) := by
  have first : Grammar.statement ⟨1, 1, "write o".toList⟩ =
    some (writing 1 "o" "write o", ⟨1, 8, []⟩) := rfl
  have last : Grammar.statement ⟨1, 8, []⟩ = none := rfl
  have read := Grammar.statements_of_some first (by decide)
  rw [Grammar.statements_of_none last] at read
  exact Node.ofSource_of_statements "write o" read rfl rfl

theorem run_of_writes {loc : Option Loc}
    (program : Node.ofSource source = .ok (.root [call] loc)) (writes : call.Writes x)
    (builtIn : r.machine.names.read "write" = .value (.scalar (.function .write))) {b : Binding}
    {v : Value} {after : Heap} {t : Tree} (argued : x.argument (begun r.machine) = .ok b)
    (resolved : resolve r.machine.names b r.machine.heap = (.ok v, after))
    (whole : after.unfold .printed [] (.value v) = some t) :
    (r.run hosts source).1 =
        .ok ⟨.success, .value (.text t.message), none, .null, [⟨.stdout, t.message⟩]⟩ ∧
      (r.run hosts source).2.machine.names = r.machine.names ∧
      (r.run hosts source).2.machine.heap = after := by
  let starts : Machine := { begun r.machine with statement := call.loc, ret := .nothing }
  have argued' : x.argument starts = .ok b := by
    rw [← argued]
    cases x <;> rfl
  obtain ⟨trace, run⟩ := writes.interpret_of_resolve (m := starts) builtIn argued' resolved whole
  rw [run_fst, run_machine, parse_of_ok program,
    runProgram_ok ((interpret_root_one hosts call loc).trans run)]
  exact ⟨rfl, rfl, rfl⟩

/-- The heap when the object has been written: its attribute holds the copy of the list. -/
def heldOnce : Heap :=
  ⟨#[ring, holder (.value (.cell 2)), .list (some "list") [.value (.cell 0)]]⟩

/-- The heap when the object has been written again: that copy has been copied, and what it holds.
-/
def heldTwice : Heap :=
  ⟨#[ring, holder (.value (.cell 4)), .list (some "list") [.value (.cell 0)],
    .list (some "list") [.value (.cell 0)], .list (some "list") [.value (.cell 3)]]⟩

/-- An object whose attribute refers to a list that holds itself is written twice. The second time
the copy that the first time has put in place of the reference is copied again, and shows one more
level. -/
theorem write_again_of_selfHeld : Reachable Console.noHosts selfHeld ∧
    (selfHeld.run Console.noHosts "write o").1 = .ok ⟨.success,
      .value (.text "a box with k = [[<ref l>]]"), none, .null,
      [⟨.stdout, "a box with k = [[<ref l>]]"⟩]⟩ ∧
    ((selfHeld.run Console.noHosts "write o").2.run Console.noHosts "write o").1 = .ok ⟨.success,
      .value (.text "a box with k = [[[<ref l>]]]"), none, .null,
      [⟨.stdout, "a box with k = [[[<ref l>]]]"⟩]⟩ := by
  have reachable : Reachable Console.noHosts selfHeld := .run _ (.run _ (.fresh true))
  obtain ⟨builtIn, l, o, heap⟩ := machine_selfHeld
  have first : resolve selfHeld.machine.names (.value (.cell 1)) selfHeld.machine.heap =
      (.ok (.cell 1), heldOnce) := by
    rw [heap]
    have inner : resolveBinding selfHeld.machine.names 2 [1] (.reference (.name "l")) held = _ :=
      resolve_ring l rfl (by decide) (by decide) (deref_ring l _)
    exact resolve_holder (h := held) rfl inner
  have shown : heldOnce.unfold .printed [] (.value (.cell 1)) = some (.mapping
      (.object (some "box")) [(.text "k", .sequence (.list (some "list"))
        [.sequence (.list (some "list")) [.reference (.name "l")]])]) :=
    unfold_holder rfl (unfold_list rfl (by decide) (unfold_ring rfl (by decide)))
  obtain ⟨run, names, heap'⟩ := run_of_writes ofSource_objectWriting
    (writes_writing ..) builtIn (argument_of_read o) first shown
  rw [← names] at builtIn l o
  have second : resolve (selfHeld.run Console.noHosts "write o").2.machine.names
      (.value (.cell 1)) (selfHeld.run Console.noHosts "write o").2.machine.heap =
        (.ok (.cell 1), heldTwice) := by
    rw [heap']
    have inner : resolveBinding _ 3 [2, 1] (.value (.cell 0)) heldOnce = _ :=
      resolve_ring l rfl (by decide) (by decide) rfl
    have outer : resolveValue _ 3 [1] (.cell 2) heldOnce = _ :=
      resolveValue_list (by decide) (by decide) rfl (resolveItems_of_ok inner resolveItems_nil)
    exact resolve_holder (h := heldOnce) rfl
      ((resolveBinding_of_ok (b := .value (.cell 2)) rfl).trans outer)
  have shown' : heldTwice.unfold .printed [] (.value (.cell 1)) = some (.mapping
      (.object (some "box")) [(.text "k", .sequence (.list (some "list"))
        [.sequence (.list (some "list"))
          [.sequence (.list (some "list")) [.reference (.name "l")]]])]) :=
    unfold_holder rfl (unfold_list rfl (by decide) (unfold_list rfl (by decide)
      (unfold_ring rfl (by decide))))
  obtain ⟨run', -⟩ := run_of_writes ofSource_objectWriting
    (writes_writing ..) builtIn (argument_of_read o) second shown'
  exact ⟨reachable, run, run'⟩

end Runner

end AliasScript

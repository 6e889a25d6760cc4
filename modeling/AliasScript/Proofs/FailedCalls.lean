import AliasScript.Proofs.Reachable
import AliasScript.Proofs.Statements
import AliasScript.Proofs.Touched
import AliasScript.Proofs.Unchanged

/-!
# Calls that fail

A call resolves the name of its function, and most functions resolve the argument that they are
given. Either can fail when some attributes have been resolved already, and these stay resolved
(`Runner.attribute_of_failed_call`): a name bound anew is not seen through them any more. Nothing
else is left of a failed call, and every binding goes on meaning what it meant
(`Runner.failed_call_of_reachable`).
-/

namespace AliasScript

/-- A call may resolve the name of its function and what its argument holds. -/
inductive Node.MayResolve (hosts : Hosts) (m : Machine) : Node → Binding → Prop
  | callee {callee arg : Node} {loc : Option Loc} {word : String} : callee.name? = some word →
    MayResolve hosts m (.invocation callee arg loc) (.reference (.name word))
  | argument {callee arg : Node} {loc : Option Loc} {r : Reading} :
    interpret hosts arg m = (.ok (.reading r), m) →
      MayResolve hosts m (.invocation callee arg loc) r.val

/-- A call has ended with a fault, and all that it may have done to names and containers before is
to resolve a binding. An argument of the wrong kind is found out without resolving anything. -/
structure Machine.Tried (b : Binding) (e : Fault) (m m' : Machine) : Prop where
  names : m'.names = m.names
  types : m'.types = m.types
  heap : m'.heap = m.heap ∨ (∃ result, Resolves m.names [] b m.heap result m'.heap) ∧
    ∀ d, e ≠ .failure (.wrongArgument d)

/-- What a failed call leaves of a machine: the names, the types, and the heap but for attributes
of objects that a binding reaches. No binding has changed its meaning. -/
structure Machine.Withstands (b : Binding) (m m' : Machine) : Prop where
  names : m'.names = m.names
  types : m'.types = m.types
  touches : Touches m.names b m.heap m'.heap
  means : ∀ c t, c.Within m.heap.size → (Means m'.names m'.heap t c ↔ Means m.names m.heap t c)

theorem Touches.refl {names : Table Binding} (b : Binding) (h : Heap) : Touches names b h h where
  others _ _ there _ := there
  objects _ _ attrs there := ⟨attrs, there, rfl, fun _ => .inl rfl⟩
  references _ _ _ g := g

theorem Machine.Tried.withstands {b : Binding} {e : Fault} {m m' : Machine} (h : Tried b e m m')
    (machine : m.Scripted) (bound : b.Scripted m.heap.size) : Withstands b m m' := by
  obtain ⟨names, types, same | ⟨⟨result, calls⟩, -⟩⟩ := h
  · refine ⟨names, types, by rw [same]; exact .refl b m.heap, fun c t _ => ?_⟩
    rw [names, same]
  · refine ⟨names, types, calls.touches machine.store.closed bound.within, fun c t within => ?_⟩
    rw [names]
    exact (calls.means machine.store bound).1 c t within

variable {m m' : Machine} {b : Binding} {e : Fault}

theorem Resolves.ne_wrongArgument {names : Table Binding} {active : List Addr} {h h' : Heap}
    (call : Resolves names active b h (.error e) h') (closed : Closed names h)
    (within : b.Within h.size) (d : String) : e ≠ .failure (.wrongArgument d) := by
  rintro rfl
  obtain ⟨h₁, q, -, -, failed⟩ := call.exists_lost closed within _ rfl
  rcases lost_or_endless_of_deref (b := .reference q) failed with lost | same
  · cases lost
  · cases same

namespace Run

theorem resolves_of_run (machine : m.Scripted) (bound : b.Scripted m.heap.size)
    {result : Except Fault Value} (run : Run.resolve b m = (result, m')) :
    Resolves m.names [] b m.heap result m'.heap ∧ m' = { m with heap := m'.heap } := by
  cases run
  exact ⟨resolves_resolve machine.store.closed bound.within, rfl⟩

theorem tried_of_resolve (machine : m.Scripted) (bound : b.Scripted m.heap.size)
    (run : Run.resolve b m = (.error e, m')) : m.Tried b e m' := by
  obtain ⟨calls, same⟩ := resolves_of_run machine bound run
  refine ⟨by rw [same], by rw [same], .inr ⟨⟨_, calls⟩, ?_⟩⟩
  exact calls.ne_wrongArgument machine.store.closed bound.within

theorem tried_of_functionNamed {name : String} (word : OneWord name) (machine : m.Scripted)
    (run : functionNamed name m = (.error e, m')) :
    m.Tried (.reference (.name name)) e m' := by
  rcases exists_of_act_bind_error run with failed | ⟨v, m₁, resolved, run⟩
  · exact tried_of_resolve machine word failed
  · obtain ⟨calls, same⟩ := resolves_of_run (b := .reference (.name name)) machine word resolved
    split at run
    · cases run
    · cases run
      exact ⟨by rw [same], by rw [same], .inr ⟨⟨_, calls⟩, fun _ same => nomatch same⟩⟩

theorem tried_of_call {hosts : Hosts} {f : Function} (builtIn : ∀ other, f ≠ .host other)
    (machine : m.Scripted) (bound : b.Scripted m.heap.size)
    (run : f.call hosts b m = (.error e, m')) : m.Tried b e m' := by
  cases f with
  | count =>
    rcases exists_of_act_bind_error run with failed | ⟨v, m₁, found, rest⟩
    · obtain ⟨-, rfl⟩ := eq_of_ask failed
      exact ⟨rfl, rfl, .inl rfl⟩
    · obtain ⟨-, rfl⟩ := eq_of_ask found
      obtain ⟨-, rfl⟩ := eq_of_ask rest
      exact ⟨rfl, rfl, .inl rfl⟩
  | describe =>
    rcases exists_of_act_bind_error run with failed | ⟨v, m₁, -, rest⟩
    · exact tried_of_resolve machine bound failed
    · cases rest
  | write =>
    rcases exists_of_act_bind_error run with failed | ⟨v, m₁, resolved, rest⟩
    · exact tried_of_resolve machine bound failed
    · obtain ⟨calls, same⟩ := resolves_of_run machine bound resolved
      -- The value cannot be printed when it contains itself.
      rcases exists_of_act_bind_error rest with failed | ⟨text, m₂, -, rest⟩
      · obtain ⟨failed, rfl⟩ := eq_of_ask failed
        refine ⟨by rw [same], by rw [same], .inr ⟨⟨_, calls⟩, fun d wrong => ?_⟩⟩
        subst wrong
        rw [Library.message.eq_def] at failed
        split at failed
        · cases failed
        · rw [Heap.print] at failed
          split at failed <;> cases failed
      · cases rest
  | host other => exact absurd rfl (builtIn other)

end Run

theorem Node.exists_tried_of_invocation {hosts : Hosts} {callee arg : Node} {loc : Option Loc}
    (fits : (Node.invocation callee arg loc).IsStatement) (machine : m.Scripted)
    (run : interpret hosts (.invocation callee arg loc) m = (.error e, m')) :
    ∃ b, MayResolve hosts m (.invocation callee arg loc) b ∧ b.Scripted m.heap.size ∧
      m.Tried b e m' := by
  cases fits with
  | invocation isName isValue =>
  obtain ⟨word, free, named, reads⟩ := isName.exists_word hosts
  have unchanged : m' = m → ∃ b, MayResolve hosts m (.invocation callee arg loc) b ∧
      b.Scripted m.heap.size ∧ m.Tried b e m' := by
    rintro rfl
    exact ⟨_, .callee named, free, rfl, rfl, .inl rfl⟩
  have name : (Run.ask fun _ => (Outcome.leaf (.text word)).name? : Run String) m =
      (.ok word, m) := rfl
  rw [interpret, act_bind_ok (reads m), act_bind_ok name] at run
  rcases exists_of_act_bind_error run with failed | ⟨f, m₁, found, called⟩
  · exact ⟨_, .callee named, free, Run.tried_of_functionNamed free machine failed⟩
  obtain ⟨-, builtIn⟩ := Run.safe_functionNamed free machine
  rw [found] at builtIn
  rw [(functionNamed_eq_ok found).2] at called
  obtain ⟨read, value, scripted, -⟩ := isValue.exists_reading hosts machine
  cases read with
  | error e' =>
    rw [act_bind_error value] at called
    cases called
    exact unchanged rfl
  | ok r =>
    have reading : (Run.ask fun _ => (Outcome.reading r).reading? : Run Reading) m = (.ok r, m) :=
      rfl
    rw [act_bind_ok value, act_bind_ok reading] at called
    rcases exists_of_act_bind_error called with failed | ⟨b, m₂, asked, noted⟩
    · exact unchanged (Run.eq_of_ask failed).2
    obtain ⟨argued, rfl⟩ := Run.eq_of_ask asked
    have val : r.val = b := by
      rw [argument] at argued
      split at argued
      · split at argued <;> cases argued
        rfl
      · cases argued
        rfl
    have bound : b.Scripted m₂.heap.size := val ▸ (scripted r rfl).val
    rw [act_bind_ok (show Run.note _ m₂ = _ from rfl)] at noted
    rcases exists_of_act_bind_error noted with failed | ⟨ret, m₃, -, rest⟩
    · have tried := fun noted bound => Run.tried_of_call builtIn noted bound failed
      obtain ⟨names, types, heap⟩ := tried ⟨machine.store, machine.types⟩ bound
      exact ⟨b, val ▸ .argument value, bound, names, types, heap⟩
    · cases rest

/-! ## In a script -/

theorem runSequence_append (hosts : Hosts) (front back : List Node) : ∀ last : Outcome,
    runSequence hosts (front ++ back) last =
      runSequence hosts front last >>= fun outcome => runSequence hosts back outcome := by
  induction front with
  | nil =>
    intro last
    rw [List.nil_append, runSequence, pure_bind]
  | cons node rest ih =>
    intro last
    cases last with
    | done b => simp only [List.cons_append, runSequence, bind_assoc, ih]
    | reading | leaf =>
      simp only [List.cons_append, runSequence, bind_assoc]
      rfl

namespace Runner

/-- Running a source comes to a statement of its program, with all statements before it done. -/
def ComesTo (hosts : Hosts) (r : Runner) (source : String) (node : Node) (m : Machine) : Prop :=
  ∃ before after loc ret m₀, Node.ofSource source = .ok (.root (before ++ node :: after) loc) ∧
    runSequence hosts before (.done .nothing) (begun r.machine) = (.ok (.done ret), m₀) ∧
    m = { m₀ with statement := node.loc, ret := .nothing }

variable {hosts : Hosts} {r : Runner} {source : String} {node : Node}

theorem ComesTo.scripted (h : r.ComesTo hosts source node m) (machine : r.machine.Scripted) :
    node.IsExpression ∧ m.Scripted := by
  obtain ⟨before, after, loc, ret, m₀, parsed, run, rfl⟩ := h
  obtain ⟨fits, -⟩ := Node.isProgram_of_ofSource parsed
  have begins : (begun r.machine).Scripted := ⟨machine.store, machine.types⟩
  obtain ⟨after', -⟩ := safe_runSequence hosts
    (fun other mem => fits other (List.mem_append_left _ mem)) (b := .nothing) begins
  rw [run] at after'
  exact ⟨fits node (List.mem_append_right _ (List.mem_cons_self ..)), after'.store, after'.types⟩

theorem ComesTo.run_error (h : r.ComesTo hosts source node m)
    (failed : interpret hosts node m = (.error e, m')) :
    runProgram hosts source (parse source) r.machine = conclude source m' e := by
  obtain ⟨before, after, loc, ret, m₀, parsed, run, rfl⟩ := h
  rw [parse_of_ok parsed]
  refine runProgram_error ?_
  rw [interpret_root, runSequence_append, act_bind_ok run, runSequence,
    act_bind_ok (show begin node m₀ = (.ok (), _) from rfl)]
  exact act_bind_error failed

/-- A call that fails is reported. It leaves the names, the types, the lists and everything that is
no attribute of an object reached from its function's name or its argument; there it may leave
values in place of the references that led to them, so no binding has changed its meaning. A call
with an argument of the wrong kind leaves the heap as it was. -/
theorem failed_call_of_reachable (reachable : Reachable hosts r) {callee arg : Node}
    {loc loc' : Option Loc}
    (comes : r.ComesTo hosts source (.expression (.invocation callee arg loc) loc') m) {f : Failure}
    (failed : interpret hosts (.expression (.invocation callee arg loc) loc') m =
      (.error (.failure f), m')) :
    (∃ report, (r.run hosts source).1 = .ok report ∧ report.status = .error) ∧
    (∃ b, Node.MayResolve hosts m (.invocation callee arg loc) b ∧
      m.Withstands b (r.run hosts source).2.machine) ∧
    ((∃ d, f = .wrongArgument d) → (r.run hosts source).2.machine.heap = m.heap) := by
  obtain ⟨fits, machine⟩ := comes.scripted reachable.scripted
  rw [run_fst, run_machine, comes.run_error failed]
  cases fits with
  | expression statement =>
  rw [interpret] at failed
  obtain ⟨b, resolved, bound, tried⟩ := Node.exists_tried_of_invocation statement machine failed
  obtain ⟨effects, same⟩ := conclude_machine source m' (.failure f)
  rw [same]
  have left : m.Withstands b { m' with effects } :=
    Machine.Tried.withstands ⟨tried.names, tried.types, tried.heap⟩ machine bound
  refine ⟨⟨_, rfl, rfl⟩, ⟨b, resolved, left⟩, ?_⟩
  rintro ⟨d, rfl⟩
  exact tried.heap.resolve_right fun resolving => resolving.2 d rfl

/-! ## A call that fails halfway -/

def boxHolding : Runner := ((fresh true).run Console.noHosts "x is 1\no is a box\no p is x").2

def boxHoldingNodes : List Node :=
  let at? (line col : Int) (tag text : String) : Option Loc := some ⟨line, col, tag, .text text⟩
  let name (line col : Int) (text : String) : Node :=
    .scalar (.identifier text (at? line col "identifier" text)) (at? line col "scalar" text)
  let attr : Node := .object (.identifier "o" (at? 3 1 "identifier" "o"))
    (.identifier "p" (at? 3 3 "identifier" "p")) (at? 3 1 "object" "o p")
  [.expression (.valueAssignment (.assignee (name 1 1 "x") (at? 1 1 "assignee" "x"))
      (.value (.literal (.integer 1 (at? 1 6 "integer" "1")) (at? 1 6 "literal" "1"))
        (at? 1 6 "value" "1")) (at? 1 1 "value_assignment" "x is 1"))
      (at? 1 1 "expression" "x is 1"),
    .expression (.typeAssignment (.assignee (name 2 1 "o") (at? 2 1 "assignee" "o"))
      (.identifier "box" (at? 2 8 "identifier" "box")) (at? 2 1 "type_assignment" "o is a box"))
      (at? 2 1 "expression" "o is a box"),
    .expression (.valueAssignment (.assignee attr (at? 3 1 "assignee" "o p"))
      (.value (.variable (name 3 8 "x") (at? 3 8 "variable" "x")) (at? 3 8 "value" "x"))
      (at? 3 1 "value_assignment" "o p is x")) (at? 3 1 "expression" "o p is x")]

def boxCall : Node :=
  let at? (col : Int) (tag text : String) : Option Loc := some ⟨1, col, tag, .text text⟩
  .invocation (.identifier "o" (at? 1 "identifier" "o"))
    (.value (.literal (.integer 1 (at? 3 "integer" "1")) (at? 3 "literal" "1")) (at? 3 "value" "1"))
    (at? 1 "invocation" "o 1")

theorem ofSource_boxHolding : Node.ofSource "x is 1\no is a box\no p is x" =
    .ok (.root boxHoldingNodes
      (some ⟨1, 1, "root", .text "x is 1\no is a box\no p is x"⟩)) := by
  have first : Grammar.statement ⟨1, 1, "x is 1\no is a box\no p is x".toList⟩ =
    some (boxHoldingNodes[0], ⟨2, 1, "o is a box\no p is x".toList⟩) := rfl
  have second : Grammar.statement ⟨2, 1, "o is a box\no p is x".toList⟩ =
    some (boxHoldingNodes[1], ⟨3, 1, "o p is x".toList⟩) := rfl
  have third : Grammar.statement ⟨3, 1, "o p is x".toList⟩ =
    some (boxHoldingNodes[2], ⟨3, 9, []⟩) := rfl
  have last : Grammar.statement ⟨3, 9, []⟩ = none := rfl
  have read := Grammar.statements_of_some first (by decide)
  rw [Grammar.statements_of_some second (by decide), Grammar.statements_of_some third (by decide),
    Grammar.statements_of_none last] at read
  exact Node.ofSource_of_statements "x is 1\no is a box\no p is x" read rfl rfl

theorem ofSource_boxCall : Node.ofSource "o 1" =
    .ok (.root [.expression boxCall (some ⟨1, 1, "expression", .text "o 1"⟩)]
      (some ⟨1, 1, "root", .text "o 1"⟩)) := by
  have first : Grammar.statement ⟨1, 1, "o 1".toList⟩ =
    some (.expression boxCall (some ⟨1, 1, "expression", .text "o 1"⟩), ⟨1, 4, []⟩) := rfl
  have last : Grammar.statement ⟨1, 4, []⟩ = none := rfl
  have read := Grammar.statements_of_some first (by decide)
  rw [Grammar.statements_of_none last] at read
  exact Node.ofSource_of_statements "o 1" read rfl rfl

theorem machine_boxHolding : boxHolding.machine.names.read "o" = .value (.cell 0) ∧
    boxHolding.machine.names.read "x" = .value (.number 1) ∧
    boxHolding.machine.heap =
      ⟨#[.object (some "box") (.ofList [("p", .reference (.name "x"))])]⟩ := by
  have moves : Moves Console.noHosts boxHoldingNodes ⟨Machine.builtins, .empty⟩
      ⟨(Machine.builtins.set "x" (.value (.number 1))).set "o" (.value (.cell 0)),
        ⟨#[.object (some "box") (.ofList [("p", .reference (.name "x"))])]⟩⟩ :=
    .bind .name (Node.readsAs_integer 1) (Reference.puts_name "x") <|
    .make .name rfl (Reference.puts_name "o") <|
    .bind .path (Node.readsAs_name "x") (Reference.puts_path rfl rfl "p") <|
    .nil _
  obtain ⟨store, -⟩ := machine_of_moves (r := fresh true) ofSource_boxHolding rfl moves
  obtain ⟨names, heap⟩ := Store.mk.inj store
  rw [boxHolding, names]
  exact ⟨rfl, rfl, heap⟩

def boxResolved : Heap := ⟨#[.object (some "box") (.ofList [("p", .value (.number 1))])]⟩

def boxCalled : Machine :=
  { begun boxHolding.machine with statement := some ⟨1, 1, "expression", .text "o 1"⟩ }

theorem comesTo_boxCall : boxHolding.ComesTo Console.noHosts "o 1"
    (.expression boxCall (some ⟨1, 1, "expression", .text "o 1"⟩)) boxCalled := by
  refine ⟨[], [], _, .nothing, _, ofSource_boxCall, ?_, rfl⟩
  rw [runSequence]
  rfl

theorem interpret_boxCall : interpret Console.noHosts
    (.expression boxCall (some ⟨1, 1, "expression", .text "o 1"⟩)) boxCalled =
      (.error (.failure (.notAFunction "o")), { boxCalled with heap := boxResolved }) := by
  obtain ⟨o, x, heap⟩ := machine_boxHolding
  have attr : ∀ h, resolveBinding boxHolding.machine.names 1 [0] (.reference (.name "x")) h =
      (.ok (.number 1), h) := fun _ => resolveBinding_of_scalar (deref_name_of_value x nofun)
  have resolved : resolve boxCalled.names (.reference (.name "o")) boxCalled.heap =
      (.ok (.cell 0), boxResolved) := by
    show resolve boxHolding.machine.names _ boxHolding.machine.heap = _
    rw [heap]
    show resolveBinding boxHolding.machine.names 1 [] _ _ = _
    rw [resolveBinding_of_ok (deref_name_of_value o nofun),
      resolveValue_object (by decide) (by decide) rfl]
    show (Except.map _ (resolveAttributes boxHolding.machine.names 1 [0] 0 ["p"] _).1,
      (resolveAttributes boxHolding.machine.names 1 [0] 0 ["p"] _).2) = _
    rw [resolveAttributes_of_ok (attr _), resolveAttributes]
    rfl
  have named : functionNamed "o" boxCalled =
      (.error (.failure (.notAFunction "o")), { boxCalled with heap := boxResolved }) := by
    rw [functionNamed, act_bind_ok (Run.resolve_of_apply resolved)]
    rfl
  rw [interpret, boxCall, interpret_invocation_of_error named]

/-- A call of what is no function is reported, and an attribute that referred to a name before does
not refer to it any more. -/
theorem attribute_of_failed_call : Reachable Console.noHosts boxHolding ∧
    (∃ report, (boxHolding.run Console.noHosts "o 1").1 = .ok report ∧ report.status = .error) ∧
    boxHolding.machine.heap.readAttribute (.cell 0) "p" = .reference (.name "x") ∧
    (boxHolding.run Console.noHosts "o 1").2.machine.heap.readAttribute (.cell 0) "p" =
      .value (.number 1) := by
  obtain ⟨-, -, heap⟩ := machine_boxHolding
  rw [run_fst, run_machine, comesTo_boxCall.run_error interpret_boxCall, heap]
  exact ⟨.run _ (.fresh true), ⟨_, rfl, rfl⟩, rfl, rfl⟩

theorem failed_call_of_boxHolding :
    boxHolding.ComesTo Console.noHosts "o 1"
      (.expression boxCall (some ⟨1, 1, "expression", .text "o 1"⟩)) boxCalled ∧
    (∃ report, (boxHolding.run Console.noHosts "o 1").1 = .ok report ∧ report.status = .error) ∧
    ∃ b, Node.MayResolve Console.noHosts boxCalled boxCall b ∧
      boxCalled.Withstands b (boxHolding.run Console.noHosts "o 1").2.machine := by
  have spec := failed_call_of_reachable (.run _ (.fresh true)) comesTo_boxCall interpret_boxCall
  exact ⟨comesTo_boxCall, spec.1, spec.2.1⟩

end Runner

end AliasScript

import AliasScript.Proofs.LineRuns
import AliasScript.Proofs.Recording

/-!
# How far a script gets

The statements of a script run one after the other until one of them fails (`runs_or_stops`). What
is left then is what the statements before have left and what the failed one has done to it, and
what is told is what they have recorded, and behind it one message on the failure
(`Runner.run_up_to_failure`).
-/

namespace AliasScript

def Machine.beginning (m : Machine) (node : Node) : Machine :=
  { m with statement := node.loc, ret := .nothing }

/-- A statement runs to its end and records messages. -/
structure Node.Does (hosts : Hosts) (node : Node) (m : Machine) (ret : Binding) (own : List Effect)
    (m' : Machine) : Prop where
  run : interpret hosts node (m.beginning node) = (.ok (.done ret), m')
  effects : m'.effects = m.effects ++ own
  records : node.Records hosts (m.beginning node) ret own

/-- A statement fails and records nothing. -/
structure Node.Fails (hosts : Hosts) (node : Node) (m : Machine) (e : Fault) (m' : Machine) :
    Prop where
  run : interpret hosts node (m.beginning node) = (.error e, m')
  effects : m'.effects = m.effects
  statement : m'.statement = node.loc

/-- Statements run one after the other, each on what the one before has left, and record messages,
those of each behind those of the one before. -/
inductive Runs (hosts : Hosts) : List Node → Machine → List Effect → Machine → Prop
  | nil (m : Machine) : Runs hosts [] m [] m
  | cons {node : Node} {rest : List Node} {m m' m'' : Machine} {ret : Binding}
    {own said : List Effect} :
    node.Does hosts m ret own m' → Runs hosts rest m' said m'' →
      Runs hosts (node :: rest) m (own ++ said) m''

variable {hosts : Hosts} {m m' : Machine}

theorem Runs.effects {nodes : List Node} {said : List Effect} (h : Runs hosts nodes m said m') :
    m'.effects = m.effects ++ said := by
  induction h with
  | nil m => exact (List.append_nil _).symm
  | cons first _ ih => rw [ih, first.effects, List.append_assoc]

/-! ## Statement by statement -/

theorem Node.IsExpression.does_or_fails (discreet : hosts.Discreet) {node : Node}
    (h : node.IsExpression) (m : Machine) :
    (∃ ret own m', node.Does hosts m ret own m') ∨ ∃ e m', node.Fails hosts m e m' ∧ e.OfRun := by
  cases h with
  | @expression inner loc statement here =>
  obtain ⟨same, ends⟩ := statement.tells discreet (m.beginning (.expression inner loc))
  rw [← interpret] at same ends
  rcases run : interpret hosts (.expression inner loc) (m.beginning (.expression inner loc)) with
    ⟨e | outcome, m'⟩ <;> rw [run] at same ends
  · exact .inr ⟨e, m', ⟨run, ends.1, same⟩, ends.2⟩
  · obtain ⟨own, effects, ret, rfl, records⟩ := ends
    exact .inl ⟨ret, own, m', run, effects, records⟩

/-- Statements run to the last one, or to the first one that fails. -/
theorem runs_or_stops (discreet : hosts.Discreet) {nodes : List Node}
    (fits : ∀ node ∈ nodes, node.IsExpression) : ∀ (m : Machine) (b : Binding),
    (∃ said ret m', Runs hosts nodes m said m' ∧
      runSequence hosts nodes (.done b) m = (.ok (.done ret), m')) ∨
    ∃ front node rest said m' e failed, nodes = front ++ node :: rest ∧
      Runs hosts front m said m' ∧ node.Fails hosts m' e failed ∧ e.OfRun ∧
      runSequence hosts nodes (.done b) m = (.error e, failed) := by
  induction nodes with
  | nil =>
    intro m b
    refine .inl ⟨[], b, m, .nil m, ?_⟩
    rw [runSequence]
    rfl
  | cons node rest ih =>
    intro m b
    have goes : runSequence hosts (node :: rest) (.done b) m =
        (interpret hosts node >>= fun outcome => runSequence hosts rest outcome)
          (m.beginning node) := by
      rw [runSequence]
      exact act_bind_ok (show begin node m = (.ok (), m.beginning node) from rfl)
    rcases (fits node (List.mem_cons_self ..)).does_or_fails discreet m with
      ⟨ret, own, m₁, first⟩ | ⟨e, failed, fails, ofRun⟩
    · rw [goes, act_bind_ok first.run]
      rcases ih (fun other mem => fits other (List.mem_cons_of_mem _ mem)) m₁ ret with
        ⟨said, ret', m₂, runs, ends⟩ |
        ⟨front, other, rest', said, m₂, e, failed, rfl, runs, fails, ofRun, ends⟩
      · exact .inl ⟨own ++ said, ret', m₂, .cons first runs, ends⟩
      · exact .inr ⟨node :: front, other, rest', own ++ said, m₂, e, failed, rfl,
          .cons first runs, fails, ofRun, ends⟩
    · refine .inr ⟨[], node, rest, [], m, e, failed, rfl, .nil m, fails, ofRun, ?_⟩
      rw [goes, act_bind_error fails.run]

namespace Runner

/-- A script that is no program does nothing but report so. A program runs to its end, and reports
the messages of its statements in order; or it runs up to the first statement that fails, leaves
what the statements before and the failed one have done, and reports the messages of those
before, and one message more, on the failure and its place. -/
theorem run_up_to_failure (discreet : hosts.Discreet) {r after : Runner} {source : String}
    {report : Report} (run : r.run hosts source = (.ok report, after)) :
    (∀ e, Node.ofSource source = .error e → ∃ message,
      report = ⟨.error, .nothing, some message, .null, [⟨.stderr, message⟩]⟩ ∧
      after = { r with machine := { r.machine with
        effects := [⟨.stderr, message⟩], statement := none } }) ∧
    ∀ root, Node.ofSource source = .ok root →
      (∃ said ret m, Runs hosts (Node.statementsOf source) (begun r.machine) said m ∧
        report = ⟨.success, ret, none, .null, said⟩ ∧ after = { r with machine := { m with ret } }) ∨
      ∃ front node rest said m f failed, ∃ (loc : Loc) (message : String),
        Node.statementsOf source = front ++ node :: rest ∧
        Runs hosts front (begun r.machine) said m ∧ node.Fails hosts m (.failure f) failed ∧
        node.loc = some loc ∧ message = Report.failureMessage source f (some loc) ∧
        report = ⟨.error, .nothing, some message, loc.raw, said ++ [⟨.stderr, message⟩]⟩ ∧
        after = { r with machine := { failed with effects := said ++ [⟨.stderr, message⟩] } } := by
  rw [Runner.run] at run
  constructor
  · intro e failed
    rw [parse_of_error failed] at run
    cases e with
    | unread place =>
      cases run
      exact ⟨_, rfl, rfl⟩
    | tooLarge negative => cases run
  · intro root program
    have shape := Node.isProgram_of_ofSource program
    rw [parse_of_ok program, Node.eq_root_of_ofSource program] at run
    rw [Node.eq_root_of_ofSource program] at shape
    obtain ⟨fits, -⟩ := shape
    rcases runs_or_stops discreet fits (begun r.machine) .nothing with
      ⟨said, ret, m, runs, ends⟩ |
      ⟨front, node, rest, said, m, e, failed, split, runs, fails, ofRun, ends⟩
    · rw [runProgram_ok ((interpret_root ..).trans ends)] at run
      cases run
      refine .inl ⟨said, ret, m, runs, ?_, rfl⟩
      rw [runs.effects]
      rfl
    · rw [runProgram_error ((interpret_root ..).trans ends)] at run
      have place : ∃ loc, node.loc = some loc := by
        have known : node.IsExpression := fits node (by simp [split])
        cases known with
        | expression statement here =>
          obtain ⟨text, line, col, same⟩ := here
          exact ⟨_, same⟩
      obtain ⟨loc, place⟩ := place
      have effects : failed.effects = said := by
        rw [fails.effects, runs.effects]
        rfl
      refine .inr ⟨front, node, rest, said, m, ?_⟩
      cases e with
      | failure f =>
        have told : Report.account source failed.statement (.failure f) =
            .ok (Report.failureMessage source f (some loc), loc.raw) := by
          rw [fails.statement, place]
          rfl
        rw [conclude, told, effects] at run
        cases run
        exact ⟨f, failed, loc, _, split, runs, fails, place, rfl, rfl, rfl⟩
      | unparsed p => exact absurd rfl (ofRun p)
      | _ => cases run

/-! ## A script that stops halfway -/

theorem discreet_noHosts : Hosts.Discreet Console.noHosts := fun _ _ _ => Run.tells_pure trivial

def greetingNodes : List Node :=
  let at? (line col : Int) (tag text : String) : Option Loc := some ⟨line, col, tag, .text text⟩
  [.expression (.invocation (.identifier "write" (at? 1 1 "identifier" "write"))
      (.value (.literal (.string "hi" (at? 1 7 "string" "\"hi\"")) (at? 1 7 "literal" "\"hi\""))
        (at? 1 7 "value" "\"hi\"")) (at? 1 1 "invocation" "write \"hi\""))
      (at? 1 1 "expression" "write \"hi\""),
    .expression (.invocation (.identifier "x" (at? 2 1 "identifier" "x"))
      (.value (.variable (.scalar (.identifier "y" (at? 2 3 "identifier" "y"))
        (at? 2 3 "scalar" "y")) (at? 2 3 "variable" "y")) (at? 2 3 "value" "y"))
        (at? 2 1 "invocation" "x y")) (at? 2 1 "expression" "x y")]

theorem ofSource_greeting : Node.ofSource "write \"hi\"\nx y" =
    .ok (.root greetingNodes (some ⟨1, 1, "root", .text "write \"hi\"\nx y"⟩)) := by
  have first : Grammar.statement ⟨1, 1, "write \"hi\"\nx y".toList⟩ =
    some (greetingNodes[0], ⟨2, 1, "x y".toList⟩) := rfl
  have second : Grammar.statement ⟨2, 1, "x y".toList⟩ = some (greetingNodes[1], ⟨2, 4, []⟩) := rfl
  have last : Grammar.statement ⟨2, 4, []⟩ = none := rfl
  have read := Grammar.statements_of_some first (by decide)
  rw [Grammar.statements_of_some second (by decide), Grammar.statements_of_none last] at read
  exact Node.ofSource_of_statements "write \"hi\"\nx y" read rfl rfl

theorem statementsOf_greeting : Node.statementsOf "write \"hi\"\nx y" = greetingNodes := by
  obtain ⟨same, -⟩ := Node.root.inj (Node.eq_root_of_ofSource ofSource_greeting)
  exact same.symm

def greetingMessage : String := "UnboundVariable: I do not know of anything called x.\nx y\n^"

theorem runSequence_greeting (arg : Node)
    (word loc loc₁ loc₂ loc₃ loc₄ other inner outer : Option Loc) :
    ∃ after, after.statement = outer ∧ after.effects = [⟨.stdout, "hi"⟩] ∧
      runSequence Console.noHosts
        [.expression (.invocation (.identifier "write" word)
          (.value (.literal (.string "hi" loc) loc₁) loc₂) loc₃) loc₄,
        .expression (.invocation (.identifier "x" other) arg inner) outer]
        (.done .nothing) (begun (fresh true).machine) =
        (.error (.failure (.unboundVariable "x")), after) := by
  let begins : Machine := { begun (fresh true).machine with statement := loc₄ }
  obtain ⟨line, greets⟩ := interpret_write_text Console.noHosts (m := begins) rfl "hi"
  refine ⟨?after, ?statement, ?effects, ?run⟩
  case run =>
    apply (runSequence_cons (b := .nothing) greets).trans
    rw [runSequence, act_bind_ok (show begin _ _ = (.ok (), _) from rfl)]
    apply act_bind_error
    rw [interpret, interpret_invocation_of_error (functionNamed_of_unbound rfl)]
  case statement => rfl
  case effects => rfl

theorem run_greeting : ∃ after, (fresh true).run Console.noHosts "write \"hi\"\nx y" =
    (.ok ⟨.error, .nothing, some greetingMessage, (Loc.mk 2 1 "expression" (.text "x y")).raw,
      [⟨.stdout, "hi"⟩, ⟨.stderr, greetingMessage⟩]⟩, after) := by
  obtain ⟨after, statement, effects, run⟩ := runSequence_greeting _ _ _ _ _ _ _ _ _ _
  rw [Runner.run, parse_of_ok ofSource_greeting,
    runProgram_error ((interpret_root Console.noHosts greetingNodes _ _).trans run),
    conclude, statement, effects]
  exact ⟨_, rfl⟩

/-- The greeting is written, and the call that follows fails and is reported at its place. -/
theorem run_up_to_failure_of_greeting : Hosts.Discreet Console.noHosts ∧
    ∃ (report : Report) (after : Runner),
      (fresh true).run Console.noHosts "write \"hi\"\nx y" = (.ok report, after) ∧
      report.effects = [⟨.stdout, "hi"⟩, ⟨.stderr, greetingMessage⟩] ∧
      ∃ front node rest said m f failed, greetingNodes = front ++ node :: rest ∧
        Runs Console.noHosts front (begun (fresh true).machine) said m ∧
        node.Fails Console.noHosts m (.failure f) failed ∧
        after.machine = { failed with effects := report.effects } := by
  obtain ⟨after, run⟩ := run_greeting
  refine ⟨discreet_noHosts, _, after, run, rfl, ?_⟩
  rcases (run_up_to_failure discreet_noHosts run).2 _ ofSource_greeting with
    ⟨said, ret, m, -, same, -⟩ |
    ⟨front, node, rest, said, m, f, failed, loc, message, split, runs, fails, -, -, same, rfl⟩
  · cases same
  · refine ⟨front, node, rest, said, m, f, failed, statementsOf_greeting ▸ split, runs, fails, ?_⟩
    exact congrArg (fun effects => { failed with effects }) (congrArg Report.effects same).symm

end Runner

end AliasScript

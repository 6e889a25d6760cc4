import AliasScript.Proofs.Prompt
import AliasScript.Proofs.Sequences

/-!
# What the prompt shows of an answer

What a line has returned is what its last statement has returned, and that is a text or a number
which a function gave (`Node.Does.answers`). The prompt shows it in one of two ways: the last
statement has written it, or nothing at all has been written and the prompt prints it. When an
earlier statement of the line has written something and the last one is not a call of `write`, the
prompt shows what was written and not the answer (`Console.runLine_answers`).
-/

namespace AliasScript

variable {hosts : Hosts} {m m' : Machine}

theorem Runs.exists_last {nodes : List Node} {said : List Effect} (h : Runs hosts nodes m said m') :
    nodes = [] ∨ ∃ front last before own m₁ ret, nodes = front ++ [last] ∧ said = before ++ own ∧
      Runs hosts front m before m₁ ∧ last.Does hosts m₁ ret own m' ∧
        ∀ b, runSequence hosts nodes (.done b) m = (.ok (.done ret), m') := by
  induction h with
  | nil m => exact .inl rfl
  | @cons node rest m m' m'' ret own said first later ih =>
    refine .inr ?_
    have goes : ∀ b, runSequence hosts (node :: rest) (.done b) m =
        runSequence hosts rest (.done ret) m' := fun b => runSequence_cons first.run
    rcases ih with rfl | ⟨front, last, before, own', m₁, ret', rfl, rfl, runs, does, ends⟩
    · cases later
      refine ⟨[], node, [], own, m, ret, rfl, by simp, .nil m, first, fun b => ?_⟩
      rw [goes, runSequence]
      rfl
    · refine ⟨node :: front, last, own ++ before, own', m₁, ret', rfl, by simp, .cons first runs,
        does, fun b => ?_⟩
      rw [goes, ends]

/-! ## What the last statement returns -/

/-- The statement calls a function, by a name that leads to it on the machine. -/
inductive Node.Calls (m : Machine) (f : Function) : Node → Prop
  | invocation {callee arg : Node} {loc : Option Loc} {word : String} : callee.name? = some word →
    functionNamed word m = (.ok f, m) → Calls m f (.invocation callee arg loc)
  | expression {inner : Node} {loc : Option Loc} : Calls m f inner →
    Calls m f (.expression inner loc)

theorem Function.gives_scalar (f : Function) (arg : Binding) :
    Run.Gives (fun ret => ∃ s, ret = .value (.scalar s)) (f.call Console.noHosts arg) := by
  cases f with
  | count =>
    refine Run.gives_bind fun v m ret m' run => ?_
    obtain ⟨answer, -⟩ := Run.eq_of_ask run
    split at answer <;> cases answer
    exact ⟨_, rfl⟩
  | describe =>
    refine Run.gives_bind fun v m ret m' run => ?_
    obtain ⟨answer, -⟩ := Run.eq_of_ask run
    cases answer
    exact ⟨_, rfl⟩
  | write => exact Run.gives_bind fun _ => Run.gives_bind fun _ => Run.gives_bind fun _ =>
      Run.gives_pure ⟨_, rfl⟩
  | host name => exact Run.gives_pure ⟨_, rfl⟩

theorem Function.Records.cases {f : Function} {ret : Binding} {own : List Effect}
    (h : f.Records Console.noHosts m ret own) :
    (∃ text, f = .write ∧ ret = .value (.text text) ∧ own = [⟨.stdout, text⟩]) ∨
      f ≠ .write ∧ own = [] := by
  cases f with
  | count | describe => exact .inr ⟨nofun, h⟩
  | write =>
    obtain ⟨text, returned, said⟩ := h
    exact .inl ⟨text, rfl, returned, said⟩
  | host name =>
    obtain ⟨arg, after, run, effects⟩ := h
    cases run
    exact .inr ⟨nofun, by simpa using effects⟩

section

variable {node : Node} {ret : Binding} {own : List Effect}

/-- A statement that returns something has called a function, and what it returns is what that has
written, or the function is another one and has written nothing. -/
theorem Node.Does.answers (h : node.Does Console.noHosts m ret own m') (fits : node.IsExpression)
    (answer : ret ≠ .nothing) : ∃ f s, node.Calls (m.beginning node) f ∧ ret = .value (.scalar s) ∧
      ((∃ text, f = .write ∧ ret = .value (.text text) ∧ own = [⟨.stdout, text⟩]) ∨
        f ≠ .write ∧ own = []) := by
  obtain ⟨run, -, records⟩ := h
  cases fits with
  | @expression inner loc statement here =>
    rw [interpret] at run
    have simple : inner.IsSimple := by cases statement <;> constructor
    by_cases call : ∃ callee arg loc, inner = .invocation callee arg loc
    · obtain ⟨callee, arg, loc, rfl⟩ := call
      obtain ⟨word, f, line, named, found, records⟩ := records
      rw [interpret_invocation_eq] at run
      obtain ⟨⟨g, b⟩, called, -, run⟩ := exists_of_act_bind_ok run
      obtain ⟨ret', m₁, ended, run⟩ := exists_of_act_bind_ok run
      cases run
      obtain ⟨s, scalar⟩ := g.gives_scalar b _ _ _ ended
      exact ⟨f, s, .expression (.invocation named found), scalar, records.cases⟩
    · have none : ∀ callee arg loc, inner ≠ .invocation callee arg loc :=
        fun callee arg loc same => call ⟨callee, arg, loc, same⟩
      exact absurd (Outcome.done.inj (simple.gives_nothing none _ _ _ run)) answer

theorem Node.Does.stdout (h : node.Does Console.noHosts m ret own m') (fits : node.IsExpression) :
    ∀ e ∈ own, e.topic = .stdout := by
  obtain ⟨-, -, records⟩ := h
  cases fits with
  | expression statement here =>
    cases statement with
    | invocation =>
      obtain ⟨word, f, line, -, -, records⟩ := records
      rcases records.cases with ⟨text, -, -, rfl⟩ | ⟨-, rfl⟩ <;> simp
    | _ =>
      cases records
      exact List.forall_mem_nil _

end

theorem Runs.stdout {nodes : List Node} {said : List Effect}
    (h : Runs Console.noHosts nodes m said m') (fits : ∀ node ∈ nodes, node.IsExpression) :
    ∀ e ∈ said, e.topic = .stdout := by
  induction h with
  | nil => exact List.forall_mem_nil _
  | cons first _ ih =>
    obtain ⟨here, later⟩ := List.forall_mem_cons.1 fits
    exact List.forall_mem_append.2 ⟨first.stdout here, ih later⟩

namespace Console

/-- Messages as the prompt shows them. -/
def shownMessages (said : List Effect) : List Output := said.map fun e => print e.message

/-- What the prompt shows of a line: given the function that the last statement has called, what was
written before that, and what the line has come to. -/
inductive Answer (heap : Heap) (value : Binding) :
    Function → List Effect → List Output → Prop
  /-- The last statement has written the value. -/
  | written {said : List Effect} {text : String} : value = .value (.text text) →
    Answer heap value .write said (shownMessages said ++ [print text])
  /-- Nothing has been written, and the value is printed. -/
  | printed {f : Function} {s : String} : f ≠ .write → heap.print value = .ok s →
    Answer heap value f [] [print s]
  /-- Something else has been written, and the value is not shown. -/
  | withheld {f : Function} {said : List Effect} : f ≠ .write → said ≠ [] →
    Answer heap value f said (shownMessages said)

theorem shownEffects_of_stdout {report : Report}
    (all : ∀ e ∈ report.effects, e.topic = .stdout) :
    shownEffects report = shownMessages report.effects := by
  rw [shownEffects, List.filter_eq_self.2 fun e mem => by simp [all e mem]]
  rfl

theorem exists_last_of_success {r after : Runner} {source : String} {report : Report}
    (run : r.run noHosts source = (.ok report, after)) (success : report.status = .success)
    (value : report.value ≠ .nothing) : ∃ front last said own m m',
      Node.statementsOf source = front ++ [last] ∧ last.IsExpression ∧
      Runs noHosts front (Runner.begun r.machine) said m ∧ last.Does noHosts m report.value own m' ∧
      (∀ e ∈ said, e.topic = .stdout) ∧ report.effects = said ++ own := by
  have succeeds : Runner.Succeeds (r.run noHosts source).1 := ⟨report, by rw [run], success⟩
  obtain ⟨root, program⟩ := Runner.isProgram_of_succeeds succeeds
  rw [Node.eq_root_of_ofSource program] at program
  obtain ⟨fits, -⟩ := Node.isProgram_of_ofSource program
  rcases runs_or_stops Runner.discreet_noHosts fits (Runner.begun r.machine) .nothing with
    ⟨all, ret, m', runs, ends⟩ | ⟨_, _, _, _, _, _, _, -, -, -, -, stops⟩
  · rw [Runner.run_of_ends program ends] at run
    cases run
    have effects : m'.effects = all := by
      rw [runs.effects]
      rfl
    rcases runs.exists_last with
      none | ⟨front, last, said, own, m, ret', split, rfl, before, does, ends'⟩
    · rw [none, runSequence] at ends
      cases ends
      exact absurd rfl value
    · have same := (ends' .nothing).symm.trans ends
      cases same
      rw [split] at fits
      exact ⟨front, last, said, own, m, m', split, fits last (by simp), before, does,
        before.stdout fun node mem => fits node (by simp [mem]), effects⟩
  · obtain ⟨ret, m', ends⟩ := Runner.ends_of_succeeds program succeeds
    cases stops.symm.trans ends

theorem print_scalar (heap : Heap) (s : Scalar) :
    heap.print (.value (.scalar s)) = .ok s.pretty := by
  rw [Heap.print, Heap.pretty?, Heap.unfold]
  rfl

theorem shownReport_of_print {m : Machine} {report : Report} {s : String}
    (success : report.status = .success) (value : report.value ≠ .nothing)
    (silent : report.effects = []) (printed : m.heap.print report.value = .ok s) :
    shownReport m report = .inl [print s] := by
  rw [shownReport, success]
  simp only [if_neg (not_or.2 ⟨value, not_not.2 silent⟩), printed]

theorem shownReport_of_effects {m : Machine} {report : Report} (success : report.status = .success)
    (written : report.effects ≠ []) (all : ∀ e ∈ report.effects, e.topic = .stdout) :
    shownReport m report = .inl (shownMessages report.effects) := by
  rw [shownReport, success]
  simp only [if_pos (Or.inr written), shownEffects_of_stdout all]

/-- On whatever runner, a line that succeeds with a value ends in a statement that calls a function,
and the prompt shows the value when that function has written it or when nothing was written before;
otherwise it shows what was written before and not the value. -/
theorem runLine_answers {r after : Runner} {typed : String} {report : Report} (h : IsScript typed)
    (run : r.run noHosts (lineSource typed) = (.ok report, after))
    (success : report.status = .success) (value : report.value ≠ .nothing) :
    ∃ front last said m f shown, Node.statementsOf (lineSource typed) = front ++ [last] ∧
      Runs noHosts front (Runner.begun r.machine) said m ∧ last.Calls (m.beginning last) f ∧
      runLine r typed = (shown, .more after) ∧
      Answer after.machine.heap report.value f said shown := by
  obtain ⟨front, last, said, own, m, m', split, fits, runs, does, stdout, effects⟩ :=
    exists_last_of_success run success value
  obtain ⟨f, s, calls, scalar, shows⟩ := does.answers fits value
  rw [runLine_of_isScript h run]
  -- The prompt asks for all that the line has written. A line whose last statement has written
  -- nothing is silent only when the statements before are.
  rcases shows with ⟨text, rfl, returned, rfl⟩ | ⟨other, rfl⟩
  · have all : ∀ e ∈ report.effects, e.topic = .stdout := by
      rw [effects]
      exact List.forall_mem_append.2 ⟨stdout, by simp⟩
    rw [shownReport_of_effects success (by simp [effects]) all, effects, shownMessages,
      List.map_append]
    exact ⟨front, last, said, m, .write, _, split, runs, calls, rfl, .written returned⟩
  · rw [List.append_nil] at effects
    by_cases silent : said = []
    · have printed : after.machine.heap.print report.value = .ok s.pretty := by
        rw [scalar, print_scalar]
      rw [shownReport_of_print success value (effects.trans silent) printed]
      exact ⟨front, last, [], m, f, _, split, silent ▸ runs, calls, rfl, .printed other printed⟩
    · have written : report.effects ≠ [] := fun none => silent (effects.symm.trans none)
      rw [shownReport_of_effects success written (effects ▸ stdout), effects]
      exact ⟨front, last, said, m, f, _, split, runs, calls, rfl, .withheld other silent⟩

/-! ## A line that writes and then counts -/

/-- A line that writes a text and then counts another one. -/
def countingLine : String := "write \"hi\"; count \"abc\""

theorem isScript_countingLine : IsScript countingLine := ⟨by decide, by decide⟩

/-- The first line's statement that calls a function on a text, from a column on. -/
def callOnText (name text : String) (col : Int) : Node :=
  let at? (col : Int) (tag text : String) : Option Loc := some ⟨1, col, tag, .text text⟩
  let quoted := "\"" ++ text ++ "\""
  let whole := name ++ " " ++ quoted
  let arg := col + name.length + 1
  .expression (.invocation (.identifier name (at? col "identifier" name))
    (.value (.literal (.string text (at? arg "string" quoted)) (at? arg "literal" quoted))
      (at? arg "value" quoted)) (at? col "invocation" whole)) (at? col "expression" whole)

theorem ofSource_countingLine : Node.ofSource countingLine =
    .ok (.root [callOnText "write" "hi" 1, callOnText "count" "abc" 13]
      (some ⟨1, 1, "root", .text countingLine⟩)) := by
  have first : Grammar.statement ⟨1, 1, countingLine.toList⟩ =
    some (callOnText "write" "hi" 1, ⟨1, 13, "count \"abc\"".toList⟩) := rfl
  have second : Grammar.statement ⟨1, 13, "count \"abc\"".toList⟩ =
    some (callOnText "count" "abc" 13, ⟨1, 24, []⟩) := rfl
  have last : Grammar.statement ⟨1, 24, []⟩ = none := rfl
  have read := Grammar.statements_of_some first (by decide)
  rw [Grammar.statements_of_some second (by decide), Grammar.statements_of_none last] at read
  exact Node.ofSource_of_statements countingLine read rfl rfl

theorem interpret_count_text {m : Machine}
    (bound : m.names.read "count" = .value (.scalar (.function .count))) (text : String)
    (col : Int) : ∃ line, interpret noHosts (callOnText "count" text col) m =
      (.ok (.done (.value (.number text.length))), m.noted line) := by
  rw [callOnText, interpret]
  exact interpret_invocation_of_literal bound (interpret_string ..)

theorem run_countingLine : ∃ after : Runner,
    (Runner.fresh true).run noHosts (lineSource countingLine) =
      (.ok ⟨.success, .value (.number 3), none, .null, [⟨.stdout, "hi"⟩]⟩, after) := by
  have line : lineSource countingLine = countingLine := by decide
  let begun := (Runner.begun (Runner.fresh true).machine).beginning (callOnText "write" "hi" 1)
  obtain ⟨here, first⟩ := interpret_write_text noHosts (m := begun) rfl "hi"
  let written : Machine := { begun.noted here with effects := [⟨.stdout, "hi"⟩] }
  obtain ⟨there, second⟩ := interpret_count_text
    (m := written.beginning (callOnText "count" "abc" 13)) rfl "abc" 13
  have last :
      runSequence noHosts [callOnText "count" "abc" 13] (.done (.value (.text "hi"))) written = _ :=
    runSequence_cons second
  have ends := (runSequence_cons (b := .nothing) first).trans last
  rw [runSequence] at ends
  rw [line, Runner.run_of_ends ofSource_countingLine ends]
  exact ⟨_, rfl⟩

/-- The value of the line is printable, and the prompt shows what was written before and not the
value. -/
theorem not_answered_of_countingLine : IsScript countingLine ∧
    ∃ (report : Report) (after : Runner),
      (Runner.fresh true).run noHosts (lineSource countingLine) = (.ok report, after) ∧
      report.status = .success ∧ report.value = .value (.number 3) ∧
      after.machine.heap.print report.value = .ok "3" ∧
      runLine (.fresh true) countingLine = ([print "hi"], .more after) := by
  obtain ⟨after, run⟩ := run_countingLine
  refine ⟨isScript_countingLine, _, after, run, rfl, rfl, ?_, ?_⟩
  · exact print_scalar ..
  · rw [runLine_of_isScript isScript_countingLine run,
      shownReport_of_effects rfl (by simp) (by simp)]
    rfl

theorem runLine_answers_of_countingLine : IsScript countingLine ∧
    ∃ (report : Report) (after : Runner),
      (Runner.fresh true).run noHosts (lineSource countingLine) = (.ok report, after) ∧
      report.status = .success ∧ report.value ≠ .nothing ∧
      ∃ front last said m f shown,
        Node.statementsOf (lineSource countingLine) = front ++ [last] ∧
        Runs noHosts front (Runner.begun (Runner.fresh true).machine) said m ∧
        last.Calls (m.beginning last) f ∧
        runLine (.fresh true) countingLine = (shown, .more after) ∧
        Answer after.machine.heap report.value f said shown := by
  obtain ⟨after, run⟩ := run_countingLine
  exact ⟨isScript_countingLine, _, after, run, rfl, nofun,
    runLine_answers isScript_countingLine run rfl nofun⟩

end Console

end AliasScript

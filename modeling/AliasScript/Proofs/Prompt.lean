import AliasScript.Proofs.Progress

/-!
# The prompt and the script file

A line typed at the prompt is a source, and the same source can stand in a script file. What the
prompt shows of a line is held against what a file run of it shows on the same runner
(`Console.Reply`). A line that runs to its end shows the same, and its value when it wrote nothing;
a line that fails shows the complaint and nothing else, while the file run shows what was written
before (`Console.runLine_of_ok`). So a session goes line by line, the replies to one line before the
next is asked for (`Console.runLines_converses`).
-/

namespace AliasScript.Console

/-- The source in a typed line. -/
def lineSource (typed : String) : String := String.ofList (Text.trimBy Text.isTrimmed typed.toList)

/-- Shows a run of a source as that of a script file is shown. -/
def shownAsFile : Except Fault Report → List Output × Exit
  | .error fault => ([], .fault fault)
  | .ok report =>
    match report.status with
    | .success => (shownEffects report, .code 0)
    | .error => (shownEffects report ++ [complain report.format], .code 1)

/-- A script file shows the run of its text on a fresh runner. -/
theorem runFile_eq (text : String) : runFile text =
    shownAsFile ((Runner.fresh true).run noHosts
      (String.ofList (Text.unifyNewlines text.toList))).1 := by
  rw [runFile]
  rcases (Runner.fresh true).run noHosts (String.ofList (Text.unifyNewlines text.toList)) with
    ⟨_ | report, after⟩ <;> rfl

def onStream (topic : Topic) (outputs : List Output) : List Output :=
  outputs.filter (·.topic = topic)

theorem topic_of_mem_shownEffects {report : Report} {o : Output} (mem : o ∈ shownEffects report) :
    o.topic = .stdout := by
  obtain ⟨e, -, rfl⟩ := List.mem_map.1 mem
  rfl

/-- What the prompt shows of a line, against what a file run of the line shows, after a run that has
left the machine so. -/
inductive Reply (m : Machine) (report : Report) : List Output × Exit → List Output → Prop
  /-- The prompt shows what the file run shows. -/
  | same (outputs : List Output) : report.value = .nothing ∨ report.effects ≠ [] →
      Reply m report (outputs, .code 0) outputs
  /-- Nothing was written, and the prompt shows the value. -/
  | value {s : String} : report.effects = [] → m.heap.print report.value = .ok s →
      Reply m report ([], .code 0) [print s]
  /-- The file run shows what was written and then the complaint, the prompt the complaint alone. -/
  | failed {written : List Output} (s : String) : (∀ o ∈ written, o.topic = .stdout) →
      Reply m report (written ++ [complain s], .code 1) [complain s]

section

variable {m : Machine} {report : Report} {filed shown : List Output}

/-- A line that the file run gets to the end of, with something written, is shown the same. -/
theorem Reply.eq_of_code_zero (h : Reply m report (filed, .code 0) shown) (written : filed ≠ []) :
    shown = filed := by
  cases h with
  | same => rfl
  | value => exact absurd rfl written

/-- Both complain of the same, and of a line that fails the prompt shows nothing that was
written. -/
theorem Reply.of_code_one (h : Reply m report (filed, .code 1) shown) :
    onStream .stderr filed = shown ∧ onStream .stdout shown = [] := by
  generalize told : (filed, Exit.code 1) = pair at h
  cases h with
  | same | value => cases told
  | @failed written s out =>
    cases told
    refine ⟨?_, rfl⟩
    have none : onStream .stderr written = [] :=
      List.filter_eq_nil_iff.2 fun o mem => by simp [out o mem]
    rw [onStream, List.filter_append, ← onStream, none]
    rfl

end

/-! ## One line -/

variable {r after : Runner} {typed : String} {report : Report}

/-- A line that is run: it is neither blank nor the word that ends the session. -/
structure IsScript (typed : String) : Prop where
  notBlank : lineSource typed ≠ ""
  notExit : lineSource typed ≠ "exit"

theorem runLine_of_isScript (h : IsScript typed)
    (run : r.run noHosts (lineSource typed) = (.ok report, after)) :
    runLine r typed = match shownReport after.machine report with
      | .inl outputs => (outputs, .more after)
      | .inr fault => ([], .quit (.fault fault)) := by
  have same : String.ofList (Text.trimBy Text.isTrimmed typed.toList) = lineSource typed := rfl
  cases shown : shownReport after.machine report <;>
    simp only [runLine, same, if_neg h.notBlank, if_neg h.notExit, run, shown]

/-- A line whose run returns is replied to, unless it wrote nothing and its value cannot be
printed. -/
theorem runLine_of_ok (h : IsScript typed)
    (run : r.run noHosts (lineSource typed) = (.ok report, after)) :
    (∃ shown, runLine r typed = (shown, .more after) ∧
      Reply after.machine report (shownAsFile (.ok report)) shown) ∨
    ∃ fault, runLine r typed = ([], .quit (.fault fault)) ∧
      after.machine.heap.print report.value = .error fault ∧
      shownAsFile (.ok report) = ([], .code 0) := by
  rw [runLine_of_isScript h run]
  cases status : report.status with
  | error =>
    refine .inl ⟨[complain report.format], by simp only [shownReport, status], ?_⟩
    simp only [shownAsFile, status]
    exact .failed _ fun o mem => topic_of_mem_shownEffects mem
  | success =>
    have filed : shownAsFile (.ok report) = (shownEffects report, .code 0) := by
      simp only [shownAsFile, status]
    rw [filed]
    by_cases silent : report.value = .nothing ∨ report.effects ≠ []
    · exact .inl ⟨shownEffects report, by simp only [shownReport, status, if_pos silent],
        .same _ silent⟩
    · obtain ⟨-, none⟩ := not_or.1 silent
      have nothing : shownEffects report = [] := by
        rw [shownEffects, not_not.1 none]
        rfl
      rw [nothing]
      cases printed : after.machine.heap.print report.value with
      | ok s =>
        exact .inl ⟨[print s], by simp only [shownReport, status, if_neg silent, printed],
          .value (not_not.1 none) printed⟩
      | error fault =>
        exact .inr ⟨fault, by simp only [shownReport, status, if_neg silent, printed], rfl, rfl⟩

/-! ## Line by line -/

/-- A session at the prompt, with what it shows: the reply to each line stands between the prompt
for it and the prompt for the next, and the line runs on what the lines before have left. -/
inductive Converses : Runner → List String → List Output × Exit → Prop
  | over (r : Runner) : Converses r [] ([prompt, farewell], .code 0)
  | line {r after : Runner} {typed : String} {rest : List String} {report : Report}
    {shown others : List Output} {e : Exit} :
    r.run noHosts (lineSource typed) = (.ok report, after) →
    Reply after.machine report (shownAsFile (.ok report)) shown →
    Converses after rest (others, e) →
    Converses r (typed :: rest) (prompt :: shown ++ others, e)
  /-- A line that has written nothing ends the session when its value cannot be printed. -/
  | broken {r after : Runner} {typed : String} {report : Report} {fault : Fault}
    (rest : List String) : r.run noHosts (lineSource typed) = (.ok report, after) →
    after.machine.heap.print report.value = .error fault →
    shownAsFile (.ok report) = ([], .code 0) →
    Converses r (typed :: rest) ([prompt], .fault fault)

/-- Whatever lines are typed, if they run and each run returns, the prompt shows of each what a
file run on the same runner shows, before anything of the next line: all of it when the line
succeeds, and the complaint alone when it fails. -/
theorem runLines_converses {lines : List String} (scripts : ∀ typed ∈ lines, IsScript typed)
    {r : Runner}
    (returns : ∀ result ∈ (Runner.runAll noHosts r (lines.map lineSource)).1,
      ∃ report, result = .ok report) :
    Converses r lines (runLines r lines) := by
  induction lines generalizing r with
  | nil => exact .over r
  | cons typed rest ih =>
    obtain ⟨report, ok⟩ := returns _ (List.mem_cons_self ..)
    have run : r.run noHosts (lineSource typed) =
        (.ok report, (r.run noHosts (lineSource typed)).2) := Prod.ext ok rfl
    have later := ih (fun line mem => scripts line (List.mem_cons_of_mem _ mem))
      (fun result mem => returns result (List.mem_cons_of_mem _ mem))
    rw [runLines]
    rcases runLine_of_ok (scripts typed (List.mem_cons_self ..)) run with
      ⟨shown, replied, reply⟩ | ⟨fault, broken, unprinted, silent⟩
    · rw [replied]
      exact .line run reply later
    · rw [broken]
      exact .broken rest run unprinted silent

/-! ## A line that fails after it has written -/

def greetingLine : String := "write \"hi\"; x y"

theorem isScript_greetingLine : IsScript greetingLine := ⟨by decide, by decide⟩

theorem run_greetingLine : ∃ (report : Report) (s : String) (after : Runner),
    (Runner.fresh true).run noHosts (lineSource greetingLine) = (.ok report, after) ∧
      report.status = .error ∧ report.effects = [⟨.stdout, "hi"⟩, ⟨.stderr, s⟩] := by
  let at? (col : Int) (tag text : String) : Option Loc := some ⟨1, col, tag, .text text⟩
  let greeting : Node := .expression (.invocation (.identifier "write" (at? 1 "identifier" "write"))
    (.value (.literal (.string "hi" (at? 7 "string" "\"hi\"")) (at? 7 "literal" "\"hi\""))
      (at? 7 "value" "\"hi\"")) (at? 1 "invocation" "write \"hi\""))
    (at? 1 "expression" "write \"hi\"")
  let call : Node := .expression (.invocation (.identifier "x" (at? 13 "identifier" "x"))
    (.value (.variable (.scalar (.identifier "y" (at? 15 "identifier" "y"))
      (at? 15 "scalar" "y")) (at? 15 "variable" "y")) (at? 15 "value" "y"))
    (at? 13 "invocation" "x y")) (at? 13 "expression" "x y")
  have first : Grammar.statement ⟨1, 1, greetingLine.toList⟩ =
    some (greeting, ⟨1, 13, "x y".toList⟩) := rfl
  have second : Grammar.statement ⟨1, 13, "x y".toList⟩ = some (call, ⟨1, 16, []⟩) := rfl
  have last : Grammar.statement ⟨1, 16, []⟩ = none := rfl
  have read := Grammar.statements_of_some first (by decide)
  rw [Grammar.statements_of_some second (by decide), Grammar.statements_of_none last] at read
  have program := Node.ofSource_of_statements greetingLine read rfl rfl
  have line : lineSource greetingLine = greetingLine := by decide
  obtain ⟨after, statement, effects, run⟩ :=
    Runner.runSequence_greeting _ _ _ _ _ _ _ _ _ (at? 13 "expression" "x y")
  rw [line, Runner.run, Runner.parse_of_ok program,
    Runner.runProgram_error ((Runner.interpret_root noHosts [greeting, call] _ _).trans run),
    Runner.conclude, statement, effects]
  exact ⟨_, _, _, rfl, rfl, rfl⟩

/-- The file run of the line shows the greeting, the prompt does not. -/
theorem not_shown_of_greetingLine : IsScript greetingLine ∧
    ∃ (report : Report) (after : Runner),
      (Runner.fresh true).run noHosts (lineSource greetingLine) = (.ok report, after) ∧
      onStream .stdout (shownAsFile (.ok report)).1 = [print "hi"] ∧
      runLines (.fresh true) [greetingLine] =
        ([prompt, complain report.format, prompt, farewell], .code 0) := by
  obtain ⟨report, s, after, run, status, effects⟩ := run_greetingLine
  refine ⟨isScript_greetingLine, report, after, run, ?_, ?_⟩
  · simp only [shownAsFile, status, shownEffects, effects]
    rfl
  · have reply : runLine (.fresh true) greetingLine = ([complain report.format], .more after) := by
      rw [runLine_of_isScript isScript_greetingLine run]
      simp only [shownReport, status]
    rw [runLines, reply]
    rfl

theorem runLines_converses_of_greetingLine : IsScript greetingLine ∧
    (∃ report after, (Runner.fresh true).run noHosts (lineSource greetingLine) =
      (.ok report, after)) ∧
    Converses (.fresh true) [greetingLine] (runLines (.fresh true) [greetingLine]) := by
  obtain ⟨report, -, after, run, -⟩ := run_greetingLine
  refine ⟨isScript_greetingLine, ⟨report, after, run⟩, runLines_converses ?_ ?_⟩
  · intro typed mem
    exact List.mem_singleton.1 mem ▸ isScript_greetingLine
  · intro result mem
    exact ⟨report, (List.mem_singleton.1 mem).trans (congrArg Prod.fst run)⟩

end AliasScript.Console

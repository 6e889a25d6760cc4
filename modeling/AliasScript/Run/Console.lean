import AliasScript.Run.Runner

/-!
# The console

A script file is run to its end, or lines are read from a prompt and run one by one. Here both are
functions from what is read to what is written.
-/

namespace AliasScript

namespace Console

/-- A piece of output and its stream. -/
structure Output where
  topic : Topic
  text : String
deriving DecidableEq, Repr

def print (s : String) : Output := ⟨.stdout, s ++ "\n"⟩

def complain (s : String) : Output := ⟨.stderr, s ++ "\n"⟩

/-- No functions of a host are known at the console. -/
def noHosts : Hosts := fun _ _ => return .nothing

def shownEffects (r : Report) : List Output :=
  (r.effects.filter (·.topic = .stdout)).map fun e => print e.message

/-! ## Script files -/

/-- How a program ends: with an exit code, or by a fault that nothing handles. -/
inductive Exit where
  | code (n : Nat)
  | fault (f : Fault)

def runFile (text : String) : List Output × Exit :=
  let source := String.ofList (Text.unifyNewlines text.toList)
  match (Runner.fresh true).run noHosts source with
  | (.error fault, _) => ([], .fault fault)
  | (.ok report, _) =>
    match report.status with
    | .success => (shownEffects report, .code 0)
    | .error => (shownEffects report ++ [complain report.format], .code 1)

/-- What is said of a script file that is not there. -/
def missingFile (path : String) : List Output × Exit :=
  ([complain ("Error: file not found: " ++ path)], .code 1)

/-- A first argument that names a script file; an argument with a dash in front does not. -/
def scriptPath? : List String → Option String
  | [] => none
  | arg :: _ => if arg.toList.head? = some '-' then none else some arg

/-! ## The prompt -/

def greeting : List Output :=
  [print "Isla REPL v0.1", print "Type 'exit' or press Ctrl+D to quit."]

def prompt : Output := ⟨.stdout, ">> "⟩

def farewell : Output := print "\nExiting."

/-- What follows a typed line. -/
inductive Next where
  | more (r : Runner)
  | quit (e : Exit)

/-- What is shown of a line that has run. -/
def shownReport (m : Machine) (report : Report) : List Output ⊕ Fault :=
  match report.status with
  | .error => .inl [complain report.format]
  | .success =>
    if report.value = .nothing ∨ report.effects ≠ [] then .inl (shownEffects report)
    else match m.heap.print report.value with
      | .ok s => .inl [print s]
      | .error fault => .inr fault

def runLine (r : Runner) (typed : String) : List Output × Next :=
  let line := String.ofList (Text.trimBy Text.isTrimmed typed.toList)
  if line = "" then ([], .more r)
  else if line = "exit" then ([], .quit (.code 0))
  else
    match r.run noHosts line with
    | (.error fault, _) => ([], .quit (.fault fault))
    | (.ok report, after) =>
      match shownReport after.machine report with
      | .inl outputs => (outputs, .more after)
      | .inr fault => ([], .quit (.fault fault))

/-- Runs typed lines until one of them ends the session or there are no more. -/
def runLines (r : Runner) : List String → List Output × Exit
  | [] => ([prompt, farewell], .code 0)
  | line :: rest =>
    match runLine r line with
    | (outputs, .quit e) => (prompt :: outputs, e)
    | (outputs, .more after) =>
      let (others, e) := runLines after rest
      (prompt :: outputs ++ others, e)

/-- A session at the prompt, from everything that is typed. -/
def session (typed : String) : List Output × Exit :=
  let lines := (Text.typedLines typed.toList).map String.ofList
  let (outputs, e) := runLines (.fresh true) lines
  (greeting ++ outputs, e)

def received (topic : Topic) (outputs : List Output) : String :=
  String.join ((outputs.filter (·.topic = topic)).map Output.text)

end Console

end AliasScript

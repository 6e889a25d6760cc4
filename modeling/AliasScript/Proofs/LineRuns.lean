import AliasScript.Proofs.Ahead
import AliasScript.Proofs.FailedCalls
import AliasScript.Proofs.Lines
import AliasScript.Proofs.Writing

/-!
# Running line by line

Running a source and running its lines one after the other come to the same (`Runner.run_by_line`).
Each line starts where the line before has stopped, with no messages and nothing returned. So the
machine of the whole source is the machine of the lines, with the messages of the lines above
recorded before (`Machine.Resumes`); what the last statement returned is forgotten when the next one
begins.
-/

namespace AliasScript

/-- The second machine can go on where the first one has stopped: it has the same store, and the
messages recorded before. -/
def Machine.Resumes (front : List Effect) (m m' : Machine) : Prop :=
  ∃ ret statement, m' = { m with effects := front, ret, statement }

def Ends (p : Except Fault Outcome × Machine) : Prop := ∃ ret m, p = (.ok (.done ret), m)

variable {hosts : Hosts} {m m' : Machine} {front : List Effect}

theorem runSequence_fresh (node : Node) (rest below : List Node) (b : Binding) (m : Machine) :
    runSequence hosts (node :: rest ++ below) (.done b) m =
      (runSequence hosts (node :: rest) (.done .nothing) >>=
        fun outcome => runSequence hosts below outcome) { m with ret := .nothing } := by
  rw [← runSequence_append, List.cons_append, runSequence, runSequence,
    act_bind_ok (show begin node m = (.ok (), _) from rfl),
    act_bind_ok (show begin node { m with ret := .nothing } = (.ok (), _) from rfl)]

theorem ends_of_fst {p : Except Fault Outcome × Machine} {ret : Binding}
    (h : p.1 = .ok (.done ret)) : Ends p :=
  ⟨ret, p.2, Prod.ext h rfl⟩

theorem ends_of_bind {x : Run Outcome} {below : List Node}
    (h : Ends ((x >>= fun outcome => runSequence hosts below outcome) m)) : Ends (x m) := by
  obtain ⟨ret, m', run⟩ := h
  obtain ⟨outcome, m₁, first, rest⟩ := exists_of_act_bind_ok run
  cases outcome with
  | done ret' => exact ⟨ret', m₁, first⟩
  | reading | leaf =>
    cases below with
    | nil =>
      rw [runSequence] at rest
      cases rest
    | cons node others =>
      rw [runSequence] at rest
      · cases rest
      · rintro _ ⟨⟩

namespace Runner

variable {r : Runner}

/-- Runs scripts one after the other, whatever becomes of each. -/
def runAll (hosts : Hosts) : Runner → List String → List (Except Fault Report) × Runner
  | r, [] => ([], r)
  | r, source :: sources =>
    let (result, after) := r.run hosts source
    let (results, last) := runAll hosts after sources
    (result :: results, last)

def Succeeds (result : Except Fault Report) : Prop :=
  ∃ report, result = .ok report ∧ report.status = .success

/-- What scripts have returned, but for those that have no statements. -/
def returned (sources : List String) (reports : List Report) : List Binding :=
  (sources.zip reports).filterMap fun (source, report) =>
    if (Node.statementsOf source).isEmpty then none else some report.value

theorem getLastD_returned_cons (source : String) (sources : List String) (report : Report)
    (reports : List Report) (b : Binding) :
    (returned (source :: sources) (report :: reports)).getLastD b =
      (returned sources reports).getLastD
        (if (Node.statementsOf source).isEmpty then b else report.value) := by
  rw [returned, List.zip_cons_cons]
  cases empty : (Node.statementsOf source).isEmpty with
  | true =>
    rw [List.filterMap_cons_none (by simp only [empty, if_true])]
    rfl
  | false =>
    rw [List.filterMap_cons_some (b := report.value) (by simp [empty])]
    exact List.getLastD_cons ..

/-! ## One script -/

theorem isProgram_of_succeeds {source : String} (succeeds : Succeeds (r.run hosts source).1) :
    ∃ root, Node.ofSource source = .ok root := by
  cases program : Node.ofSource source with
  | ok root => exact ⟨root, rfl⟩
  | error e =>
    rw [run_fst, parse_of_error program] at succeeds
    exact absurd succeeds (not_success_of_conclude _ _ _)

theorem run_of_ends {source : String} {body : List Node} {loc : Option Loc} {ret : Binding}
    {after : Machine} (program : Node.ofSource source = .ok (.root body loc))
    (run : runSequence hosts body (.done .nothing) (begun r.machine) = (.ok (.done ret), after)) :
    r.run hosts source = (.ok ⟨.success, ret, none, .null, after.effects⟩,
      { r with machine := { after with ret } }) := by
  rw [← interpret_root hosts body loc] at run
  rw [Runner.run, parse_of_ok program, runProgram_ok run]

theorem run_of_statement {source : String} {node : Node} {loc : Option Loc} {ret : Binding}
    {after : Machine} (program : Node.ofSource source = .ok (.root [node] loc))
    (run : interpret hosts node { begun r.machine with statement := node.loc, ret := .nothing } =
      (.ok (.done ret), after)) :
    r.run hosts source = (.ok ⟨.success, ret, none, .null, after.effects⟩,
      { r with machine := { after with ret } }) := by
  rw [Runner.run, parse_of_ok program, runProgram_ok ((interpret_root_one ..).trans run)]

theorem ends_of_succeeds {source : String} {body : List Node} {loc : Option Loc}
    (program : Node.ofSource source = .ok (.root body loc))
    (succeeds : Succeeds (r.run hosts source).1) :
    Ends (runSequence hosts body (.done .nothing) (begun r.machine)) := by
  rw [run_fst, parse_of_ok program] at succeeds
  rw [← interpret_root hosts body loc]
  rcases run : interpret hosts (.root body loc) (begun r.machine) with ⟨e | outcome, after⟩
  · rw [runProgram_error run] at succeeds
    exact absurd succeeds (not_success_of_conclude _ _ _)
  · cases outcome with
    | done ret => exact ⟨ret, after, rfl⟩
    | reading | leaf =>
      rw [begun] at run
      obtain ⟨report, same, -⟩ := succeeds
      simp only [runProgram, run] at same
      cases same

/-! ## A line and the lines below -/

/-- A line of a source does what it does alone: it fails and the source does not run to its end, or
the lines below go on where it has stopped. -/
theorem run_line (oblivious : hosts.Oblivious) {line : String} {body : List Node} {loc : Option Loc}
    (program : Node.ofSource line = .ok (.root body loc)) (k : Nat) {m : Machine}
    (resumes : r.machine.Resumes front m) :
    (¬ Succeeds (r.run hosts line).1 ∧ ∀ below b,
      ¬ Ends (runSequence hosts (body.map (Node.lowered k) ++ below) (.done b) m)) ∨
    ∃ report after m', r.run hosts line = (.ok report, after) ∧ report.status = .success ∧
      after.machine.Resumes (front ++ report.effects) m' ∧ ∀ below b,
        runSequence hosts (body.map (Node.lowered k) ++ below) (.done b) m =
          runSequence hosts below (.done (if body.isEmpty then b else report.value)) m' := by
  obtain ⟨ret, statement, rfl⟩ := resumes
  cases body with
  | nil =>
    have run : runSequence hosts [] (.done .nothing) (begun r.machine) =
        (.ok (.done .nothing), begun r.machine) := by
      rw [runSequence]
      rfl
    refine .inr ⟨_, _, _, run_of_ends program run, rfl, ⟨ret, statement, ?_⟩, fun below b => rfl⟩
    simp [begun]
  | cons node rest =>
    have ahead : (begun r.machine).Ahead front
        { r.machine with effects := front, ret := .nothing, statement } :=
      ⟨statement, by simp [begun]⟩
    have same := runSequence_lowered oblivious k (node :: rest) (.done .nothing) front _ _ ahead
    rw [← Node.allLowered_eq_map, Node.allLowered]
    rw [Node.allLowered] at same
    by_cases ends : Ends (runSequence hosts (node :: rest) (.done .nothing) (begun r.machine))
    · obtain ⟨ret', after, here⟩ := ends
      rw [here] at same
      obtain ⟨result, statement', lowered⟩ := same
      refine .inr ⟨_, _, _, run_of_ends program here, rfl, ⟨after.ret, statement', rfl⟩, ?_⟩
      intro below b
      rw [runSequence_fresh]
      exact act_bind_ok (Prod.ext result lowered)
    · refine .inl ⟨fun succeeds => ends (ends_of_succeeds program succeeds), ?_⟩
      intro below b whole
      rw [runSequence_fresh] at whole
      obtain ⟨ret', after, there⟩ := ends_of_bind whole
      have result := same.1
      rw [there] at result
      exact ends (ends_of_fst result.symm)

/-! ## All lines -/

theorem exists_run_of_mem (hosts : Hosts) {sources : List String} {source : String}
    (mem : source ∈ sources) :
    ∀ r : Runner, ∃ r' : Runner, (r'.run hosts source).1 ∈ (runAll hosts r sources).1 := by
  induction sources with
  | nil => cases mem
  | cons first others ih =>
    intro r
    rcases List.mem_cons.1 mem with rfl | mem
    · exact ⟨r, List.mem_cons_self ..⟩
    · obtain ⟨r', known⟩ := ih mem (r.run hosts first).2
      exact ⟨r', List.mem_cons_of_mem _ known⟩

theorem exists_fails_of_error (hosts : Hosts) (r : Runner) {source : String} {e : ProgramError}
    (failed : Node.ofSource source = .error e) :
    ∃ result ∈ (runAll hosts r (Text.linesOf source)).1, ¬ Succeeds result := by
  by_contra all
  have programs : ∀ line ∈ Text.linesOf source, ∃ root, Node.ofSource line = .ok root := by
    intro line mem
    obtain ⟨r', known⟩ := exists_run_of_mem hosts mem r
    exact isProgram_of_succeeds (by_contra fun fails => all ⟨_, known, fails⟩)
  obtain ⟨root, program⟩ := (Node.isProgram_iff_lines source).2 programs
  cases failed.symm.trans program

/-- Lines of programs, the first of which stands below `k` others, run as their statements do in one
program: some line fails and the statements do not run to their end, or all lines succeed. -/
theorem runAll_lines (oblivious : hosts.Oblivious) {lines : List String}
    (programs : ∀ line ∈ lines, ∃ root, Node.ofSource line = .ok root) :
    ∀ (k : Nat) {r : Runner} {front : List Effect} {m : Machine} (b : Binding),
      r.machine.Resumes front m →
      let whole := runSequence hosts (lines.mapIdx fun i line =>
        (Node.statementsOf line).map (Node.lowered (k + i))).flatten (.done b) m
      (¬ Ends whole ∧ ∃ result ∈ (runAll hosts r lines).1, ¬ Succeeds result) ∨
      ∃ reports last m', runAll hosts r lines = (reports.map .ok, last) ∧
        (∀ report ∈ reports, report.status = .success) ∧
        last.machine.Resumes (front ++ reports.flatMap Report.effects) m' ∧
        whole = (.ok (.done ((returned lines reports).getLastD b)), m') := by
  induction lines with
  | nil =>
    intro k r front m b resumes
    refine .inr ⟨[], r, m, rfl, ?_, ?_, ?_⟩
    · simp
    · simpa using resumes
    · rfl
  | cons line lines ih =>
    intro k r front m b resumes
    obtain ⟨root, program⟩ := programs line (List.mem_cons_self ..)
    have below : ∀ i, k + 1 + i = k + (i + 1) := fun i => by omega
    have same := Node.eq_root_of_ofSource program
    rw [same] at program
    simp only [List.mapIdx_cons, List.flatten_cons, Nat.add_zero]
    rcases run_line oblivious program k resumes with ⟨fails, stuck⟩ |
      ⟨report, after, m', run, success, resumes', goes⟩
    · exact .inl ⟨stuck _ b, _, List.mem_cons_self .., fails⟩
    · rw [goes]
      have next := ih (fun other mem => programs other (List.mem_cons_of_mem _ mem)) (k + 1)
        (if (Node.statementsOf line).isEmpty then b else report.value) resumes'
      simp only [below] at next
      rcases next with ⟨stuck, result, mem, fails⟩ |
        ⟨reports, last, m'', runs, successes, resumes'', ends⟩
      · refine .inl ⟨stuck, result, ?_, fails⟩
        rw [runAll, run]
        exact List.mem_cons_of_mem _ mem
      · refine .inr ⟨report :: reports, last, m'', ?_, ?_, ?_, ?_⟩
        · rw [runAll, run]
          simp [runs]
        · simpa using ⟨success, successes⟩
        · simpa using resumes''
        · rw [ends, getLastD_returned_cons]

theorem run_lines (oblivious : hosts.Oblivious) (r : Runner) (source : String) :
    (¬ Succeeds (r.run hosts source).1 ∧
      ∃ result ∈ (runAll hosts r (Text.linesOf source)).1, ¬ Succeeds result) ∨
    ∃ report after reports last, r.run hosts source = (.ok report, after) ∧
      runAll hosts r (Text.linesOf source) = (reports.map .ok, last) ∧
      report.status = .success ∧ (∀ line ∈ reports, line.status = .success) ∧
      last.machine.Resumes (reports.flatMap Report.effects) after.machine ∧
      report.effects = reports.flatMap Report.effects ∧
      report.value = (returned (Text.linesOf source) reports).getLastD .nothing := by
  cases program : Node.ofSource source with
  | error e =>
    refine .inl ⟨fun succeeds => ?_, exists_fails_of_error hosts r program⟩
    obtain ⟨root, same⟩ := isProgram_of_succeeds succeeds
    cases program.symm.trans same
  | ok root =>
    have programs := (Node.isProgram_iff_lines source).1 ⟨root, program⟩
    have same := Node.eq_root_of_ofSource program
    rw [Node.statementsOf_lines program] at same
    rw [same] at program
    have begins : r.machine.Resumes [] (begun r.machine) := ⟨.nothing, none, rfl⟩
    have whole := runAll_lines oblivious programs 0 .nothing begins
    simp only [Nat.zero_add] at whole
    rcases whole with ⟨stuck, fails⟩ | ⟨reports, last, m', runs, successes, resumes, ends⟩
    · exact .inl ⟨fun succeeds => stuck (ends_of_succeeds program succeeds), fails⟩
    · obtain ⟨ret, statement, rfl⟩ := resumes
      exact .inr ⟨_, _, reports, last, run_of_ends program ends, runs, rfl, successes,
        ⟨_, statement, rfl⟩, rfl, rfl⟩

/-- A source succeeds on a runner exactly where each of its lines does, when they run one after the
other. Then both leave the same names, types and heap, the messages of the source are those of the
lines in order, and the source returns what the last line that has a statement returns. -/
theorem run_by_line (oblivious : hosts.Oblivious) (r : Runner) (source : String) :
    (Succeeds (r.run hosts source).1 ↔
      ∀ result ∈ (runAll hosts r (Text.linesOf source)).1, Succeeds result) ∧
    ∀ report after, r.run hosts source = (.ok report, after) → report.status = .success →
      ∃ reports last, runAll hosts r (Text.linesOf source) = (reports.map .ok, last) ∧
        after.machine.names = last.machine.names ∧ after.machine.types = last.machine.types ∧
        after.machine.heap = last.machine.heap ∧
        report.effects = reports.flatMap Report.effects ∧
        report.value = (returned (Text.linesOf source) reports).getLastD .nothing := by
  rcases run_lines oblivious r source with ⟨refused, result, mem, fails⟩ |
    ⟨report, after, reports, last, run, runs, success, successes, ⟨ret, statement, same⟩, effects,
      value⟩
  · refine ⟨iff_of_false refused fun succeeds => fails (succeeds result mem), ?_⟩
    intro report after run success
    rw [run] at refused
    exact absurd ⟨report, rfl, success⟩ refused
  · rw [run, runs]
    refine ⟨iff_of_true ⟨report, rfl, success⟩ fun result mem => ?_, ?_⟩
    · obtain ⟨line, known, rfl⟩ := List.mem_map.1 mem
      exact ⟨line, rfl, successes line known⟩
    · rintro report' after' ⟨⟩ -
      refine ⟨reports, last, rfl, ?_, ?_, ?_, effects, value⟩
      · rw [same]
      · rw [same]
      · rw [same]

/-- A function of the host that says whether something has been returned. -/
def seeing : Hosts := fun _ _ => Run.ask fun m =>
  .ok (.value (.text (if m.ret = .nothing then "ret was nothing" else "ret was something")))

def seer : Runner := { fresh true with machine := { Machine.fresh true with
  names := Machine.builtins.set "see" (.value (.scalar (.function (.host "see")))) } }

def greetingOnce : String := "write \"hi\""

theorem run_greetingOnce {r : Runner}
    (builtIn : r.machine.names.read "write" = .value (.scalar (.function .write))) :
    ∃ after, r.run seeing greetingOnce =
        (.ok ⟨.success, .value (.text "hi"), none, .null, [⟨.stdout, "hi"⟩]⟩, after) ∧
      after.machine.names = r.machine.names := by
  obtain ⟨a, b, c, d, e, f, first⟩ : ∃ a b c d e f, Grammar.statement ⟨1, 1, greetingOnce.toList⟩ =
      some (.expression (.invocation (.identifier "write" a)
        (.value (.literal (.string "hi" b) c) d) e) f, ⟨1, 11, []⟩) := ⟨_, _, _, _, _, _, rfl⟩
  have last : Grammar.statement ⟨1, 11, []⟩ = none := rfl
  have read := Grammar.statements_of_some first (by decide)
  rw [Grammar.statements_of_none last] at read
  have program := Node.ofSource_of_statements greetingOnce read rfl rfl
  let begins : Machine := { begun r.machine with statement := f }
  obtain ⟨line, greets⟩ := interpret_write_text seeing (m := begins) builtIn "hi"
  exact ⟨_, run_of_statement program greets, rfl⟩

theorem run_seeingOnce {r : Runner}
    (bound : r.machine.names.read "see" = .value (.scalar (.function (.host "see")))) :
    ∃ after, r.run seeing "see 1" =
      (.ok ⟨.success, .value (.text "ret was nothing"), none, .null, []⟩, after) := by
  obtain ⟨a, b, c, d, e, f, first⟩ : ∃ a b c d e f, Grammar.statement ⟨1, 1, "see 1".toList⟩ =
      some (.expression (.invocation (.identifier "see" a)
        (.value (.literal (.integer 1 b) c) d) e) f, ⟨1, 6, []⟩) := ⟨_, _, _, _, _, _, rfl⟩
  have last : Grammar.statement ⟨1, 6, []⟩ = none := rfl
  have read := Grammar.statements_of_some first (by decide)
  rw [Grammar.statements_of_none last] at read
  have program := Node.ofSource_of_statements "see 1" read rfl rfl
  let begins : Machine := { begun r.machine with statement := f }
  obtain ⟨line, sees⟩ : ∃ line, interpret seeing (.expression (.invocation (.identifier "see" a)
      (.value (.literal (.integer 1 b) c) d) e) f) begins =
        (.ok (.done (.value (.text "ret was nothing"))), begins.noted line) := by
    rw [interpret]
    exact interpret_invocation_of_literal (m := begins) bound (interpret_integer ..)
  exact ⟨_, run_of_statement program sees⟩

theorem run_blank (r : Runner) : ∃ after,
    r.run seeing "" = (.ok ⟨.success, .nothing, none, .null, []⟩, after) := by
  have last : Grammar.statement ⟨1, 1, "".toList⟩ = none := rfl
  have program := Node.ofSource_of_statements "" (Grammar.statements_of_none last) rfl rfl
  have run : runSequence seeing [] (.done .nothing) (begun r.machine) =
      (.ok (.done .nothing), begun r.machine) := by
    rw [runSequence]
    rfl
  exact ⟨_, run_of_ends program run⟩

/-- A script that writes twice, calls the function of the host and ends with an empty line. -/
def repeated : String := "write \"hi\"\nwrite \"hi\"\nsee 1\n"

/-- Line by line the same is written, and the host's function finds in the script too that nothing
has been returned before it is called. -/
theorem run_by_line_of_repeated : Hosts.Oblivious seeing ∧
    ∃ (report : Report) (after : Runner) (reports : List Report) (last : Runner),
      seer.run seeing repeated = (.ok report, after) ∧ report.status = .success ∧
      runAll seeing seer [greetingOnce, greetingOnce, "see 1", ""] = (reports.map .ok, last) ∧
      reports.map Report.effects = [[⟨.stdout, "hi"⟩], [⟨.stdout, "hi"⟩], [], []] ∧
      reports.map Report.value =
        [.value (.text "hi"), .value (.text "hi"), .value (.text "ret was nothing"), .nothing] ∧
      report.effects = [⟨.stdout, "hi"⟩, ⟨.stdout, "hi"⟩] ∧
      report.value = .value (.text "ret was nothing") ∧
      after.machine.names = last.machine.names ∧ after.machine.heap = last.machine.heap := by
  have oblivious : Hosts.Oblivious seeing := fun _ _ => Run.oblivious_ask fun _ _ _ => rfl
  obtain ⟨r₁, first, names₁⟩ := run_greetingOnce (r := seer) rfl
  obtain ⟨r₂, second, names₂⟩ := run_greetingOnce (r := r₁) (by rw [names₁]; rfl)
  obtain ⟨r₃, third⟩ := run_seeingOnce (r := r₂) (by rw [names₂, names₁]; rfl)
  have lines : Text.linesOf repeated = [greetingOnce, greetingOnce, "see 1", ""] := by decide
  obtain ⟨succeeds, same⟩ := run_by_line oblivious seer repeated
  obtain ⟨r₄, fourth⟩ := run_blank r₃
  let told : List Report :=
    [⟨.success, .value (.text "hi"), none, .null, [⟨.stdout, "hi"⟩]⟩,
      ⟨.success, .value (.text "hi"), none, .null, [⟨.stdout, "hi"⟩]⟩,
      ⟨.success, .value (.text "ret was nothing"), none, .null, []⟩,
      ⟨.success, .nothing, none, .null, []⟩]
  have all : runAll seeing seer [greetingOnce, greetingOnce, "see 1", ""] = (told.map .ok, r₄) := by
    simp only [runAll, first, second, third, fourth]
    rfl
  rw [lines, all] at succeeds same
  obtain ⟨report, ends, success⟩ := succeeds.2 (by simp [told, Succeeds])
  rcases run : seer.run seeing repeated with ⟨result, after⟩
  rw [run] at ends same
  cases ends
  obtain ⟨reports, last, runs, names, -, heap, effects, value⟩ := same report after rfl success
  obtain ⟨whole, rfl⟩ := Prod.mk.inj runs
  obtain rfl : told = reports := List.map_injective_iff.2 (fun _ _ => Except.ok.inj) whole
  refine ⟨oblivious, report, after, told, r₄, rfl, success, all, rfl, rfl, effects, ?_, names, heap⟩
  -- The empty line has no statement, so what the line before has returned is returned.
  have some : (Node.statementsOf "see 1").isEmpty = false := by decide +kernel
  have none : (Node.statementsOf "").isEmpty = true := by decide +kernel
  rw [value, getLastD_returned_cons, getLastD_returned_cons, getLastD_returned_cons,
    getLastD_returned_cons, some, none]
  rfl

end Runner

end AliasScript

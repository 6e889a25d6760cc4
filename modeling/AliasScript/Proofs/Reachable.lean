import AliasScript.Proofs.RawTree
import AliasScript.Proofs.Statements
import AliasScript.Run.Console

/-!
# What a runner can come to

The runners that scripts and resets make of a fresh one are machines that scripts can make
(`Runner.Reachable.scripted`). So no script trips over the interpreter (`Runner.run_of_reachable`),
and following a reference ends unless an object is needed to find itself
(`Runner.follow_ends_iff_of_reachable`).
-/

namespace AliasScript

open Relation

namespace Runner

/-- The runners that can be made of a fresh one by running scripts and forgetting all names. -/
inductive Reachable (hosts : Hosts) : Runner → Prop
  | fresh (library : Bool) : Reachable hosts (.fresh library)
  | run {r : Runner} (source : String) : Reachable hosts r → Reachable hosts (r.run hosts source).2
  | reset {r : Runner} : Reachable hosts r → Reachable hosts r.reset

theorem scripted_fresh (library : Bool) : (Machine.fresh library).Scripted where
  store := by
    refine ⟨?_, fun a c there => absurd (Heap.lt_size_of_get? there) (Nat.not_lt_zero a)⟩
    cases library with
    | false => exact Table.scripted_empty
    | true => exact ⟨by decide, fun entry mem => by
        have known : entry ∈ [("count", Binding.value (.scalar (.function .count))),
          ("describe", .value (.scalar (.function .describe))),
          ("write", .value (.scalar (.function .write)))] := mem
        simp only [List.mem_cons, List.not_mem_nil, or_false] at known
        rcases known with rfl | rfl | rfl <;> exact ⟨by decide, trivial⟩⟩
  types := rfl

theorem account_of_ofProgram (source : String) (loc : Option Loc) {e : Fault} (h : e.OfProgram) :
    (∃ told, Report.account source loc e = .ok told) ∨
      (e = .endless ∧ Report.account source loc e = .error .endless) := by
  cases h with
  | endless => exact .inr ⟨rfl, rfl⟩
  | _ => exact .inl ⟨_, rfl⟩

theorem conclude_of_account {source : String} {m : Machine} {e : Fault} {told : String × Raw}
    (h : Report.account source m.statement e = .ok told) :
    ∃ report, (conclude source m e).1 = .ok report := by
  rw [conclude, h]
  exact ⟨_, rfl⟩

theorem conclude_machine (source : String) (m : Machine) (e : Fault) :
    ∃ effects, (conclude source m e).2 = { m with effects } := by
  rw [conclude]
  split
  · exact ⟨m.effects, rfl⟩
  · exact ⟨_, rfl⟩

/-- The machine that a script starts on. -/
def begun (m : Machine) : Machine := { m with effects := [], statement := none, ret := .nothing }

theorem parse_of_ok {source : String} {root : Node} (program : Node.ofSource source = .ok root) :
    parse source = .ok root := by
  rw [parse, program]
  rfl

theorem parse_of_error {source : String} {e : ProgramError}
    (failed : Node.ofSource source = .error e) : parse source = .error e.fault := by
  rw [parse, failed]
  rfl

theorem interpret_root (hosts : Hosts) (body : List Node) (loc : Option Loc) (m : Machine) :
    interpret hosts (.root body loc) (begun m) =
      runSequence hosts body (.done .nothing) (begun m) := by
  rw [interpret, act_bind_ok (show (get : Run Machine) _ = (.ok _, _) from rfl)]
  rfl

variable {hosts : Hosts} {r : Runner}

theorem run_fst (source : String) :
    (r.run hosts source).1 = (runProgram hosts source (parse source) r.machine).1 := rfl

theorem run_machine (source : String) :
    (r.run hosts source).2.machine = (runProgram hosts source (parse source) r.machine).2 := rfl

theorem runProgram_ok {source : String} {root : Node} {m after : Machine} {ret : Binding}
    (run : interpret hosts root (begun m) = (.ok (.done ret), after)) :
    runProgram hosts source (.ok root) m =
      (.ok ⟨.success, ret, none, .null, after.effects⟩, { after with ret }) := by
  rw [begun] at run
  simp only [runProgram, run]

theorem runProgram_error {source : String} {root : Node} {m after : Machine} {e : Fault}
    (run : interpret hosts root (begun m) = (.error e, after)) :
    runProgram hosts source (.ok root) m = conclude source after e := by
  rw [begun] at run
  simp only [runProgram, run]

/-- A script whose statements lead from one store to another leaves the runner with that one. -/
theorem machine_of_moves {source : String} {body : List Node} {loc : Option Loc} {s : Store}
    (program : Node.ofSource source = .ok (.root body loc))
    (types : r.machine.types = Template.defaults)
    (moves : Moves hosts body r.machine.store s) :
    (r.run hosts source).2.machine.store = s ∧
      (r.run hosts source).2.machine.types = Template.defaults := by
  obtain ⟨after, run, ends⟩ := moves (begun r.machine) rfl types
  rw [run_machine, parse_of_ok program, runProgram_ok ((interpret_root ..).trans run)]
  exact ends

theorem scripted_conclude {m : Machine} (machine : m.Scripted)
    (source : String) (e : Fault) : (conclude source m e).2.Scripted := by
  obtain ⟨effects, same⟩ := conclude_machine source m e
  rw [same]
  exact ⟨machine.store, machine.types⟩

/-- What a script comes to: the report on a text that is no program, an integer out of range, or
what running its tree comes to. -/
theorem runProgram_cases (hosts : Hosts) (source : String) {m : Machine} (machine : m.Scripted) :
    (runProgram hosts source (parse source) m).2.Scripted ∧
      ((∃ report, (runProgram hosts source (parse source) m).1 = .ok report) ∨
        (∃ negative, Node.ofSource source = .error (.tooLarge negative) ∧
          (runProgram hosts source (parse source) m).1 = .error (.tooLarge negative)) ∨
        (runProgram hosts source (parse source) m).1 = .error .endless) := by
  rw [parse]
  cases read : Node.ofSource source with
  | error failure =>
    have cleared : Machine.Scripted { m with effects := [], statement := none } :=
      ⟨machine.store, machine.types⟩
    refine ⟨scripted_conclude cleared .., ?_⟩
    cases failure with
    | unread place => exact .inl (conclude_of_account rfl)
    | tooLarge negative => exact .inr (.inl ⟨negative, rfl, rfl⟩)
  | ok root =>
    have begins : (begun m).Scripted := ⟨machine.store, machine.types⟩
    obtain ⟨machine', ends⟩ := (Node.isProgram_of_ofSource read).safe hosts begins
    rcases run : interpret hosts root (begun m) with ⟨e | outcome, after⟩
    · rw [run] at machine' ends
      have result : runProgram hosts source ((Except.ok root).mapError ProgramError.fault) m =
        conclude source after e := runProgram_error run
      rw [result]
      refine ⟨scripted_conclude machine' .., ?_⟩
      rcases account_of_ofProgram source after.statement ends with
        ⟨told, account⟩ | ⟨rfl, account⟩
      · exact .inl (conclude_of_account account)
      · exact .inr (.inr (by rw [conclude, account]))
    · rw [run] at machine' ends
      obtain ⟨ret, rfl⟩ := ends
      have result : runProgram hosts source ((Except.ok root).mapError ProgramError.fault) m =
        (.ok ⟨.success, ret, none, .null, after.effects⟩, { after with ret }) := runProgram_ok run
      rw [result]
      exact ⟨⟨machine'.store, machine'.types⟩, .inl ⟨_, rfl⟩⟩

theorem Reachable.scripted (h : Reachable hosts r) : r.machine.Scripted := by
  induction h with
  | fresh library => exact scripted_fresh library
  | run source _ ih => exact (runProgram_cases hosts source ih).1
  | @reset r _ _ =>
    have blank := scripted_fresh r.library
    exact ⟨blank.store, blank.types⟩

/-- A script never trips over the interpreter. Running it ends with a report, or the parser refuses
an integer, or following or printing does not end; whatever the grammar accepts can be read back
from its raw tree, and running it ends with what its last statement returned or with a fault that a
program can cause. -/
theorem run_of_reachable (reachable : Reachable hosts r) (source : String) :
    ((∃ report, (r.run hosts source).1 = .ok report) ∨
      (∃ negative, Node.ofSource source = .error (.tooLarge negative) ∧
        (r.run hosts source).1 = .error (.tooLarge negative)) ∨
      (r.run hosts source).1 = .error .endless) ∧
    ∀ root, Node.ofSource source = .ok root → Node.ofRaw root.raw = .ok root ∧
      ∃ result after, interpret hosts root (begun r.machine) = (result, after) ∧
        ((∃ ret, result = .ok (.done ret)) ∨ ∃ e, result = .error e ∧ e.OfProgram) := by
  have machine := reachable.scripted
  refine ⟨(runProgram_cases hosts source machine).2, fun root read => ?_⟩
  have program := Node.isProgram_of_ofSource read
  have begins : (begun r.machine).Scripted := ⟨machine.store, machine.types⟩
  refine ⟨program.ofRaw_raw, _, _, rfl, ?_⟩
  obtain ⟨-, ends⟩ := program.safe hosts begins
  cases result : (interpret hosts root (begun r.machine)).1 with
  | error e =>
    rw [result] at ends
    exact .inr ⟨e, rfl, ends⟩
  | ok outcome =>
    rw [result] at ends
    obtain ⟨ret, rfl⟩ := ends
    exact .inl ⟨ret, rfl⟩

def selfNamed : Runner := ((fresh true).run Console.noHosts "x is x y").2

def selfNaming : Node :=
  let at? (col : Int) (tag text : String) : Option Loc := some ⟨1, col, tag, .text text⟩
  let obj : Node := .identifier "x" (at? 6 "identifier" "x")
  let attr : Node := .identifier "y" (at? 8 "identifier" "y")
  let value : Node :=
    .value (.variable (.object obj attr (at? 6 "object" "x y")) (at? 6 "variable" "x y"))
      (at? 6 "value" "x y")
  let name : Node := .scalar (.identifier "x" (at? 1 "identifier" "x")) (at? 1 "scalar" "x")
  .expression (.valueAssignment (.assignee name (at? 1 "assignee" "x")) value
    (at? 1 "value_assignment" "x is x y")) (at? 1 "expression" "x is x y")

theorem ofSource_selfNaming : Node.ofSource "x is x y" =
    .ok (.root [selfNaming] (some ⟨1, 1, "root", .text "x is x y"⟩)) := by
  have first : Grammar.statement ⟨1, 1, "x is x y".toList⟩ = some (selfNaming, ⟨1, 9, []⟩) := rfl
  have last : Grammar.statement ⟨1, 9, []⟩ = none := rfl
  have read := Grammar.statements_of_some first (by decide)
  rw [Grammar.statements_of_none last] at read
  exact Node.ofSource_of_statements "x is x y" read rfl rfl

theorem read_selfNamed : selfNamed.machine.names.read "x" = .reference (.path "x" "y") := by
  have moves : Moves Console.noHosts [selfNaming] ⟨Machine.builtins, .empty⟩
      ⟨Machine.builtins.set "x" (.reference (.path "x" "y")), .empty⟩ :=
    .bind .name (Node.readsAs_path rfl "y") (Reference.puts_name "x") (.nil _)
  obtain ⟨store, -⟩ := machine_of_moves (r := fresh true) ofSource_selfNaming rfl moves
  rw [selfNamed, (Store.mk.inj store).1]
  rfl

def selfAttributing : Node :=
  let at? (col : Int) (tag text : String) : Option Loc := some ⟨1, col, tag, .text text⟩
  let place : Node := .object (.identifier "x" (at? 1 "identifier" "x"))
    (.identifier "y" (at? 3 "identifier" "y")) (at? 1 "object" "x y")
  .expression (.valueAssignment (.assignee place (at? 1 "assignee" "x y"))
    (.value (.literal (.integer 1 (at? 8 "integer" "1")) (at? 8 "literal" "1")) (at? 8 "value" "1"))
    (at? 1 "value_assignment" "x y is 1")) (at? 1 "expression" "x y is 1")

theorem ofSource_selfAttributing : Node.ofSource "x y is 1" =
    .ok (.root [selfAttributing] (some ⟨1, 1, "root", .text "x y is 1"⟩)) := by
  have first : Grammar.statement ⟨1, 1, "x y is 1".toList⟩ =
    some (selfAttributing, ⟨1, 9, []⟩) := rfl
  have last : Grammar.statement ⟨1, 9, []⟩ = none := rfl
  have read := Grammar.statements_of_some first (by decide)
  rw [Grammar.statements_of_none last] at read
  exact Node.ofSource_of_statements "x y is 1" read rfl rfl

/-- The second script reads back from its raw tree, and looking for the object that it is about does
not end. -/
theorem run_of_reachable_second_script : ∃ root, Node.ofSource "x y is 1" = .ok root ∧
    Node.ofRaw root.raw = .ok root ∧
    (∃ after, interpret Console.noHosts root (begun selfNamed.machine) = (.error .endless, after)) ∧
    (selfNamed.run Console.noHosts "x y is 1").1 = .error .endless := by
  have reachable : Reachable Console.noHosts selfNamed := .run "x is x y" (.fresh true)
  obtain ⟨-, trees⟩ := run_of_reachable reachable "x y is 1"
  obtain ⟨readBack, result, after, run, -⟩ := trees _ ofSource_selfAttributing
  have lost : ∀ (m : Machine) (b : Binding), m.names = selfNamed.machine.names →
      assign (.path "x" "y") b m = (.error .endless, m) := by
    intro m b names
    refine assign_path_of_error ?_
    have bound := read_selfNamed
    rw [← names] at bound
    -- To find the object named `x`, the object named `x` has to be found.
    have again : baseOf m.names m.heap ["x"] "x" = .error .endless := by
      rw [baseOf_reference bound, if_pos (List.mem_singleton_self _)]
    rw [objectAt, baseOf_reference bound, if_neg List.not_mem_nil, follow_eq,
      if_neg List.not_mem_nil, slotOf_path, again]
    rfl
  have failed : result = .error .endless := by
    rw [interpret_root_one, selfAttributing, interpret,
      Node.Places.path.interpret_valueAssignment (interpret_integer ..)] at run
    dsimp only at run
    rw [lost] at run
    · cases run
      rfl
    · rfl
  rw [failed] at run
  refine ⟨_, ofSource_selfAttributing, readBack, ⟨after, run⟩, ?_⟩
  rw [run_fst, parse_of_ok ofSource_selfAttributing, runProgram_error run]
  rfl

/-! ## Circles of references -/

/-- Following a reference ends exactly where no object is needed to find itself on the way. Where it
ends, it ends with a value, an unbound name or a circle that is reported. -/
theorem follow_ends_iff_of_reachable (reachable : Reachable hosts r) (q : Reference) :
    ((∃ n outcome, followWithin r.machine.names r.machine.heap n [] q = some outcome) ↔
      ¬ ObjectCircle r.machine.names r.machine.heap q) ∧
    (¬ ObjectCircle r.machine.names r.machine.heap q →
      (∃ v, deref r.machine.names r.machine.heap (.reference q) = .ok v ∧ v ≠ .nothing) ∨
        ∃ e, deref r.machine.names r.machine.heap (.reference q) = .error e ∧ e.Lost) := by
  have endless := follow_eq_endless_iff_objectCircle (reachable.scripted.store.writtenApart q)
  refine ⟨?_, fun free => ?_⟩
  · rw [← endless, follow_eq_endless_iff, not_forall]
    refine exists_congr fun n => ?_
    rw [← Option.ne_none_iff_exists']
  · cases found : deref r.machine.names r.machine.heap (.reference q) with
    | ok v => exact .inl ⟨v, rfl, (leads_of_deref found).ne_nothing⟩
    | error e =>
      refine .inr ⟨e, rfl, (lost_or_endless_of_deref found).resolve_right ?_⟩
      rintro rfl
      exact free (endless.1 found)

theorem objectCircle_selfNamed :
    ObjectCircle selfNamed.machine.names selfNamed.machine.heap (.name "x") := by
  have step : Next selfNamed.machine.names selfNamed.machine.heap (.name "x") (.path "x" "y") :=
    holds_name_iff.2 read_selfNamed.symm
  have needs : Needs selfNamed.machine.names selfNamed.machine.heap "x" "x" :=
    ⟨_, read_selfNamed, "y", .refl⟩
  exact ⟨"x", "x", ⟨"y", .single step⟩, .refl, .single needs⟩

/-- On a runner that a script has made, following a name never ends. -/
theorem follow_unending_of_selfNamed : Reachable Console.noHosts selfNamed ∧
    ∀ n, followWithin selfNamed.machine.names selfNamed.machine.heap n [] (.name "x") = none := by
  have reachable : Reachable Console.noHosts selfNamed := .run "x is x y" (.fresh true)
  refine ⟨reachable, ?_⟩
  rw [← follow_eq_endless_iff]
  exact (follow_eq_endless_iff_objectCircle (reachable.scripted.store.writtenApart _)).2
    objectCircle_selfNamed

theorem follow_ends_iff_of_selfNamed :
    ((∃ n outcome, followWithin selfNamed.machine.names selfNamed.machine.heap n [] (.name "x") =
        some outcome) ↔
      ¬ ObjectCircle selfNamed.machine.names selfNamed.machine.heap (.name "x")) :=
  (follow_ends_iff_of_reachable (.run "x is x y" (.fresh true)) (.name "x")).1

end Runner

end AliasScript

import AliasScript.Eval.Interpret
import AliasScript.Run.Report

/-!
# Running scripts one after the other

A runner keeps its names from script to script. A failure ends a script and is reported; what the
script did before stays done. Any other fault ends the host program as well.
-/

namespace AliasScript

/-- A machine to run scripts on. -/
structure Runner where
  machine : Machine
  /-- With the built-in functions. -/
  library : Bool

namespace Runner

def fresh (library : Bool) : Runner := ⟨.fresh library, library⟩

def reset (r : Runner) : Runner := { r with machine := r.machine.reset r.library }

/-- Ends a script with a fault: a reported one becomes a message on the error stream. -/
def conclude (source : String) (m : Machine) (fault : Fault) : Except Fault Report × Machine :=
  match Report.account source m.statement fault with
  | .error other => (.error other, m)
  | .ok (message, token) =>
    let effects := m.effects ++ [⟨.stderr, message⟩]
    (.ok ⟨.error, .nothing, some message, token, effects⟩, { m with effects })

/-- Runs the program that a source was read as, or reports why there is none. -/
def runProgram (hosts : Hosts) (source : String) (program : Except Fault Node) (m : Machine) :
    Except Fault Report × Machine :=
  let cleared := { m with effects := [], statement := none }
  match program with
  | .error fault => conclude source cleared fault
  | .ok root =>
    match interpret hosts root { cleared with ret := .nothing } with
    | (.ok (.done ret), after) =>
      (.ok ⟨.success, ret, none, .null, after.effects⟩, { after with ret })
    | (.ok _, after) => (.error .partless, after)
    | (.error fault, after) => conclude source after fault

def parse (source : String) : Except Fault Node :=
  (Node.ofSource source).mapError ProgramError.fault

def run (hosts : Hosts) (r : Runner) (source : String) : Except Fault Report × Runner :=
  let (result, machine) := runProgram hosts source (parse source) r.machine
  (result, { r with machine })

/-! ## Other parsers -/

/-- The program in what another parser gives: a tree, or an object with a status beside the tree. -/
def programOfParser (given : Raw) : Except Fault Node :=
  let read (tree : Raw) : Except Fault Node :=
    (Node.ofRawWithin Text.digitLimit tree).mapError .misfit
  match given.field? "status" with
  | none => read given
  | some (.text "success") =>
    match given.field "ast" with
    | .null => .error (.unparsed .treeless)
    | tree => read tree
  | some _ =>
    let message := given.field "error_message"
    .error (.unparsed (.refused (if message.isTruthy then message.plain else given.shown)
      (given.field "error_node")))

/-- Runs what another parser made of a source. -/
def runGiven (hosts : Hosts) (r : Runner) (source : String) (given : Raw) :
    Except Fault Report × Runner :=
  let (result, machine) := runProgram hosts source (programOfParser given) r.machine
  (result, { r with machine })

end Runner

end AliasScript

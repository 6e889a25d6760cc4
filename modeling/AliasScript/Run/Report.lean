import AliasScript.Eval.Machine
import AliasScript.Text.Lines

/-!
# Reports

What is told about a run that has ended: what it returned and wrote, or what went wrong and where,
with the line of the source and a caret under the place.
-/

namespace AliasScript

inductive Status where
  | success
  | error
deriving DecidableEq, Repr

/-- An account of a run. -/
structure Report where
  status : Status
  value : Binding
  message : Option String
  /-- What is known of the place of the error. -/
  token : Raw
  effects : List Effect

namespace Report

/-- The line of a source with a caret under a column; empty when there is no such line. -/
def sourceContext (source : String) (line col : Int) : String :=
  let lines := Text.displayLines source.toList
  if 1 ≤ line ∧ line ≤ lines.length then
    String.ofList (lines.getD (line - 1).toNat [] ++
      '\n' :: List.replicate (col - 1).toNat ' ' ++ ['^'])
  else ""

/-- The whole number that a line or a column is given by. -/
def placeNumber : Raw → Except Fault Int
  | .int n => .ok n
  | .bool b => .ok (if b then 1 else 0)
  | _ => .error .misplaced

/-- Is the number of one of so many lines. A decimal can be compared, though no line has it. -/
def isLine (count : Nat) : Raw → Except Fault Bool
  | .decimal x => .ok (!x.isUndefined && !x.isBelow 1 && !x.isAbove count)
  | line => (placeNumber line).map fun n : Int => decide (1 ≤ n ∧ n ≤ count)

/-- The column of a caret: one that is too low is the first, and a decimal one can only be that. -/
def caretColumn : Raw → Except Fault Int
  | .decimal x => if x.isBelow 1 then .ok 1 else .error .misplaced
  | col => placeNumber col

/-- The line of a source with a caret, for a line and a column given as raw data. The column does
not matter when there is no such line. -/
def givenContext (source : String) (line col : Raw) : Except Fault String := do
  if ← isLine (Text.displayLines source.toList).length line then
    return sourceContext source (← placeNumber line) (← caretColumn col)
  else return ""

/-- What is said of the place that a parser's token gives, if it gives a line and a column. -/
def tokenContext (source : String) (token : Raw) : Except Fault String :=
  if token.isTruthy then
    match token with
    | .object _ =>
      match token.field "line", token.field "col" with
      | .null, _ | _, .null => .ok ""
      | line, col => (givenContext source line col).map fun context =>
        " (line " ++ line.plain ++ ", col " ++ col.plain ++ ")\n" ++ context
    | _ => .error .partless
  else .ok ""

/-- The message for a failure at a place, with the line of the source where there is one. -/
def failureMessage (source : String) (f : Failure) (loc : Option Loc) : String :=
  let message := f.title ++ ": " ++ f.message
  let context := (loc.map fun l => sourceContext source l.line l.col).getD ""
  if context = "" then message else message ++ "\n" ++ context

/-- What is told about a reported fault, and what is known of its place. The faults that are not
reported stay, and a token that is no token is a fault of its own. -/
def account (source : String) (loc : Option Loc) : Fault → Except Fault (String × Raw)
  | .failure f => .ok (failureMessage source f loc, (loc.map Loc.raw).getD .null)
  | .unparsed p => (tokenContext source p.token).map fun context =>
    ("ParseError: " ++ p.message ++ context, p.token)
  | other => .error other

/-- What a message says before it is put behind a place. -/
def placed : String := "Error on line "

/-- The error with its line and column, if there is an error and its line is known. -/
def format (r : Report) : String :=
  match r.status with
  | .success => ""
  | .error =>
    let message := match r.message with
      | some m => if m = "" then "Unknown error" else m
      | none => "Unknown error"
    match r.token.field? "line" with
    | none => message
    | some line =>
      if placed.toList.isPrefixOf message.toList then message
      else
        let col := match r.token.field "col" with
          | .null => ""
          | col => ", col " ++ col.plain
        placed ++ line.plain ++ col ++ ": " ++ message

end Report

end AliasScript

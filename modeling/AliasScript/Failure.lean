import AliasScript.Syntax.FromRaw
import AliasScript.Syntax.Program

/-!
# What can go wrong

A *failure* is the fault of the program that runs and is reported to the person who wrote it. A
*fault* is anything that ends a run: a failure, a text or a tree that is no program, or a use of the
interpreter that it has no answer to.
-/

namespace AliasScript

/-- What a program can do wrong. -/
inductive Failure where
  | unboundVariable (name : String)
  | unboundListTarget (name : String)
  | unboundAttributeBase (obj attr : String)
  /-- The names met on the way, the last of them for the second time. -/
  | circularReference (chain : List String)
  | notAFunction (name : String)
  | unknownListOperation (operation : String)
  /-- A function was given a value that it cannot work with; the value is described. -/
  | wrongArgument (description : String)
deriving DecidableEq, Repr

namespace Failure

def title : Failure → String
  | .unboundVariable _ => "UnboundVariable"
  | .unboundListTarget _ => "UnboundListTarget"
  | .unboundAttributeBase _ _ => "UnboundAttributeBase"
  | .circularReference _ => "CircularReference"
  | .notAFunction _ => "NotAFunction"
  | .unknownListOperation _ => "UnknownListOperation"
  | .wrongArgument _ => "WrongArgument"

def message : Failure → String
  | .unboundVariable name => "I do not know of anything called " ++ name ++ "."
  | .unboundListTarget name => "I do not know of a list called " ++ name ++ "."
  | .unboundAttributeBase obj attr =>
    "I cannot set " ++ attr ++ " on " ++ obj ++ " because I do not know of anything called " ++
      obj ++ "."
  | .circularReference chain =>
    "These names refer to each other in a circle: " ++ " -> ".intercalate chain ++ "."
  | .notAFunction name => name ++ " is not something I can run."
  | .unknownListOperation operation => "I do not know how to " ++ operation ++ " with a list."
  | .wrongArgument description =>
    "count expects a list, an object or some text, not " ++ description

end Failure

/-- Why there is no program to run. -/
inductive ParseFailure where
  /-- The text stops being a program at a place. -/
  | unread (place : Unread)
  /-- A parser gave up with a message and raw data on the place. -/
  | refused (message : String) (token : Raw)
  /-- A parser succeeded without a tree. -/
  | treeless
deriving Inhabited

namespace ParseFailure

/-- A parser's account of itself. -/
def report (message : String) : Raw := .object [("status", .text "error"), ("message", .text message)]

def message : ParseFailure → String
  | .unread place => (report place.message).shown
  | .refused text _ => text
  | .treeless => "missing AST in parser result"

def token : ParseFailure → Raw
  | .refused _ token => token
  | _ => .null

end ParseFailure

/-- The parts of the interpreter that pick a rule by the kind of a node. -/
inductive Rule where
  | interpret
  | evaluateValue
  | assign
deriving DecidableEq, Repr

def Rule.name : Rule → String
  | .interpret => "interpret_ast"
  | .evaluateValue => "evaluate_value"
  | .assign => "assign"

/-- What ends a run. -/
inductive Fault where
  | failure (f : Failure)
  | unparsed (p : ParseFailure)
  /-- A node of a kind that a rule does not cover. -/
  | unknownNode (tag : String) (rule : Rule)
  /-- Raw data that is no tree. -/
  | misfit (m : Misfit)
  /-- An integer of the source text is out of range. -/
  | tooLarge (negative : Bool)
  /-- Following references or printing a value would never end. -/
  | endless
  /-- A name that must be there is not. -/
  | missingKey (shown : String)
  /-- A node or a value lacks the part that is asked of it. -/
  | partless
  /-- Something that is no name stands where a name is needed. -/
  | nameless
  /-- A place in a source is given by something other than numbers. -/
  | misplaced
  /-- A key that is not a text, of the named kind, for a context or for an object. -/
  | badKey (context : Bool) (kind : String)
  /-- The host calls something that is not a function. -/
  | uncallable
deriving Inhabited

namespace Fault

/-- A failure is reported; every other fault ends the host program too. -/
def isReported : Fault → Bool
  | .failure _ | .unparsed _ => true
  | _ => false

/-- The wording of a fault, for those that have one of their own. -/
def message? : Fault → Option String
  | .failure f => some f.message
  | .unparsed p => some p.message
  | .unknownNode tag rule => some ("missing case for node '" ++ tag ++ "' in " ++ rule.name)
  | .misfit m => if m.isBorrowed then none else some m.complaint.text
  | .tooLarge negative =>
    some ("Number exceeds " ++ (if negative then "int64" else "uint64") ++ " range")
  | .missingKey shown => some shown
  | .badKey context kind =>
    some ((if context then "Context key" else "Attribute name") ++ " must be a str, not <class '" ++
      kind ++ "'>")
  | .endless | .partless | .nameless | .misplaced | .uncallable => none

end Fault

def ProgramError.fault : ProgramError → Fault
  | .unread place => .unparsed (.unread place)
  | .tooLarge negative => .tooLarge negative

end AliasScript

import AliasScript.Failure
import AliasScript.Tree.Phrase
import AliasScript.Tree.Quoted

/-!
# Printed form

The form of a value for the people who write programs. Lists stand in brackets, objects read as
sentences, and dictionaries of the host take a line for each entry.
-/

namespace AliasScript

def Scalar.pretty : Scalar → String
  | .nothing => "nothing"
  | .truth b => if b then "true" else "false"
  | .number n => toString n
  | .decimal x => x.text
  | .text s => "\"" ++ s ++ "\""
  | .function f => "<function " ++ f.name ++ ">"

def indentation (width : Nat) (level : Int) : String :=
  String.ofList (List.replicate (width * level.toNat) ' ')

namespace Tree

/-- An object: the phrase for it and its attributes. -/
def objectSentence (phrase : String) (attrs : List String) : String :=
  if attrs.isEmpty then phrase else phrase ++ " with " ++ " and ".intercalate attrs

/-- A dictionary with each entry on a line of its own. -/
def dictBlock (width : Nat) (level : Int) (lines : List String) : String :=
  if lines.isEmpty then "\x7b\x7d"
  else
    "\x7b\n" ++ "\n".intercalate (lines.map (indentation width (level + 1) ++ ·)) ++ "\n" ++
      indentation width level ++ "\x7d"

mutual

/-- The printed form at an indentation level. -/
def pretty (width : Nat) (level : Int) : Tree → String
  | .scalar s => s.pretty
  | .reference r => "<ref " ++ r.render ++ ">"
  | .sequence .hostTuple items => (Tree.sequence .hostTuple items).quoted
  | .sequence _ items => bracketed (prettyItems width (level + 1) items)
  | .mapping (.object type) entries =>
    objectSentence (MappingKind.object type).phrase (prettyEntries width (level + 1) " = " entries)
  | .mapping _ entries => dictBlock width level (prettyEntries width (level + 1) ": " entries)

def prettyItems (width : Nat) (level : Int) : List Tree → List String
  | [] => []
  | item :: items => item.pretty width level :: prettyItems width level items

def prettyEntries (width : Nat) (level : Int) (sign : String) :
    List (Scalar × Tree) → List String
  | [] => []
  | (key, value) :: entries =>
    (key.plain ++ sign ++ value.pretty width level) :: prettyEntries width level sign entries

end

end Tree

namespace Heap

/-- The printed form of a binding, unless a container in it contains itself. -/
def pretty? (h : Heap) (width : Nat) (level : Int) (b : Binding) : Option String :=
  (h.unfold .printed [] b).map (Tree.pretty width level)

/-- Prints a binding; printing a container that contains itself would not end. -/
def print (h : Heap) (b : Binding) : Except Fault String :=
  match h.pretty? 2 0 b with
  | some s => .ok s
  | none => .error .endless

end Heap

end AliasScript

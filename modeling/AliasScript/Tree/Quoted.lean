import AliasScript.Raw
import AliasScript.Tree.Basic

/-!
# Quoted form

The form of a value for those who work on the program that embeds the interpreter: texts are in
quotes, and containers show their kind.
-/

namespace AliasScript

namespace Scalar

def quoted : Scalar → String
  | .nothing => "None"
  | .truth b => Raw.truthText b
  | .number n => toString n
  | .decimal x => x.text
  | .text s => Text.quoted s
  | .function f => "<function " ++ f.name ++ ">"

/-- A scalar in running text: a text stands for itself. -/
def plain : Scalar → String
  | .text s => s
  | s => s.quoted

end Scalar

def Reference.quoted (r : Reference) : String := "Reference(" ++ Text.quoted r.render ++ ")"

def bracketed (items : List String) : String := "[" ++ ", ".intercalate items ++ "]"

/-- A tuple; a single item keeps its comma. -/
def parenthesized : List String → String
  | [item] => "(" ++ item ++ ",)"
  | items => "(" ++ ", ".intercalate items ++ ")"

def quotedType (type : Option String) : String := (type.map Text.quoted).getD "None"

/-- An object, by its type and the names of its attributes. -/
def quotedObject (type : Option String) (names : List String) : String :=
  "<IslaObject type=" ++ quotedType type ++ " bindings=" ++ bracketed names ++ ">"

/-- A context, by the names that it binds and the names of its types. -/
def quotedContext (types names : List String) : String :=
  "<Context bindings=" ++ bracketed names ++ " types=" ++ bracketed types ++ ">"

namespace Tree

mutual

def quoted : Tree → String
  | .scalar s => s.quoted
  | .reference r => r.quoted
  | .sequence (.list _) items => "IslaList(" ++ bracketed (quotedItems items) ++ ")"
  | .sequence .hostList items => bracketed (quotedItems items)
  | .sequence .hostTuple items => parenthesized (quotedItems items)
  | .mapping (.object type) entries => quotedObject type (entries.map (·.1.plain))
  | .mapping (.context types) entries => quotedContext types (entries.map (·.1.plain))
  | .mapping .hostDict entries => "\x7b" ++ ", ".intercalate (quotedEntries entries) ++ "\x7d"

def quotedItems : List Tree → List String
  | [] => []
  | item :: items => item.quoted :: quotedItems items

def quotedEntries : List (Scalar × Tree) → List String
  | [] => []
  | (key, value) :: entries => (key.quoted ++ ": " ++ value.quoted) :: quotedEntries entries

end

end Tree

/-- The quoted form of a binding. A list that contains itself shows as dots. -/
def Heap.quoted (h : Heap) (b : Binding) : String :=
  ((h.unfold .quoted [] b).map Tree.quoted).getD "[...]"

/-- A binding in running text: a text stands for itself. -/
def Heap.plain (h : Heap) (b : Binding) : String :=
  match b with
  | .value (.scalar s) => s.plain
  | other => h.quoted other

end AliasScript

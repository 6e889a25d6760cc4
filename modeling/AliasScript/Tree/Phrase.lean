import AliasScript.Tree.Basic

/-!
# Phrases

A short phrase that says what kind of thing a value is. A container that was made as some type is
called by the name of that type.
-/

namespace AliasScript

/-- A noun that takes the article of a vowel. The empty noun does too. -/
def startsLikeVowel (noun : List Char) : Bool :=
  match noun with
  | [] => true
  | c :: _ => "aeiouAEIOU".toList.contains c

def withArticle (noun : String) : String :=
  (if startsLikeVowel noun.toList then "an " else "a ") ++ noun

def SequenceKind.phrase : SequenceKind → String
  | .list type => withArticle (type.getD "list")
  | .hostList => "a list"
  | .hostTuple => "a tuple"

def MappingKind.phrase : MappingKind → String
  | .object type => withArticle (type.getD "thing")
  | .context _ => "a Context"
  | .hostDict => "a dict"

def Scalar.phrase : Scalar → String
  | .nothing => "nothing"
  | .truth _ => "a truth value"
  | .number _ | .decimal _ => "a number"
  | .text _ => "some text"
  | .function _ => "a method"

def Cell.phrase : Cell → String
  | .list type _ => (SequenceKind.list type).phrase
  | .hostList _ => SequenceKind.hostList.phrase
  | .hostTuple _ => SequenceKind.hostTuple.phrase
  | .object type _ => (MappingKind.object type).phrase
  | .context types _ => (MappingKind.context types).phrase
  | .hostDict _ => MappingKind.hostDict.phrase

def Heap.describe (h : Heap) (b : Binding) : String :=
  match b with
  | .reference r => "a reference to " ++ r.render
  | .value (.scalar s) => s.phrase
  | .value (.cell a) => ((h.get? a).map Cell.phrase).getD Scalar.nothing.phrase

end AliasScript

import AliasScript.Syntax.Cursor
import Mathlib.Data.List.Induction
import Mathlib.Logic.Relation

/-!
# Where nodes stand in a source

A node notes the line and column of its first character and its source text. No two places of a text
have the same line and column (`Text.place_append_ne`), so a node of a source covers one stretch of
it, its span.
-/

namespace AliasScript

namespace Text

/-- The line and column behind some text: lines are counted by newlines, columns by characters. -/
def place (front : List Char) : Nat × Nat :=
  (front.count '\n' + 1, (front.reverse.takeWhile (· != '\n')).length + 1)

theorem advance_eq_place (front : List Char) : Cursor.advance 1 1 front = place front := by
  induction front using List.reverseRecOn with
  | nil => rfl
  | append_singleton front c ih =>
    rw [Cursor.advance_append, ih]
    by_cases newline : c = '\n' <;> simp [Cursor.advance, Cursor.step, place, newline]

/-- A text without a newline moves on in the line, and any other one to a later line. -/
theorem place_append_ne (front : List Char) {more : List Char} (some : more ≠ []) :
    place (front ++ more) ≠ place front := by
  intro same
  obtain ⟨lines, columns⟩ := Prod.mk.inj same
  have free : '\n' ∉ more := by
    rw [List.count_append] at lines
    rw [← List.count_eq_zero]
    omega
  have inLine : ∀ c ∈ more.reverse, (c != '\n') = true := by
    intro c mem
    rw [bne_iff_ne]
    rintro rfl
    exact free (List.mem_reverse.1 mem)
  rw [List.reverse_append, List.takeWhile_append_of_pos inLine, List.length_append] at columns
  have := List.length_pos_iff.2 some
  rw [List.length_reverse] at columns
  omega

theorem ne_of_place_take {cs : List Char} {i j : Nat} (inside : j ≤ cs.length) (less : i < j) :
    place (cs.take i) ≠ place (cs.take j) := by
  have front : (cs.take j).take i = cs.take i := by
    rw [List.take_take, Nat.min_eq_left (Nat.le_of_lt less)]
  have more : (cs.take j).drop i ≠ [] := by
    rw [← List.length_pos_iff, List.length_drop, List.length_take]
    omega
  have apart := place_append_ne (cs.take i) more
  rw [← front, List.take_append_drop, front] at apart
  exact apart.symm

/-- How many characters stand in front of a line and column of a text. -/
def offset? (cs : List Char) (line col : Int) : Option Nat :=
  (List.range (cs.length + 1)).find? fun i =>
    decide ((place (cs.take i)).1 = line) && decide ((place (cs.take i)).2 = col)

theorem offset?_place {cs : List Char} {i : Nat} (inside : i ≤ cs.length) :
    offset? cs (place (cs.take i)).1 (place (cs.take i)).2 = some i := by
  rw [offset?, List.find?_range_eq_some]
  refine ⟨by simp, List.mem_range.2 (Nat.lt_succ_of_le inside), fun j less => ?_⟩
  have other : ¬ ((place (cs.take j)).1 = (place (cs.take i)).1 ∧
      (place (cs.take j)).2 = (place (cs.take i)).2) := fun same =>
    ne_of_place_take inside less (Prod.ext same.1 same.2)
  simp only [Bool.not_eq_true', Bool.and_eq_false_iff, decide_eq_false_iff_not]
  omega

/-- What stands between two offsets of a text. -/
def slice (cs : List Char) (i j : Nat) : List Char := (cs.drop i).take (j - i)

theorem length_slice {cs : List Char} {i j : Nat} (inside : j ≤ cs.length) :
    (slice cs i j).length = j - i := by
  rw [slice, List.length_take, List.length_drop]
  omega

end Text

namespace Node

def written (node : Node) : List Char :=
  match node.loc with
  | some ⟨_, _, _, .text s⟩ => s.toList
  | _ => []

/-- The stretch of a source that a node covers by its line, its column and its text. -/
def span? (cs : List Char) (node : Node) : Option (Nat × Nat) := do
  let loc ← node.loc
  let i ← Text.offset? cs loc.line loc.col
  return (i, i + node.written.length)

/-- The nodes that a node is made of, as they follow each other in the source. -/
def parts : Node → List Node
  | .identifier .. | .integer .. | .string .. | .listOperation .. => []
  | .literal inner _ | .scalar inner _ | .variable inner _ | .value inner _ | .assignee inner _
  | .expression inner _ => [inner]
  | .object a b _ | .valueAssignment a b _ | .typeAssignment a b _ | .invocation a b _ => [a, b]
  | .listAssignment a b c _ => [a, b, c]
  | .block body _ | .root body _ => body

/-- A node or one of the nodes that it is made of, directly or not. -/
def Within (root : Node) : Node → Prop :=
  Relation.ReflTransGen (fun node part => part ∈ node.parts) root

end Node

end AliasScript

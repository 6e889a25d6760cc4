import AliasScript.Tree.Basic

/-!
# Equality of values

Values are compared by what they hold. A truth value equals the number one or zero, and a decimal
equals the number that it is; a decimal that is undefined equals nothing. A list equals a list of
the host with equal items; an object, a context or a dictionary equals any of these with equal
entries in any order. The types that containers were made as do not count.
-/

namespace AliasScript

/-- The number that a truth value or a whole decimal counts as; every other scalar stands for
itself. -/
def Scalar.normal : Scalar → Scalar
  | .truth b => .number (if b then 1 else 0)
  | .decimal x => match x.whole? with
    | some n => .number n
    | none => .decimal x
  | s => s

def Scalar.isUndefined : Scalar → Bool
  | .decimal x => x.isUndefined
  | _ => false

/-- Equality of scalars. -/
def Scalar.same (s t : Scalar) : Bool := s.normal = t.normal && !s.normal.isUndefined

/-- Sequences of these kinds can be equal: lists of either sort, or two tuples. -/
def SequenceKind.comparable (k l : SequenceKind) : Bool := (k = .hostTuple) = (l = .hostTuple)

namespace Tree

/-- The value of the first entry with an equal key. -/
def valueUnder? (key : Scalar) : List (Scalar × Tree) → Option Tree
  | [] => none
  | (other, t) :: rest => if key.same other then some t else valueUnder? key rest

mutual

/-- Equality of finite values. -/
def same : Tree → Tree → Bool
  | .scalar s, .scalar t => s.same t
  | .reference r, .reference q => r = q
  | .sequence k xs, .sequence l ys => k.comparable l && sameItems xs ys
  | .mapping _ es, .mapping _ fs => es.length == fs.length && sameEntries es fs
  | _, _ => false

def sameItems : List Tree → List Tree → Bool
  | [], [] => true
  | x :: xs, y :: ys => x.same y && sameItems xs ys
  | _, _ => false

/-- Every entry has an equal one among the others. -/
def sameEntries : List (Scalar × Tree) → List (Scalar × Tree) → Bool
  | [], _ => true
  | (key, t) :: es, fs =>
    (match valueUnder? key fs with
      | some u => t.same u
      | none => false) && sameEntries es fs

end

end Tree

namespace Heap

/-- Equality of what two bindings hold. A container that contains itself equals nothing. -/
def same (h : Heap) (a b : Binding) : Bool :=
  match h.unfold .whole [] a, h.unfold .whole [] b with
  | some s, some t => s.same t
  | _, _ => false

@[simp] theorem same_scalar (h : Heap) (s t : Scalar) :
    h.same (.value (.scalar s)) (.value (.scalar t)) = s.same t := by
  simp [same, unfold, Tree.same]

end Heap

/-! ## Scalars -/

theorem Scalar.same_iff {s t : Scalar} :
    s.same t = true ↔ s.normal = t.normal ∧ s.normal.isUndefined = false := by
  simp [Scalar.same]

theorem Scalar.same_symm {s t : Scalar} (h : s.same t = true) : t.same s = true := by
  obtain ⟨equal, defined⟩ := Scalar.same_iff.1 h
  exact Scalar.same_iff.2 ⟨equal.symm, equal ▸ defined⟩

theorem Scalar.same_trans {s t u : Scalar} (h : s.same t = true) (g : t.same u = true) :
    s.same u = true := by
  obtain ⟨equal, defined⟩ := Scalar.same_iff.1 h
  exact Scalar.same_iff.2 ⟨equal.trans (Scalar.same_iff.1 g).1, defined⟩

end AliasScript

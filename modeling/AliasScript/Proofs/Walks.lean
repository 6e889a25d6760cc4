import AliasScript.Proofs.ListTargets
import Mathlib.Data.List.Chain
import Mathlib.Data.List.Nodup

/-!
# How following a reference ends

Following a reference ends at a value, at a slot that holds nothing, or at a reference that has been
passed before, unless it is endless (`Ending`, `Run.deref_ends`). On the way the object of an attribute
is found by a walk of its own, which starts at the reference that the object is named by and knows
nothing of the references passed so far. So a circle that is reported need not pass the reference that
was followed; it lies on the walk that starts there or on one of these walks (`Departs`).
-/

namespace AliasScript

open Relation

section

variable (names : Table Binding) (heap : Heap)

/-- Following a reference makes a walk that starts at the other one: they are the same, or an object
met on the way is named by the other one. -/
def Departs (r first : Reference) : Prop :=
  first = r ∨ ∃ obj attr, Meets names heap r (.path obj attr) ∧ names.read obj = .reference first

/-- Where following a reference ends. The slot of each reference that was passed holds the next one. -/
inductive Ending (r : Reference) : Except Fault Value → Prop
  | value {passed : List Reference} {last : Reference} {v : Value} :
    (passed ++ [last]).head? = some r → (passed ++ [last]).IsChain (Next names heap) →
      (passed ++ [last]).Nodup → Holds names heap last (.value v) → v ≠ .nothing → Ending r (.ok v)
  | unbound {q : Reference} : Breaks names heap r q →
      Ending r (.error (.failure (.unboundVariable q.render)))
  /-- No two of the passed references are written alike, and the last one is one of them. -/
  | circle {first last : Reference} {passed : List Reference} : Departs names heap r first →
      (passed ++ [last]).head? = some first → (passed ++ [last]).IsChain (Next names heap) →
        (passed.map Reference.render).Nodup → last ∈ passed →
          Ending r (.error (.failure (.circularReference ((passed ++ [last]).map Reference.render))))

end

variable {names : Table Binding} {heap : Heap}

theorem Ending.of_base {r q : Reference} {obj attr : String} {e : Fault}
    (met : Meets names heap r (.path obj attr)) (bound : names.read obj = .reference q)
    (h : Ending names heap q (.error e)) : Ending names heap r (.error e) := by
  have inner : Meets names heap r q := met.inner bound
  cases h with
  | unbound breaks => exact .unbound ⟨inner.trans breaks.1, breaks.2⟩
  | circle departs head chain apart again =>
    refine .circle (.inr ?_) head chain apart again
    rcases departs with rfl | ⟨obj', attr', way, bound'⟩
    · exact ⟨obj, attr, met, bound⟩
    · exact ⟨obj', attr', inner.trans way, bound'⟩

/-- A walk from `first` that has passed some references and is at `r`. -/
structure Underway (names : Table Binding) (heap : Heap) (first : Reference)
    (passed : List Reference) (r : Reference) : Prop where
  head : (passed ++ [r]).head? = some first
  chain : (passed ++ [r]).IsChain (Next names heap)
  apart : (passed.map Reference.render).Nodup
  met : ∀ s ∈ passed ++ [r], Meets names heap first s

namespace Underway

variable {first r next : Reference} {passed : List Reference}

theorem start (r : Reference) : Underway names heap r [] r where
  head := rfl
  chain := .singleton r
  apart := .nil
  met s mem := by
    rw [List.mem_singleton.1 mem]
    exact .refl

theorem here (h : Underway names heap first passed r) : Meets names heap first r :=
  h.met r (List.mem_append_right _ (List.mem_singleton_self r))

theorem before (h : Underway names heap first passed r) : ∀ s ∈ passed, Meets names heap first s :=
  fun s mem => h.met s (List.mem_append_left _ mem)

theorem step (h : Underway names heap first passed r) (new : r.render ∉ passed.map Reference.render)
    (holds : Next names heap r next) : Underway names heap first (passed ++ [r]) next where
  head := by rw [List.head?_append, h.head, Option.some_or]
  chain := by
    refine List.isChain_append.2 ⟨h.chain, .singleton next, fun s last t head => ?_⟩
    rw [List.getLast?_concat, Option.mem_some_iff] at last
    rw [List.head?_singleton, Option.mem_some_iff] at head
    exact last ▸ head ▸ holds
  apart := by
    rw [List.map_append, List.nodup_append_comm]
    exact List.nodup_cons.2 ⟨new, h.apart⟩
  met := List.forall_mem_append.2 ⟨h.met, List.forall_mem_singleton.2 (h.here.next holds)⟩

end Underway

/-- A walk that ends at some depth ends in one of the three ways. -/
theorem ending_of_followWithin (n : Nat) : ∀ {first r : Reference} {passed : List Reference}
    {x : Except Fault Value}, WrittenApart names heap first → Underway names heap first passed r →
      followWithin names heap n (passed.map Reference.render) r = some x →
        Ending names heap first x := by
  induction n with
  | zero => exact fun _ _ h => nomatch h
  | succ n ih =>
    intro first r passed x apart way h
    rw [followWithin_succ] at h
    split at h
    · next old =>
      cases h
      have again := mem_visited apart way.here way.before old
      have circle := Ending.circle (.inl rfl) way.head way.chain way.apart again
      rwa [List.map_append] at circle
    · next new =>
      split at h
      · cases h
      · next e found =>
        cases h
        obtain ⟨obj, attr, q, rfl, bound, failed⟩ := baseBy_error found
        have met : Meets names heap first q := way.here.inner bound
        exact .of_base way.here bound (ih (apart.of_meets met) (.start q) failed)
      · next v found =>
        have held := slotBy_ok (fun q v => leads_of_followWithin) found
        split at h
        · next nothing =>
          cases h
          rw [nothing] at held
          exact .unbound ⟨way.here, held⟩
        · next thing =>
          cases h
          have unpassed : r ∉ passed := fun mem => new (List.mem_map_of_mem mem)
          have apart' := List.nodup_cons.2 ⟨unpassed, way.apart.of_map Reference.render⟩
          exact .value way.head way.chain (List.nodup_append_comm.1 apart') held thing
      · next next found =>
        have holds : Next names heap r next := slotBy_ok (fun q v => leads_of_followWithin) found
        have further := way.step new holds
        exact ih apart further (by rwa [List.map_append, List.map_singleton])

namespace Run

/-- In a store whose names hold no spaces, following a reference that finishes ends at a value behind
references that are all different, at a slot that holds nothing, or at a reference that has been passed
before, and leaves the store as it is. -/
theorem deref_ends {m : Machine} (spaceless : Spaceless m.names m.heap) (r : Reference)
    (finishes : ∃ n outcome, followWithin m.names m.heap n [] r = some outcome) :
    Ending m.names m.heap r (deref (.reference r) m).1 ∧ (deref (.reference r) m).2 = m := by
  refine ⟨?_, rfl⟩
  obtain ⟨n, outcome, walk⟩ := finishes
  have same : (deref (.reference r) m).1 = outcome :=
    follow_of_followWithin n [] walk fun _ mem => absurd mem List.not_mem_nil
  rw [same]
  exact ending_of_followWithin n (spaceless.writtenApart r) (.start r) walk

/-- The object `o` is named by `p`, and `p` goes round in a circle through an attribute of `q`. -/
def roundabout : Machine := { Machine.fresh true with
  names := .ofList [("q", .value (.cell 0)), ("p", .reference (.path "q" "k")),
    ("o", .reference (.name "p"))]
  heap := ⟨#[.object (some "box") (.ofList [("k", .reference (.name "p"))])]⟩ }

/-- An attribute of `o` is not on the circle that is reported for it. -/
theorem deref_ends_roundabout : Spaceless roundabout.names roundabout.heap ∧
    followWithin roundabout.names roundabout.heap 4 [] (.path "o" "m") =
      some (.error (.failure (.circularReference ["p", "q k", "p"]))) ∧
    Ending roundabout.names roundabout.heap (.path "o" "m")
      (.error (.failure (.circularReference ["p", "q k", "p"]))) := by
  have walk : followWithin roundabout.names roundabout.heap 4 [] (.path "o" "m") =
      some (.error (.failure (.circularReference ["p", "q k", "p"]))) := rfl
  have spaceless : Spaceless roundabout.names roundabout.heap := by
    refine ⟨by decide, fun r stored => ?_⟩
    have known : storedReferences roundabout.names roundabout.heap =
      [.path "q" "k", .name "p", .name "p"] := rfl
    have mem := stored.mem_storedReferences
    rw [known] at mem
    simp only [List.mem_cons, List.not_mem_nil, or_false, or_self] at mem
    rcases mem with rfl | rfl <;> rw [Reference.Spaceless] <;> decide
  obtain ⟨ends, -⟩ := deref_ends spaceless (.path "o" "m") ⟨4, _, walk⟩
  have same : (deref (.reference (.path "o" "m")) roundabout).1 = _ :=
    follow_of_followWithin 4 [] walk fun _ mem => absurd mem List.not_mem_nil
  exact ⟨spaceless, walk, same ▸ ends⟩

end Run

end AliasScript

import AliasScript.Proofs.Leads
import Mathlib.Tactic.ByContra

/-!
# Following references, with and without an end

`followWithin` follows a reference without any record of the objects being found: it only counts how
deeply it may still go. `follow_eq_endless_iff` says that following is reported as endless exactly
where no depth is enough, and `follow_eq_endless_iff_objectCircle` says when that is: on the way an
object must be found that is needed to find itself.
-/

namespace AliasScript

open Relation

section
variable (names : Table Binding) (heap : Heap)

/-- The object that a name stands for, when `follow` follows a reference. -/
def baseBy (follow : Reference → Option (Except Fault Value)) (obj : String) :
    Option (Except Fault Value) :=
  match names.read obj with
  | .value v => some (.ok v)
  | .reference r => follow r

/-- What the slot of a reference holds, when `follow` follows a reference. -/
def slotBy (follow : Reference → Option (Except Fault Value)) (r : Reference) :
    Option (Except Fault Binding) :=
  match r with
  | .name n => some (.ok (names.read n))
  | .path obj attr =>
    (baseBy names follow obj).map fun found => found.map (heap.readAttribute · attr)

/-- Follows a reference; nothing, where that takes more steps and inner walks than allowed. The walk
to the object of an attribute knows nothing of the names seen on the way to it. -/
def followWithin : Nat → List String → Reference → Option (Except Fault Value)
  | 0, _, _ => none
  | n + 1, seen, r =>
    if r.render ∈ seen then some (.error (.failure (.circularReference (seen ++ [r.render]))))
    else
      match slotBy names heap (followWithin n []) r with
      | none => none
      | some (.error e) => some (.error e)
      | some (.ok (.value v)) =>
        some (if v = .nothing then .error (.failure (.unboundVariable r.render)) else .ok v)
      | some (.ok (.reference next)) => followWithin n (seen ++ [r.render]) next

/-- What the slot of a reference holds, as it is looked up. -/
def slotOf (bases : List String) (r : Reference) : Except Fault Binding :=
  (lookUp names heap bases r).map Held.binding

end

variable {names : Table Binding} {heap : Heap}

/-! ## Walks one step at a time -/

theorem baseOf_value {bases : List String} {obj : String} {v : Value}
    (bound : names.read obj = .value v) : baseOf names heap bases obj = .ok v := by
  rw [baseOf]
  split
  · next w found => cases bound.symm.trans found; rfl
  · next r found => cases bound.symm.trans found

theorem baseOf_reference {bases : List String} {obj : String} {r : Reference}
    (bound : names.read obj = .reference r) : baseOf names heap bases obj =
      if obj ∈ bases then .error .endless else follow names heap (obj :: bases) [] r := by
  rw [baseOf]
  split
  · next v found => cases bound.symm.trans found
  · next q found =>
    cases bound.symm.trans found
    split <;> rfl

@[simp] theorem slotOf_name (bases : List String) (n : String) :
    slotOf names heap bases (.name n) = .ok (names.read n) := by
  simp [slotOf, lookUp, Held.ofName, Except.map]

@[simp] theorem slotOf_path (bases : List String) (obj attr : String) :
    slotOf names heap bases (.path obj attr) =
      (baseOf names heap bases obj).map (heap.readAttribute · attr) := by
  rw [slotOf, lookUp]
  cases baseOf names heap bases obj <;> rfl

theorem follow_eq (bases seen : List String) (r : Reference) :
    follow names heap bases seen r =
      if r.render ∈ seen then .error (.failure (.circularReference (seen ++ [r.render])))
      else
        match slotOf names heap bases r with
        | .error e => .error e
        | .ok (.value v) =>
          if v = .nothing then .error (.failure (.unboundVariable r.render)) else .ok v
        | .ok (.reference next) => follow names heap bases (seen ++ [r.render]) next := by
  rw [follow, slotOf]
  split
  · rfl
  · cases lookUp names heap bases r with
    | error e => rfl
    | ok held =>
      obtain ⟨b, met⟩ := held
      cases b <;> rfl

theorem deref_name_of_value {n : String} {v : Value} (bound : names.read n = .value v)
    (some : v ≠ .nothing) : deref names heap (.reference (.name n)) = .ok v := by
  rw [deref_reference, follow_eq, if_neg List.not_mem_nil, slotOf_name, bound]
  exact if_neg some

theorem deref_name_of_unbound {n : String} (unbound : names.read n = .nothing) :
    deref names heap (.reference (.name n)) = .error (.failure (.unboundVariable n)) := by
  rw [deref_reference, follow_eq, if_neg List.not_mem_nil, slotOf_name, unbound]
  rfl

theorem followWithin_succ (n : Nat) (seen : List String) (r : Reference) :
    followWithin names heap (n + 1) seen r =
      if r.render ∈ seen then some (.error (.failure (.circularReference (seen ++ [r.render]))))
      else
        match slotBy names heap (followWithin names heap n []) r with
        | none => none
        | some (.error e) => some (.error e)
        | some (.ok (.value v)) =>
          some (if v = .nothing then .error (.failure (.unboundVariable r.render)) else .ok v)
        | some (.ok (.reference next)) => followWithin names heap n (seen ++ [r.render]) next := rfl

/-! ## More depth changes nothing -/

theorem baseBy_mono {follow further : Reference → Option (Except Fault Value)}
    (grows : ∀ r x, follow r = some x → further r = some x) {obj : String}
    {x : Except Fault Value} (h : baseBy names follow obj = some x) :
    baseBy names further obj = some x := by
  unfold baseBy at h ⊢
  split at h
  · exact h
  · exact grows _ _ h

theorem slotBy_mono {follow further : Reference → Option (Except Fault Value)}
    (grows : ∀ r x, follow r = some x → further r = some x) {r : Reference}
    {x : Except Fault Binding} (h : slotBy names heap follow r = some x) :
    slotBy names heap further r = some x := by
  cases r with
  | name n => exact h
  | path obj attr =>
    obtain ⟨found, base, rfl⟩ := Option.map_eq_some_iff.1 h
    exact Option.map_eq_some_iff.2 ⟨found, baseBy_mono grows base, rfl⟩

theorem followWithin_step {n : Nat} : ∀ {seen : List String} {r : Reference}
    {x : Except Fault Value}, followWithin names heap n seen r = some x →
      followWithin names heap (n + 1) seen r = some x := by
  induction n with
  | zero => exact fun h => nomatch h
  | succ n ih =>
    intro seen r x h
    rw [followWithin_succ] at h ⊢
    split at h
    · next old => rw [if_pos old]; exact h
    · next new =>
      rw [if_neg new]
      cases found : slotBy names heap (followWithin names heap n []) r with
      | none => simp [found] at h
      | some slot =>
        rw [slotBy_mono (fun _ _ => ih) found]
        rw [found] at h
        rcases slot with e | v | next
        · exact h
        · exact h
        · exact ih h

theorem followWithin_mono {n m : Nat} (le : n ≤ m) {seen : List String} {r : Reference}
    {x : Except Fault Value} (h : followWithin names heap n seen r = some x) :
    followWithin names heap m seen r = some x := by
  induction le with
  | refl => exact h
  | step _ ih => exact followWithin_step ih

theorem followWithin_none_of_le {n m : Nat} (le : n ≤ m) {seen : List String} {r : Reference}
    (h : followWithin names heap m seen r = none) : followWithin names heap n seen r = none := by
  cases found : followWithin names heap n seen r with
  | none => rfl
  | some x => simp [followWithin_mono le found] at h

theorem exists_least_depth {n : Nat} {seen : List String} {r : Reference}
    {x : Except Fault Value} (h : followWithin names heap n seen r = some x) :
    ∃ k, k + 1 ≤ n ∧ followWithin names heap (k + 1) seen r = some x ∧
      followWithin names heap k seen r = none := by
  induction n with
  | zero => cases h
  | succ n ih =>
    cases before : followWithin names heap n seen r with
    | none => exact ⟨n, Nat.le_refl _, h, before⟩
    | some y =>
      cases (followWithin_step before).symm.trans h
      obtain ⟨k, le, walk, nowhere⟩ := ih before
      exact ⟨k, Nat.le_succ_of_le le, walk, nowhere⟩

/-! ## Following is walking deep enough -/

/-- A walk that ends at some depth is what following gives, unless an object of `bases` has to be
found one level below. -/
theorem follow_of_followWithin (n : Nat) : ∀ (bases : List String) {seen : List String}
    {r : Reference} {x : Except Fault Value}, followWithin names heap n seen r = some x →
      (∀ obj ∈ bases, ∀ q, names.read obj = .reference q →
        followWithin names heap (n - 1) [] q = none) →
      follow names heap bases seen r = x := by
  induction n using Nat.strongRecOn with
  | _ n ih =>
  intro bases seen r x h unfound
  cases n with
  | zero => cases h
  | succ n =>
    have slots : ∀ y, slotBy names heap (followWithin names heap n []) r = some y →
        slotOf names heap bases r = y := by
      intro y found
      cases r with
      | name m => simpa [slotBy] using found
      | path obj attr =>
        obtain ⟨z, base, rfl⟩ := Option.map_eq_some_iff.1 found
        rw [slotOf_path]
        congr 1
        unfold baseBy at base
        split at base
        · next v bound => cases base; exact baseOf_value bound
        · next q bound =>
          rw [baseOf_reference bound, if_neg]
          · -- The least depth at which the object is found leaves it unfound one level below.
            obtain ⟨k, le, walk, nowhere⟩ := exists_least_depth base
            refine ih (k + 1) (by omega) _ walk fun o mem p other => ?_
            rcases List.mem_cons.1 mem with rfl | mem
            · cases bound.symm.trans other
              exact nowhere
            · exact followWithin_none_of_le (by omega) (unfound o mem p other)
          · intro mem
            have := unfound obj mem q bound
            simp [base] at this
    rw [followWithin_succ] at h
    rw [follow_eq]
    split at h
    · next old => rw [if_pos old]; exact Option.some.inj h
    · next new =>
      rw [if_neg new]
      cases found : slotBy names heap (followWithin names heap n []) r with
      | none => simp [found] at h
      | some slot =>
        rw [slots _ found]
        rw [found] at h
        rcases slot with e | v | next
        · exact Option.some.inj h
        · exact Option.some.inj h
        · exact ih n (by omega) _ h fun o mem p other =>
            followWithin_none_of_le (by omega) (unfound o mem p other)

theorem slotOf_of_lookUp {bases : List String} {r : Reference} {b : Binding}
    {met : ∀ q, b = .reference q → q.render ∈ metReferences names heap}
    (h : lookUp names heap bases r = .ok ⟨b, met⟩) : slotOf names heap bases r = .ok b := by
  rw [slotOf, h]
  rfl

theorem slotOf_of_lookUp_error {bases : List String} {r : Reference} {e : Fault}
    (h : lookUp names heap bases r = .error e) : slotOf names heap bases r = .error e := by
  rw [slotOf, h]
  rfl

theorem exists_followWithin (bases seen : List String) (r : Reference) :
    follow names heap bases seen r ≠ .error .endless →
      ∃ n, followWithin names heap n seen r = some (follow names heap bases seen r) := by
  induction bases, seen, r using follow.induct names heap
    (fun bases obj => baseOf names heap bases obj ≠ .error .endless →
      ∃ n, baseBy names (followWithin names heap n []) obj = some (baseOf names heap bases obj))
    _
    (fun bases r => slotOf names heap bases r ≠ .error .endless →
      ∃ n, slotBy names heap (followWithin names heap n []) r = some (slotOf names heap bases r))
  case case1 bases obj v bound _ =>
    exact ⟨0, by rw [baseOf_value bound, baseBy, bound]⟩
  case case2 bases obj r bound mem finite =>
    rw [baseOf_reference bound, if_pos mem] at finite
    exact absurd rfl finite
  case case3 bases obj r bound new ih finite =>
    rw [baseOf_reference bound, if_neg new] at finite ⊢
    obtain ⟨n, walk⟩ := ih finite
    exact ⟨n, by rw [baseBy, bound]; exact walk⟩
  case case4 bases seen r old =>
    intro _
    exact ⟨1, by rw [followWithin_succ, if_pos old, follow_eq, if_pos old]⟩
  case case5 bases seen r new e failed ih =>
    have slot := slotOf_of_lookUp_error failed
    rw [follow_eq, if_neg new, slot]
    intro finite
    obtain ⟨n, found⟩ := ih (by rw [slot]; exact fun h => finite (by rw [Except.error.inj h]))
    rw [slot] at found
    exact ⟨n + 1, by rw [followWithin_succ, if_neg new, found]⟩
  case case6 bases seen r new met found ih =>
    have slot := slotOf_of_lookUp found
    rw [follow_eq, if_neg new, slot]
    intro _
    obtain ⟨n, walk⟩ := ih (by rw [slot]; exact fun h => nomatch h)
    rw [slot] at walk
    exact ⟨n + 1, by rw [followWithin_succ, if_neg new, walk]⟩
  case case7 bases seen r new v met found some ih =>
    have slot := slotOf_of_lookUp found
    rw [follow_eq, if_neg new, slot]
    intro _
    obtain ⟨n, walk⟩ := ih (by rw [slot]; exact fun h => nomatch h)
    rw [slot] at walk
    exact ⟨n + 1, by rw [followWithin_succ, if_neg new, walk]⟩
  case case8 bases seen r new next met found ih after =>
    have slot := slotOf_of_lookUp found
    rw [follow_eq, if_neg new, slot]
    intro finite
    obtain ⟨n, walk⟩ := ih (by rw [slot]; exact fun h => nomatch h)
    obtain ⟨m, rest⟩ := after finite
    rw [slot] at walk
    refine ⟨max n m + 1, ?_⟩
    rw [followWithin_succ, if_neg new,
      slotBy_mono (fun _ _ => followWithin_mono (Nat.le_max_left n m)) walk]
    exact followWithin_mono (Nat.le_max_right n m) rest
  case case9 bases n _ =>
    exact ⟨0, by rw [slotOf_name, slotBy]⟩
  case case10 bases obj attr ih finite =>
    rw [slotOf_path] at finite ⊢
    obtain ⟨n, found⟩ := ih fun h => finite (by rw [h]; rfl)
    exact ⟨n, by rw [slotBy, found]; rfl⟩

/-! ## How a walk ends -/

/-- What can go wrong on the way of a reference: a slot is empty, or a name is met again. -/
inductive Fault.Lost : Fault → Prop
  | unbound (name : String) : Lost (.failure (.unboundVariable name))
  | circular (chain : List String) : Lost (.failure (.circularReference chain))

theorem slotBy_ok {follow : Reference → Option (Except Fault Value)}
    (sound : ∀ q v, follow q = some (.ok v) → Leads names heap (.reference q) v)
    {r : Reference} {b : Binding} (h : slotBy names heap follow r = some (.ok b)) :
    Holds names heap r b := by
  cases r with
  | name n =>
    cases h
    exact .name n
  | path obj attr =>
    obtain ⟨found, base, map⟩ := Option.map_eq_some_iff.1 h
    cases found with
    | error e => cases map
    | ok v =>
      cases map
      refine .path attr ?_
      unfold baseBy at base
      split at base
      · next w bound => cases base; rw [bound]; exact .value _
      · next q bound => rw [bound]; exact sound q v base

theorem leads_of_followWithin {n : Nat} : ∀ {seen : List String} {r : Reference} {v : Value},
    followWithin names heap n seen r = some (.ok v) → Leads names heap (.reference r) v := by
  induction n with
  | zero => exact fun h => nomatch h
  | succ n ih =>
    intro seen r v h
    rw [followWithin_succ] at h
    split at h
    · cases h
    · split at h
      · cases h
      · cases h
      · next w found =>
        have held := slotBy_ok (fun q v => ih) found
        by_cases none : w = .nothing
        · simp [none] at h
        · rw [if_neg none] at h
          cases h
          exact leads_reference_iff.2 ⟨none, _, held, .value _⟩
      · next q found =>
        have rest := ih h
        exact leads_reference_iff.2 ⟨rest.ne_nothing, _, slotBy_ok (fun q v => ih) found, rest⟩

theorem baseBy_error {follow : Reference → Option (Except Fault Value)} {r : Reference}
    {e : Fault} (h : slotBy names heap follow r = some (.error e)) :
    ∃ obj attr q, r = .path obj attr ∧ names.read obj = .reference q ∧
      follow q = some (.error e) := by
  cases r with
  | name n => cases h
  | path obj attr =>
    obtain ⟨found, base, map⟩ := Option.map_eq_some_iff.1 h
    cases found with
    | ok v => cases map
    | error e =>
      cases map
      unfold baseBy at base
      split at base
      · cases base
      · next q bound => exact ⟨obj, attr, q, rfl, bound, base⟩

theorem lost_of_followWithin {n : Nat} : ∀ {seen : List String} {r : Reference} {e : Fault},
    followWithin names heap n seen r = some (.error e) → e.Lost := by
  induction n with
  | zero => exact fun h => nomatch h
  | succ n ih =>
    intro seen r e h
    rw [followWithin_succ] at h
    split at h
    · cases h
      exact .circular _
    · split at h
      · cases h
      · next e' found =>
        cases h
        obtain ⟨_, _, q, -, -, failed⟩ := baseBy_error found
        exact ih failed
      · next w found =>
        split at h
        · cases h
          exact .unbound _
        · cases h
      · exact ih h

/-- Following is reported as endless exactly where no depth is enough. -/
theorem follow_eq_endless_iff {r : Reference} : follow names heap [] [] r = .error .endless ↔
    ∀ n, followWithin names heap n [] r = none := by
  constructor
  · intro endless n
    cases walk : followWithin names heap n [] r with
    | none => rfl
    | some x =>
      have same := follow_of_followWithin n [] walk (fun _ mem => nomatch mem)
      rw [endless] at same
      rw [← same] at walk
      cases lost_of_followWithin walk
  · intro never
    by_contra finite
    obtain ⟨n, walk⟩ := exists_followWithin [] [] r finite
    simp [never n] at walk

/-! ## Walks on which different references are written differently -/

theorem Meets.inner {r q : Reference} {obj attr : String}
    (h : Meets names heap r (.path obj attr)) (bound : names.read obj = .reference q) :
    Meets names heap r q := h.tail (.inr ⟨obj, attr, rfl, bound⟩)

theorem Meets.next {r p q : Reference} (h : Meets names heap r p) (step : Next names heap p q) :
    Meets names heap r q := h.tail (.inl step)

theorem WrittenApart.of_meets {r q : Reference} (h : WrittenApart names heap r)
    (met : Meets names heap r q) : WrittenApart names heap q :=
  fun _ _ left right => h _ _ (met.trans left) (met.trans right)

/-- A walk that has been through the references `visited`, one of which is met again. -/
theorem mem_visited {root r : Reference} {visited : List Reference}
    (apart : WrittenApart names heap root) (met : Meets names heap root r)
    (before : ∀ s ∈ visited, Meets names heap root s)
    (old : r.render ∈ visited.map Reference.render) : r ∈ visited := by
  obtain ⟨s, mem, same⟩ := List.mem_map.1 old
  rwa [apart r s met (before s mem) same.symm]

theorem not_leads_of_followWithin {root : Reference} (apart : WrittenApart names heap root)
    {n : Nat} : ∀ (visited : List Reference) {r : Reference} {e : Fault},
      followWithin names heap n (visited.map Reference.render) r = some (.error e) →
        Meets names heap root r → (∀ s ∈ visited, Meets names heap root s) →
          (∀ s ∈ visited, TransGen (Next names heap) s r) →
            ∀ v, ¬ Leads names heap (.reference r) v := by
  induction n with
  | zero => exact fun _ _ _ h => nomatch h
  | succ n ih =>
    intro visited r e h met before behind v leads
    rw [followWithin_succ] at h
    split at h
    · next old =>
      have again := behind r (mem_visited apart met before old)
      exact leads.not_transGen_next r rfl again
    · split at h
      · cases h
      · next e' found =>
        obtain ⟨obj, attr, q, rfl, bound, failed⟩ := baseBy_error found
        obtain ⟨base, leadsBase⟩ := leads.base
        rw [bound] at leadsBase
        exact ih [] failed (met.inner bound) (fun _ mem => nomatch mem)
          (fun _ mem => nomatch mem) base leadsBase
      · next w found =>
        have held := slotBy_ok (fun q v => leads_of_followWithin) found
        obtain ⟨some, b, held', inner⟩ := leads_reference_iff.1 leads
        cases held.unique held'
        cases leads_value_iff.1 inner
        rw [if_neg some] at h
        cases h
      · next next found =>
        have step : Next names heap r next := slotBy_ok (fun q v => leads_of_followWithin) found
        have met' : ∀ s ∈ visited ++ [r], Meets names heap root s :=
          List.forall_mem_append.2 ⟨before, List.forall_mem_singleton.2 met⟩
        have behind' : ∀ s ∈ visited ++ [r], TransGen (Next names heap) s next :=
          List.forall_mem_append.2
            ⟨fun s mem => (behind s mem).tail step, List.forall_mem_singleton.2 (.single step)⟩
        exact ih (visited ++ [r]) (by simpa using h) (met.next step) met' behind' v
          (leads.next step)

/-- References that a walk looks up, each with its slot at a smaller depth: the first one is among
them, and so is the next of each, unless it was visited before. -/
structure LooksUp (names : Table Binding) (heap : Heap) (n : Nat) (visited : List Reference)
    (r : Reference) (lookedUp : Reference → Prop) : Prop where
  first : lookedUp r ∨ r ∈ visited
  found : ∀ s, lookedUp s →
    ∃ m < n, ∃ y, slotBy names heap (followWithin names heap m []) s = some y
  closed : ∀ s, lookedUp s → ∀ q, Next names heap s q → lookedUp q ∨ q ∈ visited

theorem LooksUp.visited {n : Nat} {visited : List Reference} {r : Reference} (old : r ∈ visited) :
    LooksUp names heap n visited r fun _ => False :=
  ⟨.inr old, fun _ none => none.elim, fun _ none => none.elim⟩

section

variable {n : Nat} {visited : List Reference} {r : Reference} {y : Except Fault Binding}

theorem LooksUp.last (here : slotBy names heap (followWithin names heap n []) r = some y)
    (none : ∀ q, ¬ Next names heap r q) : LooksUp names heap (n + 1) visited r (· = r) := by
  refine ⟨.inl rfl, ?_, ?_⟩
  · rintro s rfl
    exact ⟨n, Nat.lt_succ_self n, y, here⟩
  · rintro s rfl q step
    exact absurd step (none q)

theorem LooksUp.cons {next : Reference} {lookedUp : Reference → Prop}
    (rest : LooksUp names heap n (visited ++ [r]) next lookedUp)
    (here : slotBy names heap (followWithin names heap n []) r = some y)
    (step : Next names heap r next) :
    LooksUp names heap (n + 1) visited r fun s => lookedUp s ∨ s = r := by
  have widen : ∀ q, lookedUp q ∨ q ∈ visited ++ [r] → (lookedUp q ∨ q = r) ∨ q ∈ visited := by
    rintro q (inside | mem)
    · exact .inl (.inl inside)
    · rcases List.mem_append.1 mem with mem | mem
      · exact .inr mem
      · exact .inl (.inr (List.mem_singleton.1 mem))
  refine ⟨.inl (.inr rfl), ?_, ?_⟩
  · rintro s (inside | rfl)
    · obtain ⟨m, lt, slot⟩ := rest.found s inside
      exact ⟨m, Nat.lt_succ_of_lt lt, slot⟩
    · exact ⟨n, Nat.lt_succ_self n, y, here⟩
  · rintro s (inside | rfl) q other
    · exact widen q (rest.closed s inside q other)
    · rw [other.unique step]
      exact widen next rest.first

end

theorem exists_looksUp {root : Reference} (apart : WrittenApart names heap root)
    {n : Nat} : ∀ (visited : List Reference) {r : Reference} {x : Except Fault Value},
      followWithin names heap n (visited.map Reference.render) r = some x →
        Meets names heap root r → (∀ s ∈ visited, Meets names heap root s) →
          ∃ lookedUp, LooksUp names heap n visited r lookedUp := by
  induction n with
  | zero => exact fun _ _ _ h => nomatch h
  | succ n ih =>
    intro visited r x h met before
    rw [followWithin_succ] at h
    split at h
    · next old => exact ⟨_, .visited (mem_visited apart met before old)⟩
    · cases here : slotBy names heap (followWithin names heap n []) r with
      | none => simp [here] at h
      | some slot =>
        rw [here] at h
        rcases slot with e | v | next
        · obtain ⟨obj, attr, q, rfl, bound, failed⟩ := baseBy_error here
          refine ⟨_, .last here fun p step => ?_⟩
          obtain ⟨base, leads, -⟩ := holds_path_iff.1 step
          rw [bound] at leads
          exact not_leads_of_followWithin apart [] failed (met.inner bound)
            (fun _ mem => nomatch mem) (fun _ mem => nomatch mem) _ leads
        · refine ⟨_, .last here fun p step => ?_⟩
          cases (slotBy_ok (fun q v => leads_of_followWithin) here).unique step
        · have step : Next names heap r next := slotBy_ok (fun q v => leads_of_followWithin) here
          obtain ⟨lookedUp, rest⟩ := ih (visited ++ [r]) (by simpa using h) (met.next step)
            (List.forall_mem_append.2 ⟨before, List.forall_mem_singleton.2 met⟩)
          exact ⟨_, rest.cons here step⟩

/-- A walk that ends has found every object that it consults, one level below at most. -/
theorem baseBy_of_consults {n : Nat} {r : Reference} {x : Except Fault Value} {obj : String}
    (apart : WrittenApart names heap r) (h : followWithin names heap n [] r = some x)
    (asks : Consults names heap r obj) :
    ∃ m < n, ∃ y, baseBy names (followWithin names heap m []) obj = some y := by
  obtain ⟨lookedUp, looks⟩ := exists_looksUp apart [] h .refl (fun _ mem => nomatch mem)
  obtain ⟨attr, steps⟩ := asks
  have inside : lookedUp (.path obj attr) := by
    generalize (Reference.path obj attr) = t at steps
    induction steps with
    | refl => exact looks.first.resolve_right List.not_mem_nil
    | tail _ step ih => exact (looks.closed _ ih _ step).resolve_right List.not_mem_nil
  obtain ⟨m, lt, y, slot⟩ := looks.found _ inside
  obtain ⟨found, base, -⟩ := Option.map_eq_some_iff.1 slot
  exact ⟨m, lt, found, base⟩

/-! ## Objects that are needed to find themselves -/

theorem Meets.consults {r q : Reference} {obj : String} (asks : Consults names heap r obj)
    (bound : names.read obj = .reference q) : Meets names heap r q := by
  obtain ⟨attr, steps⟩ := asks
  exact Meets.inner (ReflTransGen.mono (fun _ _ step => .inl step) _ _ steps) bound

theorem baseBy_of_needs {n : Nat} {obj other : String} {x : Except Fault Value}
    (apart : ∀ q, names.read obj = .reference q → WrittenApart names heap q)
    (h : baseBy names (followWithin names heap n []) obj = some x)
    (path : TransGen (Needs names heap) obj other) :
    ∃ m < n, ∃ y, baseBy names (followWithin names heap m []) other = some y := by
  induction path using TransGen.head_induction_on generalizing n x with
  | single step =>
    obtain ⟨q, bound, asks⟩ := step
    rw [baseBy, bound] at h
    exact baseBy_of_consults (apart q bound) h asks
  | head step _ ih =>
    obtain ⟨q, bound, asks⟩ := step
    rw [baseBy, bound] at h
    obtain ⟨m, lt, y, found⟩ := baseBy_of_consults (apart q bound) h asks
    obtain ⟨k, lt', z, found'⟩ := ih
      (fun p other => (apart q bound).of_meets (Meets.consults asks other)) found
    exact ⟨k, Nat.lt_trans lt' lt, z, found'⟩

theorem not_objectCircle_of_followWithin {n : Nat} {r : Reference} {x : Except Fault Value}
    (apart : WrittenApart names heap r) (h : followWithin names heap n [] r = some x) :
    ¬ ObjectCircle names heap r := by
  rintro ⟨obj, other, asks, path, circle⟩
  have written : ∀ {o}, ReflTransGen (Needs names heap) obj o →
      ∀ q, names.read o = .reference q → WrittenApart names heap q := by
    intro o steps
    induction steps with
    | refl => exact fun q bound => apart.of_meets (Meets.consults asks bound)
    | tail _ step ih =>
      obtain ⟨q, bound, asks'⟩ := step
      exact fun p bound' => (ih q bound).of_meets (Meets.consults asks' bound')
  obtain ⟨m, -, y, found⟩ := baseBy_of_consults apart h asks
  have start : ∃ m y, baseBy names (followWithin names heap m []) other = some y := by
    rcases reflTransGen_iff_eq_or_transGen.1 path with same | path
    · exact ⟨m, y, same ▸ found⟩
    · obtain ⟨k, -, z, found'⟩ := baseBy_of_needs (written .refl) found path
      exact ⟨k, z, found'⟩
  -- Going round the circle would find the object at ever smaller depths.
  obtain ⟨k, z, found'⟩ := start
  induction k using Nat.strongRecOn generalizing z with
  | _ k ih =>
    obtain ⟨l, lt, w, smaller⟩ := baseBy_of_needs (written path) found' circle
    exact ih l lt w smaller

theorem leads_of_follow {bases seen : List String} {r : Reference} {v : Value}
    (h : follow names heap bases seen r = .ok v) : Leads names heap (.reference r) v := by
  obtain ⟨n, walk⟩ := exists_followWithin bases seen r (by rw [h]; exact fun e => nomatch e)
  rw [h] at walk
  exact leads_of_followWithin walk

theorem leads_of_baseOf {bases : List String} {obj : String} {v : Value}
    (h : baseOf names heap bases obj = .ok v) : Leads names heap (names.read obj) v := by
  cases bound : names.read obj with
  | value w =>
    rw [baseOf_value bound] at h
    cases h
    exact .value _
  | reference r =>
    rw [baseOf_reference bound] at h
    split at h
    · cases h
    · exact leads_of_follow h

theorem holds_of_slotOf {bases : List String} {r : Reference} {b : Binding}
    (h : slotOf names heap bases r = .ok b) : Holds names heap r b := by
  cases r with
  | name n =>
    rw [slotOf_name] at h
    cases h
    exact .name n
  | path obj attr =>
    rw [slotOf_path] at h
    cases found : baseOf names heap bases obj with
    | error e => simp [found, Except.map] at h
    | ok base =>
      rw [found] at h
      cases h
      exact .path attr (leads_of_baseOf found)

/-- Following that never ends comes to an object that is being found already, or to one that is
needed to find itself. -/
theorem exists_needs_of_endless (bases seen : List String) (r : Reference) :
    follow names heap bases seen r = .error .endless →
      ∃ obj other, Consults names heap r obj ∧ ReflTransGen (Needs names heap) obj other ∧
        (other ∈ bases ∨ TransGen (Needs names heap) other other) := by
  induction bases, seen, r using follow.induct names heap
    (fun bases obj => baseOf names heap bases obj = .error .endless →
      ∃ other, ReflTransGen (Needs names heap) obj other ∧
        (other ∈ bases ∨ TransGen (Needs names heap) other other))
    _
    (fun bases r => slotOf names heap bases r = .error .endless →
      ∃ obj other, Consults names heap r obj ∧ ReflTransGen (Needs names heap) obj other ∧
        (other ∈ bases ∨ TransGen (Needs names heap) other other))
  case case1 bases obj v bound endless =>
    rw [baseOf_value bound] at endless
    cases endless
  case case2 bases obj r bound mem _ =>
    exact ⟨obj, .refl, .inl mem⟩
  case case3 bases obj r bound new ih endless =>
    rw [baseOf_reference bound, if_neg new] at endless
    obtain ⟨first, other, asks, path, ends⟩ := ih endless
    have step : Needs names heap obj first := ⟨r, bound, asks⟩
    rcases ends with mem | circle
    · rcases List.mem_cons.1 mem with rfl | mem
      · exact ⟨other, .refl, .inr (TransGen.head' step path)⟩
      · exact ⟨other, .head step path, .inl mem⟩
    · exact ⟨other, .head step path, .inr circle⟩
  case case4 bases seen r old =>
    intro endless
    rw [follow_eq, if_pos old] at endless
    cases endless
  case case5 bases seen r new e failed ih =>
    intro endless
    have slot := slotOf_of_lookUp_error failed
    rw [follow_eq, if_neg new, slot] at endless
    exact ih (slot.trans (by rw [Except.error.inj endless]))
  case case6 bases seen r new met found ih =>
    intro endless
    rw [follow_eq, if_neg new, slotOf_of_lookUp found] at endless
    cases endless
  case case7 bases seen r new v met found some ih =>
    intro endless
    rw [follow_eq, if_neg new, slotOf_of_lookUp found] at endless
    simp [some] at endless
  case case8 bases seen r new next met found ih after =>
    intro endless
    have slot := slotOf_of_lookUp found
    rw [follow_eq, if_neg new, slot] at endless
    obtain ⟨obj, other, ⟨attr, steps⟩, path, ends⟩ := after endless
    exact ⟨obj, other, ⟨attr, .head (holds_of_slotOf slot) steps⟩, path, ends⟩
  case case9 bases n endless =>
    rw [slotOf_name] at endless
    cases endless
  case case10 bases obj attr ih endless =>
    rw [slotOf_path] at endless
    have base : baseOf names heap bases obj = .error .endless := by
      cases found : baseOf names heap bases obj with
      | ok v => simp [found, Except.map] at endless
      | error e => simpa [found, Except.map] using endless
    obtain ⟨other, path, ends⟩ := ih base
    exact ⟨obj, other, ⟨attr, .refl⟩, path, ends⟩

theorem objectCircle_of_endless {r : Reference} (h : follow names heap [] [] r = .error .endless) :
    ObjectCircle names heap r := by
  obtain ⟨obj, other, asks, path, ends⟩ := exists_needs_of_endless [] [] r h
  exact ⟨obj, other, asks, path, ends.resolve_left (List.not_mem_nil)⟩

/-- Following is endless exactly where an object is needed to find itself. -/
theorem follow_eq_endless_iff_objectCircle {r : Reference} (apart : WrittenApart names heap r) :
    follow names heap [] [] r = .error .endless ↔ ObjectCircle names heap r := by
  refine ⟨objectCircle_of_endless, fun circle => ?_⟩
  by_contra finite
  obtain ⟨n, walk⟩ := exists_followWithin [] [] r finite
  exact not_objectCircle_of_followWithin apart walk circle

/-! ## The value of a binding -/

theorem leads_of_deref {b : Binding} {v : Value} (h : deref names heap b = .ok v) :
    Leads names heap b v := by
  cases b with
  | value w =>
    cases h
    exact .value _
  | reference r => exact leads_of_follow h

theorem follow_of_leads {bases : List String} {r : Reference} {v : Value}
    (apart : WrittenApart names heap r) (finite : follow names heap bases [] r ≠ .error .endless)
    (h : Leads names heap (.reference r) v) : follow names heap bases [] r = .ok v := by
  obtain ⟨n, walk⟩ := exists_followWithin bases [] r finite
  cases found : follow names heap bases [] r with
  | ok w => rw [(leads_of_follow found).unique h]
  | error e =>
    rw [found] at walk
    exact absurd h (not_leads_of_followWithin apart [] walk .refl (fun _ mem => nomatch mem)
      (fun _ mem => nomatch mem) v)

theorem deref_of_leads {b : Binding} {v : Value}
    (apart : ∀ r, b = .reference r → WrittenApart names heap r) (h : Leads names heap b v) :
    deref names heap b = .ok v := by
  cases b with
  | value w => rw [leads_value_iff.1 h, deref_value]
  | reference r =>
    exact follow_of_leads (apart r rfl) (fun endless =>
      h.not_objectCircle (objectCircle_of_endless endless)) h

theorem baseOf_of_leads {obj : String} {v : Value}
    (apart : ∀ r, names.read obj = .reference r → WrittenApart names heap r)
    (h : Leads names heap (names.read obj) v) : baseOf names heap [] obj = .ok v := by
  cases bound : names.read obj with
  | value w =>
    rw [bound] at h
    rw [baseOf_value bound, leads_value_iff.1 h]
  | reference r =>
    rw [baseOf_reference bound, if_neg List.not_mem_nil]
    rw [bound] at h
    refine follow_of_leads (apart r bound) (fun endless => h.not_objectCircle ?_) h
    obtain ⟨first, other, asks, path, ends⟩ := exists_needs_of_endless [obj] [] r endless
    rcases ends with mem | circle
    · rw [List.mem_singleton.1 mem] at path
      exact ⟨first, obj, asks, path, TransGen.head' ⟨r, bound, asks⟩ path⟩
    · exact ⟨first, other, asks, path, circle⟩

theorem lost_or_endless_of_deref {b : Binding} {e : Fault} (h : deref names heap b = .error e) :
    e.Lost ∨ e = .endless := by
  cases b with
  | value w => cases h
  | reference r =>
    rw [deref_reference] at h
    by_cases endless : e = .endless
    · exact .inr endless
    · have finite : follow names heap [] [] r ≠ .error .endless := by
        rw [h]
        exact fun same => endless (Except.error.inj same)
      obtain ⟨n, walk⟩ := exists_followWithin [] [] r finite
      rw [h] at walk
      exact .inl (lost_of_followWithin walk)

/-! ## Heaps with the same attributes -/

theorem follow_congr {heap' : Heap}
    (same : ∀ v attr, heap'.readAttribute v attr = heap.readAttribute v attr)
    (bases seen : List String) (r : Reference) :
    follow names heap' bases seen r = follow names heap bases seen r := by
  induction bases, seen, r using follow.induct names heap
    (fun bases obj => baseOf names heap' bases obj = baseOf names heap bases obj)
    _
    (fun bases r => slotOf names heap' bases r = slotOf names heap bases r)
  case case1 bases obj v bound => rw [baseOf_value bound, baseOf_value bound]
  case case2 bases obj r bound mem =>
    rw [baseOf_reference bound, baseOf_reference bound, if_pos mem, if_pos mem]
  case case3 bases obj r bound new ih =>
    rw [baseOf_reference bound, baseOf_reference bound, if_neg new, if_neg new, ih]
  case case4 bases seen r old =>
    rw [follow_eq, follow_eq, if_pos old, if_pos old]
  case case5 bases seen r new e failed ih =>
    rw [follow_eq, follow_eq, if_neg new, if_neg new, ih, slotOf_of_lookUp_error failed]
  case case6 bases seen r new met found ih =>
    rw [follow_eq, follow_eq, if_neg new, if_neg new, ih, slotOf_of_lookUp found]
  case case7 bases seen r new v met found some ih =>
    rw [follow_eq, follow_eq, if_neg new, if_neg new, ih, slotOf_of_lookUp found]
  case case8 bases seen r new next met found ih after =>
    rw [follow_eq, follow_eq, if_neg new, if_neg new, ih, slotOf_of_lookUp found]
    exact after
  case case9 bases n => rw [slotOf_name, slotOf_name]
  case case10 bases obj attr ih =>
    rw [slotOf_path, slotOf_path, ih]
    simp only [same]

theorem baseOf_congr {heap' : Heap}
    (same : ∀ v attr, heap'.readAttribute v attr = heap.readAttribute v attr)
    (bases : List String) (obj : String) :
    baseOf names heap' bases obj = baseOf names heap bases obj := by
  cases bound : names.read obj with
  | value v => rw [baseOf_value bound, baseOf_value bound]
  | reference r =>
    rw [baseOf_reference bound, baseOf_reference bound, follow_congr same]

end AliasScript

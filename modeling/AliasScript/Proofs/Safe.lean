import AliasScript.Eval.Interpret
import AliasScript.Proofs.Shape

/-!
# Running the tree of a program

A tree of the shape of a program runs on a machine that scripts can make without a fault of the
interpreter itself: what can end the run is a failure that the language reports to its user, or
following or printing without end (`Fault.OfProgram`). The machine stays one that scripts can make,
wherever the run ends.

Values are read without changing the machine, so a statement first reads and then changes: the
lemmas on reading say what a run returns, and `Run.Safe` says it of a run that changes the machine.
-/

namespace AliasScript

/-- What a program can do wrong with the statements that it is made of. -/
inductive Fault.OfProgram : Fault → Prop
  | unboundVariable (name : String) : OfProgram (.failure (.unboundVariable name))
  | unboundListTarget (name : String) : OfProgram (.failure (.unboundListTarget name))
  | unboundAttributeBase (obj attr : String) :
    OfProgram (.failure (.unboundAttributeBase obj attr))
  | circularReference (chain : List String) : OfProgram (.failure (.circularReference chain))
  | notAFunction (name : String) : OfProgram (.failure (.notAFunction name))
  | wrongArgument (description : String) : OfProgram (.failure (.wrongArgument description))
  | endless : OfProgram .endless

theorem Fault.Lost.ofProgram {e : Fault} (h : e.Lost) : e.OfProgram := by
  cases h with
  | unbound name => exact .unboundVariable name
  | circular chain => exact .circularReference chain

/-- A machine that scripts can make. -/
structure Machine.Scripted (m : Machine) : Prop where
  store : AliasScript.Scripted m.names m.heap
  types : m.types = Template.defaults

namespace Run

variable {α β : Type} {m : Machine}

/-- From the machine, the run ends with a result of which `p` holds or with a fault that a program
can cause, on a machine that scripts can make. -/
def Safe (m : Machine) (x : Run α) (p : α → Prop) : Prop :=
  (x m).2.Scripted ∧ match (x m).1 with
    | .ok a => p a
    | .error e => e.OfProgram

variable {p : α → Prop} {q : β → Prop} {x : Run α} {f : α → Run β}

theorem safe_pure {a : α} (machine : m.Scripted) (h : p a) : Safe m (pure a) p := ⟨machine, h⟩

theorem safe_throw {e : Fault} (machine : m.Scripted) (h : e.OfProgram) :
    Safe m (throw e : Run α) p := ⟨machine, h⟩

theorem safe_bind_ok {a : α} {m' : Machine} (run : x m = (.ok a, m')) (rest : Safe m' (f a) q) :
    Safe m (x >>= f) q := by
  rwa [Safe, act_bind_ok run]

theorem safe_bind_error {e : Fault} {m' : Machine} (run : x m = (.error e, m'))
    (machine : m'.Scripted) (known : e.OfProgram) : Safe m (x >>= f) q := by
  rw [Safe, act_bind_error run]
  exact ⟨machine, known⟩

theorem safe_bind (first : Safe m x p)
    (rest : ∀ a m', x m = (.ok a, m') → m'.Scripted → p a → Safe m' (f a) q) :
    Safe m (x >>= f) q := by
  obtain ⟨machine, ends⟩ := first
  rcases run : x m with ⟨_ | a, m'⟩ <;> rw [run] at machine ends
  · exact safe_bind_error run machine ends
  · exact safe_bind_ok run (rest a m' run machine ends)

theorem safe_ask {question : Machine → Except Fault α} (machine : m.Scripted)
    (fails : ∀ e, question m = .error e → e.OfProgram)
    (rest : ∀ a, question m = .ok a → Safe m (f a) q) : Safe m (ask question >>= f) q := by
  cases answer : question m with
  | error e => exact safe_bind_error (congrArg (·, m) answer) machine (fails e answer)
  | ok a => exact safe_bind_ok (congrArg (·, m) answer) (rest a answer)

theorem safe_ask_ok {question : Machine → Except Fault α} {a : α} (answer : question m = .ok a)
    (rest : Safe m (f a) q) : Safe m (ask question >>= f) q :=
  safe_bind_ok (congrArg (·, m) answer) rest

theorem resolve_of_apply {b : Binding} {result : Except Fault Value} {after : Heap}
    (run : AliasScript.resolve m.names b m.heap = (result, after)) :
    Run.resolve b m = (result, { m with heap := after }) := by
  show ((AliasScript.resolve m.names b m.heap).1,
    { m with heap := (AliasScript.resolve m.names b m.heap).2 }) = _
  rw [run]

theorem safe_change {change : Machine → Machine} {f : Unit → Run β}
    (rest : Safe (change m) (f ()) q) : Safe m (Run.change change >>= f) q := rest

end Run

/-! ## Looking things up -/

section

variable {names : Table Binding} {heap : Heap}

theorem ofProgram_of_follow {bases seen : List String} {r : Reference} {e : Fault}
    (h : follow names heap bases seen r = .error e) : e.OfProgram := by
  by_cases finite : e = .endless
  · rw [finite]
    exact .endless
  · obtain ⟨n, walk⟩ := exists_followWithin bases seen r fun g => finite (Except.error.inj (h ▸ g))
    rw [h] at walk
    exact (lost_of_followWithin walk).ofProgram

theorem ofProgram_of_deref {b : Binding} {e : Fault} (h : deref names heap b = .error e) :
    e.OfProgram := by
  cases b with
  | value v => cases h
  | reference r => exact ofProgram_of_follow h

theorem ofProgram_of_baseOf {bases : List String} {obj : String} {e : Fault}
    (h : baseOf names heap bases obj = .error e) : e.OfProgram := by
  cases bound : names.read obj with
  | value v =>
    rw [baseOf_value bound] at h
    cases h
  | reference r =>
    rw [baseOf_reference bound] at h
    split at h
    · cases h
      exact .endless
    · exact ofProgram_of_follow h

theorem Scripted.readPath (g : Scripted names heap) {obj attr : String} {b : Binding}
    (h : readPath names heap obj attr = .ok b) : b.Scripted heap.size := by
  rw [AliasScript.readPath] at h
  cases base : baseOf names heap [] obj with
  | error e =>
    rw [base] at h
    cases h
  | ok v =>
    rw [base] at h
    cases h
    exact g.readAttribute v attr

theorem ofProgram_of_readPath {obj attr : String} {e : Fault}
    (h : readPath names heap obj attr = .error e) : e.OfProgram := by
  rw [readPath] at h
  cases base : baseOf names heap [] obj with
  | error e' =>
    rw [base] at h
    cases h
    exact ofProgram_of_baseOf base
  | ok v =>
    rw [base] at h
    cases h

theorem ofProgram_of_objectAt {m : Machine} {obj attr : String} {e : Fault}
    (h : objectAt m obj attr = .error e) : e.OfProgram := by
  rw [objectAt] at h
  cases base : baseOf m.names m.heap [] obj with
  | error e' =>
    rw [base] at h
    cases h
    exact ofProgram_of_baseOf base
  | ok v =>
    rw [base] at h
    simp only [bind, Except.bind] at h
    split at h
    · split at h
      · cases h
      · cases h
        exact .unboundAttributeBase obj attr
    · cases h
      exact .unboundAttributeBase obj attr

end

end AliasScript

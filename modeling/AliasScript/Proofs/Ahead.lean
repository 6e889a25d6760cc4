import AliasScript.Proofs.Locality
import AliasScript.Proofs.Statements

/-!
# Running further down

What a program does depends neither on the messages that have been recorded before nor on the lines
on which its statements stand (`interpret_lowered`). The functions of the host have to be like that
as well (`Run.Oblivious`): they are given the names, the types and the heap to work on and the
argument, and may record messages of their own.
-/

namespace AliasScript

/-- The second machine is the first one with other messages recorded before. The statement begun
last need not be the same. -/
def Machine.Ahead (front : List Effect) (m m' : Machine) : Prop :=
  ∃ statement, m' = { m with effects := front ++ m.effects, statement }

/-- The second run does on a machine that is ahead what the first one does. -/
def Run.Matches {α : Type} (x y : Run α) : Prop := ∀ front m m', m.Ahead front m' →
  (y m').1 = (x m).1 ∧ (x m).2.Ahead front (y m').2

/-- The run does the same whatever has been recorded before and wherever the statement stands. -/
def Run.Oblivious {α : Type} (x : Run α) : Prop := x.Matches x

/-- No function of the host looks at what has been recorded or at where it is called. -/
def Hosts.Oblivious (hosts : Hosts) : Prop := ∀ name arg, (hosts name arg).Oblivious

namespace Run

variable {α β : Type} {x y : Run α} {f g : α → Run β}

theorem matches_bind (first : Matches x y) (rest : ∀ a, Matches (f a) (g a)) :
    Matches (x >>= f) (y >>= g) := by
  intro front m m' ahead
  obtain ⟨result, after⟩ := first front m m' ahead
  rw [act_bind_apply, act_bind_apply]
  rcases here : x m with ⟨e | a, s⟩ <;> rcases there : y m' with ⟨e' | a', s'⟩ <;>
    rw [here, there] at result after <;> cases result
  · exact ⟨rfl, after⟩
  · exact rest a front s s' after

theorem oblivious_pure (a : α) : Oblivious (pure a) := fun _ _ _ ahead => ⟨rfl, ahead⟩

theorem oblivious_throw (e : Fault) : Oblivious (throw e : Run α) := fun _ _ _ ahead => ⟨rfl, ahead⟩

theorem oblivious_ask {question : Machine → Except Fault α}
    (same : ∀ (m : Machine) effects statement,
      question { m with effects, statement } = question m) : Oblivious (ask question) := by
  rintro front m m' ⟨statement, rfl⟩
  exact ⟨same m _ statement, statement, rfl⟩

theorem oblivious_change {change : Machine → Machine}
    (same : ∀ front m m', m.Ahead front m' → (change m).Ahead front (change m')) :
    Oblivious (Run.change change) :=
  fun front m m' ahead => ⟨rfl, same front m m' ahead⟩

theorem oblivious_onHeap (act : HeapM α) : Oblivious (onHeap act) := by
  rintro front m m' ⟨statement, rfl⟩
  exact ⟨rfl, statement, rfl⟩

theorem oblivious_deref (b : Binding) : Oblivious (Run.deref b) := oblivious_ask fun _ _ _ => rfl

theorem oblivious_resolve (b : Binding) : Oblivious (Run.resolve b) := by
  rintro front m m' ⟨statement, rfl⟩
  exact ⟨rfl, statement, rfl⟩

theorem oblivious_say (topic : Topic) (message : String) : Oblivious (say topic message) := by
  refine oblivious_change ?_
  rintro front m m' ⟨statement, rfl⟩
  exact ⟨statement, by simp⟩

theorem oblivious_note {line : Machine → String}
    (same : ∀ (m : Machine) effects statement, line { m with effects, statement } = line m) :
    Oblivious (note line) := by
  refine oblivious_change ?_
  rintro front m m' ⟨statement, rfl⟩
  exact ⟨statement, by rw [same]⟩

theorem oblivious_assign (place : Reference) (b : Binding) : Oblivious (assign place b) := by
  cases place with
  | name n =>
    refine oblivious_change ?_
    rintro front m m' ⟨statement, rfl⟩
    exact ⟨statement, rfl⟩
  | path obj attr =>
    refine matches_bind (oblivious_ask fun _ _ _ => rfl) fun a => oblivious_change ?_
    rintro front m m' ⟨statement, rfl⟩
    exact ⟨statement, rfl⟩

theorem oblivious_functionNamed (name : String) : Oblivious (functionNamed name) := by
  refine matches_bind (oblivious_resolve _) fun v => ?_
  split
  · exact oblivious_pure _
  · exact oblivious_throw _

theorem oblivious_call {hosts : Hosts} (oblivious : hosts.Oblivious)
    (f : Function) (arg : Binding) : Oblivious (f.call hosts arg) := by
  cases f with
  | count => exact matches_bind (oblivious_deref arg) fun v => oblivious_ask fun _ _ _ => rfl
  | describe => exact matches_bind (oblivious_resolve arg) fun v => oblivious_ask fun _ _ _ => rfl
  | write =>
    refine matches_bind (oblivious_resolve arg) fun v => ?_
    refine matches_bind (oblivious_ask fun _ _ _ => rfl) fun text => ?_
    exact matches_bind (oblivious_say .stdout text) fun _ => oblivious_pure _
  | host name => exact oblivious name arg

theorem matches_begin (node node' : Node) : Matches (begin node) (begin node') := by
  rintro front m m' ⟨statement, rfl⟩
  exact ⟨rfl, node'.loc, rfl⟩

theorem matches_ret {f g : Binding → Run β} (rest : ∀ ret, Matches (f ret) (g ret)) :
    Matches (get >>= fun m => f m.ret) (get >>= fun m => g m.ret) := by
  rintro front m m' ⟨statement, rfl⟩
  exact rest m.ret front m _ ⟨statement, rfl⟩

end Run

/-! ## Nodes further down -/

namespace Node

variable (k : Nat)

theorem name?_lowered (node : Node) : (node.lowered k).name? = node.name? := by
  cases node with
  | listOperation keyword loc => cases keyword <;> simp only [lowered, name?]
  | _ => simp only [lowered, name?]

theorem keyword?_lowered (node : Node) : (node.lowered k).keyword? = node.keyword? := by
  cases node <;> simp only [lowered, keyword?]

theorem inner?_lowered (node : Node) : (node.lowered k).inner? = node.inner?.map (lowered k) := by
  cases node <;> simp only [lowered, inner?, Option.map_some, Option.map_none]

end Node

theorem target_lowered (k : Nat) (aim : Node) : target (aim.lowered k) = target aim := by
  rw [target, target, Node.inner?_lowered]
  cases aim.inner? with
  | none => rfl
  | some inner =>
    have names := Node.name?_lowered k
    cases inner <;>
      simp only [Option.map_some, Node.lowered, part, bind, Except.bind, names, Node.tag]

open Run

theorem changeList_lowered (k : Nat) (op : Node) (a : Addr) (items : List Binding)
    (item : Binding) : Matches (changeList op a items item)
      (changeList (op.lowered k) a items item) := by
  rw [changeList, changeList, Node.keyword?_lowered]
  refine matches_bind (oblivious_ask fun _ _ _ => rfl) fun keyword => ?_
  refine matches_bind (oblivious_ask fun _ _ _ => rfl) fun op => oblivious_change ?_
  rintro front m m' ⟨statement, rfl⟩
  exact ⟨statement, rfl⟩

section

variable {hosts : Hosts}

mutual

/-- A node does the same where it stands further down. -/
theorem interpret_lowered (oblivious : hosts.Oblivious) (k : Nat) : ∀ node : Node,
    Matches (interpret hosts node) (interpret hosts (node.lowered k))
  | .root body _ | .block body _ => by
    rw [Node.lowered, interpret, interpret]
    exact matches_ret fun ret => runSequence_lowered oblivious k body (.done ret)
  | .expression inner _ => by
    rw [Node.lowered, interpret, interpret]
    exact interpret_lowered oblivious k inner
  | .valueAssignment aim value _ => by
    rw [Node.lowered, interpret, interpret, target_lowered]
    refine matches_bind (interpret_lowered oblivious k value) fun outcome => ?_
    refine matches_bind (oblivious_ask fun _ _ _ => rfl) fun r => ?_
    refine matches_bind (oblivious_ask fun _ _ _ => rfl) fun place => ?_
    refine matches_bind (oblivious_note fun _ _ _ => rfl) fun _ => ?_
    exact matches_bind (oblivious_assign place _) fun _ => oblivious_pure _
  | .typeAssignment aim type _ => by
    rw [Node.lowered, interpret, interpret, target_lowered]
    refine matches_bind (interpret_lowered oblivious k type) fun outcome => ?_
    refine matches_bind (oblivious_ask fun _ _ _ => rfl) fun name => ?_
    refine matches_bind (oblivious_ask fun _ _ _ => rfl) fun template => ?_
    refine matches_bind (oblivious_onHeap _) fun v => ?_
    refine matches_bind (oblivious_ask fun _ _ _ => rfl) fun place => ?_
    exact matches_bind (oblivious_assign place _) fun _ => oblivious_pure _
  | .listAssignment op item aim _ => by
    rw [Node.lowered, interpret, interpret, target_lowered]
    refine matches_bind (evaluateInner_lowered oblivious k aim) fun current => ?_
    split
    · exact oblivious_throw _
    · refine matches_bind (interpret_lowered oblivious k item) fun outcome => ?_
      refine matches_bind (oblivious_ask fun _ _ _ => rfl) fun r => ?_
      refine matches_bind (oblivious_ask fun _ _ _ => rfl) fun found => ?_
      refine matches_bind (changeList_lowered k op _ _ _) fun _ => ?_
      refine matches_bind (oblivious_ask fun _ _ _ => rfl) fun place => ?_
      exact matches_bind (oblivious_assign place _) fun _ => oblivious_pure _
  | .invocation callee arg _ => by
    rw [Node.lowered, interpret, interpret]
    refine matches_bind (interpret_lowered oblivious k callee) fun outcome => ?_
    refine matches_bind (oblivious_ask fun _ _ _ => rfl) fun name => ?_
    refine matches_bind (oblivious_functionNamed name) fun f => ?_
    refine matches_bind (interpret_lowered oblivious k arg) fun outcome => ?_
    refine matches_bind (oblivious_ask fun _ _ _ => rfl) fun r => ?_
    refine matches_bind (oblivious_ask fun _ _ _ => rfl) fun b => ?_
    refine matches_bind (oblivious_note fun _ _ _ => rfl) fun _ => ?_
    exact matches_bind (oblivious_call oblivious f b) fun _ => oblivious_pure _
  | .value inner _ => by
    rw [Node.lowered, interpret, interpret]
    exact matches_bind (evaluateValue_lowered oblivious k inner) fun r => oblivious_pure _
  | .integer .. | .string .. | .identifier .. => by
    rw [Node.lowered, interpret, interpret]
    exact oblivious_pure _
  | .literal .. | .scalar .. | .object .. | .variable .. | .assignee .. | .listOperation .. => by
    simp only [Node.lowered, interpret, Node.tag]
    exact oblivious_throw _

theorem evaluateValue_lowered (oblivious : hosts.Oblivious) (k : Nat) : ∀ node : Node,
    Matches (evaluateValue hosts node) (evaluateValue hosts (node.lowered k))
  | .literal inner _ => by
    rw [Node.lowered, evaluateValue, evaluateValue]
    refine matches_bind (interpret_lowered oblivious k inner) fun outcome => ?_
    exact oblivious_ask fun _ _ _ => rfl
  | .variable inner _ => by
    rw [Node.lowered, evaluateValue, evaluateValue]
    exact evaluateValue_lowered oblivious k inner
  | .scalar inner _ => by
    rw [Node.lowered, evaluateValue, evaluateValue]
    refine matches_bind (interpret_lowered oblivious k inner) fun outcome => ?_
    refine matches_bind (oblivious_ask fun _ _ _ => rfl) fun name => ?_
    exact oblivious_ask fun _ _ _ => rfl
  | .object obj attr _ => by
    rw [Node.lowered, evaluateValue, evaluateValue, Node.name?_lowered, Node.name?_lowered]
    refine matches_bind (oblivious_ask fun _ _ _ => rfl) fun obj => ?_
    refine matches_bind (oblivious_ask fun _ _ _ => rfl) fun attr => ?_
    exact matches_bind (oblivious_ask fun _ _ _ => rfl) fun b => oblivious_pure _
  | .identifier .. | .integer .. | .string .. | .value .. | .assignee .. | .valueAssignment ..
  | .typeAssignment .. | .listOperation .. | .listAssignment .. | .invocation .. | .expression ..
  | .block .. | .root .. => by
    simp only [Node.lowered, evaluateValue, Node.tag]
    exact oblivious_throw _

theorem evaluateInner_lowered (oblivious : hosts.Oblivious) (k : Nat) : ∀ node : Node,
    Matches (evaluateInner hosts node) (evaluateInner hosts (node.lowered k))
  | .literal inner _ | .variable inner _ | .value inner _ | .assignee inner _
  | .expression inner _ => by
    rw [Node.lowered, evaluateInner, evaluateInner]
    exact evaluateValue_lowered oblivious k inner
  | .identifier .. | .integer .. | .string .. | .scalar .. | .object .. | .valueAssignment ..
  | .typeAssignment .. | .listOperation .. | .listAssignment .. | .invocation .. | .block ..
  | .root .. => by
    simp only [Node.lowered, evaluateInner]
    exact oblivious_throw _

theorem runSequence_lowered (oblivious : hosts.Oblivious) (k : Nat) :
    ∀ (nodes : List Node) (last : Outcome),
      Matches (runSequence hosts nodes last) (runSequence hosts (Node.allLowered k nodes) last)
  | [], last => by
    rw [Node.allLowered, runSequence]
    exact oblivious_pure last
  | node :: nodes, .done _ => by
    rw [Node.allLowered, runSequence, runSequence]
    refine matches_bind (matches_begin _ _) fun _ => ?_
    refine matches_bind (interpret_lowered oblivious k node) fun outcome => ?_
    exact runSequence_lowered oblivious k nodes outcome
  | node :: nodes, .reading _ | node :: nodes, .leaf _ => by
    simp only [Node.allLowered, runSequence]
    exact matches_bind (matches_begin _ _) fun _ => oblivious_throw _

end

end

end AliasScript

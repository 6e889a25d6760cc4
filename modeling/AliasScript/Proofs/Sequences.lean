import AliasScript.Proofs.FailedCalls
import AliasScript.Proofs.Writing

/-!
# What a sequence of statements returns

What a statement has returned is forgotten before the next one begins, in a block as well as around
it. So no function is ever called on a machine that something has been returned on
(`interpret_coincides`): nothing that a function does can depend on it. Blocks may then be taken apart,
since running their statements one after the other does the same (`Node.IsNested.sameRun`), and in the
end a sequence has returned what its last statement returned, and nothing if that was no call or there
was none (`Node.IsNested.returns`, `sequence_returns`).
-/

namespace AliasScript

/-! ## Nested statements -/

def Machine.starting (m : Machine) (node : Node) : Machine :=
  { m with statement := node.loc, ret := .nothing }

/-- The machine without what was returned last and where that was. -/
def Machine.unmarked (m : Machine) : Machine := { m with statement := none, ret := .nothing }

namespace Node

/-- An assignment or a call, whatever its parts are. -/
inductive IsSimple : Node → Prop
  | valueAssignment (assignee value : Node) (loc : Option Loc) :
    IsSimple (.valueAssignment assignee value loc)
  | typeAssignment (assignee type : Node) (loc : Option Loc) :
    IsSimple (.typeAssignment assignee type loc)
  | listAssignment (operation item assignee : Node) (loc : Option Loc) :
    IsSimple (.listAssignment operation item assignee loc)
  | invocation (callee argument : Node) (loc : Option Loc) :
    IsSimple (.invocation callee argument loc)

/-- Assignments, calls, and blocks of such, nested to any depth. -/
inductive IsNested : Node → Prop
  | simple {node : Node} : node.IsSimple → IsNested node
  | expression {inner : Node} {loc : Option Loc} : inner.IsNested → IsNested (.expression inner loc)
  | block {body : List Node} {loc : Option Loc} : (∀ node ∈ body, node.IsNested) →
    IsNested (.block body loc)

/-- The statements of a program or a block. -/
def body? : Node → Option (List Node)
  | .root body _ | .block body _ => some body
  | _ => none

mutual

/-- The statements of a node in the order in which they run. One in no block is the whole element of
the sequence that it is in. -/
def flatten (whole : Node) : Node → List Node
  | .expression inner _ => flatten whole inner
  | .block body _ => flattenAll body
  | _ => [whole]

def flattenAll : List Node → List Node
  | [] => []
  | node :: rest => flatten node node ++ flattenAll rest

end

mutual

/-- The statement that runs last, unless there is an empty block in its place. -/
def final? : Node → Option Node
  | .expression inner _ => final? inner
  | .block body _ => finalOfAll? body
  | node => some node

def finalOfAll? : List Node → Option Node
  | [] => none
  | [node] => final? node
  | _ :: next :: rest => finalOfAll? (next :: rest)

end

theorem finalOfAll?_concat (before : List Node) (node : Node) :
    finalOfAll? (before ++ [node]) = node.final? := by
  induction before with
  | nil => rfl
  | cons first before ih =>
    cases before with
    | nil => rfl
    | cons next before => exact ih

end Node

/-- What a call comes to before its function is called: the function, and the argument for it. -/
def callOf (hosts : Hosts) (callee arg : Node) : Run (Function × Binding) := do
  let outcome ← interpret hosts callee
  let name ← Run.ask fun _ => outcome.name?
  let f ← functionNamed name
  let argOutcome ← interpret hosts arg
  let r ← Run.ask fun _ => argOutcome.reading?
  let b ← Run.ask fun _ => argument r
  Run.note fun m => "[DBG] call " ++ name ++ " " ++ m.heap.plain b
  return (f, b)

theorem interpret_invocation_eq (hosts : Hosts) (callee arg : Node) (loc : Option Loc) :
    interpret hosts (.invocation callee arg loc) =
      callOf hosts callee arg >>= fun call => call.1.call hosts call.2 >>= fun ret =>
        pure (.done ret) := by
  simp only [interpret, callOf, bind_assoc, pure_bind]

section

variable (hosts : Hosts) (s : Node) (here : Machine)

/-- Running a node on a machine gets to the statement `s` on the machine `here`. -/
inductive Node.GetsTo : Node → Machine → Prop
  | here : GetsTo s here
  | expression {inner : Node} {loc : Option Loc} {m : Machine} : GetsTo inner m →
    GetsTo (.expression inner loc) m
  | sequence {outer node : Node} {before after : List Node} {m m' : Machine} {b : Binding} :
    outer.body? = some (before ++ node :: after) →
      runSequence hosts before (.done m.ret) m = (.ok (.done b), m') →
        GetsTo node (m'.starting node) → GetsTo outer m

end

/-- What was returned on the machine that a run has left: what the function of the last call did, or
nothing after anything else. -/
inductive Returns (hosts : Hosts) (gets : Node → Machine → Prop) :
    Option Node → Binding → Machine → Prop
  | call {callee arg : Node} {loc : Option Loc} {m called m' : Machine} {f : Function}
      {b ret : Binding} : gets (.invocation callee arg loc) m →
    callOf hosts callee arg m = (.ok (f, b), called) → f.call hosts b called = (.ok ret, m') →
      Returns hosts gets (some (.invocation callee arg loc)) ret m'
  | nothing {last : Option Node} {m' : Machine} :
    (∀ callee arg loc, last ≠ some (.invocation callee arg loc)) → Returns hosts gets last .nothing m'

/-- The runs fail alike on equal machines, or succeed on machines that differ in nothing but what was
returned last and where. -/
inductive SameRun : Except Fault Outcome × Machine → Except Fault Outcome × Machine → Prop
  | error (e : Fault) (m : Machine) : SameRun (.error e, m) (.error e, m)
  | done {b b' : Binding} {m m' : Machine} : m.unmarked = m'.unmarked →
    SameRun (.ok (.done b), m) (.ok (.done b'), m')

/-! ## Nothing depends on what was returned -/

/-- The functions do the same on every machine on which nothing has been returned. -/
def Hosts.Coincide (hosts hosts' : Hosts) : Prop :=
  ∀ name arg m, m.ret = .nothing → hosts' name arg m = hosts name arg m

/-- The machine is one on which nothing has been returned, unless the outcome is that of a statement. -/
def Outcome.Fits (o : Outcome) (m : Machine) : Prop := (∃ b, o = .done b) ∨ m.ret = .nothing

namespace Run

variable {α β : Type}

/-- On a machine on which nothing has been returned the runs do the same, and their result fits the
machine that they leave. -/
def Coincide (fits : α → Machine → Prop) (x x' : Run α) : Prop :=
  ∀ m, m.ret = .nothing → x' m = x m ∧ ∀ a m', x m = (.ok a, m') → fits a m'

/-- The runs do the same, and return nothing. -/
def CoincideClear (x x' : Run α) : Prop := Coincide (fun _ m => m.ret = .nothing) x x'

/-- The run leaves what was returned. -/
def KeepsRet (x : Run α) : Prop := ∀ m, (x m).2.ret = m.ret

variable {x x' : Run α} {f f' : α → Run β} {fits : β → Machine → Prop}

theorem KeepsRet.bind (first : x.KeepsRet) (rest : ∀ a, (f a).KeepsRet) : KeepsRet (x >>= f) := by
  intro m
  have kept := first m
  rw [act_bind_apply]
  rcases run : x m with ⟨e | a, m'⟩ <;> rw [run] at kept
  · exact kept
  · exact (rest a m').trans kept

theorem keepsRet_functionNamed (name : String) : KeepsRet (functionNamed name) := by
  refine KeepsRet.bind (fun m => rfl) fun v => ?_
  split <;> exact fun m => rfl

theorem keepsRet_assign (place : Reference) (b : Binding) : KeepsRet (assign place b) := by
  cases place with
  | name n => exact fun m => rfl
  | path obj attr => exact KeepsRet.bind (fun m => rfl) fun a m => rfl

theorem KeepsRet.coincide (h : x.KeepsRet) : CoincideClear x x := by
  refine fun m clear => ⟨rfl, fun a m' run => ?_⟩
  have kept := h m
  rw [run] at kept
  exact kept.trans clear

theorem coincide_ask (question : Machine → Except Fault α) :
    CoincideClear (ask question) (ask question) := KeepsRet.coincide fun _ => rfl

theorem coincide_bind (first : CoincideClear x x') (rest : ∀ a, Coincide fits (f a) (f' a)) :
    Coincide fits (x >>= f) (x' >>= f') := by
  intro m clear
  obtain ⟨same, fit⟩ := first m clear
  rw [act_bind_apply, act_bind_apply, same]
  rcases run : x m with ⟨e | a, m'⟩
  · exact ⟨rfl, fun _ _ failed => nomatch failed⟩
  · exact rest a m' (fit a m' run)

theorem coincide_part {x x' : Run Outcome} (first : Coincide Outcome.Fits x x')
    {part? : Outcome → Except Fault α} (none : ∀ b, ∃ e, part? (.done b) = .error e) :
    CoincideClear (x >>= fun o => ask fun _ => part? o) (x' >>= fun o => ask fun _ => part? o) := by
  intro m clear
  obtain ⟨same, fit⟩ := first m clear
  rw [act_bind_apply, act_bind_apply, same]
  refine ⟨rfl, fun a m' ends => ?_⟩
  rcases run : x m with ⟨e | o, m₁⟩ <;> rw [run] at ends
  · cases ends
  · obtain ⟨found, rfl⟩ := eq_of_ask ends
    refine (fit o m' run).resolve_left ?_
    rintro ⟨b, rfl⟩
    obtain ⟨e, failed⟩ := none b
    cases failed.symm.trans found

theorem coincide_bind_part {x x' : Run Outcome} (first : Coincide Outcome.Fits x x')
    {part? : Outcome → Except Fault α} (none : ∀ b, ∃ e, part? (.done b) = .error e)
    (rest : ∀ a, Coincide fits (f a) (f' a)) :
    Coincide fits (x >>= fun o => (ask fun _ => part? o) >>= f)
      (x' >>= fun o => (ask fun _ => part? o) >>= f') := by
  rw [← bind_assoc, ← bind_assoc]
  exact coincide_bind (coincide_part first none) rest

theorem coincide_of_any {fits : α → Machine → Prop} (h : ∀ a m, fits a m) (x : Run α) :
    Coincide fits x x := fun _ _ => ⟨rfl, fun a m _ => h a m⟩

theorem coincide_throw {fits : α → Machine → Prop} (e : Fault) :
    Coincide fits (throw e) (throw e) := fun _ _ => ⟨rfl, fun _ _ failed => nomatch failed⟩

theorem coincide_done (b : Binding) : Coincide Outcome.Fits (pure (.done b)) (pure (.done b)) := by
  refine fun m _ => ⟨rfl, fun o m' run => ?_⟩
  cases run
  exact .inl ⟨b, rfl⟩

theorem coincide_leaf (s : Scalar) : Coincide Outcome.Fits (pure (.leaf s)) (pure (.leaf s)) := by
  refine fun m clear => ⟨rfl, fun o m' run => ?_⟩
  cases run
  exact .inr clear

end Run

open Run

theorem Outcome.reading?_done (b : Binding) : ∃ e, (Outcome.done b).reading? = .error e := ⟨_, rfl⟩

theorem Outcome.name?_done (b : Binding) : ∃ e, (Outcome.done b).name? = .error e := ⟨_, rfl⟩

theorem Outcome.literal?_done (b : Binding) : ∃ e, (Outcome.done b).literal? = .error e := ⟨_, rfl⟩

section

variable {hosts hosts' : Hosts}

theorem coincide_call (same : hosts.Coincide hosts') (f : Function) (b : Binding) :
    Coincide (fun _ _ => True) (f.call hosts b) (f.call hosts' b) := by
  cases f with
  | host name => exact fun m clear => ⟨same name b m clear, fun _ _ _ => trivial⟩
  | _ => exact coincide_of_any (fun _ _ => trivial) _

theorem coincide_callOf {callee arg : Node}
    (first : Coincide Outcome.Fits (interpret hosts callee) (interpret hosts' callee))
    (second : Coincide Outcome.Fits (interpret hosts arg) (interpret hosts' arg)) :
    CoincideClear (callOf hosts callee arg) (callOf hosts' callee arg) := by
  rw [callOf, callOf]
  refine coincide_bind_part first Outcome.name?_done fun name => ?_
  refine coincide_bind (keepsRet_functionNamed name).coincide fun f => ?_
  refine coincide_bind_part second Outcome.reading?_done fun r => ?_
  refine coincide_bind (coincide_ask _) fun b => ?_
  exact KeepsRet.coincide fun m => rfl

mutual

/-- A node does the same with functions that do the same where nothing has been returned. -/
theorem interpret_coincides (same : hosts.Coincide hosts') : ∀ node : Node,
    Coincide Outcome.Fits (interpret hosts node) (interpret hosts' node)
  | .root body _ | .block body _ => by
    rw [interpret, interpret]
    intro m _
    obtain ⟨equal, fits⟩ := runSequence_coincides same body (.done m.ret) m
    exact ⟨equal, fun o m' run => fits o m' run (.inl ⟨m.ret, rfl⟩)⟩
  | .expression inner _ => by
    rw [interpret, interpret]
    exact interpret_coincides same inner
  | .valueAssignment aim value _ => by
    rw [interpret, interpret]
    refine coincide_bind_part (interpret_coincides same value) Outcome.reading?_done fun r => ?_
    refine coincide_bind (coincide_ask _) fun place => ?_
    refine coincide_bind (KeepsRet.coincide fun m => rfl) fun _ => ?_
    exact coincide_bind (keepsRet_assign _ _).coincide fun _ => coincide_done _
  | .typeAssignment aim type _ => by
    rw [interpret, interpret]
    refine coincide_bind_part (interpret_coincides same type) Outcome.name?_done fun name => ?_
    refine coincide_bind (coincide_ask _) fun template => ?_
    refine coincide_bind (KeepsRet.coincide fun m => rfl) fun v => ?_
    refine coincide_bind (coincide_ask _) fun place => ?_
    exact coincide_bind (keepsRet_assign _ _).coincide fun _ => coincide_done _
  | .listAssignment op item aim _ => by
    rw [interpret, interpret]
    refine coincide_bind (evaluateInner_coincides same aim) fun current => ?_
    split
    · exact coincide_throw _
    refine coincide_bind_part (interpret_coincides same item) Outcome.reading?_done fun r => ?_
    refine coincide_bind (coincide_ask _) fun target => ?_
    refine coincide_bind (KeepsRet.coincide ?_) fun _ => ?_
    · exact KeepsRet.bind (fun m => rfl) fun keyword => KeepsRet.bind (fun m => rfl) fun _ m => rfl
    refine coincide_bind (coincide_ask _) fun place => ?_
    exact coincide_bind (keepsRet_assign _ _).coincide fun _ => coincide_done _
  | .invocation callee arg _ => by
    rw [interpret_invocation_eq, interpret_invocation_eq]
    have first := interpret_coincides same callee
    refine coincide_bind (coincide_callOf first (interpret_coincides same arg)) fun call => ?_
    intro m clear
    obtain ⟨equal, -⟩ := coincide_call same call.1 call.2 m clear
    rw [act_bind_apply, act_bind_apply, equal]
    refine ⟨rfl, fun o m' run => ?_⟩
    rcases ended : call.1.call hosts call.2 m with ⟨e | b, m₁⟩ <;> rw [ended] at run <;> cases run
    exact .inl ⟨b, rfl⟩
  | .value inner _ => by
    rw [interpret, interpret]
    refine coincide_bind (evaluateValue_coincides same inner) fun r m clear => ⟨rfl, ?_⟩
    intro o m' run
    cases run
    exact .inr clear
  | .integer .. | .string .. | .identifier .. => by
    rw [interpret, interpret]
    exact coincide_leaf _
  | .literal .. | .scalar .. | .object .. | .variable .. | .assignee .. | .listOperation .. => by
    simp only [interpret]
    exact coincide_throw _

theorem evaluateValue_coincides (same : hosts.Coincide hosts') : ∀ node : Node,
    CoincideClear (evaluateValue hosts node) (evaluateValue hosts' node)
  | .literal inner _ => by
    rw [evaluateValue, evaluateValue]
    exact coincide_part (interpret_coincides same inner) Outcome.literal?_done
  | .variable inner _ => by
    rw [evaluateValue, evaluateValue]
    exact evaluateValue_coincides same inner
  | .scalar inner _ => by
    rw [evaluateValue, evaluateValue]
    exact coincide_bind_part (interpret_coincides same inner) Outcome.name?_done fun name =>
      coincide_ask _
  | .object obj attr _ => by
    rw [evaluateValue, evaluateValue]
    refine coincide_bind (coincide_ask _) fun obj => coincide_bind (coincide_ask _) fun attr => ?_
    exact coincide_bind (coincide_ask _) fun b => KeepsRet.coincide fun m => rfl
  | .identifier .. | .integer .. | .string .. | .value .. | .assignee .. | .valueAssignment ..
  | .typeAssignment .. | .listOperation .. | .listAssignment .. | .invocation ..
  | .expression .. | .block .. | .root .. => by
    simp only [evaluateValue]
    exact coincide_throw _

theorem evaluateInner_coincides (same : hosts.Coincide hosts') : ∀ node : Node,
    CoincideClear (evaluateInner hosts node) (evaluateInner hosts' node)
  | .literal inner _ | .variable inner _ | .value inner _ | .assignee inner _
  | .expression inner _ => by
    rw [evaluateInner, evaluateInner]
    exact evaluateValue_coincides same inner
  | .identifier .. | .integer .. | .string .. | .scalar .. | .object .. | .valueAssignment ..
  | .typeAssignment .. | .listOperation .. | .listAssignment .. | .invocation .. | .block ..
  | .root .. => by
    simp only [evaluateInner]
    exact coincide_throw _

theorem runSequence_coincides (same : hosts.Coincide hosts') : ∀ (nodes : List Node)
    (last : Outcome) (m : Machine),
      runSequence hosts' nodes last m = runSequence hosts nodes last m ∧
        ∀ o m', runSequence hosts nodes last m = (.ok o, m') → last.Fits m → o.Fits m'
  | [], last, m => by
    rw [runSequence, runSequence]
    refine ⟨rfl, fun o m' run fits => ?_⟩
    cases run
    exact fits
  | node :: rest, .done b, m => by
    have started : begin node m = (.ok (), m.starting node) := rfl
    rw [runSequence, runSequence, act_bind_ok started, act_bind_ok started]
    obtain ⟨equal, fits⟩ := interpret_coincides same node (m.starting node) rfl
    rw [act_bind_apply, act_bind_apply, equal]
    rcases run : interpret hosts node (m.starting node) with ⟨e | o, m₁⟩
    · exact ⟨rfl, fun _ _ failed => nomatch failed⟩
    · obtain ⟨equal', fits'⟩ := runSequence_coincides same rest o m₁
      exact ⟨equal', fun o' m' run' _ => fits' o' m' run' (fits o m₁ run)⟩
  | node :: rest, .reading _, m | node :: rest, .leaf _, m => by
    simp only [runSequence, true_and]
    exact fun _ _ failed => nomatch failed

end

end

/-! ## What a simple statement returns -/

section

variable {hosts : Hosts}

/-- The run can have results of one kind only. -/
def Run.Gives {α : Type} (p : α → Prop) (x : Run α) : Prop := ∀ m a m', x m = (.ok a, m') → p a

theorem Run.gives_bind {α β : Type} {x : Run α} {f : α → Run β} {p : β → Prop}
    (rest : ∀ a, Gives p (f a)) : Gives p (x >>= f) := by
  intro m b m' run
  obtain ⟨a, m₁, -, run⟩ := exists_of_act_bind_ok run
  exact rest a m₁ b m' run

theorem Run.gives_pure {α : Type} {p : α → Prop} {a : α} (h : p a) : Gives p (pure a) := by
  intro m b m' run
  cases run
  exact h

theorem Run.gives_throw {α : Type} {p : α → Prop} (e : Fault) : Gives p (throw e) :=
  fun _ _ _ failed => nomatch failed

theorem Node.IsSimple.gives_nothing {node : Node} (simple : node.IsSimple)
    (noCall : ∀ callee arg loc, node ≠ .invocation callee arg loc) :
    Run.Gives (· = .done .nothing) (interpret hosts node) := by
  cases simple with
  | valueAssignment =>
    rw [interpret]
    exact gives_bind fun _ => gives_bind fun _ => gives_bind fun _ => gives_bind fun _ =>
      gives_bind fun _ => gives_pure rfl
  | typeAssignment =>
    rw [interpret]
    exact gives_bind fun _ => gives_bind fun _ => gives_bind fun _ => gives_bind fun _ =>
      gives_bind fun _ => gives_bind fun _ => gives_pure rfl
  | listAssignment =>
    rw [interpret]
    refine gives_bind fun current => ?_
    split
    · exact gives_throw _
    · exact gives_bind fun _ => gives_bind fun _ => gives_bind fun _ => gives_bind fun _ =>
        gives_bind fun _ => gives_bind fun _ => gives_pure rfl
  | invocation callee arg loc => exact absurd rfl (noCall callee arg loc)

/-- A simple statement returns what the function that it calls returns, or nothing. -/
theorem Node.IsSimple.returns {node : Node} (simple : node.IsSimple) {m m' : Machine} {o : Outcome}
    (run : interpret hosts node m = (.ok o, m')) :
    ∃ ret, o = .done ret ∧ Returns hosts (GetsTo hosts · · node m) (some node) ret m' := by
  by_cases call : ∃ callee arg loc, node = .invocation callee arg loc
  · obtain ⟨callee, arg, loc, rfl⟩ := call
    rw [interpret_invocation_eq] at run
    obtain ⟨⟨f, b⟩, called, ready, run⟩ := exists_of_act_bind_ok run
    obtain ⟨ret, m₁, ended, run⟩ := exists_of_act_bind_ok run
    cases run
    exact ⟨ret, rfl, .call .here ready ended⟩
  · have noCall : ∀ callee arg loc, node ≠ .invocation callee arg loc :=
      fun callee arg loc same => call ⟨callee, arg, loc, same⟩
    refine ⟨.nothing, simple.gives_nothing noCall m o m' run, .nothing fun callee arg loc same => ?_⟩
    exact noCall callee arg loc (Option.some.inj same)

/-! ## What a nested statement returns -/

theorem exists_done_of_runSequence {node : Node} {rest : List Node} {last o : Outcome}
    {m m' : Machine} (run : runSequence hosts (node :: rest) last m = (.ok o, m')) :
    ∃ b, last = .done b := by
  cases last with
  | done b => exact ⟨b, rfl⟩
  | reading | leaf =>
    rw [runSequence] at run
    · cases run
    all_goals nofun

theorem Returns.imp {gets gets' : Node → Machine → Prop} (h : ∀ s m, gets s m → gets' s m)
    {last : Option Node} {ret : Binding} {m' : Machine} (returns : Returns hosts gets last ret m') :
    Returns hosts gets' last ret m' := by
  cases returns with
  | call comes ready ended => exact .call (h _ _ comes) ready ended
  | nothing noCall => exact .nothing noCall

theorem interpret_of_body? {outer : Node} {body : List Node} (sequence : outer.body? = some body)
    (m : Machine) : interpret hosts outer m = runSequence hosts body (.done m.ret) m := by
  cases outer with
  | root | block =>
    cases sequence
    rw [interpret]
    rfl
  | _ => cases sequence

theorem returns_of_last {outer : Node} {body : List Node} (sequence : outer.body? = some body)
    (some : body ≠ [])
    (each : ∀ node ∈ body, ∀ m m' o, m.ret = .nothing → interpret hosts node m = (.ok o, m') →
      ∃ ret, o = .done ret ∧ Returns hosts (Node.GetsTo hosts · · node m) node.final? ret m')
    {m m' : Machine} {o : Outcome} (run : interpret hosts outer m = (.ok o, m')) :
    ∃ ret, o = .done ret ∧ Returns hosts (Node.GetsTo hosts · · outer m)
      (Node.finalOfAll? body) ret m' := by
  rw [interpret_of_body? sequence] at run
  obtain ⟨before, node, rfl⟩ := (List.eq_nil_or_concat body).resolve_left some
  rw [List.concat_eq_append] at run sequence ⊢
  rw [runSequence_append] at run
  obtain ⟨last, m₁, front, run⟩ := exists_of_act_bind_ok run
  obtain ⟨b, rfl⟩ := exists_done_of_runSequence run
  rw [runSequence, act_bind_ok (show begin node m₁ = (.ok (), m₁.starting node) from rfl)] at run
  obtain ⟨o', m₂, ran, rest⟩ := exists_of_act_bind_ok run
  rw [runSequence] at rest
  cases rest
  obtain ⟨ret, rfl, returns⟩ := each node (by simp) _ _ _ rfl ran
  rw [Node.finalOfAll?_concat]
  exact ⟨ret, rfl, returns.imp fun s here gets => .sequence sequence front gets⟩

/-- Begun where nothing is returned, a nested statement returns what the last call in it does, or
nothing. -/
theorem Node.IsNested.returns {node : Node} (nested : node.IsNested) : ∀ {m m' : Machine}
    {o : Outcome}, m.ret = .nothing → interpret hosts node m = (.ok o, m') →
      ∃ ret, o = .done ret ∧ Returns hosts (GetsTo hosts · · node m) node.final? ret m' := by
  induction nested with
  | simple simple =>
    intro m m' o _ run
    cases simple <;> exact IsSimple.returns (by constructor) run
  | expression _ ih =>
    intro m m' o clear run
    rw [interpret] at run
    obtain ⟨ret, same, returns⟩ := ih clear run
    exact ⟨ret, same, returns.imp fun s here gets => .expression gets⟩
  | @block body loc _ ih =>
    intro m m' o clear run
    by_cases empty : body = []
    · subst empty
      rw [interpret_of_body? rfl, runSequence, clear] at run
      cases run
      exact ⟨.nothing, rfl, .nothing nofun⟩
    · exact returns_of_last rfl empty (fun node mem m m' o => ih node mem) run

/-! ## Taking blocks apart -/

theorem starting_of_unmarked {m m' : Machine} (same : m.unmarked = m'.unmarked) (node : Node) :
    m.starting node = m'.starting node :=
  congrArg (fun m : Machine => { m with statement := node.loc, ret := .nothing }) same

theorem SameRun.bind {x x' : Run Outcome} {f f' : Outcome → Run Outcome} {m m' : Machine}
    (first : SameRun (x m) (x' m')) (rest : ∀ b b' m m', m.unmarked = m'.unmarked →
      SameRun (f (.done b) m) (f' (.done b') m')) : SameRun ((x >>= f) m) ((x' >>= f') m') := by
  rw [act_bind_apply, act_bind_apply]
  generalize x m = p at first
  generalize x' m' = p' at first
  cases first with
  | error e m => exact .error e m
  | done same => exact rest _ _ _ _ same

theorem sameRun_sequence {body : List Node}
    (each : ∀ node ∈ body, ∀ (b : Binding) (m m' : Machine), m.unmarked = m'.unmarked →
      SameRun (interpret hosts node (m.starting node))
        (runSequence hosts (node.flatten node) (.done b) m')) :
    ∀ (b b' : Binding) (m m' : Machine), m.unmarked = m'.unmarked →
      SameRun (runSequence hosts body (.done b) m)
        (runSequence hosts (Node.flattenAll body) (.done b') m') := by
  induction body with
  | nil =>
    intro b b' m m' same
    rw [Node.flattenAll, runSequence, runSequence]
    exact .done same
  | cons node rest ih =>
    intro b b' m m' same
    have begun : begin node m = (.ok (), m.starting node) := rfl
    rw [Node.flattenAll, runSequence_append, runSequence, act_bind_ok begun]
    refine (each node (List.mem_cons_self ..) b' m m' same).bind ?_
    exact ih fun other mem => each other (List.mem_cons_of_mem _ mem)

/-- A nested statement does the same as the statements in it. -/
theorem Node.IsNested.sameRun {node : Node} (nested : node.IsNested) : ∀ (whole : Node),
    (∀ m, interpret hosts whole m = interpret hosts node m) → ∀ (b : Binding) (m m' : Machine),
      m.unmarked = m'.unmarked → SameRun (interpret hosts node (m.starting whole))
        (runSequence hosts (flatten whole node) (.done b) m') := by
  have one (whole node : Node) (simple : node.IsSimple)
      (equal : ∀ m, interpret hosts whole m = interpret hosts node m) (b : Binding) (m m' : Machine)
      (same : m.unmarked = m'.unmarked) : SameRun (interpret hosts node (m.starting whole))
        (runSequence hosts [whole] (.done b) m') := by
    have begun : begin whole m' = (.ok (), m.starting whole) :=
      congrArg (Except.ok (), ·) (starting_of_unmarked same whole).symm
    rw [runSequence, act_bind_ok begun, act_bind_apply, equal]
    rcases run : interpret hosts node (m.starting whole) with ⟨e | o, m₁⟩
    · exact .error e m₁
    · obtain ⟨ret, rfl, -⟩ := simple.returns run
      exact .done rfl
  induction nested with
  | simple simple =>
    intro whole equal b m m' same
    cases simple <;> exact one whole _ (by constructor) equal b m m' same
  | expression _ ih =>
    intro whole equal b m m' same
    rw [interpret, flatten]
    exact ih whole (fun m => (equal m).trans (by rw [interpret])) b m m' same
  | @block body loc _ ih =>
    intro whole _ b m m' same
    rw [interpret_of_body? rfl, flatten]
    refine sameRun_sequence (fun node mem => ih node mem node fun _ => rfl) _ b _ m' ?_
    exact same

/-! ## The whole of a sequence -/

/-- Running a node from where nothing is returned gets to its statements where nothing is returned. -/
theorem Node.GetsTo.clear {s node : Node} {here m : Machine} (gets : GetsTo hosts s here node m)
    (clear : m.ret = .nothing ∨ ∃ body, node.body? = some body ∧ s.body? = none) :
    here.ret = .nothing := by
  induction gets with
  | here =>
    refine clear.resolve_right ?_
    rintro ⟨body, sequence, other⟩
    cases other.symm.trans sequence
  | expression _ ih => exact ih (clear.imp_right fun ⟨_, same, _⟩ => nomatch same)
  | sequence _ _ _ ih => exact ih (.inl rfl)

end

/-- Whatever has been returned before, every function that a sequence of nested statements calls finds
nothing returned: it is called on such a machine, and functions that do the same on such machines do
the same in the sequence. The sequence does the same as its statements without the blocks around them.
It returns what the function of its last call returned, or nothing if it does not end with a call; a
sequence without statements leaves everything as it is. -/
theorem sequence_returns (hosts : Hosts) {outer : Node} {body : List Node}
    (sequence : outer.body? = some body) (nested : ∀ node ∈ body, node.IsNested) (m : Machine) :
    (∀ hosts', hosts.Coincide hosts' → interpret hosts' outer m = interpret hosts outer m) ∧
    (∀ callee arg loc here, Node.GetsTo hosts (.invocation callee arg loc) here outer m →
      ∀ call called, callOf hosts callee arg here = (.ok call, called) → called.ret = .nothing) ∧
    SameRun (interpret hosts outer m) (runSequence hosts (Node.flattenAll body) (.done m.ret) m) ∧
    (body ≠ [] → ∀ o m', interpret hosts outer m = (.ok o, m') → ∃ ret, o = .done ret ∧
      Returns hosts (Node.GetsTo hosts · · outer m) (Node.finalOfAll? body) ret m') ∧
    (body = [] → interpret hosts outer m = (.ok (.done m.ret), m)) := by
  refine ⟨fun hosts' same => ?_, fun callee arg loc here gets call called ready => ?_, ?_,
    fun some o m' run => ?_, fun empty => ?_⟩
  · rw [interpret_of_body? sequence, interpret_of_body? sequence]
    exact (runSequence_coincides same body (.done m.ret) m).1
  · have clear := gets.clear (.inr ⟨body, sequence, rfl⟩)
    have same : hosts.Coincide hosts := fun _ _ _ _ => rfl
    have ends := coincide_callOf (interpret_coincides same callee) (interpret_coincides same arg)
    exact (ends here clear).2 call called ready
  · rw [interpret_of_body? sequence]
    refine sameRun_sequence (fun node mem => ?_) _ _ m m rfl
    exact (nested node mem).sameRun node fun _ => rfl
  · exact returns_of_last sequence some (fun node mem _ _ _ => (nested node mem).returns) run
  · rw [interpret_of_body? sequence, empty, runSequence]
    rfl

/-- The one function of this host returns what has been returned when it is called. -/
def retelling : Hosts := fun _ _ => return (← get).ret

def retell (n : Int) : Node :=
  .invocation (.identifier "tell" none) (.value (.literal (.integer n none) none) none) none

def retold : Node := .root [retell 1, .block [retell 2, .block [] none] none] none

def retellingMachine : Machine := { Machine.fresh false with
  names := .ofList [("tell", .value (.scalar (.function (.host "tell"))))]
  ret := .value (.number 7) }

theorem interpret_retell {m : Machine}
    (bound : m.names.read "tell" = .value (.scalar (.function (.host "tell")))) (n : Int) :
    ∃ line, interpret retelling (retell n) m = (.ok (.done m.ret), m.noted line) :=
  interpret_invocation_of_literal bound (interpret_integer ..)

/-- Not even a function that retells what has been returned returns anything, and a block of nothing
is not a call. -/
theorem sequence_returns_of_retold :
    retold.body? = some [retell 1, .block [retell 2, .block [] none] none] ∧
    (∀ node ∈ [retell 1, .block [retell 2, .block [] none] none], node.IsNested) ∧
    interpret (fun _ _ => pure .nothing) retold retellingMachine =
      interpret retelling retold retellingMachine ∧
    SameRun (interpret retelling retold retellingMachine)
      (runSequence retelling [retell 1, retell 2] (.done (.value (.number 7))) retellingMachine) ∧
    ∃ m', interpret retelling retold retellingMachine = (.ok (.done .nothing), m') := by
  have call (n : Int) : (retell n).IsNested := .simple (.invocation ..)
  have nested : ∀ node ∈ [retell 1, .block [retell 2, .block [] none] none], node.IsNested := by
    refine List.forall_mem_cons.2 ⟨call 1, List.forall_mem_singleton.2 (.block ?_)⟩
    exact List.forall_mem_cons.2 ⟨call 2, List.forall_mem_singleton.2 (.block (List.forall_mem_nil _))⟩
  have body : retold.body? = some [retell 1, .block [retell 2, .block [] none] none] := rfl
  obtain ⟨same, -, flat, returns, -⟩ := sequence_returns retelling body nested retellingMachine
  have silent : retelling.Coincide fun _ _ => pure .nothing := by
    intro name arg m clear
    exact congrArg (Except.ok ·, m) clear.symm
  have ends : ∃ o m', interpret retelling retold retellingMachine = (.ok o, m') := by
    obtain ⟨line, first⟩ := interpret_retell (m := retellingMachine.starting (retell 1)) rfl 1
    obtain ⟨line', second⟩ := interpret_retell (m := Machine.starting (Machine.starting
      ((retellingMachine.starting (retell 1)).noted line) (.block [] none)) (retell 2)) rfl 2
    refine ⟨?o, ?after, ?run⟩
    case run =>
      rw [retold, interpret_of_body? rfl]
      apply (runSequence_cons first).trans
      apply (runSequence_cons (b := .nothing) ?block).trans
      case block =>
        rw [interpret_of_body? rfl]
        apply (runSequence_cons second).trans
        apply (runSequence_cons (b := .nothing) ?empty).trans
        case empty =>
          rw [interpret_of_body? rfl, runSequence]
          rfl
        rw [runSequence]
        rfl
      rw [runSequence]
      rfl
  obtain ⟨o, after, run⟩ := ends
  obtain ⟨ret, rfl, last⟩ := returns nofun o after run
  cases last
  exact ⟨rfl, nested, same _ silent, flat, after, run⟩

end AliasScript

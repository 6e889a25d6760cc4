import AliasScript.Proofs.Statements

/-!
# What a statement records

Of all statements only calls record messages, and among the built-in functions only `write` does:
one message, the text that it returns. A statement that fails has recorded nothing
(`Node.IsStatement.tells`), and it stays noted as the statement begun last. This holds on every
machine, whatever it holds; the functions of the host have to keep to it as well (`Hosts.Discreet`).
-/

namespace AliasScript

/-! ## How resolving fails -/

/-- On any heap, the act fails with what a program can do wrong only. -/
def HeapM.Honest {α : Type} (act : HeapM α) : Prop := ∀ h e, (act h).1 = .error e → e.OfProgram

namespace HeapM

variable {α β : Type} {names : Table Binding}

theorem honest_bind {act : HeapM α} {next : α → HeapM β} (first : act.Honest)
    (rest : ∀ a, (next a).Honest) : (act >>= next).Honest := by
  intro h e failed
  rw [act_bind_apply] at failed
  rcases run : act h with ⟨e' | a, h'⟩ <;> rw [run] at failed
  · cases failed
    exact first h _ (by rw [run])
  · exact rest a h' e failed

theorem honest_of_ok {act : HeapM α} (ends : ∀ h, ∃ a, (act h).1 = .ok a) : act.Honest := by
  intro h e failed
  obtain ⟨a, same⟩ := ends h
  cases same.symm.trans failed

theorem honest_pure (a : α) : Honest (pure a) := honest_of_ok fun _ => ⟨a, rfl⟩

theorem honest_deref (b : Binding) : (deref names b).Honest := fun _ _ failed =>
  ofProgram_of_deref failed

theorem honest_resolveBinding (base : Nat) : ∀ (active : List Addr) (b : Binding),
    (resolveBinding names base active b).Honest := by
  intro active b
  induction active, b using resolveBinding.induct base _
    (fun active v => (resolveValue names base active v).Honest)
    (fun all a attrs => (resolveAttributes names base all a attrs).Honest)
    (fun active a items => (copyItems names base active a items).Honest)
    (fun active items => (resolveItems names base active items).Honest)
  case case1 active b ih =>
    rw [resolveBinding]
    exact honest_bind (honest_deref b) ih
  case case2 active s =>
    rw [resolveValue]
    exact honest_pure _
  case case3 active a mem =>
    rw [resolveValue, dif_pos mem]
    exact honest_pure _
  case case4 active a new ihItems ihCopy ihAttrs =>
    rw [resolveValue, dif_neg new]
    refine honest_bind (honest_of_ok fun h => ⟨_, rfl⟩) fun found => ?_
    split
    · next type items =>
      split
      · exact honest_bind (ihItems items ‹_›) fun resolved => honest_of_ok fun h => ⟨_, rfl⟩
      · exact honest_bind (ihCopy items ‹_›) fun resolved => honest_of_ok fun h => ⟨_, rfl⟩
    · next type attrs =>
      split
      · exact honest_bind (ihAttrs attrs ‹_›) fun _ => honest_pure _
      · exact honest_pure _
    · exact honest_pure _
  case case5 active a =>
    rw [resolveAttributes]
    exact honest_pure _
  case case6 all a attr rest ihItem ih =>
    rw [resolveAttributes]
    refine honest_bind (honest_of_ok fun h => ⟨_, rfl⟩) fun b => ?_
    refine honest_bind (ihItem b) fun v => ?_
    exact honest_bind (honest_of_ok fun h => ⟨_, rfl⟩) fun _ => ih
  case case7 active a =>
    rw [copyItems]
    exact honest_pure _
  case case8 active a b rest lt ihItem ih =>
    rw [copyItems, dif_pos lt]
    exact honest_bind ihItem fun v => honest_bind ih fun vs => honest_pure _
  case case9 active a b rest ge ih =>
    rw [copyItems, dif_neg ge]
    exact honest_bind ih fun vs => honest_pure _
  case case10 active a item rest other ih =>
    rw [copyItems]
    · exact honest_bind ih fun vs => honest_pure _
    · exact other
  case case11 active =>
    rw [resolveItems]
    exact honest_pure _
  case case12 active item rest ihItem ih =>
    rw [resolveItems]
    exact honest_bind ihItem fun v => honest_bind ih fun vs => honest_pure _

end HeapM

/-- The fault comes up while a program runs: it does not say that there is no program. -/
def Fault.OfRun (e : Fault) : Prop := ∀ p, e ≠ .unparsed p

theorem Fault.OfProgram.ofRun {e : Fault} (h : e.OfProgram) : e.OfRun := by
  rintro p rfl
  cases h

/-! ## What a run records -/

namespace Run

variable {α β : Type} {m : Machine}

/-- From the machine, the run ends with a result and has recorded messages of which `said` holds, or
it fails and has recorded none. The statement that has begun last stays noted. -/
def Tells (m : Machine) (x : Run α) (said : α → List Effect → Prop) : Prop :=
  (x m).2.statement = m.statement ∧ match (x m).1 with
    | .ok a => ∃ own, (x m).2.effects = m.effects ++ own ∧ said a own
    | .error e => (x m).2.effects = m.effects ∧ e.OfRun

/-- From the machine, the run records nothing. -/
def Quiet (m : Machine) (x : Run α) : Prop := Tells m x fun _ own => own = []

variable {x : Run α} {f : α → Run β} {said : β → List Effect → Prop}

theorem tells_pure {b : β} (h : said b []) : Tells m (pure b) said :=
  ⟨rfl, [], (List.append_nil _).symm, h⟩

theorem quiet_ok {a : α} {m' : Machine} (run : x m = (.ok a, m'))
    (statement : m'.statement = m.statement) (effects : m'.effects = m.effects) : Quiet m x := by
  rw [Quiet, Tells, run]
  exact ⟨statement, [], effects.trans (List.append_nil _).symm, rfl⟩

theorem tells_bind (first : Quiet m x)
    (rest : ∀ a m', x m = (.ok a, m') → Tells m' (f a) said) : Tells m (x >>= f) said := by
  obtain ⟨statement, ends⟩ := first
  rw [Tells, act_bind_apply]
  rcases run : x m with ⟨e | a, m'⟩ <;> rw [run] at statement ends
  · exact ⟨statement, ends⟩
  · obtain ⟨_, effects, rfl⟩ := ends
    obtain ⟨statement', ends'⟩ := rest a m' run
    rw [effects, List.append_nil] at ends'
    exact ⟨statement'.trans statement, ends'⟩

theorem tells_map {said' : α → List Effect → Prop} {g : α → β} (h : Tells m x said')
    (implies : ∀ a own, said' a own → said (g a) own) :
    Tells m (x >>= fun a => pure (g a)) said := by
  obtain ⟨statement, ends⟩ := h
  rw [Tells, act_bind_pure]
  refine ⟨statement, ?_⟩
  rcases run : x m with ⟨e | a, m'⟩ <;> rw [run] at ends
  · exact ends
  · obtain ⟨own, effects, records⟩ := ends
    exact ⟨own, effects, implies a own records⟩

theorem quiet_of_reads {answer : Except Fault α} (run : x m = (answer, m))
    (fails : ∀ e, answer = .error e → e.OfRun) : Quiet m x := by
  cases answer with
  | error e =>
    rw [Quiet, Tells, run]
    exact ⟨rfl, rfl, fails e rfl⟩
  | ok a => exact quiet_ok run rfl rfl

theorem quiet_ask {question : Machine → Except Fault α}
    (fails : ∀ e, question m = .error e → e.OfRun) : Quiet m (ask question) :=
  quiet_of_reads (x := ask question) rfl fails

theorem tells_ask {question : Machine → Except Fault α}
    (fails : ∀ e, question m = .error e → e.OfRun)
    (rest : ∀ a, question m = .ok a → Tells m (f a) said) : Tells m (ask question >>= f) said :=
  tells_bind (quiet_ask fails) fun a m' run => by
    obtain ⟨answer, rfl⟩ := eq_of_ask run
    exact rest a answer

theorem tells_ask_ok {question : Machine → Except Fault α} {a : α} (answer : question m = .ok a)
    (rest : Tells m (f a) said) : Tells m (ask question >>= f) said := by
  rwa [Tells, ask_bind_ok answer]

theorem quiet_resolve (b : Binding) : Quiet m (Run.resolve b) := by
  rcases ends : AliasScript.resolve m.names b m.heap with ⟨e | v, heap⟩
  · rw [Quiet, Tells, resolve_of_apply ends]
    have failed := congrArg Prod.fst ends
    exact ⟨rfl, rfl, (HeapM.honest_resolveBinding _ [] b m.heap e failed).ofRun⟩
  · exact quiet_ok (resolve_of_apply ends) rfl rfl

theorem quiet_functionNamed (name : String) : Quiet m (functionNamed name) := by
  refine tells_bind (quiet_resolve _) fun v m' _ => ?_
  split
  · exact tells_pure rfl
  · exact ⟨rfl, rfl, (Fault.OfProgram.notAFunction name).ofRun⟩

theorem quiet_assign (place : Reference) (b : Binding) : Quiet m (assign place b) := by
  cases place with
  | name n => exact quiet_ok (x := assign (.name n) b) rfl rfl rfl
  | path obj attr =>
    refine tells_ask (fun e failed => (ofProgram_of_objectAt failed).ofRun) fun a _ => ?_
    exact quiet_ok (x := Run.change _) rfl rfl rfl

end Run

/-! ## What a call records -/

/-- The functions of the host record messages only in a call that ends well, and none of them takes
back a message, changes where the statement stands, or fails for want of a program. -/
def Hosts.Discreet (hosts : Hosts) : Prop :=
  ∀ name arg m, Run.Tells m (hosts name arg) fun _ _ => True

/-- What a call on the machine records, given what it returns: a text is written by `write` and
returned, and the other built-in functions record nothing. -/
def Function.Records (hosts : Hosts) (f : Function) (m : Machine) (ret : Binding)
    (own : List Effect) : Prop :=
  match f with
  | .count | .describe => own = []
  | .write => ∃ text, ret = .value (.text text) ∧ own = [⟨.stdout, text⟩]
  | .host name => ∃ arg after, hosts name arg m = (.ok ret, after) ∧ after.effects = m.effects ++ own

/-- What a statement that runs on the machine records, given what it returns. -/
def Node.Records (hosts : Hosts) (m : Machine) (ret : Binding) (own : List Effect) : Node → Prop
  | .expression inner _ => inner.Records hosts m ret own
  | .invocation callee _ _ => ∃ word f line, callee.name? = some word ∧
      functionNamed word m = (.ok f, m) ∧ f.Records hosts (m.noted line) ret own
  | _ => own = []

section

variable {hosts : Hosts} {m : Machine}

open Run

theorem Function.tells_call (discreet : hosts.Discreet) (f : Function) (arg : Binding) :
    Tells m (f.call hosts arg) (f.Records hosts m) := by
  cases f with
  | count =>
    refine tells_ask (fun e failed => (ofProgram_of_deref failed).ofRun) fun v _ => ?_
    refine quiet_ask fun e failed => ?_
    split at failed
    · cases failed
    · cases failed
      exact (Fault.OfProgram.wrongArgument _).ofRun
  | describe => exact tells_bind (quiet_resolve arg) fun v m' _ => quiet_ok (x := Run.ask _) rfl rfl rfl
  | write =>
    refine tells_bind (quiet_resolve arg) fun v m' _ => ?_
    refine tells_ask (fun e failed => ?_) fun text _ => ⟨rfl, _, rfl, text, rfl, rfl⟩
    rw [Library.message.eq_def] at failed
    split at failed
    · cases failed
    · rw [Heap.print] at failed
      split at failed
      · cases failed
      · cases failed
        exact Fault.OfProgram.endless.ofRun
  | host name =>
    obtain ⟨statement, ends⟩ := discreet name arg m
    show Tells m (hosts name arg) _
    refine ⟨statement, ?_⟩
    rcases run : hosts name arg m with ⟨e | ret, after⟩ <;> rw [run] at ends
    · exact ends
    · obtain ⟨own, effects, -⟩ := ends
      exact ⟨own, effects, arg, after, run, effects⟩

/-! ## What a statement records -/

theorem Node.IsValue.tells {node : Node} (h : node.IsValue) {α : Type} {f : Outcome → Run α}
    {said : α → List Effect → Prop} (rest : ∀ r : Reading, Tells m (f (.reading r)) said) :
    Tells m (interpret hosts node >>= f) said := by
  rcases h.reads hosts with ⟨s, -, run⟩ | ⟨q, -, run⟩
  · rw [Tells, act_bind_ok (run m)]
    exact rest _
  · cases read : q.read m with
    | error e =>
      rw [Tells, act_bind_error (by rw [run, read]; rfl)]
      exact ⟨rfl, rfl, (Reference.ofProgram_of_read read).ofRun⟩
    | ok r =>
      rw [Tells, act_bind_ok (by rw [run, read]; rfl)]
      exact rest r

/-- A statement records what it writes, and nothing when it fails. -/
theorem Node.IsStatement.tells (discreet : hosts.Discreet) {node : Node} (h : node.IsStatement)
    (m : Machine) : Tells m (interpret hosts node) fun outcome own =>
      ∃ ret, outcome = .done ret ∧ node.Records hosts m ret own := by
  cases h with
  | valueAssignment isTarget isValue here =>
    obtain ⟨place, -, named, -⟩ := isTarget.exists_reference hosts
    rw [interpret]
    refine isValue.tells fun r => tells_ask_ok (a := r) rfl (tells_ask_ok named ?_)
    refine tells_bind (quiet_ok (x := Run.note _) rfl rfl rfl) fun _ m₁ _ => ?_
    exact tells_bind (quiet_assign _ _) fun _ m₂ _ => tells_pure ⟨_, rfl, rfl⟩
  | typeAssignment isTarget isName here =>
    obtain ⟨place, -, named, -⟩ := isTarget.exists_reference hosts
    obtain ⟨word, -, -, run⟩ := isName.exists_word hosts
    rw [interpret, Tells, act_bind_ok (run m), ← Tells]
    refine tells_ask_ok (a := word) rfl (tells_ask (fun e failed => ?_) fun t _ => ?_)
    · rw [templateFor] at failed
      split at failed <;> cases failed
      rintro p ⟨⟩
    · refine tells_bind (quiet_ok (x := instantiate t word) rfl rfl rfl) fun v m₁ _ => ?_
      refine tells_ask_ok named (tells_bind (quiet_assign _ _) fun _ m₂ _ => ?_)
      exact tells_pure ⟨_, rfl, rfl⟩
  | @listAssignment op item aim loc loc' isValue isTarget here here' =>
    obtain ⟨place, -, named, reads⟩ := isTarget.exists_reference hosts
    rw [interpret]
    have current : Quiet m (evaluateInner hosts aim) :=
      quiet_of_reads (reads m) fun e failed => (Reference.ofProgram_of_read failed).ofRun
    refine tells_bind current fun now m₁ _ => ?_
    by_cases nothing : now.val = .nothing
    · rw [if_pos nothing]
      exact ⟨rfl, rfl, (Fault.OfProgram.unboundListTarget _).ofRun⟩
    rw [if_neg nothing]
    refine isValue.tells fun r => tells_ask_ok (a := r) rfl ?_
    refine tells_ask (fun e failed => (ofProgram_of_listAt failed).ofRun) fun found _ => ?_
    obtain ⟨a, items⟩ := found
    refine tells_bind (quiet_ok (changeList_keyword op loc a items r.storedForm _) rfl rfl) ?_
    refine fun _ m₂ _ => tells_ask_ok named ?_
    exact tells_bind (quiet_assign _ _) fun _ m₃ _ => tells_pure ⟨_, rfl, rfl⟩
  | @invocation callee arg loc isName isValue here =>
    obtain ⟨word, -, word?, run⟩ := isName.exists_word hosts
    rw [interpret, Tells, act_bind_ok (run m), ← Tells]
    refine tells_ask_ok (a := word) rfl ?_
    refine tells_bind (quiet_functionNamed word) fun f m₁ found => ?_
    obtain ⟨-, rfl⟩ := functionNamed_eq_ok found
    refine isValue.tells fun r => tells_ask_ok (a := r) rfl ?_
    refine tells_ask (fun e failed => (ofProgram_of_argument failed).ofRun) fun b _ => ?_
    refine tells_bind (quiet_ok (x := Run.note _) rfl rfl rfl) fun _ m₂ noted => ?_
    cases noted
    refine tells_map (f.tells_call discreet b) fun ret own records => ⟨ret, rfl, ?_⟩
    exact ⟨word, f, _, word?, found, records⟩

end

end AliasScript

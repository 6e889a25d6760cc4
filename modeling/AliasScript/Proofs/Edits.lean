import AliasScript.Proofs.Assigning
import AliasScript.Proofs.FailedCalls

/-!
# What a run does to a store

`Edit` lists the ways in which scripts change names and containers, and `Machine.Edited` is any
number of edits. Statements, programs and scripts do nothing else, wherever they end
(`Run.Edits`, `Runner.edited_run`), so what every edit keeps, every script keeps.
-/

namespace AliasScript

open Relation

/-- What a statement can store with a heap of a size. -/
inductive Binding.Storable (size : Nat) : Binding → Prop
  | number (n : Int) : Storable size (.value (.number n))
  | text (s : String) : Storable size (.value (.text s))
  | reference (r : Reference) : Storable size (.reference r)
  | cell {a : Addr} : a < size → Storable size (.value (.cell a))

/-- One change to a store. A list takes literals and references only. -/
inductive Edit : Store → Store → Prop
  | bind {names : Table Binding} {heap : Heap} (name : String) {b : Binding} :
    b.Storable heap.size → Edit ⟨names, heap⟩ ⟨names.set name b, heap⟩
  | attach {names : Table Binding} {heap : Heap} (a : Addr) (attr : String) {b : Binding} :
    b.Storable heap.size → Edit ⟨names, heap⟩ ⟨names, heap.setAttribute a attr b⟩
  | make {names : Table Binding} {heap : Heap} {type : String} {t : Template} :
    templateFor Template.defaults type = .ok t →
      Edit ⟨names, heap⟩ ⟨names, (heap.alloc (t.cell type)).2⟩
  | change {names : Table Binding} {heap : Heap} (op : ListOperation) {a : Addr}
      {type : Option String} {items : List Binding} {b : Binding} :
    heap.get? a = some (.list type items) → b.Storable 0 →
      Edit ⟨names, heap⟩ ⟨names, heap.setItems a (heap.changeItems op items b)⟩
  | resolve {names : Table Binding} {heap after : Heap} {b : Binding}
      {result : Except Fault Value} :
    b.Within heap.size → Resolves names [] b heap result after →
      Edit ⟨names, heap⟩ ⟨names, after⟩

/-- The store of the one machine has been edited to that of the other. -/
def Machine.Edited (m m' : Machine) : Prop := ReflTransGen Edit m.store m'.store

/-- From the machine, the run edits the store. -/
def Run.Edits {α : Type} (m : Machine) (x : Run α) : Prop := m.Edited (x m).2

variable {m m' m'' : Machine} {hosts : Hosts}

theorem Machine.Edited.refl (m : Machine) : m.Edited m := ReflTransGen.refl

theorem Machine.Edited.trans (h : m.Edited m') (g : m'.Edited m'') : m.Edited m'' :=
  ReflTransGen.trans h g

theorem Node.Stores.storable {node : Node} {b : Binding} (h : node.Stores b) (size : Nat) :
    b.Storable size := by
  cases h with
  | integer => exact .number _
  | string => exact .text _
  | reference => exact .reference _

namespace Run

variable {α β : Type} {x : Run α} {f : α → Run β}

theorem edits_bind (first : Edits m x)
    (rest : ∀ a m', x m = (.ok a, m') → Edits m' (f a)) : Edits m (x >>= f) := by
  rw [Edits, act_bind_apply]
  rw [Edits] at first
  rcases run : x m with ⟨e | a, m'⟩ <;> rw [run] at first
  · exact first
  · exact first.trans (rest a m' run)

theorem edits_bind_ok {a : α} (run : x m = (.ok a, m')) (edited : m.Edited m')
    (rest : Edits m' (f a)) : Edits m (x >>= f) := by
  rw [Edits, act_bind_ok run]
  exact edited.trans rest

theorem edits_ask (question : Machine → Except Fault α) : Edits m (ask question) := .refl m

theorem edits_assign (place : Reference) {b : Binding} (storable : b.Storable m.heap.size) :
    Edits m (assign place b) := by
  cases place with
  | name n => exact .single (.bind n storable)
  | path obj attr =>
    cases found : objectAt m obj attr with
    | error e =>
      rw [Edits, assign_path_of_error found]
      exact .refl m
    | ok a =>
      rw [Edits, assign_path_of_ok found]
      exact .single (.attach a attr storable)

theorem edits_resolve {b : Binding} (machine : m.Scripted) (bound : b.Scripted m.heap.size) :
    Edits m (Run.resolve b) :=
  .single (.resolve bound.within (resolves_resolve machine.store.closed bound.within))

theorem edits_functionNamed {name : String} (word : OneWord name) (machine : m.Scripted) :
    Edits m (functionNamed name) := by
  refine edits_bind (edits_resolve (b := .reference (.name name)) machine word) fun v m' _ => ?_
  split
  · exact .refl m'
  · exact .refl m'

theorem edits_call {g : Function} (builtIn : ∀ other, g ≠ .host other) {b : Binding}
    (machine : m.Scripted) (bound : b.Scripted m.heap.size) : Edits m (g.call hosts b) := by
  cases g with
  | count => exact edits_bind (edits_ask _) fun v m' _ => edits_ask _
  | describe => exact edits_bind (edits_resolve machine bound) fun v m' _ => edits_ask _
  | write =>
    refine edits_bind (edits_resolve machine bound) fun v m' _ => ?_
    refine edits_bind (edits_ask _) fun text m'' _ => ?_
    exact .refl m''
  | host other => exact absurd rfl (builtIn other)

end Run

open Run

/-! ## Statements -/

namespace Node.Places

variable {place : Node} {x : Reference} {loc loc' loc'' : Option Loc} (h : place.Places x)
include h

theorem edits_valueAssignment {value : Node} (isValue : value.IsValue) :
    Edits m (interpret hosts (.valueAssignment (.assignee place loc) value loc')) := by
  obtain ⟨b, stores, read, reads, stored⟩ := isValue.exists_stored hosts m
  cases read with
  | error e =>
    rw [Edits, interpret, act_bind_error reads]
    exact .refl m
  | ok r =>
    rw [Edits, h.interpret_valueAssignment reads, stored r rfl]
    exact edits_assign (m := m.noted _) x (stores.storable _)

theorem edits_typeAssignment {type : String} (machine : m.Scripted) :
    Edits m (interpret hosts
      (.typeAssignment (.assignee place loc) (.identifier type loc') loc'')) := by
  rw [Edits, h.interpret_typeAssignment]
  cases template : templateFor m.types type with
  | error e => exact .refl m
  | ok t =>
    rw [machine.types] at template
    have made : m.Edited (m.making (t.cell type)) := .single (.make template)
    have inside : m.heap.size < (m.making (t.cell type)).heap.size := by
      rw [Machine.making, Heap.size_alloc]
      exact Nat.lt_succ_self _
    exact made.trans (edits_assign x (.cell inside))

theorem edits_listAssignment {item : Node} {op : ListOperation} (isValue : item.IsValue) :
    Edits m (interpret hosts (.listAssignment (.listOperation (.text op.keyword) loc) item
      (.assignee place loc') loc'')) := by
  obtain ⟨b, stores, read, reads, stored⟩ := isValue.exists_stored hosts m
  rw [Edits, h.interpret_listAssignment reads]
  cases change : x.listChange op read m with
  | error e => exact .refl m
  | ok found =>
    obtain ⟨a, items, held⟩ := found
    obtain ⟨⟨current, here, rfl, thing, -⟩, r, type, old, rfl, there, rfl⟩ :=
      Reference.listChange_eq_ok_iff.1 change
    dsimp only
    rw [assign_read here thing, stored r rfl]
    exact .single (.change op there (stores.storable 0))

end Node.Places

theorem Node.IsStatement.edits {node : Node} (h : node.IsStatement) (machine : m.Scripted) :
    Edits m (interpret hosts node) := by
  cases h with
  | valueAssignment isTarget isValue =>
    cases isTarget with
    | assignee isPlace =>
    obtain ⟨x, -, places⟩ := isPlace.exists_places
    exact places.edits_valueAssignment isValue
  | typeAssignment isTarget isName =>
    cases isTarget with
    | assignee isPlace =>
    cases isName with
    | @identifier type =>
    obtain ⟨x, -, places⟩ := isPlace.exists_places
    exact places.edits_typeAssignment machine
  | listAssignment isValue isTarget =>
    cases isTarget with
    | assignee isPlace =>
    obtain ⟨x, -, places⟩ := isPlace.exists_places
    exact places.edits_listAssignment isValue
  | @invocation callee arg loc isName isValue here =>
    obtain ⟨word, free, -, run⟩ := isName.exists_word hosts
    rw [interpret]
    refine edits_bind_ok (run m) (.refl m) (edits_bind_ok (a := word) rfl (.refl m) ?_)
    refine edits_bind (edits_functionNamed free machine) fun g m₁ found => ?_
    obtain ⟨-, builtIn⟩ := safe_functionNamed free machine
    rw [found] at builtIn
    rw [(functionNamed_eq_ok found).2]
    obtain ⟨read, reads, scripted, -⟩ := isValue.exists_reading hosts machine
    cases read with
    | error e =>
      rw [Edits, act_bind_error reads]
      exact .refl m
    | ok r =>
      refine edits_bind_ok reads (.refl m) (edits_bind_ok (a := r) rfl (.refl m) ?_)
      cases argued : argument r with
      | error e => exact .refl m
      | ok b =>
        refine edits_bind_ok (a := b) rfl (.refl m) (edits_bind_ok (a := ()) rfl (.refl m) ?_)
        refine edits_bind (edits_call builtIn ⟨machine.store, machine.types⟩ ?_)
          fun ret m' _ => .refl m'
        exact (scripted r rfl).argument argued

theorem edits_runSequence (hosts : Hosts) {body : List Node}
    (fits : ∀ node ∈ body, node.IsExpression) :
    ∀ {m : Machine} {b : Binding}, m.Scripted → Edits m (runSequence hosts body (.done b)) := by
  induction body with
  | nil =>
    intro m b _
    rw [runSequence]
    exact .refl m
  | cons node rest ih =>
    intro m b machine
    cases fits node (List.mem_cons_self ..) with
    | @expression inner loc statement here =>
    have begun : Machine.Scripted { m with statement := loc, ret := .nothing } :=
      ⟨machine.store, machine.types⟩
    rw [runSequence, interpret]
    refine edits_bind_ok (show begin (.expression inner loc) m =
      (.ok (), { m with statement := loc, ret := .nothing }) from rfl) (.refl m) ?_
    refine edits_bind (statement.edits begun) fun outcome m₁ run => ?_
    obtain ⟨machine₁, ends⟩ := statement.safe hosts begun
    rw [run] at machine₁ ends
    obtain ⟨b', rfl⟩ := ends
    exact ih (fun other mem => fits other (List.mem_cons_of_mem _ mem)) machine₁

/-! ## Scripts -/

namespace Runner

variable {r : Runner} {source : String} {node : Node}

theorem store_run {root : Node} (program : Node.ofSource source = .ok root) :
    (r.run hosts source).2.machine.store = (interpret hosts root (begun r.machine)).2.store := by
  rw [run_machine, parse_of_ok program]
  rcases ends : interpret hosts root (begun r.machine) with ⟨e | outcome, after⟩
  · obtain ⟨effects, same⟩ := conclude_machine source after e
    rw [runProgram_error ends, same]
    rfl
  · rw [begun] at ends
    cases outcome with
    | done ret =>
      simp only [runProgram, ends]
      rfl
    | reading | leaf => simp only [runProgram, ends]

theorem ComesTo.edits_before (h : r.ComesTo hosts source node m) (machine : r.machine.Scripted) :
    r.machine.Edited m := by
  obtain ⟨before, after, loc, ret, m₀, parsed, run, rfl⟩ := h
  obtain ⟨fits, -⟩ := Node.isProgram_of_ofSource parsed
  have edits := edits_runSequence hosts (m := begun r.machine) (b := .nothing)
    (fun other mem => fits other (List.mem_append_left _ mem)) ⟨machine.store, machine.types⟩
  rw [Edits, run] at edits
  exact edits

theorem ComesTo.edits_after (h : r.ComesTo hosts source node m) (machine : r.machine.Scripted) :
    m.Edited (r.run hosts source).2.machine := by
  have come := h.scripted machine
  obtain ⟨before, after, loc, ret, m₀, parsed, run, rfl⟩ := h
  obtain ⟨fits, -⟩ := Node.isProgram_of_ofSource parsed
  have edits := edits_runSequence hosts (m := m₀) (b := ret)
    (fun other mem => fits other (List.mem_append_right _ mem))
    ⟨come.2.store, come.2.types⟩
  rw [Machine.Edited, store_run parsed, interpret_root, runSequence_append, act_bind_ok run]
  exact edits

/-- What a script does to the store are edits, whether it succeeds or not. -/
theorem edited_run (hosts : Hosts) (source : String) (machine : r.machine.Scripted) :
    r.machine.Edited (r.run hosts source).2.machine := by
  cases parsed : Node.ofSource source with
  | error failure =>
    obtain ⟨effects, same⟩ := conclude_machine source
      { r.machine with effects := [], statement := none } failure.fault
    rw [run_machine, parse_of_error parsed, runProgram, same]
    exact .refl r.machine
  | ok root =>
    cases Node.isProgram_of_ofSource parsed with
    | root fits =>
    have edits := edits_runSequence hosts (m := begun r.machine) (b := .nothing) fits
      ⟨machine.store, machine.types⟩
    rw [Machine.Edited, store_run parsed, interpret_root]
    exact edits

end Runner

end AliasScript

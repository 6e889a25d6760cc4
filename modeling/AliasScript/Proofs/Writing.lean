import AliasScript.Proofs.Plain
import AliasScript.Proofs.Reachable
import AliasScript.Proofs.Statements

/-!
# Writing

On a runner that scripts can make, where no container that a name reaches contains itself, the
statement `write x` succeeds exactly where `x` means a tree. It then writes the printed form of that
tree, and whether it succeeds or fails, every name and every attribute means afterwards what it
meant before (`Runner.write_of_reachable`).
-/

namespace AliasScript

open Relation

variable {names : Table Binding} {heap : Heap}

/-! ## Printing -/

mutual

theorem unfold_of_isPlain (closed : Closed names heap) : ∀ (t : Tree) (b : Binding)
    (path : List Addr), b.Within heap.size → IsPlain heap t b → Above names heap path t →
      heap.unfold .printed path b = some t
  | .scalar s, b, path, _, plain, _ => by
    rw [IsPlain, Unfolds] at plain
    rw [plain, Heap.unfold]
  | .sequence (.list type) ts, b, path, within, plain, above => by
    have shows := plain.shows closed within
    rw [IsPlain, Unfolds] at plain
    obtain ⟨a, items, rfl, there, all⟩ := plain
    rw [Heap.unfold_cell _ there (above.not_mem shows), Cell.tree?,
      mapM_unfold_of_items closed ts items _ (closed.cells a _ there) all fun t mem =>
        above.cons shows (sizeOf_lt_sequence mem)]
    rfl
  | .mapping (.object type) es, b, path, within, plain, above => by
    have shows := plain.shows closed within
    rw [IsPlain, Unfolds] at plain
    obtain ⟨a, attrs, rfl, there, all⟩ := plain
    rw [Heap.unfold_cell _ there (above.not_mem shows), Cell.tree?, if_neg (by decide),
      mapM_unfold_of_entries closed es attrs.entries _ (fun entry mem =>
        closed.cells a _ there _ (List.mem_map_of_mem (f := Prod.snd) mem)) all
        fun key t mem => above.cons shows (sizeOf_lt_mapping mem)]
    rfl
  | .reference _, _, _, _, h, _ | .sequence .hostList _, _, _, _, h, _
  | .sequence .hostTuple _, _, _, _, h, _ | .mapping (.context _) _, _, _, _, h, _
  | .mapping .hostDict _, _, _, _, h, _ => by
    rw [IsPlain] at h
    unfold Unfolds at h
    exact h.elim

theorem mapM_unfold_of_items (closed : Closed names heap) : ∀ (ts : List Tree)
    (items : List Binding) (path : List Addr), (∀ b ∈ items, b.Within heap.size) →
    UnfoldsItems heap (fun b v => b = .value v) ts items →
      (∀ t ∈ ts, Above names heap path t) → items.mapM (heap.unfold .printed path) = some ts
  | [], items, path, _, all, _ => by
    cases items with
    | nil => rfl
    | cons b items =>
      obtain ⟨_, _, same, -⟩ := unfoldsItems_cons.1 all
      cases same
  | t :: ts, items, path, within, all, above => by
    cases items with
    | nil => cases unfoldsItems_nil.1 all
    | cons b items =>
      rw [UnfoldsItems] at all
      rw [List.mapM_cons, unfold_of_isPlain closed t b path (within b (List.mem_cons_self ..)) all.1
        (above t (List.mem_cons_self ..)), mapM_unfold_of_items closed ts items path
        (fun c mem => within c (List.mem_cons_of_mem _ mem)) all.2
        fun u mem => above u (List.mem_cons_of_mem _ mem)]
      rfl

theorem mapM_unfold_of_entries (closed : Closed names heap) : ∀ (es : List (Scalar × Tree))
    (entries : List (String × Binding)) (path : List Addr),
    (∀ entry ∈ entries, entry.2.Within heap.size) →
    UnfoldsEntries heap (fun b v => b = .value v) es entries →
      (∀ key t, (key, t) ∈ es → Above names heap path t) →
        (entries.mapM fun e => (heap.unfold .printed path e.2).map (Scalar.text e.1, ·)) = some es
  | [], entries, path, _, all, _ => by
    cases entries with
    | nil => rfl
    | cons entry entries =>
      obtain ⟨_, _, same, -⟩ := unfoldsEntries_cons.1 all
      cases same
  | (key, t) :: es, entries, path, within, all, above => by
    cases entries with
    | nil => cases unfoldsEntries_nil.1 all
    | cons entry entries =>
      rw [UnfoldsEntries] at all
      obtain ⟨rfl, here, rest⟩ := all
      rw [List.mapM_cons, unfold_of_isPlain closed t entry.2 path
        (within entry (List.mem_cons_self ..)) here (above _ t (List.mem_cons_self ..)),
        mapM_unfold_of_entries closed es entries path
        (fun e mem => within e (List.mem_cons_of_mem _ mem)) rest
        fun k u mem => above k u (List.mem_cons_of_mem _ mem)]
      rfl

end

/-- A tree as it is written out: a text as it is, everything else in printed form. -/
def Tree.message : Tree → String
  | .scalar (.text s) => s
  | t => t.pretty 2 0

theorem Cell.tree?_ne_scalar {view : View} {inner : View → Binding → Option Tree} {s : Scalar}
    (c : Cell) : c.tree? view inner ≠ some (.scalar s) := by
  cases c with
  | object | context =>
    rw [tree?]
    split <;> simp
  | _ => simp [tree?]

theorem Heap.unfold_cell_ne_text {h : Heap} {view : View} {path : List Addr} {a : Addr}
    {s : String} : h.unfold view path (.value (.cell a)) ≠ some (.scalar (.text s)) := by
  intro unfolded
  by_cases mem : a ∈ path
  · rw [unfold, dif_pos mem] at unfolded
    cases unfolded
  · cases there : h.get? a with
    | some c => exact c.tree?_ne_scalar ((unfold_cell view there mem).symm.trans unfolded)
    | none =>
      rw [unfold_none view there mem] at unfolded
      cases unfolded

theorem message_eq_ok_iff {v : Value} {text : String} : Library.message heap v = .ok text ↔
    ∃ t, heap.unfold .printed [] (.value v) = some t ∧ t.message = text := by
  have printed : ∀ t : Tree, heap.unfold .printed [] (.value v) = some t →
      (∀ s, v ≠ .scalar (.text s)) → t.message = t.pretty 2 0 := by
    intro t whole other
    rw [Tree.message.eq_def]
    split
    · next s =>
      cases v with
      | scalar s' =>
        rw [Heap.unfold] at whole
        cases whole
        exact absurd rfl (other s)
      | cell a => exact absurd whole Heap.unfold_cell_ne_text
    · rfl
  rw [Library.message.eq_def]
  split
  · next s =>
    rw [Heap.unfold]
    simp [Tree.message]
  · next other =>
    rw [Heap.print, Heap.pretty?]
    cases whole : heap.unfold .printed [] (.value v) with
    | none => simp
    | some t => simp [printed t whole fun s same => other s same]

theorem message_of_isPlain (closed : Closed names heap) {t : Tree} {v : Value}
    (within : v.Within heap.size) (plain : IsPlain heap t (.value v)) :
    Library.message heap v = .ok t.message :=
  message_eq_ok_iff.2 ⟨t, unfold_of_isPlain closed t (.value v) [] within plain .nil, rfl⟩

/-! ## Resolving an argument -/

theorem NoCircle.readAttribute {b : Binding} {base : Value} (free : NoCircle names heap b)
    (leads : Leads names heap b base) (attr : String) :
    NoCircle names heap (heap.readAttribute base attr) := by
  rintro a ⟨c, found, way⟩
  cases base with
  | scalar s => cases leads_value_iff.1 found
  | cell o =>
    rw [Heap.readAttribute] at found
    split at found
    · next type attrs there =>
      rcases attrs.read_eq_or_mem attr with none | mem
      · rw [none] at found
        cases leads_value_iff.1 found
      · have step : Contains names heap o c :=
          ⟨_, there, _, List.mem_map_of_mem (f := Prod.snd) mem, found⟩
        exact free a ⟨o, leads, .head step way⟩
    · cases leads_value_iff.1 found

/-- Resolving a binding that reaches no circle gives a value without references, of the tree that
the binding means; where it means nothing, resolving fails. Every binding goes on meaning what it
meant. -/
theorem resolve_of_noCircle (store : Scripted names heap) {b : Binding}
    (bound : b.Scripted heap.size) (free : NoCircle names heap b) {result : Except Fault Value}
    {after : Heap} (run : resolve names b heap = (result, after)) :
    Scripted names after ∧
      (∀ c t, c.Within heap.size → (Means names after t c ↔ Means names heap t c)) ∧
      ((∃ t v, Means names heap t b ∧ result = .ok v ∧ v.Within after.size ∧
          IsPlain after t (.value v)) ∨
        ((∀ t, ¬ Means names heap t b) ∧ ∃ e, result = .error e)) := by
  have calls := resolves_resolve store.closed bound.within
  rw [run] at calls
  obtain ⟨store', -, scripted⟩ := calls.scripted store bound
  obtain ⟨keeps, means, fails⟩ := calls.means store bound
  obtain ⟨t, shows⟩ := exists_shows store bound free
  obtain ⟨-, plain⟩ := calls.plain store bound shows .nil
  refine ⟨store', keeps, ?_⟩
  cases result with
  | error e => exact .inr ⟨fails e rfl, e, rfl⟩
  | ok v =>
    have inside := (scripted v rfl).within
    have meant := (plain v rfl).means store'.closed (show (Binding.value v).Within _ from inside)
    exact .inl ⟨t, v, (means v rfl t).1 meant, rfl, inside, plain v rfl⟩

/-- What the reference in an argument reads as, where it reads as something. -/
def Reference.argument (x : Reference) (m : Machine) : Except Fault Binding :=
  x.read m >>= AliasScript.argument

theorem Reference.exists_read {x : Reference} {m : Machine} (machine : m.Scripted) {b : Binding}
    (h : Holds m.names m.heap x b) : ∃ r, x.read m = .ok r := by
  cases h with
  | name n => exact ⟨_, rfl⟩
  | path attr leads =>
    have found := baseOf_of_leads (fun r _ => machine.store.writtenApart r) leads
    rw [read, readPath, found]
    exact ⟨_, rfl⟩

theorem means_reference_iff {x : Reference} {b : Binding} (held : Holds names heap x b) {t : Tree} :
    Means names heap t (.reference x) ↔ b ≠ .nothing ∧ Means names heap t b := by
  constructor
  · intro meant
    obtain ⟨v, leads, inner⟩ := (unfolds_iff onValues_leads).1 meant
    obtain ⟨some, b', held', leads'⟩ := leads_reference_iff.1 leads
    rw [← held.unique held'] at leads'
    refine ⟨?_, (unfolds_iff onValues_leads).2 ⟨v, leads', inner⟩⟩
    rintro rfl
    exact some (leads_value_iff.1 leads')
  · rintro ⟨bound, meant⟩
    obtain ⟨v, leads, inner⟩ := (unfolds_iff onValues_leads).1 meant
    have some : v ≠ .nothing := by
      rintro rfl
      cases b with
      | value w => exact bound (congrArg Binding.value (leads_value_iff.1 leads).symm)
      | reference q => exact leads.ne_nothing rfl
    exact (unfolds_iff onValues_leads).2 ⟨v, leads_reference_iff.2 ⟨some, b, held, leads⟩, inner⟩

/-- An argument is what the slot of its reference holds, and there is none where the reference means
nothing. -/
theorem Reference.argument_cases {x : Reference} {m : Machine} (machine : m.Scripted) :
    (∃ b, x.argument m = .ok b ∧ Holds m.names m.heap x b ∧
      ∀ t, Means m.names m.heap t (.reference x) ↔ Means m.names m.heap t b) ∨
    ∃ e, x.argument m = .error e ∧ ∀ t, ¬ Means m.names m.heap t (.reference x) := by
  cases read : x.read m with
  | error e =>
    refine .inr ⟨e, by rw [argument, read]; rfl, fun t meant => ?_⟩
    obtain ⟨v, leads, -⟩ := (unfolds_iff onValues_leads).1 meant
    obtain ⟨-, b, held, -⟩ := leads_reference_iff.1 leads
    obtain ⟨r, read'⟩ := Reference.exists_read machine held
    cases read.symm.trans read'
  | ok r =>
    obtain ⟨ref, held⟩ := Reference.read_eq_ok read
    have argued : x.argument m = AliasScript.argument r := by rw [argument, read]; rfl
    rw [argued, AliasScript.argument, ref]
    by_cases nothing : r.val = .nothing
    · exact .inr ⟨_, if_pos nothing, fun t meant => ((means_reference_iff held).1 meant).1 nothing⟩
    · exact .inl ⟨r.val, if_neg nothing, held, fun t =>
        (means_reference_iff held).trans (and_iff_right nothing)⟩

/-! ## The statement -/

/-- The statement that calls `write` on a reference. -/
inductive Node.Writes (x : Reference) : Node → Prop
  | statement {place : Node} {loc₁ loc₂ loc₃ loc₄ loc₅ : Option Loc} : Places x place →
    Writes x (.expression (.invocation (.identifier "write" loc₁)
      (.value (.variable place loc₂) loc₃) loc₄) loc₅)

theorem Scripted.of_holds (store : Scripted names heap) {x : Reference} {b : Binding}
    (held : Holds names heap x b) : b.Scripted heap.size := by
  cases held with
  | name n => exact store.names.read n
  | path attr _ => exact store.readAttribute _ attr

theorem NoCircle.of_holds {x : Reference} {b : Binding} (held : Holds names heap x b)
    (free : ∀ n, NoCircle names heap (names.read n)) : NoCircle names heap b := by
  cases held with
  | name n => exact free n
  | path attr leads => exact (free _).readAttribute leads attr

section

variable (hosts : Hosts) {m : Machine} {x : Reference}

theorem write_of_error {b : Binding} {e : Fault} {after : Heap}
    (resolved : resolve m.names b m.heap = (.error e, after)) :
    Library.write b m = (.error e, { m with heap := after }) := by
  rw [Library.write, act_bind_error (Run.resolve_of_apply resolved)]

theorem write_of_ok {b : Binding} {v : Value} {text : String} {after : Heap}
    (resolved : resolve m.names b m.heap = (.ok v, after))
    (written : Library.message after v = .ok text) :
    Library.write b m = (.ok (.value (.text text)),
      { m with heap := after, effects := m.effects ++ [⟨.stdout, text⟩] }) := by
  have asked : (Run.ask fun m => Library.message m.heap v : Run String)
      { m with heap := after } = (.ok text, { m with heap := after }) := congrArg (·, _) written
  rw [Library.write, act_bind_ok (Run.resolve_of_apply resolved), act_bind_ok asked]
  rfl

theorem interpret_write_text (builtIn : m.names.read "write" = .value (.scalar (.function .write)))
    (text : String) {loc loc₁ loc₂ loc₃ loc₄ loc₅ : Option Loc} :
    ∃ line, interpret hosts (.expression (.invocation (.identifier "write" loc)
      (.value (.literal (.string text loc₁) loc₂) loc₃) loc₄) loc₅) m =
        (.ok (.done (.value (.text text))),
          { m.noted line with effects := m.effects ++ [⟨.stdout, text⟩] }) := by
  obtain ⟨line, run⟩ := interpret_invocation_of_literal builtIn
    (interpret_string hosts text loc₁ loc₂ loc₃ m)
  have written : Library.write (.value (.text text)) (m.noted line) = _ :=
    write_of_ok (resolve_of_scalar (deref_value ..)) rfl
  rw [Function.call, written] at run
  rw [interpret, run]
  exact ⟨line, rfl⟩

theorem Node.Writes.interpret_eq {call : Node} (h : call.Writes x)
    (builtIn : m.names.read "write" = .value (.scalar (.function .write))) :
    interpret hosts call m = x.passTo hosts .write "write" m := by
  obtain ⟨places⟩ := h
  rw [interpret, places.interpret_invocation, functionNamed_of_bound builtIn]

theorem Node.Writes.run {call : Node} (h : call.Writes x) (loc : Option Loc)
    (builtIn : m.names.read "write" = .value (.scalar (.function .write))) :
    ∃ s : Machine, s.names = m.names ∧ s.heap = m.heap ∧ s.effects = m.effects ∧
      (∀ e, x.argument m = .error e → interpret hosts (.root [call] loc) m = (.error e, s)) ∧
      ∀ b, x.argument m = .ok b → ∃ trace, interpret hosts (.root [call] loc) m =
        ((Library.write b { s with trace }).1.map .done, (Library.write b { s with trace }).2) := by
  let starts : Machine := { m with statement := call.loc, ret := .nothing }
  refine ⟨starts, rfl, rfl, rfl, ?_⟩
  have argued : (x.read starts >>= argument) = x.argument m := by
    cases x <;> rfl
  rw [interpret_root_one, h.interpret_eq (m := starts) hosts builtIn, Reference.passTo, argued]
  refine ⟨fun e failed => ?_, fun b passed => ?_⟩
  · rw [failed]
  · rw [passed]
    exact ⟨_, rfl⟩

end

namespace Runner

theorem not_success_of_conclude (source : String) (m : Machine) (e : Fault) :
    ¬ ∃ report, (conclude source m e).1 = .ok report ∧ report.status = .success := by
  rintro ⟨report, ends, success⟩
  rw [conclude] at ends
  split at ends
  · cases ends
  · cases ends
    cases success

theorem store_of_conclude (source : String) (m : Machine) (e : Fault) :
    (conclude source m e).2.names = m.names ∧ (conclude source m e).2.heap = m.heap := by
  obtain ⟨effects, same⟩ := conclude_machine source m e
  rw [same]
  exact ⟨rfl, rfl⟩

variable {hosts : Hosts} {r : Runner}

/-- The statement `write x` succeeds exactly where `x` means a tree, and then writes the printed
form of that tree. Whether it succeeds or fails, every reference means afterwards what it meant
before. -/
theorem write_of_reachable (reachable : Reachable hosts r)
    (free : ∀ n, NoCircle r.machine.names r.machine.heap (r.machine.names.read n))
    (builtIn : r.machine.names.read "write" = .value (.scalar (.function .write)))
    {source : String} {call : Node} {loc : Option Loc} {x : Reference}
    (parsed : Node.ofSource source = .ok (.root [call] loc)) (writes : call.Writes x) :
    ((∃ report, (r.run hosts source).1 = .ok report ∧ report.status = .success) ↔
      ∃ t, Means r.machine.names r.machine.heap t (.reference x)) ∧
    (∀ t, Means r.machine.names r.machine.heap t (.reference x) → (r.run hosts source).1 =
      .ok ⟨.success, .value (.text t.message), none, .null, [⟨.stdout, t.message⟩]⟩) ∧
    ∀ (y : Reference) t, Means (r.run hosts source).2.machine.names
        (r.run hosts source).2.machine.heap t (.reference y) ↔
      Means r.machine.names r.machine.heap t (.reference y) := by
  have begins : (begun r.machine).Scripted := ⟨reachable.scripted.store, reachable.scripted.types⟩
  have program : parse source = .ok (.root [call] loc) := by
    rw [parse, parsed]
    rfl
  rw [run_machine, run_fst, program]
  obtain ⟨s, names, heap, effects, failing, passing⟩ :=
    writes.run (m := begun r.machine) hosts loc builtIn
  -- The argument is looked up on the machine on which the script begins.
  rcases Reference.argument_cases (x := x) begins with ⟨b, argued, held, same⟩ | ⟨e, failed, lost⟩
  · obtain ⟨trace, run⟩ := passing b argued
    rcases resolved : resolve r.machine.names b r.machine.heap with ⟨result, after⟩
    obtain ⟨store, keeps, ends⟩ := resolve_of_noCircle begins.store
      (begins.store.of_holds held) (NoCircle.of_holds held free) resolved
    have resolved' : resolve s.names b s.heap = (result, after) := by
      rw [← resolved]
      exact congr (congrArg (resolve · b) names) heap
    rcases ends with ⟨t, v, meant, rfl, inside, plain⟩ | ⟨lost, e, rfl⟩
    · have written := message_of_isPlain store.closed inside plain
      rw [write_of_ok (m := { s with trace }) resolved' written] at run
      rw [runProgram_ok run]
      have message : s.effects ++ [⟨.stdout, t.message⟩] = [⟨.stdout, t.message⟩] := by
        rw [effects]
        rfl
      have meant' := (same t).2 meant
      refine ⟨⟨fun _ => ⟨t, meant'⟩, fun _ => ⟨_, rfl, rfl⟩⟩, fun u other => ?_, fun y u => ?_⟩
      · rw [Means.unique other meant']
        show Except.ok (Report.mk _ _ _ _ (s.effects ++ _)) = _
        rw [message]
      · show Means s.names after u _ ↔ _
        rw [names]
        exact keeps (.reference y) u trivial
    · rw [write_of_error (m := { s with trace }) resolved'] at run
      rw [runProgram_error run]
      obtain ⟨names', heap'⟩ := store_of_conclude source { s with trace, heap := after } e
      rw [names', heap']
      have lost' : ∀ t, ¬ Means r.machine.names r.machine.heap t (.reference x) := fun t meant =>
        lost t ((same t).1 meant)
      refine ⟨iff_of_false (not_success_of_conclude _ _ _) (not_exists.2 lost'),
        fun t meant => absurd meant (lost' t), fun y t => ?_⟩
      show Means s.names after t _ ↔ _
      rw [names]
      exact keeps (.reference y) t trivial
  · rw [runProgram_error (failing e failed)]
    obtain ⟨names', heap'⟩ := store_of_conclude source s e
    rw [names', heap', names, heap]
    exact ⟨iff_of_false (not_success_of_conclude _ _ _) (not_exists.2 lost),
      fun t meant => absurd meant (lost t), fun y t => .rfl⟩

/-- A script that makes an object: one attribute refers to a name, and the other holds a list. -/
def boxing : String := "x is 1\nbox is a thing\nbox p is x\nbox q is a list"

/-- The runner on which that script has run, and one that adds the reference to the list. -/
def boxed : Runner :=
  (((fresh true).run Console.noHosts boxing).2.run Console.noHosts "add x to box q").2

def boxingNodes : List Node :=
  let at? (line col : Int) (tag text : String) : Option Loc := some ⟨line, col, tag, .text text⟩
  let name (line col : Int) (word : String) : Node :=
    .scalar (.identifier word (at? line col "identifier" word)) (at? line col "scalar" word)
  let attr (line : Int) (word text : String) : Node :=
    .object (.identifier "box" (at? line 1 "identifier" "box"))
      (.identifier word (at? line 5 "identifier" word)) (at? line 1 "object" text)
  [.expression (.valueAssignment (.assignee (name 1 1 "x") (at? 1 1 "assignee" "x"))
      (.value (.literal (.integer 1 (at? 1 6 "integer" "1")) (at? 1 6 "literal" "1"))
        (at? 1 6 "value" "1")) (at? 1 1 "value_assignment" "x is 1"))
      (at? 1 1 "expression" "x is 1"),
    .expression (.typeAssignment (.assignee (name 2 1 "box") (at? 2 1 "assignee" "box"))
      (.identifier "thing" (at? 2 10 "identifier" "thing"))
      (at? 2 1 "type_assignment" "box is a thing")) (at? 2 1 "expression" "box is a thing"),
    .expression (.valueAssignment (.assignee (attr 3 "p" "box p") (at? 3 1 "assignee" "box p"))
      (.value (.variable (name 3 10 "x") (at? 3 10 "variable" "x")) (at? 3 10 "value" "x"))
      (at? 3 1 "value_assignment" "box p is x")) (at? 3 1 "expression" "box p is x"),
    .expression (.typeAssignment (.assignee (attr 4 "q" "box q") (at? 4 1 "assignee" "box q"))
      (.identifier "list" (at? 4 12 "identifier" "list"))
      (at? 4 1 "type_assignment" "box q is a list")) (at? 4 1 "expression" "box q is a list")]

def boxAdding : Node :=
  let at? (col : Int) (tag text : String) : Option Loc := some ⟨1, col, tag, .text text⟩
  let name : Node := .scalar (.identifier "x" (at? 5 "identifier" "x")) (at? 5 "scalar" "x")
  let attr : Node := .object (.identifier "box" (at? 10 "identifier" "box"))
    (.identifier "q" (at? 14 "identifier" "q")) (at? 10 "object" "box q")
  .expression (.listAssignment
    (.listOperation (.text ListOperation.add.keyword) (at? 1 "list_operation" "add"))
    (.value (.variable name (at? 5 "variable" "x")) (at? 5 "value" "x"))
    (.assignee attr (at? 10 "assignee" "box q")) (at? 1 "list_assignment" "add x to box q"))
    (at? 1 "expression" "add x to box q")

def boxWriting : Node :=
  let at? (col : Int) (tag text : String) : Option Loc := some ⟨1, col, tag, .text text⟩
  let place : Node := .scalar (.identifier "box" (at? 7 "identifier" "box")) (at? 7 "scalar" "box")
  .expression (.invocation (.identifier "write" (at? 1 "identifier" "write"))
    (.value (.variable place (at? 7 "variable" "box")) (at? 7 "value" "box"))
    (at? 1 "invocation" "write box")) (at? 1 "expression" "write box")

theorem ofSource_boxing :
    Node.ofSource boxing = .ok (.root boxingNodes (some ⟨1, 1, "root", .text boxing⟩)) := by
  have first : Grammar.statement ⟨1, 1, boxing.toList⟩ =
    some (boxingNodes[0], ⟨2, 1, "box is a thing\nbox p is x\nbox q is a list".toList⟩) := rfl
  have second : Grammar.statement ⟨2, 1, "box is a thing\nbox p is x\nbox q is a list".toList⟩ =
    some (boxingNodes[1], ⟨3, 1, "box p is x\nbox q is a list".toList⟩) := rfl
  have third : Grammar.statement ⟨3, 1, "box p is x\nbox q is a list".toList⟩ =
    some (boxingNodes[2], ⟨4, 1, "box q is a list".toList⟩) := rfl
  have fourth : Grammar.statement ⟨4, 1, "box q is a list".toList⟩ =
    some (boxingNodes[3], ⟨4, 16, []⟩) := rfl
  have last : Grammar.statement ⟨4, 16, []⟩ = none := rfl
  have read := Grammar.statements_of_some first (by decide)
  rw [Grammar.statements_of_some second (by decide), Grammar.statements_of_some third (by decide),
    Grammar.statements_of_some fourth (by decide), Grammar.statements_of_none last] at read
  exact Node.ofSource_of_statements boxing read rfl rfl

theorem ofSource_boxAdding : Node.ofSource "add x to box q" =
    .ok (.root [boxAdding] (some ⟨1, 1, "root", .text "add x to box q"⟩)) := by
  have first : Grammar.statement ⟨1, 1, "add x to box q".toList⟩ =
    some (boxAdding, ⟨1, 15, []⟩) := rfl
  have last : Grammar.statement ⟨1, 15, []⟩ = none := rfl
  have read := Grammar.statements_of_some first (by decide)
  rw [Grammar.statements_of_none last] at read
  exact Node.ofSource_of_statements "add x to box q" read rfl rfl

theorem ofSource_boxWriting : Node.ofSource "write box" =
    .ok (.root [boxWriting] (some ⟨1, 1, "root", .text "write box"⟩)) := by
  have first : Grammar.statement ⟨1, 1, "write box".toList⟩ = some (boxWriting, ⟨1, 10, []⟩) := rfl
  have last : Grammar.statement ⟨1, 10, []⟩ = none := rfl
  have read := Grammar.statements_of_some first (by decide)
  rw [Grammar.statements_of_none last] at read
  exact Node.ofSource_of_statements "write box" read rfl rfl

/-- The object, with a reference and a list of some items in its attributes. -/
def boxHeap (items : List Binding) : Heap := ⟨#[
  .object (some "thing") (.ofList [("p", .reference (.name "x")), ("q", .value (.cell 1))]),
  .list (some "list") items]⟩

def boxNames : Table Binding :=
  (Machine.builtins.set "x" (.value (.number 1))).set "box" (.value (.cell 0))

theorem moves_boxingNodes :
    Moves Console.noHosts boxingNodes ⟨Machine.builtins, .empty⟩ ⟨boxNames, boxHeap []⟩ :=
  .bind .name (Node.readsAs_integer 1) (Reference.puts_name "x") <|
  .make .name rfl (Reference.puts_name "box") <|
  .bind .path (Node.readsAs_name "x") (Reference.puts_path rfl rfl "p") <|
  .make .path rfl (Reference.puts_path rfl rfl "q") <|
  .nil _

theorem moves_boxAdding : Moves Console.noHosts [boxAdding] ⟨boxNames, boxHeap []⟩
    ⟨boxNames, boxHeap [.reference (.name "x")]⟩ := by
  have there : (boxHeap []).get? 1 = some (.list (some "list") []) := rfl
  refine .change .add .path (Node.readsAs_name "x") (fun m store => ?_) there
    (Reference.puts_path rfl rfl "q") (.nil _)
  obtain ⟨names, heap⟩ := Store.mk.inj store
  exact ⟨_, Reference.read_path_of_value (by rw [names]; rfl), by rw [heap]; rfl⟩

theorem store_boxed : boxed.machine.store =
    ⟨boxNames, boxHeap [.reference (.name "x")]⟩ := by
  obtain ⟨made, types⟩ := machine_of_moves (r := fresh true) ofSource_boxing rfl moves_boxingNodes
  exact (machine_of_moves ofSource_boxAdding types (made ▸ moves_boxAdding)).1

theorem leads_boxed_iff {v : Value} {items : List Binding} :
    Leads boxNames (boxHeap items) (.reference (.name "x")) v ↔ v = .number 1 := by
  rw [leads_reference_iff]
  constructor
  · rintro ⟨-, b, held, leads⟩
    rw [holds_name_iff.1 held] at leads
    exact leads_value_iff.1 leads
  · rintro rfl
    exact ⟨nofun, _, .name "x", .value _⟩

theorem lt_of_contains_boxed {a c : Addr}
    (step : Contains boxNames (boxHeap [.reference (.name "x")]) a c) : a < c := by
  obtain ⟨cell, there, b, mem, leads⟩ := step
  match a with
  | 0 =>
    cases there
    have known : b ∈ [Binding.reference (.name "x"), .value (.cell 1)] := mem
    simp only [List.mem_cons, List.not_mem_nil, or_false] at known
    rcases known with rfl | rfl
    · cases leads_boxed_iff.1 leads
    · cases leads_value_iff.1 leads
      decide
  | 1 =>
    cases there
    cases List.mem_singleton.1 mem
    cases leads_boxed_iff.1 leads
  | n + 2 => cases there

/-- The object is written with the value of its reference and the items of its list. -/
theorem write_of_boxed :
    (∀ n, NoCircle boxed.machine.names boxed.machine.heap (boxed.machine.names.read n)) ∧
    (boxed.run Console.noHosts "write box").1 =
      .ok ⟨.success, .value (.text "a thing with p = 1 and q = [1]"), none, .null,
        [⟨.stdout, "a thing with p = 1 and q = [1]"⟩]⟩ ∧
    ∀ (y : Reference) t, Means (boxed.run Console.noHosts "write box").2.machine.names
        (boxed.run Console.noHosts "write box").2.machine.heap t (.reference y) ↔
      Means boxed.machine.names boxed.machine.heap t (.reference y) := by
  obtain ⟨names, heap⟩ := Store.mk.inj store_boxed
  have reachable : Reachable Console.noHosts boxed :=
    .run "add x to box q" (.run boxing (.fresh true))
  have free : ∀ n, NoCircle boxed.machine.names boxed.machine.heap (boxed.machine.names.read n) := by
    rw [names, heap]
    intro n a _ circle
    have upwards := TransGen.mono (fun _ _ => lt_of_contains_boxed) _ _ circle
    rw [transGen_eq_self] at upwards
    exact lt_irrefl a upwards
  have meant : Means boxed.machine.names boxed.machine.heap
      (.mapping (.object (some "thing")) [(.text "p", .scalar (.number 1)),
        (.text "q", .sequence (.list (some "list")) [.scalar (.number 1)])])
      (.reference (.name "box")) := by
    rw [names, heap]
    have one : Leads boxNames (boxHeap [.reference (.name "x")]) (.reference (.name "x"))
      (.number 1) := leads_boxed_iff.2 rfl
    exact ⟨0, _, .name (.value _) nofun, rfl, rfl, one, rfl, ⟨1, _, .value _, rfl, one, trivial⟩,
      trivial⟩
  obtain ⟨-, written, kept⟩ := write_of_reachable reachable free (by rw [names]; rfl)
    ofSource_boxWriting (.statement .name)
  exact ⟨free, written _ meant, kept⟩

end Runner

end AliasScript

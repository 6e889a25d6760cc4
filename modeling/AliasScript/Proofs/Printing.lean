import AliasScript.Proofs.Tidy

/-!
# Whether printing ends

Printing keeps no record of the containers that it is in, so of itself it ends only where it comes to
something that holds no further container, on every way in (`Heap.printWithin`). That is so exactly
where no container that it comes to contains itself: a container that does is entered again and again,
and where none does every way leads to containers that have not been entered before
(`Heap.exists_pretty_iff`, `Heap.pretty?_eq_some_iff`).

What scripts make has no circle of lists alone. So when a value that has been resolved cannot be
printed, an object in it contains itself (`Runner.printing_ends`).
-/

namespace AliasScript

open Relation

/-! ## Printing without a record of the containers around -/

/-- The printed form of a container at an address, given how what it holds is printed. -/
def Cell.print? (h : Heap) (width : Nat) (level : Int) (a : Addr)
    (inner : Binding → Option String) : Cell → Option String
  | .list _ items | .hostList items => (items.mapM inner).map bracketed
  | .hostTuple _ => some (h.quoted (.value (.cell a)))
  | .object type attrs =>
    (attrs.entries.mapM fun e => (inner e.2).map (e.1 ++ " = " ++ ·)).map
      (Tree.objectSentence (MappingKind.object type).phrase)
  | .context _ bindings =>
    (bindings.entries.mapM fun e => (inner e.2).map (e.1 ++ ": " ++ ·)).map
      (Tree.dictBlock width level)
  | .hostDict entries =>
    (entries.mapM fun e => (inner e.2).map (e.1.plain ++ ": " ++ ·)).map
      (Tree.dictBlock width level)

namespace Heap

/-- Prints a binding, going no more than a number of containers deep. -/
def printWithin (h : Heap) (width : Nat) : Nat → Int → Binding → Option String
  | 0, _, _ => none
  | _ + 1, _, .reference r => some ("<ref " ++ r.render ++ ">")
  | _ + 1, _, .value (.scalar s) => some s.pretty
  | n + 1, level, .value (.cell a) =>
    match h.get? a with
    | none => some Scalar.nothing.pretty
    | some c => c.print? h width level a (h.printWithin width n (level + 1))

/-- No container is a tuple, which would be quoted and not printed. -/
def TupleFree (h : Heap) : Prop := ∀ a items, h.get? a ≠ some (.hostTuple items)

/-- The container at an address is in the binding, not by way of a reference. -/
def Reaches (h : Heap) (b : Binding) (a : Addr) : Prop :=
  ∃ c, b = .value (.cell c) ∧ ReflTransGen h.Encloses c a

/-- The container at an address is in itself. -/
def ContainsItself (h : Heap) (a : Addr) : Prop := TransGen h.Encloses a a

end Heap

/-! ## Walks through what a container holds -/

section

variable {α β γ : Type} {f : α → Option β}

theorem exists_none_of_mapM {xs : List α} (stuck : xs.mapM f = none) : ∃ x ∈ xs, f x = none := by
  induction xs with
  | nil => cases stuck
  | cons x xs ih =>
    rw [List.mapM_cons] at stuck
    cases here : f x with
    | none => exact ⟨x, List.mem_cons_self .., here⟩
    | some y =>
      cases rest : xs.mapM f with
      | none =>
        obtain ⟨x', mem, none⟩ := ih rest
        exact ⟨x', List.mem_cons_of_mem _ mem, none⟩
      | some ys =>
        rw [here, rest] at stuck
        cases stuck

theorem exists_some_of_mapM {xs : List α} {ys : List β} (walk : xs.mapM f = some ys) :
    ∀ x ∈ xs, ∃ y ∈ ys, f x = some y := by
  induction xs generalizing ys with
  | nil => exact fun _ mem => nomatch mem
  | cons x xs ih =>
    rw [List.mapM_cons] at walk
    obtain ⟨y, here, rest⟩ := Option.bind_eq_some_iff.1 walk
    obtain ⟨ys', there, made⟩ := Option.bind_eq_some_iff.1 rest
    cases made
    refine List.forall_mem_cons.2 ⟨⟨y, List.mem_cons_self .., here⟩, fun z mem => ?_⟩
    obtain ⟨y', inside, found⟩ := ih there z mem
    exact ⟨y', List.mem_cons_of_mem _ inside, found⟩

theorem mapM_eq_some_map {g : α → Option γ} (k : β → γ) {xs : List α} {ys : List β}
    (walk : xs.mapM f = some ys) (same : ∀ x ∈ xs, ∀ y, f x = some y → g x = some (k y)) :
    xs.mapM g = some (ys.map k) := by
  induction xs generalizing ys with
  | nil =>
    cases walk
    rfl
  | cons x xs ih =>
    rw [List.mapM_cons] at walk
    obtain ⟨y, here, rest⟩ := Option.bind_eq_some_iff.1 walk
    obtain ⟨ys', there, made⟩ := Option.bind_eq_some_iff.1 rest
    cases made
    rw [List.mapM_cons, same x (List.mem_cons_self ..) y here,
      ih there fun z mem => same z (List.mem_cons_of_mem _ mem)]
    rfl

end

/-! ## One container -/

theorem Tree.prettyItems_eq_map (width : Nat) (level : Int) (items : List Tree) :
    Tree.prettyItems width level items = items.map (Tree.pretty width level) := by
  induction items with
  | nil => rfl
  | cons item items ih => rw [Tree.prettyItems, ih, List.map_cons]

theorem Tree.prettyEntries_eq_map (width : Nat) (level : Int) (sign : String)
    (entries : List (Scalar × Tree)) : Tree.prettyEntries width level sign entries =
      entries.map fun e => e.1.plain ++ sign ++ e.2.pretty width level := by
  induction entries with
  | nil => rfl
  | cons e entries ih => rw [Tree.prettyEntries, ih, List.map_cons]

namespace Cell

variable {h : Heap} {width : Nat} {level : Int} {a : Addr} {c : Cell}

theorem exists_none_of_tree? {inner : View → Binding → Option Tree}
    (noTuple : ∀ items, c ≠ .hostTuple items) (stuck : c.tree? .printed inner = none) :
    ∃ b ∈ c.contents, inner .printed b = none := by
  have named {κ : Type} (key : κ → Scalar) (entries : List (κ × Binding)) (kind : MappingKind)
      (stuck : (entries.mapM fun e => (inner .printed e.2).map (key e.1, ·)).map
        (Tree.mapping kind) = none) : ∃ b ∈ entries.map Prod.snd, inner .printed b = none := by
    obtain ⟨e, mem, none⟩ := exists_none_of_mapM (Option.map_eq_none_iff.1 stuck)
    exact ⟨e.2, List.mem_map_of_mem mem, Option.map_eq_none_iff.1 none⟩
  cases c with
  | list | hostList => exact exists_none_of_mapM (Option.map_eq_none_iff.1 stuck)
  | hostTuple items => exact absurd rfl (noTuple items)
  | object type attrs => exact named .text attrs.entries (.object type) stuck
  | context types bindings => exact named .text bindings.entries (.context types) stuck
  | hostDict entries => exact named id entries .hostDict stuck

theorem print?_of_tree? {inner : View → Binding → Option Tree} {show? : Binding → Option String}
    {t : Tree} (noTuple : ∀ items, c ≠ .hostTuple items) (whole : c.tree? .printed inner = some t)
    (shown : ∀ b ∈ c.contents, ∀ u, inner .printed b = some u →
      show? b = some (u.pretty width (level + 1))) :
    c.print? h width level a show? = some (t.pretty width level) := by
  have named {κ : Type} (key : κ → Scalar) (sign : String) (entries : List (κ × Binding))
      (es : List (Scalar × Tree))
      (walk : (entries.mapM fun e => (inner .printed e.2).map (key e.1, ·)) = some es)
      (shown : ∀ b ∈ entries.map Prod.snd, ∀ u, inner .printed b = some u →
        show? b = some (u.pretty width (level + 1))) :
      (entries.mapM fun e => (show? e.2).map ((key e.1).plain ++ sign ++ ·)) =
        some (Tree.prettyEntries width (level + 1) sign es) := by
    rw [Tree.prettyEntries_eq_map]
    refine mapM_eq_some_map _ walk fun e mem x found => ?_
    obtain ⟨u, here, rfl⟩ := Option.map_eq_some_iff.1 found
    rw [shown e.2 (List.mem_map_of_mem mem) u here]
    rfl
  cases c with
  | list | hostList =>
    obtain ⟨ts, walk, rfl⟩ := Option.map_eq_some_iff.1 whole
    rw [Cell.print?, mapM_eq_some_map _ walk shown, Option.map_some, Tree.pretty,
      Tree.prettyItems_eq_map]
    simp
  | hostTuple items => exact absurd rfl (noTuple items)
  | object type attrs =>
    obtain ⟨es, walk, rfl⟩ := Option.map_eq_some_iff.1 whole
    exact congrArg (Option.map _) (named .text " = " attrs.entries es walk shown)
  | context types bindings =>
    obtain ⟨es, walk, rfl⟩ := Option.map_eq_some_iff.1 whole
    exact congrArg (Option.map _) (named .text ": " bindings.entries es walk shown)
  | hostDict entries =>
    obtain ⟨es, walk, rfl⟩ := Option.map_eq_some_iff.1 whole
    exact congrArg (Option.map _) (named id ": " entries es walk shown)

variable {inner inner' : Binding → Option String} {text : String}

theorem exists_some_of_print? (noTuple : ∀ items, c ≠ .hostTuple items)
    (printed : c.print? h width level a inner = some text) :
    ∀ b ∈ c.contents, ∃ part, inner b = some part := by
  have named {κ : Type} (label : κ → String) (entries : List (κ × Binding)) (lines : List String)
      (walk : (entries.mapM fun e => (inner e.2).map (label e.1 ++ ·)) = some lines) :
      ∀ b ∈ entries.map Prod.snd, ∃ part, inner b = some part := by
    intro b mem
    obtain ⟨e, inside, rfl⟩ := List.mem_map.1 mem
    obtain ⟨line, -, found⟩ := exists_some_of_mapM walk e inside
    obtain ⟨part, here, -⟩ := Option.map_eq_some_iff.1 found
    exact ⟨part, here⟩
  cases c with
  | hostTuple items => exact absurd rfl (noTuple items)
  | list | hostList =>
    obtain ⟨parts, walk, -⟩ := Option.map_eq_some_iff.1 printed
    intro b mem
    obtain ⟨part, -, here⟩ := exists_some_of_mapM walk b mem
    exact ⟨part, here⟩
  | object type attrs =>
    obtain ⟨lines, walk, -⟩ := Option.map_eq_some_iff.1 printed
    exact named (· ++ " = ") attrs.entries lines walk
  | context types bindings =>
    obtain ⟨lines, walk, -⟩ := Option.map_eq_some_iff.1 printed
    exact named (· ++ ": ") bindings.entries lines walk
  | hostDict entries =>
    obtain ⟨lines, walk, -⟩ := Option.map_eq_some_iff.1 printed
    exact named (Scalar.plain · ++ ": ") entries lines walk

theorem print?_mono (more : ∀ b part, inner b = some part → inner' b = some part)
    (printed : c.print? h width level a inner = some text) :
    c.print? h width level a inner' = some text := by
  have named {κ : Type} (label : κ → String) (entries : List (κ × Binding)) (lines : List String)
      (walk : (entries.mapM fun e => (inner e.2).map (label e.1 ++ ·)) = some lines) :
      (entries.mapM fun e => (inner' e.2).map (label e.1 ++ ·)) = some lines := by
    rw [mapM_eq_some_map id walk fun e _ line found => ?_, List.map_id]
    obtain ⟨part, here, rfl⟩ := Option.map_eq_some_iff.1 found
    rw [more _ _ here]
    rfl
  cases c with
  | hostTuple => exact printed
  | list | hostList =>
    obtain ⟨parts, walk, rfl⟩ := Option.map_eq_some_iff.1 printed
    rw [Cell.print?, mapM_eq_some_map id walk fun b _ part here => more b part here, List.map_id]
    rfl
  | object type attrs =>
    obtain ⟨lines, walk, rfl⟩ := Option.map_eq_some_iff.1 printed
    exact congrArg (Option.map _) (named (· ++ " = ") attrs.entries lines walk)
  | context types bindings =>
    obtain ⟨lines, walk, rfl⟩ := Option.map_eq_some_iff.1 printed
    exact congrArg (Option.map _) (named (· ++ ": ") bindings.entries lines walk)
  | hostDict entries =>
    obtain ⟨lines, walk, rfl⟩ := Option.map_eq_some_iff.1 printed
    exact congrArg (Option.map _) (named (Scalar.plain · ++ ": ") entries lines walk)

end Cell

/-! ## From container to container -/

namespace Heap

variable {h : Heap} {width : Nat} {level : Int} {a c : Addr} {b : Binding} {text : String} {n m : Nat}

theorem TupleFree.ne (tupleFree : h.TupleFree) {d : Cell} (there : h.get? a = some d)
    (items : List Binding) : d ≠ .hostTuple items := by
  rintro rfl
  exact tupleFree a items there

theorem printWithin_cell {d : Cell} (there : h.get? a = some d) :
    h.printWithin width (n + 1) level (.value (.cell a)) =
      d.print? h width level a (h.printWithin width n (level + 1)) := by
  rw [printWithin, there]

theorem printWithin_succ : ∀ {n : Nat} {level : Int} {b : Binding} {text : String},
    h.printWithin width n level b = some text → h.printWithin width (n + 1) level b = some text := by
  intro n
  induction n with
  | zero => exact fun printed => nomatch printed
  | succ n ih =>
    intro level b text printed
    match b with
    | .reference r => exact printed
    | .value (.scalar s) => exact printed
    | .value (.cell a) =>
      cases there : h.get? a with
      | none =>
        rw [printWithin, there] at printed ⊢
        exact printed
      | some d =>
        rw [printWithin_cell there] at printed ⊢
        exact Cell.print?_mono (fun b part found => ih found) printed

theorem printWithin_mono (le : n ≤ m) (printed : h.printWithin width n level b = some text) :
    h.printWithin width m level b = some text := by
  induction le with
  | refl => exact printed
  | step _ ih => exact printWithin_succ ih

/-- Some depth is enough to print the container at an address, at some level. -/
def PrintsWithin (h : Heap) (width n : Nat) (a : Addr) : Prop :=
  ∃ level text, h.printWithin width n level (.value (.cell a)) = some text

theorem PrintsWithin.encloses (tupleFree : h.TupleFree) (prints : h.PrintsWithin width n a)
    (holds : h.Encloses a c) : ∃ m < n, h.PrintsWithin width m c := by
  obtain ⟨level, text, printed⟩ := prints
  obtain ⟨d, there, mem⟩ := holds
  cases n with
  | zero => cases printed
  | succ n =>
    rw [printWithin_cell there] at printed
    obtain ⟨part, inner⟩ := Cell.exists_some_of_print? (tupleFree.ne there) printed _ mem
    exact ⟨n, Nat.lt_succ_self n, level + 1, part, inner⟩

theorem PrintsWithin.transGen (tupleFree : h.TupleFree) (prints : h.PrintsWithin width n a)
    (way : TransGen h.Encloses a c) : ∃ m < n, h.PrintsWithin width m c := by
  induction way with
  | single holds => exact prints.encloses tupleFree holds
  | tail _ holds ih =>
    obtain ⟨m, lt, prints'⟩ := ih
    obtain ⟨m', lt', prints''⟩ := prints'.encloses tupleFree holds
    exact ⟨m', Nat.lt_trans lt' lt, prints''⟩

/-- A container that contains itself is entered again at every depth. -/
theorem PrintsWithin.not_containsItself (tupleFree : h.TupleFree) :
    ∀ {n : Nat}, h.PrintsWithin width n a → ¬ h.ContainsItself a := by
  intro n
  induction n using Nat.strong_induction_on with
  | _ n ih =>
    intro prints circle
    obtain ⟨m, lt, again⟩ := prints.transGen tupleFree circle
    exact ih m lt again circle

theorem not_containsItself_of_printWithin (tupleFree : h.TupleFree)
    (printed : h.printWithin width n level b = some text) :
    ∀ a, h.Reaches b a → ¬ h.ContainsItself a := by
  rintro a ⟨c, rfl, way⟩
  have prints : h.PrintsWithin width n c := ⟨level, text, printed⟩
  rcases reflTransGen_iff_eq_or_transGen.1 way with rfl | way
  · exact prints.not_containsItself tupleFree
  · obtain ⟨m, -, prints'⟩ := prints.transGen tupleFree way
    exact prints'.not_containsItself tupleFree

theorem printWithin_of_unfold (tupleFree : h.TupleFree) (n : Nat) : ∀ {path : List Addr}
    {level : Int} {b : Binding} {t : Tree}, unseen (List.range h.size) path < n →
      h.unfold .printed path b = some t →
        h.printWithin width n level b = some (t.pretty width level) := by
  induction n with
  | zero => exact fun few => absurd few (Nat.not_lt_zero _)
  | succ n ih =>
    intro path level b t few whole
    match b with
    | .reference r =>
      rw [unfold] at whole
      cases whole
      rfl
    | .value (.scalar s) =>
      rw [unfold] at whole
      cases whole
      rfl
    | .value (.cell a) =>
      by_cases old : a ∈ path
      · rw [unfold, dif_pos old] at whole
        cases whole
      cases there : h.get? a with
      | none =>
        rw [unfold_none _ there old] at whole
        cases whole
        rw [printWithin, there]
        rfl
      | some d =>
        have fewer := unseen_cons_lt (List.mem_range.2 (lt_size_of_get? there)) old
        rw [unfold_cell _ there old] at whole
        rw [printWithin_cell there]
        refine Cell.print?_of_tree? (tupleFree.ne there) whole fun b _ u inner => ih ?_ inner
        exact Nat.lt_of_lt_of_le fewer (Nat.le_of_lt_succ few)

/-- What has no tree leads back to a container around it, or has one in it that contains itself. -/
theorem exists_circle_of_unfold (tupleFree : h.TupleFree) (n : Nat) : ∀ {path : List Addr}
    {b : Binding}, unseen (List.range h.size) path < n → h.unfold .printed path b = none →
      ∃ a, h.Reaches b a ∧ (a ∈ path ∨ h.ContainsItself a) := by
  induction n with
  | zero => exact fun few => absurd few (Nat.not_lt_zero _)
  | succ n ih =>
    intro path b few stuck
    match b with
    | .reference r =>
      rw [unfold] at stuck
      cases stuck
    | .value (.scalar s) =>
      rw [unfold] at stuck
      cases stuck
    | .value (.cell a) =>
      by_cases old : a ∈ path
      · exact ⟨a, ⟨a, rfl, .refl⟩, .inl old⟩
      cases there : h.get? a with
      | none =>
        rw [unfold_none _ there old] at stuck
        cases stuck
      | some d =>
        have fewer := unseen_cons_lt (List.mem_range.2 (lt_size_of_get? there)) old
        rw [unfold_cell _ there old] at stuck
        obtain ⟨b, mem, inner⟩ := Cell.exists_none_of_tree? (tupleFree.ne there) stuck
        obtain ⟨c, ⟨e, rfl, way⟩, met⟩ :=
          ih (Nat.lt_of_lt_of_le fewer (Nat.le_of_lt_succ few)) inner
        have holds : h.Encloses a e := ⟨d, there, mem⟩
        refine ⟨c, ⟨a, rfl, .head holds way⟩, ?_⟩
        rcases met with around | circle
        · rcases List.mem_cons.1 around with rfl | around
          · exact .inr (.head' holds way)
          · exact .inl around
        · exact .inr circle

/-! ## The whole of printing -/

/-- A binding has a printed form exactly if no container in it contains itself. -/
theorem exists_pretty_iff (tupleFree : h.TupleFree) (width : Nat) (level : Int) (b : Binding) :
    (∃ text, h.pretty? width level b = some text) ↔ ∀ a, h.Reaches b a → ¬ h.ContainsItself a := by
  have few := Nat.lt_succ_self (unseen (List.range h.size) [])
  constructor
  · rintro ⟨text, printed⟩
    obtain ⟨t, whole, -⟩ := Option.map_eq_some_iff.1 printed
    have printed' : h.printWithin width _ level b = _ := printWithin_of_unfold tupleFree _ few whole
    exact not_containsItself_of_printWithin tupleFree printed'
  · intro free
    rw [pretty?]
    cases whole : h.unfold .printed [] b with
    | some t => exact ⟨_, rfl⟩
    | none =>
      obtain ⟨a, reached, around | circle⟩ := exists_circle_of_unfold tupleFree _ few whole
      · cases around
      · exact absurd circle (free a reached)

/-- The printed form is what printing comes to in the end. -/
theorem pretty?_eq_some_iff (tupleFree : h.TupleFree) :
    h.pretty? width level b = some text ↔ ∃ n, h.printWithin width n level b = some text := by
  have forth : ∀ {text}, h.pretty? width level b = some text →
      ∃ n, h.printWithin width n level b = some text := by
    intro text printed
    obtain ⟨t, whole, rfl⟩ := Option.map_eq_some_iff.1 printed
    exact ⟨_, printWithin_of_unfold tupleFree _ (Nat.lt_succ_self _) whole⟩
  refine ⟨forth, fun ⟨n, printed⟩ => ?_⟩
  obtain ⟨text', whole⟩ := (exists_pretty_iff tupleFree width level b).2
    (not_containsItself_of_printWithin tupleFree printed)
  obtain ⟨m, printed'⟩ := forth whole
  have same := (printWithin_mono (Nat.le_max_left n m) printed).symm.trans
    (printWithin_mono (Nat.le_max_right n m) printed')
  cases same
  exact whole

end Heap

/-! ## What scripts make -/

section

variable {names : Table Binding} {heap : Heap} {a c : Addr}

theorem Store.Settled.tupleFree (s : Store.Settled ⟨names, heap⟩) : heap.TupleFree :=
  fun a _ there => s.cells a _ there

theorem Store.Settled.lt_of_transGen (s : Store.Settled ⟨names, heap⟩)
    (way : TransGen heap.Encloses a c)
    (lists : ∀ o, ReflTransGen heap.Encloses a o → TransGen heap.Encloses o c →
      ¬ heap.IsObject o) : c < a := by
  induction way using TransGen.head_induction_on with
  | single holds => exact s.lt_of_encloses holds (lists _ .refl (.single holds))
  | @head a d holds way ih =>
    have older := s.lt_of_encloses holds (lists a .refl (.head holds way))
    exact Nat.lt_trans (ih fun o further => lists o (.head holds further)) older

/-- A circle passes through an object, which then contains itself too. -/
theorem Store.Settled.exists_object (s : Store.Settled ⟨names, heap⟩)
    (circle : heap.ContainsItself a) : ∃ o, ReflTransGen heap.Encloses a o ∧
      heap.IsObject o ∧ heap.ContainsItself o := by
  by_contra none
  push Not at none
  refine Nat.lt_irrefl a (s.lt_of_transGen circle fun o way back object => ?_)
  exact none o way object (back.trans_left way)

end

namespace Runner

/-- Printing a value ends exactly where no container in the value contains itself. It ends with the
printed form of the value, and where there is none it does not end. Where a value is printed that has
been resolved while scripts run, or between them, only an object that contains itself can keep it from
ending. -/
theorem printing_ends :
    (∀ h : Heap, h.TupleFree → ∀ width level b,
      ((∃ n text, h.printWithin width n level b = some text) ↔
        ∀ a, h.Reaches b a → ¬ h.ContainsItself a) ∧
      ∀ text, h.pretty? width level b = some text ↔
        ∃ n, h.printWithin width n level b = some text) ∧
    ∀ hosts r, Reachable hosts r → ∀ m : Machine,
      (m = r.machine ∨ ∃ source node, r.ComesTo hosts source node m) →
        ∀ b v after, b.Within m.heap.size → Run.resolve b m = (.ok v, after) →
          after.heap.TupleFree ∧ ∀ width level,
            (∀ n, after.heap.printWithin width n level (.value v) = none) →
              ∃ o, after.heap.Reaches (.value v) o ∧ after.heap.IsObject o ∧
                after.heap.ContainsItself o := by
  have ends (h : Heap) (tupleFree : h.TupleFree) (width : Nat) (level : Int) (b : Binding) :
      (∃ n text, h.printWithin width n level b = some text) ↔
        ∀ a, h.Reaches b a → ¬ h.ContainsItself a := by
    rw [← Heap.exists_pretty_iff tupleFree width level b, exists_comm]
    exact exists_congr fun text => (Heap.pretty?_eq_some_iff tupleFree).symm
  refine ⟨fun h tupleFree width level b => ⟨ends h tupleFree width level b, fun text =>
    Heap.pretty?_eq_some_iff tupleFree⟩, ?_⟩
  intro hosts r reachable m state b v after within resolved
  have settled : m.store.Settled := by
    rcases state with rfl | ⟨source, node, comes⟩
    · exact reachable.settled
    · exact (reachable.settled.edits (comes.edits_before reachable.scripted)).1
  have calls := resolves_resolve settled.closed within
  obtain ⟨settled', -, -⟩ := calls.settled settled
  have same : (AliasScript.resolve m.names b m.heap).2 = after.heap := congrArg (·.2.heap) resolved
  rw [same] at settled'
  refine ⟨settled'.tupleFree, fun width level endless => ?_⟩
  have stuck := mt (ends after.heap settled'.tupleFree width level (.value v)).2
    (fun ⟨n, text, printed⟩ => nomatch (endless n).symm.trans printed)
  push Not at stuck
  obtain ⟨a, ⟨c, same, way⟩, circle⟩ := stuck
  obtain ⟨o, further, object, circle'⟩ := settled'.exists_object circle
  exact ⟨o, ⟨c, same, way.trans further⟩, object, circle'⟩

/-- The runner on which an attribute of an object has been bound to the name of the object. -/
def selfBoxed : Runner := ((fresh true).run Console.noHosts "o is a box\no p is o").2

def selfBoxing : List Node :=
  let at? (line col : Int) (tag text : String) : Option Loc := some ⟨line, col, tag, .text text⟩
  let name (line col : Int) : Node :=
    .scalar (.identifier "o" (at? line col "identifier" "o")) (at? line col "scalar" "o")
  let attr : Node := .object (.identifier "o" (at? 2 1 "identifier" "o"))
    (.identifier "p" (at? 2 3 "identifier" "p")) (at? 2 1 "object" "o p")
  [.expression (.typeAssignment (.assignee (name 1 1) (at? 1 1 "assignee" "o"))
      (.identifier "box" (at? 1 8 "identifier" "box")) (at? 1 1 "type_assignment" "o is a box"))
      (at? 1 1 "expression" "o is a box"),
    .expression (.valueAssignment (.assignee attr (at? 2 1 "assignee" "o p"))
      (.value (.variable (name 2 8) (at? 2 8 "variable" "o")) (at? 2 8 "value" "o"))
      (at? 2 1 "value_assignment" "o p is o")) (at? 2 1 "expression" "o p is o")]

theorem ofSource_selfBoxing : Node.ofSource "o is a box\no p is o" =
    .ok (.root selfBoxing (some ⟨1, 1, "root", .text "o is a box\no p is o"⟩)) := by
  have first : Grammar.statement ⟨1, 1, "o is a box\no p is o".toList⟩ =
    some (selfBoxing[0], ⟨2, 1, "o p is o".toList⟩) := rfl
  have second : Grammar.statement ⟨2, 1, "o p is o".toList⟩ =
    some (selfBoxing[1], ⟨2, 9, []⟩) := rfl
  have last : Grammar.statement ⟨2, 9, []⟩ = none := rfl
  have read := Grammar.statements_of_some first (by decide)
  rw [Grammar.statements_of_some second (by decide), Grammar.statements_of_none last] at read
  exact Node.ofSource_of_statements "o is a box\no p is o" read rfl rfl

theorem machine_selfBoxed : selfBoxed.machine.names.read "o" = .value (.cell 0) ∧
    selfBoxed.machine.heap =
      ⟨#[.object (some "box") (.ofList [("p", .reference (.name "o"))])]⟩ := by
  have moves : Moves Console.noHosts selfBoxing ⟨Machine.builtins, .empty⟩
      ⟨Machine.builtins.set "o" (.value (.cell 0)),
        ⟨#[.object (some "box") (.ofList [("p", .reference (.name "o"))])]⟩⟩ :=
    .make .name rfl (Reference.puts_name "o") <|
    .bind .path (Node.readsAs_name "o") (Reference.puts_path rfl rfl "p") <|
    .nil _
  obtain ⟨store, -⟩ := machine_of_moves (r := fresh true) ofSource_selfBoxing rfl moves
  obtain ⟨names, heap⟩ := Store.mk.inj store
  rw [selfBoxed, names]
  exact ⟨rfl, heap⟩

/-- Resolved, the object holds itself, and it cannot be printed. -/
theorem printing_ends_of_selfBoxed : Reachable Console.noHosts selfBoxed ∧
    ∃ after, Run.resolve (.reference (.name "o")) selfBoxed.machine = (.ok (.cell 0), after) ∧
      (∀ width level n, after.heap.printWithin width n level (.value (.cell 0)) = none) ∧
      ∃ o, after.heap.Reaches (.value (.cell 0)) o ∧ after.heap.IsObject o ∧
        after.heap.ContainsItself o := by
  obtain ⟨o, heap⟩ := machine_selfBoxed
  have lead : ∀ h, deref selfBoxed.machine.names h (.reference (.name "o")) = .ok (.cell 0) :=
    fun _ => deref_name_of_value o nofun
  have again : ∀ h, resolveBinding selfBoxed.machine.names 1 [0] (.reference (.name "o")) h =
      (.ok (.cell 0), h) := by
    intro h
    rw [resolveBinding_of_ok (lead h), resolveValue_of_mem (List.mem_cons_self ..)]
  have resolved : resolve selfBoxed.machine.names (.reference (.name "o")) selfBoxed.machine.heap =
      (.ok (.cell 0), ⟨#[.object (some "box") (.ofList [("p", .value (.cell 0))])]⟩) := by
    rw [heap]
    show resolveBinding selfBoxed.machine.names 1 [] _ _ = _
    rw [resolveBinding_of_ok (lead _), resolveValue_object (by decide) (by decide) rfl]
    show (Except.map _ (resolveAttributes selfBoxed.machine.names 1 [0] 0 ["p"] _).1,
      (resolveAttributes selfBoxed.machine.names 1 [0] 0 ["p"] _).2) = _
    rw [resolveAttributes_of_ok (again _), resolveAttributes]
    rfl
  have reachable : Reachable Console.noHosts selfBoxed := .run _ (.fresh true)
  have run := Run.resolve_of_apply resolved
  obtain ⟨prints, made⟩ := printing_ends
  obtain ⟨tupleFree, fails⟩ := made _ _ reachable _ (.inl rfl) (.reference (.name "o")) _ _ trivial run
  have endless (width : Nat) (level : Int) (n : Nat) : Heap.printWithin
      ⟨#[.object (some "box") (.ofList [("p", .value (.cell 0))])]⟩ width n level
        (.value (.cell 0)) = none := by
    refine Option.eq_none_iff_forall_ne_some.2 fun text printed => ?_
    exact ((prints _ tupleFree width level _).1.1 ⟨n, text, printed⟩) 0 ⟨0, rfl, .refl⟩
      (.single ⟨_, rfl, List.mem_cons_self ..⟩)
  exact ⟨reachable, _, run, endless, fails 2 0 (endless 2 0)⟩

end Runner

end AliasScript

import Mathlib.Data.List.Forall2
import AliasScript.Proofs.ByLine

/-!
# The lines of a source

A source is a program exactly where each of its lines is one (`Node.isProgram_iff_lines`), and then
its statements are those of its lines, each lowered by the lines above it. A source that is no
program is read up to the place where its first line that is no program stops being one
(`Node.ofSource_by_line`).
-/

namespace AliasScript

theorem mapIdx_of_map {α β γ : Type} (f : α → β) (g : Nat → β → γ) (l : List α) :
    (l.map f).mapIdx g = l.mapIdx fun i a => g i (f a) := by
  apply List.ext_getElem?
  intro i
  simp [Function.comp_def]

/-- The lines of a source: what stands between its newlines. -/
def Text.linesOf (source : String) : List String :=
  (source.toList.splitOn '\n').map String.ofList

theorem Text.not_mem_of_mem_splitOn (cs : List Char) :
    ∀ line ∈ cs.splitOn '\n', '\n' ∉ line := by
  induction cs with
  | nil => simp
  | cons c cs ih =>
    rw [List.splitOn_cons_eq_if_modifyHead]
    by_cases newline : c = '\n'
    · simpa [newline] using ih
    · have lines : ∀ line ∈ (cs.splitOn '\n').modifyHead (List.cons c), '\n' ∉ line := by
        cases split : cs.splitOn '\n' with
        | nil => simp
        | cons first rest =>
          rw [split] at ih
          intro line mem
          rcases List.mem_cons.1 mem with rfl | mem
          · have := ih first (List.mem_cons_self ..)
            simp [this, Ne.symm newline]
          · exact ih line (List.mem_cons_of_mem _ mem)
      simpa [newline] using lines

namespace Node

/-! ## Integers -/

theorem integersOfAll_append (front back : List Node) :
    integersOfAll (front ++ back) = integersOfAll front ++ integersOfAll back := by
  induction front with
  | nil => rfl
  | cons node nodes ih =>
    rw [List.cons_append, integersOfAll, integersOfAll, ih, List.append_assoc]

theorem allLowered_eq_map (k : Nat) (nodes : List Node) :
    allLowered k nodes = nodes.map (lowered k) := by
  induction nodes with
  | nil => rw [allLowered, List.map_nil]
  | cons node nodes ih => rw [allLowered, List.map_cons, ih]

mutual

theorem integers_lowered (k : Nat) : ∀ node : Node, (node.lowered k).integers = node.integers
  | .identifier .. | .integer .. | .string .. | .listOperation .. => by
    simp only [lowered, integers]
  | .literal inner _ | .scalar inner _ | .variable inner _ | .value inner _ | .assignee inner _
  | .expression inner _ => by
    have := integers_lowered k inner
    simp only [lowered, integers, this]
  | .object a b _ | .valueAssignment a b _ | .typeAssignment a b _ | .invocation a b _ => by
    have := integers_lowered k a
    have := integers_lowered k b
    simp only [lowered, integers, *]
  | .listAssignment a b c _ => by
    have := integers_lowered k a
    have := integers_lowered k b
    have := integers_lowered k c
    simp only [lowered, integers, *]
  | .block body _ | .root body _ => by
    have := integersOfAll_allLowered k body
    simp only [lowered, integers, this]

theorem integersOfAll_allLowered (k : Nat) :
    ∀ nodes : List Node, integersOfAll (allLowered k nodes) = integersOfAll nodes
  | [] => by rw [allLowered]
  | node :: nodes => by
    rw [allLowered, integersOfAll, integersOfAll, integers_lowered k node,
      integersOfAll_allLowered k nodes]

end

theorem integersOfAll_lowered (k : Nat) (nodes : List Node) :
    integersOfAll (nodes.map (lowered k)) = integersOfAll nodes := by
  rw [← allLowered_eq_map, integersOfAll_allLowered]

/-- The integers of the nodes can be kept. -/
def InRange (nodes : List Node) : Prop :=
  ∀ n ∈ integersOfAll nodes, smallest ≤ n ∧ n ≤ largest

theorem inRange_iff {nodes : List Node} :
    InRange nodes ↔ (integersOfAll nodes).findSome? rangeError? = none := by
  rw [List.findSome?_eq_none_iff, InRange]
  refine forall₂_congr fun n _ => ?_
  rw [rangeError?]
  split
  · simp
    omega
  · split
    · simp
      omega
    · simp
      omega

end Node

/-! ## What is read of a source by its lines -/

namespace Grammar.ByLine

variable {k : Nat} {lines : List (List Char)} {nodes : List Node} {d : Cursor}

theorem whole_iff (h : ByLine k lines (nodes, d)) :
    d.rest = [] ↔ ∀ line ∈ lines, (program (.start line)).2.rest = [] := by
  generalize same : (nodes, d) = result at h
  induction h generalizing nodes d with
  | last line =>
    cases same
    simp [Cursor.lowered]
  | stuck lines rs left =>
    cases same
    simp [Cursor.lowered, left]
  | next nothing _ ih =>
    cases same
    simp [ih rfl, nothing]

theorem nodes_of_whole (h : ByLine k lines (nodes, d)) (whole : d.rest = []) :
    nodes = (lines.mapIdx fun i line =>
      (program (.start line)).1.map (Node.lowered (k + i))).flatten := by
  generalize same : (nodes, d) = result at h
  induction h generalizing nodes d with
  | last line =>
    cases same
    simp
  | stuck lines rs left =>
    cases same
    exact absurd (List.append_eq_nil_iff.1 whole).1 left
  | @next k line lines nodes' d' _ _ ih =>
    cases same
    have below : ∀ i, k + 1 + i = k + (i + 1) := fun i => by omega
    rw [ih whole rfl, List.mapIdx_cons, List.flatten_cons]
    simp only [below, Nat.add_zero]

theorem mem_integers_iff (h : ByLine k lines (nodes, d)) (whole : d.rest = []) (n : Int) :
    n ∈ Node.integersOfAll nodes ↔
      ∃ line ∈ lines, n ∈ Node.integersOfAll (program (.start line)).1 := by
  generalize same : (nodes, d) = result at h
  induction h generalizing nodes d with
  | last line =>
    cases same
    simp [Node.integersOfAll_lowered]
  | stuck lines rs left =>
    cases same
    exact absurd (List.append_eq_nil_iff.1 whole).1 left
  | next _ _ ih =>
    cases same
    simp [Node.integersOfAll_append, Node.integersOfAll_lowered, ih whole rfl]

/-- Where something is left, reading has stopped in the first line of which something is left. The
integers of the lines before have been read. -/
theorem exists_stuck (h : ByLine k lines (nodes, d)) (left : d.rest ≠ []) :
    ∃ i line rs, lines[i]? = some line ∧ (program (.start line)).2.rest ≠ [] ∧
      d = (program (.start line)).2.lowered (k + i) rs ∧
      ∀ j before, j < i → lines[j]? = some before → (program (.start before)).2.rest = [] ∧
        ∀ n ∈ Node.integersOfAll (program (.start before)).1, n ∈ Node.integersOfAll nodes := by
  generalize same : (nodes, d) = result at h
  induction h generalizing nodes d with
  | last line =>
    cases same
    refine ⟨0, line, [], rfl, ?_, rfl, fun j before lt => absurd lt (Nat.not_lt_zero j)⟩
    simpa [Cursor.lowered] using left
  | @stuck _ line lines rs some =>
    cases same
    exact ⟨0, line, rs, rfl, some, rfl, fun j before lt => absurd lt (Nat.not_lt_zero j)⟩
  | @next k first lines nodes' d' nothing _ ih =>
    cases same
    obtain ⟨i, line, rs, there, some, stops, earlier⟩ := ih left rfl
    have below : k + (i + 1) = k + 1 + i := by omega
    refine ⟨i + 1, line, rs, there, some, by rw [below, stops], fun j before lt here => ?_⟩
    rw [Node.integersOfAll_append, Node.integersOfAll_lowered]
    cases j with
    | zero =>
      cases here
      exact ⟨nothing, fun n mem => List.mem_append_left _ mem⟩
    | succ j =>
      obtain ⟨read, known⟩ := earlier j before (by omega) here
      exact ⟨read, fun n mem => List.mem_append_right _ (known n mem)⟩

end Grammar.ByLine

namespace Node

/-- The statements at the front of a source, as many as can be read. -/
def statementsOf (source : String) : List Node := (Grammar.program (.start source.toList)).1

/-- The place where reading a source stops. -/
def endOf (source : String) : Cursor := (Grammar.program (.start source.toList)).2

theorem byLine_source (source : String) :
    Grammar.ByLine 0 (source.toList.splitOn '\n') (statementsOf source, endOf source) := by
  have read := Grammar.byLine_program _ (List.splitOn_ne_nil '\n' source.toList) 0
    (Text.not_mem_of_mem_splitOn source.toList)
  rwa [List.intercalate_splitOn] at read

variable {source : String}

theorem ofSource_eq (source : String) : ofSource source =
    if (endOf source).rest = [] then
      match (integersOfAll (statementsOf source)).findSome? rangeError? with
      | some e => .error e
      | none => .ok (.root (statementsOf source)
        (some ((Cursor.start source.toList).loc (endOf source) "root")))
    else .error (.unread ⟨(endOf source).line, (endOf source).col, (endOf source).rest⟩) := by
  have integers : ∀ body loc, (Node.root body loc).integers = integersOfAll body :=
    fun body loc => by rw [Node.integers]
  simp only [ofSource, integers, List.isEmpty_iff]
  rfl

theorem exists_ofSource_iff (source : String) :
    (∃ root, ofSource source = .ok root) ↔
      (endOf source).rest = [] ∧ InRange (statementsOf source) := by
  rw [ofSource_eq, inRange_iff]
  split
  · split
    · next found => simp [*]
    · next found => simp [*]
  · next left => simp [left]

theorem eq_root_of_ofSource {root : Node} (h : ofSource source = .ok root) :
    root = .root (statementsOf source)
      (some ((Cursor.start source.toList).loc (endOf source) "root")) := by
  rw [ofSource_eq] at h
  split at h
  · split at h <;> cases h
    rfl
  · cases h

theorem ofSource_of_unread (left : (endOf source).rest ≠ []) : ofSource source =
    .error (.unread ⟨(endOf source).line, (endOf source).col, (endOf source).rest⟩) := by
  rw [ofSource_eq, if_neg left]

/-- A source is a program where each of its lines is one. -/
theorem isProgram_iff_lines (source : String) :
    (∃ root, ofSource source = .ok root) ↔
      ∀ line ∈ Text.linesOf source, ∃ root, ofSource line = .ok root := by
  have read := byLine_source source
  simp only [exists_ofSource_iff, Text.linesOf, List.forall_mem_map, statementsOf, endOf,
    String.toList_ofList] at read ⊢
  constructor
  · rintro ⟨whole, inRange⟩ line mem
    refine ⟨read.whole_iff.1 whole line mem, fun n known => ?_⟩
    exact inRange n ((read.mem_integers_iff whole n).2 ⟨line, mem, known⟩)
  · intro lines
    have whole := read.whole_iff.2 fun line mem => (lines line mem).1
    refine ⟨whole, fun n known => ?_⟩
    obtain ⟨line, mem, here⟩ := (read.mem_integers_iff whole n).1 known
    exact (lines line mem).2 n here

theorem statementsOf_lines {root : Node} (h : ofSource source = .ok root) :
    statementsOf source = ((Text.linesOf source).mapIdx fun i line =>
      (statementsOf line).map (lowered i)).flatten := by
  have whole := ((exists_ofSource_iff source).1 ⟨root, h⟩).1
  rw [(byLine_source source).nodes_of_whole whole]
  simp only [Text.linesOf, mapIdx_of_map, statementsOf, String.toList_ofList, Nat.zero_add]

/-- A source whose integers are in range is a program exactly where each of its lines is one. Then its
statements are those of its lines in order, with their places lowered by the lines above. Else
reading stops in the first line that is no program, at the column where reading that line stops. -/
theorem ofSource_by_line (source : String) (inRange : InRange (statementsOf source)) :
    ((∃ root, ofSource source = .ok root) ↔
      ∀ line ∈ Text.linesOf source, ∃ root, ofSource line = .ok root) ∧
    (∀ root, ofSource source = .ok root → ∃ bodies loc,
      List.Forall₂ (fun line body => ∃ loc, ofSource line = .ok (.root body loc))
        (Text.linesOf source) bodies ∧
      root = .root (bodies.mapIdx fun i body => body.map (lowered i)).flatten loc) ∧
    (∀ e, ofSource source = .error e → ∃ i line place rest,
      (Text.linesOf source)[i]? = some line ∧
      (∀ j before, j < i → (Text.linesOf source)[j]? = some before →
        ∃ root, ofSource before = .ok root) ∧
      ofSource line = .error (.unread place) ∧ place.line = 1 ∧
      e = .unread ⟨1 + i, place.col, place.rest ++ rest⟩) := by
  refine ⟨isProgram_iff_lines source, fun root h => ?_, fun e failed => ?_⟩
  · refine ⟨(Text.linesOf source).map statementsOf,
      some ((Cursor.start source.toList).loc (endOf source) "root"), ?_, ?_⟩
    · rw [List.forall₂_map_right_iff, List.forall₂_same]
      intro line mem
      obtain ⟨root', parsed⟩ := (isProgram_iff_lines source).1 ⟨root, h⟩ line mem
      rw [parsed, eq_root_of_ofSource parsed]
      exact ⟨_, rfl⟩
    · rw [eq_root_of_ofSource h, statementsOf_lines h, mapIdx_of_map]
  · -- The integers are in range, so something is left.
    have left : (endOf source).rest ≠ [] := by
      intro whole
      obtain ⟨root, parsed⟩ := (exists_ofSource_iff source).2 ⟨whole, inRange⟩
      cases parsed.symm.trans failed
    obtain ⟨i, line, rs, there, some, stops, earlier⟩ := (byLine_source source).exists_stuck left
    have free : '\n' ∉ (Cursor.start line).rest :=
      Text.not_mem_of_mem_splitOn _ _ (List.mem_of_getElem? there)
    have alone : (endOf (String.ofList line)).rest ≠ [] := by
      rwa [endOf, String.toList_ofList]
    have here : (endOf (String.ofList line)).line = 1 := by
      rw [endOf, String.toList_ofList]
      exact (Grammar.program_in_line free).2
    refine ⟨i, String.ofList line, _, rs, ?_, fun j before lt mem => ?_,
      ofSource_of_unread alone, here, ?_⟩
    · simp [Text.linesOf, there]
    · rw [Text.linesOf, List.getElem?_map, Option.map_eq_some_iff] at mem
      obtain ⟨cs, mem, rfl⟩ := mem
      obtain ⟨whole, known⟩ := earlier j cs lt mem
      rw [exists_ofSource_iff, endOf, statementsOf, String.toList_ofList]
      exact ⟨whole, fun n mem => inRange n (known n mem)⟩
    · rw [ofSource_of_unread left] at failed
      rw [← Except.error.inj failed, stops, here.symm]
      simp only [endOf, String.toList_ofList, Cursor.lowered, Nat.zero_add]

/-- A string that is not closed in the second line. -/
theorem ofSource_by_line_of_unclosed : InRange (statementsOf "x is 1\ny \"") ∧
    ofSource "x is 1\ny \"" = .error (.unread ⟨2, 1, "y \"".toList⟩) ∧
    ∃ line place rest, (Text.linesOf "x is 1\ny \"")[1]? = some line ∧
      ofSource line = .error (.unread place) ∧ place.col = 1 ∧
      place.rest ++ rest = "y \"".toList := by
  obtain ⟨node, first, integers⟩ : ∃ node, Grammar.statement ⟨1, 1, "x is 1\ny \"".toList⟩ =
      some (node, ⟨2, 1, "y \"".toList⟩) ∧ node.integers = [1] := ⟨_, rfl, rfl⟩
  have last : Grammar.statement ⟨2, 1, "y \"".toList⟩ = none := rfl
  have read : Grammar.program (.start "x is 1\ny \"".toList) =
      ([node], ⟨2, 1, "y \"".toList⟩) := by
    have read := Grammar.statements_of_some first (by decide)
    rwa [Grammar.statements_of_none last] at read
  have inRange : InRange (statementsOf "x is 1\ny \"") := by
    rw [inRange_iff, statementsOf, read, integersOfAll, integers]
    rfl
  have failed : ofSource "x is 1\ny \"" = .error (.unread ⟨2, 1, "y \"".toList⟩) := by
    have left : (endOf "x is 1\ny \"").rest ≠ [] := by
      rw [endOf, read]
      exact List.cons_ne_nil _ _
    rw [ofSource_of_unread left, endOf, read]
  obtain ⟨-, -, stops⟩ := ofSource_by_line "x is 1\ny \"" inRange
  obtain ⟨i, line, place, rest, there, -, alone, -, same⟩ := stops _ failed
  injection same with same
  injection same with below col rest
  obtain rfl : i = 1 := by omega
  exact ⟨inRange, failed, line, place, _, there, alone, col.symm, rest.symm⟩

end Node

end AliasScript

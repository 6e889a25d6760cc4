import AliasScript.Proofs.Lines
import AliasScript.Proofs.Reachable
import AliasScript.Proofs.Taking

/-!
# A program is read as it was written

A text that writes a sequence of statements is read as these statements, up to locations, and no
other sequence is written in it (`Node.reads_as_written`). The induction goes along the statements:
the blanks in front of a break are read with the statement before it, the rest of the break as
separators, and a break is what keeps the last word of a statement apart from the first word of the
next one.
-/

namespace AliasScript

open Text

/-! ## A tree says one thing -/

namespace Node

variable {node : Node}

theorem Places.unique {x y : Reference} (h : node.Places x) (g : node.Places y) : x = y := by
  cases h <;> cases g <;> rfl

theorem Denotes.unique {t u : Term} (h : node.Denotes t) (g : node.Denotes u) : t = u := by
  cases h with
  | number => cases g; rfl
  | text => cases g; rfl
  | read place =>
    obtain _ | _ | place' := g
    rw [place.unique place']

theorem Aims.unique {x y : Reference} (h : node.Aims x) (g : node.Aims y) : x = y := by
  obtain ⟨place⟩ := h
  obtain ⟨place'⟩ := g
  exact place.unique place'

theorem States.unique {s s' : Statement} (h : node.States s) (g : node.States s') : s = s' := by
  cases h with
  | assign aim value =>
    obtain ⟨aim', value'⟩ := g
    rw [aim.unique aim', value.unique value']
  | make aim =>
    obtain _ | aim' := g
    rw [aim.unique aim']
  | @change op _ _ _ _ _ _ item aim =>
    generalize word : op.keyword = keyword at g
    obtain _ | _ | @⟨op', _, _, _, _, _, _, item', aim'⟩ := g
    have same : op = op' := by
      have known := congrArg ListOperation.ofKeyword? word
      rw [ListOperation.ofKeyword?_keyword, ListOperation.ofKeyword?_keyword] at known
      exact Option.some.inj known
    rw [same, item.unique item', aim.unique aim']
  | call arg =>
    obtain _ | _ | _ | arg' := g
    rw [arg.unique arg']

theorem Says.unique {s s' : Statement} (h : node.Says s) (g : node.Says s') : s = s' := by
  obtain ⟨inner⟩ := h
  obtain ⟨inner'⟩ := g
  exact inner.unique inner'

theorem statements_unique {program other : List Statement} {body : List Node}
    (h : List.Forall₂ Says program body) (g : List.Forall₂ Says other body) : other = program := by
  induction h generalizing other with
  | nil =>
    cases g
    rfl
  | cons first _ ih =>
    obtain _ | ⟨first', others⟩ := g
    rw [first.unique first', ih others]

end Node

/-! ## Integers -/

def Term.integers : Term → List Int
  | .number n => [n]
  | .text _ | .read _ => []

def Statement.integers : Statement → List Int
  | .assign _ t | .change _ t _ | .call _ t => t.integers
  | .make _ _ => []

namespace Node

variable {node : Node}

theorem Places.integers {x : Reference} (h : node.Places x) : node.integers = [] := by
  cases h <;> simp [Node.integers]

theorem Denotes.integers {t : Term} (h : node.Denotes t) : node.integers = t.integers := by
  cases h with
  | number => simp [Node.integers, Term.integers]
  | text => simp [Node.integers, Term.integers]
  | read place => simp [Node.integers, Term.integers, place.integers]

theorem Aims.integers {x : Reference} (h : node.Aims x) : node.integers = [] := by
  obtain ⟨place⟩ := h
  simp [Node.integers, place.integers]

theorem Says.integers {s : Statement} (h : node.Says s) : node.integers = s.integers := by
  obtain ⟨inner⟩ := h
  cases inner with
  | assign aim value => simp [Node.integers, Statement.integers, aim.integers, value.integers]
  | make aim => simp [Node.integers, Statement.integers, aim.integers]
  | change item aim => simp [Node.integers, Statement.integers, aim.integers, item.integers]
  | call arg => simp [Node.integers, Statement.integers, arg.integers]

end Node

namespace Spelling

theorem OfTerm.inRange {t : Term} {cs : List Char} (h : OfTerm t cs) :
    ∀ n ∈ t.integers, Node.smallest ≤ n ∧ n ≤ Node.largest := by
  cases h with
  | number low high => simp [Term.integers, low, high]
  | text | read => simp [Term.integers]

theorem OfStatement.inRange {s : Statement} {cs : List Char} (h : OfStatement s cs) :
    ∀ n ∈ s.integers, Node.smallest ≤ n ∧ n ≤ Node.largest := by
  cases h with
  | assign _ term | change term | call _ term => exact term.inRange
  | make => simp [Statement.integers]

end Spelling

/-! ## From statement to statement -/

namespace Grammar

open Reader Spelling

variable {ss : List Statement} {text : List Char}

theorem closed_of_rest (h : OfRest ss text) : Closed text := by
  cases h with
  | done separators =>
    intro c head
    obtain ⟨tail, same⟩ := List.head?_eq_some_iff.1 head
    exact separators c ((List.dropWhile_suffix _).subset (same ▸ List.mem_cons_self ..))
  | @next _ _ cs _ _ between =>
    obtain ⟨separators, d, mem, stands⟩ := between
    have some' : cs.dropWhile isGap ≠ [] := by
      rw [ne_eq, List.dropWhile_eq_nil_iff]
      intro all
      rw [all d mem] at stands
      cases stands
    obtain ⟨c, tail, same⟩ := List.exists_cons_of_ne_nil some'
    rw [Closed, List.append_assoc, List.dropWhile_append, same]
    rintro c ⟨⟩
    exact separators c ((List.dropWhile_suffix _).subset (same ▸ List.mem_cons_self ..))

theorem fails_expressionNode {cs : List Char} (wordless : Wordless (cs.dropWhile isGap)) :
    expressionNode.Fails cs := by
  have name : identifierNode.Fails (cs.dropWhile isGap) :=
    fails_leaf (Token.identifier?_of_wordless wordless)
  have place : (objectNode <|> scalarNode).Fails (cs.dropWhile isGap) :=
    (fails_located (fails_bind name)).orElse (fails_wrapped name)
  have aim : assigneeNode.Fails (cs.dropWhile isGap) := fails_wrapped place
  refine fails_located <| (takes_skip isGap cs).fails_bind fun _ _ => fails_bind ?_
  refine (fails_listAssignmentNode (Token.oneOf?_reserved_of_wordless wordless)).orElse ?_
  exact Fails.orElse (fails_located (fails_bind aim)) <|
    Fails.orElse (fails_located (fails_bind aim)) (fails_located (fails_bind name))

/-- What a cursor's text is read as: some nodes that say the statements, and nothing is left. -/
def ReadsAs (c : Cursor) (ss : List Statement) : Prop :=
  ∃ nodes d, program c = (nodes, d) ∧ d.rest = [] ∧ List.Forall₂ Node.Says ss nodes

theorem rest_settle (c : Cursor) : (settle c).rest = c.rest.dropWhile isSeparator := rfl

theorem dropWhile_isSeparator_of_isGap (cs : List Char) :
    (cs.dropWhile isGap).dropWhile isSeparator = cs.dropWhile isSeparator := by
  induction cs with
  | nil => rfl
  | cons c cs ih =>
    cases gap : isGap c with
    | true => simp [gap, isSeparator_of_isGap gap, ih]
    | false => rw [List.dropWhile_cons_of_neg (by simp [gap])]

theorem dropWhile_separators {cs front rest : List Char} (separators : Separators cs)
    (begun : Begun front) : (cs ++ front ++ rest).dropWhile isSeparator = front ++ rest := by
  obtain ⟨c, tail, rfl, stands⟩ := begun
  rw [List.append_assoc, List.dropWhile_append_of_pos separators, List.cons_append,
    List.dropWhile_cons_of_neg (by simp [stands])]

theorem readsAs_cons {s : Statement} {front rest : List Char} {c : Cursor}
    (h : OfStatement s front) (closed : Closed rest) (here : (settle c).rest = front ++ rest)
    (then' : ∀ d : Cursor, (settle d).rest = rest.dropWhile isSeparator → ReadsAs d ss) :
    ReadsAs c (s :: ss) := by
  obtain ⟨node, d, found, left, first⟩ := takes_expressionNode h closed (settle c) here
  have settled : (settle d).rest = rest.dropWhile isSeparator := by
    rw [rest_settle, left, dropWhile_isSeparator_of_isGap]
  obtain ⟨nodes, e, read, whole, others⟩ := then' d settled
  have shorter : d.rest.length < (settle c).rest.length := by
    obtain ⟨x, tail, rfl, -⟩ := h.begun
    have := (List.dropWhile_suffix (p := isGap) (l := rest)).length_le
    rw [left, here]
    simp only [List.length_append, List.length_cons]
    omega
  refine ⟨node :: nodes, e, ?_, whole, .cons first others⟩
  rw [program_of_some found shorter, read]

theorem readsAs_nil {c : Cursor} (separators : Separators c.rest) : ReadsAs c [] := by
  have nothing : (settle c).rest = [] := List.dropWhile_eq_nil_iff.2 separators
  have wordless : Wordless ([].dropWhile isGap) := fun _ head => nomatch head
  exact ⟨[], settle c, program_of_none (fails_expressionNode wordless _ nothing), nothing, .nil⟩

theorem readsAs_of_rest (h : OfRest ss text) :
    ∀ c : Cursor, (settle c).rest = text.dropWhile isSeparator → ReadsAs c ss := by
  induction h with
  | done separators =>
    intro c here
    rw [List.dropWhile_eq_nil_iff.2 separators] at here
    exact readsAs_nil (List.dropWhile_eq_nil_iff.1 here)
  | next between first others ih =>
    intro c here
    rw [dropWhile_separators between.1 first.begun] at here
    exact readsAs_cons first (closed_of_rest others) here ih

theorem readsAs_of_program (h : OfProgram ss text) : ReadsAs (.start text) ss := by
  cases h with
  | empty separators => exact readsAs_nil separators
  | statements separators first others =>
    exact readsAs_cons first (closed_of_rest others)
      (dropWhile_separators separators first.begun) (readsAs_of_rest others)

theorem inRange_of_program (h : OfProgram ss text) {body : List Node}
    (read : List.Forall₂ Node.Says ss body) : Node.InRange body := by
  have written : ∀ s ∈ ss, ∃ cs, OfStatement s cs := by
    have rest : ∀ {ss text}, OfRest ss text → ∀ s ∈ ss, ∃ cs, OfStatement s cs := by
      intro ss text h
      induction h with
      | done => simp
      | next _ first _ ih => exact List.forall_mem_cons.2 ⟨⟨_, first⟩, ih⟩
    cases h with
    | empty => simp
    | statements _ first others => exact List.forall_mem_cons.2 ⟨⟨_, first⟩, rest others⟩
  clear h
  induction read with
  | nil => simp [Node.InRange, Node.integersOfAll]
  | cons first _ ih =>
    obtain ⟨⟨_, here⟩, others⟩ := List.forall_mem_cons.1 written
    intro n mem
    rw [Node.integersOfAll, first.integers] at mem
    rcases List.mem_append.1 mem with mem | mem
    · exact here.inRange n mem
    · exact ih others n mem

end Grammar

namespace Runner

open Spelling

/-- A text that writes statements is read as these statements, and it writes no others. -/
theorem parse_written {program : List Statement} {source : String}
    (written : OfProgram program source.toList) :
    (∃ body loc, parse source = .ok (.root body loc) ∧ List.Forall₂ Node.Says program body) ∧
      ∀ other, OfProgram other source.toList → other = program := by
  obtain ⟨body, d, read, whole, meant⟩ := Grammar.readsAs_of_program written
  constructor
  · have inRange := Node.inRange_iff.1 (Grammar.inRange_of_program written meant)
    exact ⟨body, _, parse_of_ok (Node.ofSource_of_statements source read whole inRange), meant⟩
  · intro other written'
    obtain ⟨body', d', read', -, meant'⟩ := Grammar.readsAs_of_program written'
    rw [read] at read'
    cases read'
    exact Node.statements_unique meant meant'

/-- Names that start with reserved words, a digit of another script, and a text that holds words and
separators. -/
def lookalikes : List Statement :=
  [.assign (.path "isle" "an_") (.number (-3)), .change .add (.text "to; from") (.name "toad")]

theorem ofProgram_lookalikes :
    OfProgram lookalikes "isle an_  is -٣ ;add 'to; from'\tfrom toad\n".toList := by
  have words : OfName "isle" "isle".toList ∧ OfName "an_" "an_".toList ∧
      OfName "toad" "toad".toList := by
    refine ⟨⟨rfl, ?_⟩, ⟨rfl, ?_⟩, ⟨rfl, ?_⟩⟩ <;> decide
  have gaps : Gap [' '] ∧ Gap [' ', ' '] ∧ Gap ['\t'] := by
    refine ⟨⟨?_, List.all_eq_true.1 rfl⟩, ⟨?_, List.all_eq_true.1 rfl⟩,
      ⟨?_, List.all_eq_true.1 rfl⟩⟩ <;> decide
  have number : OfNumber (-3) ['-', '٣'] :=
    .negative ⟨by decide, List.all_eq_true.1 rfl, by decide⟩
  have text : OfText "to; from" "'to; from'".toList :=
    ⟨'\'', by decide, List.all_eq_true.1 rfl, rfl⟩
  have between : Break " ;".toList := ⟨List.all_eq_true.1 rfl, ';', by decide⟩
  have none : Separators [] := List.all_eq_true.1 rfl
  have last : Separators ['\n'] := List.all_eq_true.1 rfl
  have first : OfStatement (.assign (.path "isle" "an_") (.number (-3))) _ :=
    .assign (.path words.1 gaps.1 words.2.1) (.number (by decide) (by decide) number) gaps.2.1 gaps.1
  have second : OfStatement (.change .add (.text "to; from") (.name "toad")) _ :=
    .change (.text text) (List.mem_cons_of_mem _ (List.mem_cons_self ..)) (.name words.2.2) gaps.1
      gaps.2.2 gaps.1
  have whole : OfProgram lookalikes _ := .statements none first (.next between second (.done last))
  exact whole

theorem parse_written_of_lookalikes :
    OfProgram lookalikes "isle an_  is -٣ ;add 'to; from'\tfrom toad\n".toList ∧
    (∃ body loc, parse "isle an_  is -٣ ;add 'to; from'\tfrom toad\n" = .ok (.root body loc) ∧
      List.Forall₂ Node.Says lookalikes body) ∧
    ∀ other, OfProgram other "isle an_  is -٣ ;add 'to; from'\tfrom toad\n".toList →
      other = lookalikes :=
  ⟨ofProgram_lookalikes, parse_written ofProgram_lookalikes⟩

end Runner

end AliasScript

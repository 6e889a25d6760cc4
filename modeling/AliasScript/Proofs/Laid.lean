import AliasScript.Proofs.Lines
import AliasScript.Proofs.Spans

/-!
# A tree accounts for its source

The nodes that a reader makes lie in the source one behind the other (`Reader.Lays`), whatever else it
skips and whichever choices it tries in vain: a reader that fails gives no cursor, so the next choice
starts where the first one did. A node covers what was read from its start on (`Reader.Covers`), and
with it the nodes that it is made of. So every character of a program belongs to a statement or is a
separator between statements, and every node stands where it says (`Node.accounts_for_source`).
-/

namespace AliasScript

open Text

/-- The cursor stands behind some number of characters of a text. -/
structure Cursor.At (cs : List Char) (i : Nat) (c : Cursor) : Prop where
  inside : i ≤ cs.length
  rest : c.rest = cs.drop i
  place : (c.line, c.col) = Text.place (cs.take i)

namespace Cursor.At

variable {cs : List Char} {i j : Nat} {c d : Cursor}

theorem start (cs : List Char) : At cs 0 (.start cs) := ⟨Nat.zero_le _, rfl, rfl⟩

theorem past (h : At cs i c) {cut : Token.Cut} (splits : Token.Splits c.rest cut) :
    At cs (i + cut.1.length) (c.past cut) := by
  have split : cs.drop i = cut.1 ++ cut.2 := by rw [← h.rest, ← splits]
  have length := congrArg List.length split
  rw [List.length_drop, List.length_append] at length
  refine ⟨by have := h.inside; omega, ?_, ?_⟩
  · show cut.2 = _
    rw [← List.drop_drop, split, List.drop_left]
  · have taken : cs.take (i + cut.1.length) = cs.take i ++ cut.1 := by
      rw [List.take_add, split, List.take_left]
    have front := h.place
    rw [← advance_eq_place] at front ⊢
    rw [taken, advance_append, ← front]
    rfl

theorem upTo (h : At cs i c) (g : At cs j d) : c.upTo d = slice cs i j := by
  have same : cs.length - i - (cs.length - j) = j - i := by
    have := g.inside
    omega
  rw [Cursor.upTo, h.rest, g.rest, List.length_drop, List.length_drop, same, slice]

theorem rest_eq (h : At cs i c) (g : At cs j d) (le : i ≤ j) : c.rest = slice cs i j ++ d.rest := by
  rw [h.rest, g.rest, slice]
  conv_lhs => rw [← List.take_append_drop (j - i) (cs.drop i), List.drop_drop]
  rw [Nat.add_sub_cancel' le]

end Cursor.At

/-- Nodes that stand one behind the other between two offsets. -/
inductive Row (lies : Nat → Nat → Node → Prop) : Nat → Nat → List Node → Prop
  | nil {i j : Nat} : i ≤ j → Row lies i j []
  | cons {i a b j : Nat} {node : Node} {nodes : List Node} : i ≤ a → lies a b node →
    Row lies b j nodes → Row lies i j (node :: nodes)

/-- The node and the nodes it is made of stand in a text where they say, from one offset to another. -/
inductive Node.Lies (cs : List Char) : Nat → Nat → Node → Prop
  | mk {i j : Nat} {node : Node} {tag : String} : i ≤ j → j ≤ cs.length →
    node.loc = some ⟨(place (cs.take i)).1, (place (cs.take i)).2, tag,
      .text (String.ofList (slice cs i j))⟩ →
    Row (Lies cs) i j node.parts → Lies cs i j node

namespace Row

variable {lies : Nat → Nat → Node → Prop} {i j k : Nat} {nodes : List Node} {node : Node}

theorem mono (h : Row lies i j nodes) (le : j ≤ k) : Row lies i k nodes := by
  induction h with
  | nil le' => exact .nil (Nat.le_trans le' le)
  | cons front first _ ih => exact .cons front first (ih le)

theorem lower (h : Row lies j k nodes) (le : i ≤ j) : Row lies i k nodes := by
  cases h with
  | nil le' => exact .nil (Nat.le_trans le le')
  | cons front first rest => exact .cons (Nat.le_trans le front) first rest

theorem snoc (h : Row lies i j nodes) (last : lies j k node) (le : j ≤ k) :
    Row lies i k (nodes ++ [node]) := by
  induction h with
  | nil le' => exact .cons le' last (.nil (Nat.le_refl _))
  | cons front first _ ih => exact .cons front first (ih last le)

end Row

namespace Node.Lies

variable {cs : List Char} {i j : Nat} {node : Node}

theorem written (h : node.Lies cs i j) : node.written = slice cs i j := by
  obtain ⟨_, _, loc, _⟩ := h
  rw [Node.written, loc]
  exact String.toList_ofList

theorem le (h : node.Lies cs i j) : i ≤ j := by
  obtain ⟨le, _, _, _⟩ := h
  exact le

theorem le_of_row {nodes : List Node} (h : Row (Lies cs) i j nodes) : i ≤ j := by
  induction h with
  | nil le => exact le
  | cons front first _ ih => exact Nat.le_trans front (Nat.le_trans first.le ih)

theorem of_loc {c d : Cursor} {tag : String} (here : Cursor.At cs i c) (there : Cursor.At cs j d)
    (le : i ≤ j) (loc : node.loc = some (c.loc d tag)) (row : Row (Lies cs) i j node.parts) :
    node.Lies cs i j := by
  obtain ⟨line, col⟩ := Prod.mk.inj here.place
  rw [Cursor.loc, here.upTo there, line, col] at loc
  exact .mk le there.inside loc row

end Node.Lies

/-! ## Readers -/

namespace Reader

variable {α β : Type} {cs : List Char} {before : List Node} {p : α → List Node → Prop}
  {q : β → List Node → Prop}

/-- Behind nodes that have been read, the reader reads on to nodes in a row. -/
def Lays (cs : List Char) (before : List Node) (read : Reader α) (p : α → List Node → Prop) : Prop :=
  ∀ i j c, Cursor.At cs j c → Row (Node.Lies cs) i j before → ∀ a d, read c = some (a, d) →
    ∃ k nodes, j ≤ k ∧ Cursor.At cs k d ∧ Row (Node.Lies cs) i k nodes ∧ p a nodes

/-- The reader makes a node of what it reads. -/
def Covers (cs : List Char) (read : Reader Node) : Prop :=
  ∀ i c, Cursor.At cs i c → ∀ node d, read c = some (node, d) →
    ∃ j, Cursor.At cs j d ∧ node.Lies cs i j

theorem lays_pure {a : α} (h : p a before) : Lays cs before (pure a) p := by
  rintro i j c here row _ _ ⟨⟩
  exact ⟨j, before, Nat.le_refl j, here, row, h⟩

theorem lays_bind {read : Reader α} {next : α → Reader β} (first : Lays cs before read p)
    (then' : ∀ a mid, p a mid → Lays cs mid (next a) q) : Lays cs before (read >>= next) q := by
  intro i j c here row b e run
  obtain ⟨⟨a, d⟩, found, run⟩ := Option.bind_eq_some_iff.1 run
  obtain ⟨k, mid, le, there, row', has⟩ := first i j c here row a d found
  obtain ⟨l, nodes, le', end', row'', has'⟩ := then' a mid has i k d there row' b e run
  exact ⟨l, nodes, Nat.le_trans le le', end', row'', has'⟩

theorem lays_token {take : List Char → Option Token.Cut}
    (splits : ∀ {cs cut}, take cs = some cut → Token.Splits cs cut) :
    Lays cs before (token take) fun _ nodes => nodes = before := by
  intro i j c here row a d run
  obtain ⟨cut, taken, same⟩ := Option.map_eq_some_iff.1 run
  cases same
  exact ⟨_, before, Nat.le_add_right .., here.past (splits taken), row.mono (Nat.le_add_right ..), rfl⟩

theorem lays_skip (kind : Char → Bool) :
    Lays cs before (skip kind) fun _ nodes => nodes = before := by
  rintro i j c here row _ _ ⟨⟩
  exact ⟨_, before, Nat.le_add_right .., here.past (Token.splits_run kind c.rest),
    row.mono (Nat.le_add_right ..), rfl⟩

theorem lays_discard {read : Reader α} (h : Lays cs before read fun _ nodes => nodes = before) :
    Lays cs before (discard read) fun _ nodes => nodes = before := by
  intro i j c here row _ d run
  obtain ⟨⟨a, e⟩, found, same⟩ := Option.bind_eq_some_iff.1 run
  cases same
  exact h i j c here row a _ found

theorem Lays.skip {read : Reader α} {next : α → Reader β}
    (h : Lays cs before read fun _ nodes => nodes = before)
    (then' : ∀ a, Lays cs before (next a) q) : Lays cs before (read >>= next) q := by
  refine lays_bind h ?_
  rintro a _ rfl
  exact then' a

theorem Covers.bind {read : Reader Node} {next : Node → Reader β} (h : Covers cs read)
    (then' : ∀ node, Lays cs (before ++ [node]) (next node) q) :
    Lays cs before (read >>= next) q := by
  intro i j c here row b e run
  obtain ⟨⟨node, d⟩, found, run⟩ := Option.bind_eq_some_iff.1 run
  obtain ⟨k, there, lies⟩ := h j c here node d found
  obtain ⟨l, nodes, le, there', row', has⟩ :=
    then' node i k d there (row.snoc lies lies.le) b e run
  exact ⟨l, nodes, Nat.le_trans lies.le le, there', row', has⟩

theorem Covers.orElse {left right : Reader Node} (h : Covers cs left) (g : Covers cs right) :
    Covers cs (left <|> right) := by
  intro i c here node d run
  rcases eq_some_of_orElse run with first | second
  · exact h i c here node d first
  · exact g i c here node d second

theorem covers_located {tag : String} {read : Reader (Option Loc → Node)}
    (h : Lays cs [] read fun build nodes =>
      ∀ loc, (build loc).loc = loc ∧ (build loc).parts = nodes) : Covers cs (located tag read) := by
  intro i c here node d run
  obtain ⟨⟨build, e⟩, found, same⟩ := Option.bind_eq_some_iff.1 run
  cases same
  obtain ⟨j, nodes, le, there, row, built⟩ := h i i c here (.nil (Nat.le_refl i)) build _ found
  obtain ⟨loc, parts⟩ := built (some (c.loc d tag))
  exact ⟨j, there, .of_loc here there le loc (parts ▸ row)⟩

theorem covers_leaf {tag : String} {take : List Char → Option Token.Cut}
    {build : List Char → Option Loc → Node}
    (splits : ∀ {cs cut}, take cs = some cut → Token.Splits cs cut)
    (built : ∀ token loc, (build token loc).loc = loc ∧ (build token loc).parts = []) :
    Covers cs (located tag do return build (← token take)) :=
  covers_located ((lays_token splits).skip fun cs => lays_pure (built cs))

theorem covers_wrapped {tag : String} {read : Reader Node} {wrap : Node → Option Loc → Node}
    (h : Covers cs read) (built : ∀ node loc, (wrap node loc).loc = loc ∧
      (wrap node loc).parts = [node]) : Covers cs (located tag do return wrap (← read)) :=
  covers_located (h.bind fun node => lays_pure (built node))

end Reader

/-! ## The rules of the grammar -/

namespace Grammar

open Reader

variable {cs : List Char} {before : List Node}

theorem lays_gap : Lays cs before gap fun _ nodes => nodes = before :=
  lays_discard (lays_token Token.splits_gap?)

theorem lays_word (words : List String) :
    Lays cs before (word words) fun _ nodes => nodes = before :=
  lays_discard (lays_token Token.splits_oneOf?)

theorem covers_identifierNode : Covers cs identifierNode :=
  covers_leaf Token.splits_identifier? fun _ _ => ⟨rfl, rfl⟩

theorem covers_integerNode : Covers cs integerNode :=
  covers_leaf Token.splits_integer? fun _ _ => ⟨rfl, rfl⟩

theorem covers_stringNode : Covers cs stringNode :=
  covers_leaf Token.splits_string? fun _ _ => ⟨rfl, rfl⟩

theorem covers_objectNode : Covers cs objectNode :=
  covers_located <| covers_identifierNode.bind fun _ => lays_gap.skip fun _ =>
    covers_identifierNode.bind fun _ => lays_pure fun _ => ⟨rfl, rfl⟩

theorem covers_place : Covers cs (objectNode <|> scalarNode) :=
  covers_objectNode.orElse (covers_wrapped covers_identifierNode fun _ _ => ⟨rfl, rfl⟩)

theorem covers_assigneeNode : Covers cs assigneeNode :=
  covers_wrapped covers_place fun _ _ => ⟨rfl, rfl⟩

theorem covers_valueNode : Covers cs valueNode := by
  have literal : Covers cs literalNode :=
    covers_wrapped (covers_integerNode.orElse covers_stringNode) fun _ _ => ⟨rfl, rfl⟩
  have variable' : Covers cs variableNode := covers_wrapped covers_place fun _ _ => ⟨rfl, rfl⟩
  exact covers_wrapped (literal.orElse variable') fun _ _ => ⟨rfl, rfl⟩

theorem covers_valueAssignmentNode : Covers cs valueAssignmentNode :=
  covers_located <| covers_assigneeNode.bind fun _ => lays_gap.skip fun _ =>
    (lays_word _).skip fun _ => lays_gap.skip fun _ => covers_valueNode.bind fun _ =>
      lays_pure fun _ => ⟨rfl, rfl⟩

theorem covers_typeAssignmentNode : Covers cs typeAssignmentNode :=
  covers_located <| covers_assigneeNode.bind fun _ => lays_gap.skip fun _ =>
    (lays_word _).skip fun _ => lays_gap.skip fun _ => (lays_word _).skip fun _ =>
      lays_gap.skip fun _ => covers_identifierNode.bind fun _ => lays_pure fun _ => ⟨rfl, rfl⟩

theorem covers_listAssignmentNode : Covers cs listAssignmentNode := by
  have operation : Covers cs listOperationNode :=
    covers_leaf Token.splits_oneOf? fun _ _ => ⟨rfl, rfl⟩
  exact covers_located <| operation.bind fun _ => lays_gap.skip fun _ =>
    covers_valueNode.bind fun _ => lays_gap.skip fun _ => (lays_word _).skip fun _ =>
      lays_gap.skip fun _ => covers_assigneeNode.bind fun _ => lays_pure fun _ => ⟨rfl, rfl⟩

theorem covers_invocationNode : Covers cs invocationNode :=
  covers_located <| covers_identifierNode.bind fun _ => lays_gap.skip fun _ =>
    covers_valueNode.bind fun _ => lays_pure fun _ => ⟨rfl, rfl⟩

theorem covers_expressionNode : Covers cs expressionNode := by
  have assignment : Covers cs (typeAssignmentNode <|> valueAssignmentNode <|> invocationNode) :=
    covers_typeAssignmentNode.orElse (covers_valueAssignmentNode.orElse covers_invocationNode)
  have statement := covers_listAssignmentNode.orElse assignment
  exact covers_located <| (lays_skip _).skip fun _ => statement.bind fun _ =>
    (lays_skip _).skip fun _ => lays_pure fun _ => ⟨rfl, rfl⟩

end Grammar

/-! ## Programs -/

/-- Nodes with the text of each and separators behind it. -/
inductive Node.Joined : List Node → List Char → Prop
  | nil : Joined [] []
  | cons {node : Node} {nodes : List Node} {gap rest : List Char} :
    (∀ c ∈ gap, isSeparator c = true) → Joined nodes rest →
      Joined (node :: nodes) (node.written ++ gap ++ rest)

namespace Grammar

open Reader

variable {cs : List Char} {i : Nat} {c : Cursor}

theorem at_settle (here : Cursor.At cs i c) :
    ∃ j, i ≤ j ∧ Cursor.At cs j (settle c) :=
  ⟨_, Nat.le_add_right .., here.past (Token.splits_run isSeparator c.rest)⟩

theorem joined_statements (i : Nat) (here : Cursor.At cs i c) :
    ∃ j text, Cursor.At cs j (statements c).2 ∧ Row (Node.Lies cs) i j (statements c).1 ∧
      Node.Joined (statements c).1 text ∧ c.rest = text ++ (statements c).2.rest := by
  induction c using statements.induct generalizing i with
  | case1 c none =>
    rw [statements_of_none none]
    exact ⟨i, [], here, .nil (Nat.le_refl i), .nil, rfl⟩
  | case2 c node d found shorter _ _ _ ih =>
    rw [statements_of_some found shorter]
    rw [statement_eq] at found
    obtain ⟨⟨first, e⟩, read, same⟩ := Option.map_eq_some_iff.1 found
    cases same
    obtain ⟨j, there, lies⟩ := covers_expressionNode i c here first e read
    obtain ⟨k, le, behind⟩ := at_settle there
    obtain ⟨l, text, end', row, joined, rest⟩ := ih k behind
    have separators : ∀ x ∈ e.rest.takeWhile isSeparator, isSeparator x = true :=
      fun x mem => List.mem_takeWhile_imp mem
    have split : e.rest = e.rest.takeWhile isSeparator ++ (settle e).rest :=
      List.takeWhile_append_dropWhile.symm
    refine ⟨l, _, end', .cons (Nat.le_refl i) lies (row.lower le), .cons separators joined, ?_⟩
    rw [List.append_assoc, List.append_assoc, ← rest, ← split, lies.written]
    exact here.rest_eq there lies.le
  | case3 c node d found stuck =>
    rw [statements_of_stuck found stuck]
    exact ⟨i, [], here, .nil (Nat.le_refl i), .nil, rfl⟩

end Grammar

namespace Node

open Lies (le_of_row)

variable {cs : List Char} {i j : Nat}

theorem Lies.span? {node : Node} (h : node.Lies cs i j) : node.span? cs = some (i, j) := by
  have written := h.written
  obtain ⟨le, inside, loc, -⟩ := h
  have length := length_slice (i := i) inside
  simp only [Node.span?, loc, Option.bind_eq_bind, Option.bind_some,
    offset?_place (Nat.le_trans le inside), written, length, Nat.add_sub_cancel' le]
  rfl

theorem exists_spans {nodes : List Node} (h : Row (Lies cs) i j nodes) :
    ∃ spans, nodes.mapM (span? cs) = some spans ∧ (∀ s ∈ spans, i ≤ s.1 ∧ s.2 ≤ j) ∧
      spans.Pairwise fun s t => s.2 ≤ t.1 := by
  induction h with
  | nil => exact ⟨[], rfl, by simp, .nil⟩
  | @cons i a b j node nodes front first rest ih =>
    obtain ⟨spans, found, inside, apart⟩ := ih
    refine ⟨(a, b) :: spans, ?_, ?_, ?_⟩
    · rw [List.mapM_cons, first.span?, found]
      rfl
    · have below := le_of_row rest
      refine List.forall_mem_cons.2 ⟨⟨front, below⟩, fun s mem => ⟨?_, (inside s mem).2⟩⟩
      exact Nat.le_trans front (Nat.le_trans first.le (inside s mem).1)
    · exact .cons (fun s mem => (inside s mem).1) apart

theorem exists_lies_of_mem {nodes : List Node} (h : Row (Lies cs) i j nodes) {node : Node}
    (mem : node ∈ nodes) : ∃ a b, node.Lies cs a b := by
  induction h with
  | nil => cases mem
  | cons _ first _ ih =>
    rcases List.mem_cons.1 mem with rfl | mem
    · exact ⟨_, _, first⟩
    · exact ih mem

theorem Lies.within {root node : Node} (h : root.Lies cs i j) (inner : root.Within node) :
    ∃ a b, node.Lies cs a b := by
  induction inner with
  | refl => exact ⟨i, j, h⟩
  | tail _ mem ih =>
    obtain ⟨a, b, lies⟩ := ih
    obtain ⟨_, _, _, row⟩ := lies
    exact exists_lies_of_mem row mem

/-- A source is made of separators and the texts of its statements, every node stands where it says,
and its parts lie inside of it and one behind the other. -/
theorem accounts_for_source {source : String} {root : Node} (h : ofSource source = .ok root) :
    (∃ body loc front rest, root = .root body loc ∧ (∀ c ∈ front, isSeparator c = true) ∧
      Joined body rest ∧ source.toList = front ++ rest) ∧
    ∀ node, root.Within node → ∃ i j spans, node.span? source.toList = some (i, j) ∧
      node.written <+: source.toList.drop i ∧ node.parts.mapM (span? source.toList) = some spans ∧
      (∀ s ∈ spans, i ≤ s.1 ∧ s.2 ≤ j) ∧ spans.Pairwise fun s t => s.2 ≤ t.1 := by
  have whole := ((exists_ofSource_iff source).1 ⟨root, h⟩).1
  rw [eq_root_of_ofSource h]
  have start := Cursor.At.start source.toList
  obtain ⟨k, le, settled⟩ := Grammar.at_settle start
  obtain ⟨j, text, end', row, joined, rest⟩ := Grammar.joined_statements k settled
  have front : ∀ c ∈ source.toList.takeWhile isSeparator, isSeparator c = true :=
    fun c mem => List.mem_takeWhile_imp mem
  have lies : (Node.root (statementsOf source)
      (some ((Cursor.start source.toList).loc (endOf source) "root"))).Lies source.toList 0 j :=
    .of_loc start end' (Nat.zero_le j) rfl (row.lower (Nat.zero_le k))
  constructor
  · refine ⟨_, _, _, text, rfl, front, joined, ?_⟩
    have used : source.toList.dropWhile isSeparator = text :=
      rest.trans ((congrArg (text ++ ·) whole).trans (List.append_nil text))
    rw [← used, List.takeWhile_append_dropWhile]
  · intro node inner
    obtain ⟨a, b, here⟩ := lies.within inner
    obtain ⟨_, _, _, parts⟩ := id here
    obtain ⟨spans, found, inside, apart⟩ := exists_spans parts
    refine ⟨a, b, spans, here.span?, ?_, found, inside, apart⟩
    rw [here.written]
    exact List.take_prefix _ _

def saying : Node :=
  let at? (col : Int) (tag text : String) : Option Loc := some ⟨1, col, tag, .text text⟩
  .invocation (.identifier "say" (at? 3 "identifier" "say"))
    (.value (.literal (.string "é" (at? 7 "string" "'é'")) (at? 7 "literal" "'é'"))
      (at? 7 "value" "'é'")) (at? 3 "invocation" "say 'é'")

/-- A line separator starts no line: it is one more column of the first one. The spans
of the two statements leave the separators out; the call in the first one ends in front of a gap,
and its parts lie inside of it. -/
theorem accounts_for_source_of_separated : ∃ root, ofSource ";\u2028say 'é' \nx is 1" = .ok root ∧
    (∃ body loc front rest, root = .root body loc ∧ (∀ c ∈ front, isSeparator c = true) ∧
      Joined body rest ∧ ";\u2028say 'é' \nx is 1".toList = front ++ rest) ∧
    (∀ node, root.Within node → ∃ i j spans,
      node.span? ";\u2028say 'é' \nx is 1".toList = some (i, j) ∧
      node.written <+: ";\u2028say 'é' \nx is 1".toList.drop i ∧
      node.parts.mapM (span? ";\u2028say 'é' \nx is 1".toList) = some spans ∧
      (∀ s ∈ spans, i ≤ s.1 ∧ s.2 ≤ j) ∧ spans.Pairwise fun s t => s.2 ≤ t.1) ∧
    root.parts.mapM (span? ";\u2028say 'é' \nx is 1".toList) = some [(2, 10), (11, 17)] ∧
    root.Within saying ∧ saying.span? ";\u2028say 'é' \nx is 1".toList = some (2, 9) ∧
    saying.written = "say 'é'".toList ∧
    saying.parts.mapM (span? ";\u2028say 'é' \nx is 1".toList) = some [(2, 5), (6, 9)] := by
  have first : Grammar.statement ⟨1, 3, "say 'é' \nx is 1".toList⟩ = some (.expression saying
      (some ⟨1, 3, "expression", .text "say 'é' "⟩), ⟨2, 1, "x is 1".toList⟩) := rfl
  obtain ⟨node, second, integers, span⟩ : ∃ node, Grammar.statement ⟨2, 1, "x is 1".toList⟩ =
      some (node, ⟨2, 7, []⟩) ∧ node.integers = [1] ∧
      node.span? ";\u2028say 'é' \nx is 1".toList = some (11, 17) := ⟨_, rfl, rfl, rfl⟩
  have last : Grammar.statement ⟨2, 7, []⟩ = none := rfl
  have read := Grammar.statements_of_some first (by decide)
  rw [Grammar.statements_of_some second (by decide), Grammar.statements_of_none last] at read
  have parsed := ofSource_of_statements ";\u2028say 'é' \nx is 1" read rfl
    (by rw [integersOfAll, integersOfAll, integers]; rfl)
  obtain ⟨joined, within⟩ := accounts_for_source parsed
  refine ⟨_, parsed, joined, within, ?_, ?_, by decide, by decide, by decide⟩
  · show List.mapM (span? _) [.expression saying _, node] = _
    rw [List.mapM_cons, List.mapM_cons, span]
    rfl
  · exact .tail (.tail .refl (List.mem_cons_self ..)) (List.mem_cons_self ..)

end Node

end AliasScript

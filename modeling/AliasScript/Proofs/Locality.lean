import AliasScript.Proofs.Tokens
import AliasScript.Syntax.Program

/-!
# Reading within a line

A rule of the grammar reads a line in the same way wherever the line stands in a text
(`Reader.Matches`): it fails or it reads the same node, with all places lowered by the lines above,
and it leaves the same rest of the line. There is one lemma for each way to combine readers and one
for each rule. All but separators are covered: these do cross the end of a line.
-/

namespace AliasScript

open Text

def Loc.lowered (k : Nat) (loc : Loc) : Loc := { loc with line := loc.line + k }

namespace Node

mutual

/-- The node as it is read a number of lines further down. -/
def lowered (k : Nat) : Node → Node
  | .identifier name loc => .identifier name (loc.map (Loc.lowered k))
  | .integer n loc => .integer n (loc.map (Loc.lowered k))
  | .string s loc => .string s (loc.map (Loc.lowered k))
  | .literal inner loc => .literal (inner.lowered k) (loc.map (Loc.lowered k))
  | .scalar inner loc => .scalar (inner.lowered k) (loc.map (Loc.lowered k))
  | .object obj attr loc => .object (obj.lowered k) (attr.lowered k) (loc.map (Loc.lowered k))
  | .variable inner loc => .variable (inner.lowered k) (loc.map (Loc.lowered k))
  | .value inner loc => .value (inner.lowered k) (loc.map (Loc.lowered k))
  | .assignee inner loc => .assignee (inner.lowered k) (loc.map (Loc.lowered k))
  | .valueAssignment aim given loc =>
    .valueAssignment (aim.lowered k) (given.lowered k) (loc.map (Loc.lowered k))
  | .typeAssignment aim type loc =>
    .typeAssignment (aim.lowered k) (type.lowered k) (loc.map (Loc.lowered k))
  | .listOperation keyword loc => .listOperation keyword (loc.map (Loc.lowered k))
  | .listAssignment op item aim loc =>
    .listAssignment (op.lowered k) (item.lowered k) (aim.lowered k) (loc.map (Loc.lowered k))
  | .invocation callee arg loc =>
    .invocation (callee.lowered k) (arg.lowered k) (loc.map (Loc.lowered k))
  | .expression inner loc => .expression (inner.lowered k) (loc.map (Loc.lowered k))
  | .block body loc => .block (allLowered k body) (loc.map (Loc.lowered k))
  | .root body loc => .root (allLowered k body) (loc.map (Loc.lowered k))

def allLowered (k : Nat) : List Node → List Node
  | [] => []
  | node :: nodes => node.lowered k :: allLowered k nodes

end

end Node

/-- The same place of a line that stands further down, with more text behind the line. -/
def Cursor.lowered (k : Nat) (rs : List Char) (c : Cursor) : Cursor :=
  ⟨c.line + k, c.col, c.rest ++ rs⟩

namespace Cursor

variable {k : Nat} {rs : List Char} {c d : Cursor} {cut : Token.Cut}

theorem advance_of_not_mem (line col : Nat) (cs : List Char) (free : '\n' ∉ cs) :
    advance line col cs = (line, col + cs.length) := by
  induction cs generalizing col with
  | nil => rfl
  | cons c cs ih =>
    have free' : c ≠ '\n' ∧ '\n' ∉ cs := by simpa [eq_comm] using free
    rw [advance, step, if_neg free'.1, ih _ free'.2]
    simp only [List.length_cons, Prod.mk.injEq, true_and]
    omega

theorem line_past (free : '\n' ∉ cut.1) : (c.past cut).line = c.line := by
  simp [past, advance_of_not_mem _ _ _ free]

theorem past_lowered (k : Nat) (rs : List Char) (free : '\n' ∉ cut.1) :
    (c.lowered k rs).past (cut.1, cut.2 ++ rs) = (c.past cut).lowered k rs := by
  simp [past, lowered, advance_of_not_mem _ _ _ free]

theorem loc_lowered (le : d.rest.length ≤ c.rest.length) (tag : String) :
    (c.lowered k rs).loc (d.lowered k rs) tag = (c.loc d tag).lowered k := by
  have same : c.rest.length + rs.length - (d.rest.length + rs.length) =
      c.rest.length - d.rest.length := by omega
  have inside : c.rest.length - d.rest.length ≤ c.rest.length := by omega
  simp [loc, lowered, Loc.lowered, upTo, same, List.take_append_of_le_length inside]

end Cursor

namespace Reader

variable {α β γ δ : Type} {k n m : Nat} {S : α → β → Prop} {T : γ → δ → Prop}

/-- What is read at a cursor in a line, and what is read there when the line stands further down:
nothing both times, or things that are related, with the same rest of the line. At least `n`
characters are taken. -/
inductive Same (n k : Nat) (S : α → β → Prop) (rs : List Char) (c : Cursor) :
    Option (α × Cursor) → Option (β × Cursor) → Prop
  | none : Same n k S rs c none none
  | some {a : α} {b : β} {d : Cursor} : S a b → '\n' ∉ d.rest → d.line = c.line →
    d.rest.length + n ≤ c.rest.length →
      Same n k S rs c (some (a, d)) (some (b, d.lowered k rs))

/-- The second reader reads `k` lines further down what the first one reads in a line. -/
def Matches (n k : Nat) (S : α → β → Prop) (read : Reader α) (read' : Reader β) : Prop :=
  ∀ c rs, '\n' ∉ c.rest → LineEnd rs → Same n k S rs c (read c) (read' (c.lowered k rs))

/-! ## Combining readers -/

theorem Matches.mono {read : Reader α} {read' : Reader β} (h : Matches n k S read read')
    (le : m ≤ n) : Matches m k S read read' := by
  intro c rs free ends
  have found := h c rs free ends
  generalize read c = left, read' (c.lowered k rs) = right at found ⊢
  cases found with
  | none => exact .none
  | some related free' line taken => exact .some related free' line (by omega)

theorem matches_bind {read : Reader α} {read' : Reader β} {next : α → Reader γ}
    {next' : β → Reader δ} (first : Matches n k S read read')
    (rest : ∀ a b, S a b → Matches m k T (next a) (next' b)) :
    Matches (n + m) k T (read >>= next) (read' >>= next') := by
  intro c rs free ends
  show Same (n + m) k T rs c ((read c).bind fun p => next p.1 p.2)
    ((read' (c.lowered k rs)).bind fun p => next' p.1 p.2)
  have found := first c rs free ends
  generalize read c = left, read' (c.lowered k rs) = right at found ⊢
  cases found with
  | none => exact .none
  | @some a b d related free' line taken =>
    have then' := rest a b related d rs free' ends
    rw [Option.bind_some, Option.bind_some]
    generalize next a d = left, next' b (d.lowered k rs) = right at then' ⊢
    cases then' with
    | none => exact .none
    | some related' free'' line' taken' =>
      exact .some related' free'' (line'.trans line) (by omega)

theorem matches_pure {a : α} {b : β} (h : S a b) : Matches 0 k S (pure a) (pure b) :=
  fun _ _ free _ => .some h free rfl (by simp)

theorem matches_orElse {left right : Reader α} {left' right' : Reader β}
    (h : Matches n k S left left') (g : Matches n k S right right') :
    Matches n k S (left <|> right) (left' <|> right') := by
  intro c rs free ends
  show Same n k S rs c ((left c).orElse fun _ => right c)
    ((left' (c.lowered k rs)).orElse fun _ => right' (c.lowered k rs))
  have found := h c rs free ends
  generalize left c = first, left' (c.lowered k rs) = first' at found ⊢
  cases found with
  | none => exact g c rs free ends
  | some related free' line taken => exact .some related free' line taken

theorem matches_discard {read : Reader α} {read' : Reader β} (h : Matches n k S read read') :
    Matches n k (fun _ _ => True) (discard read) (discard read') := by
  intro c rs free ends
  show Same n k _ rs c ((read c).bind fun p => some ((), p.2))
    ((read' (c.lowered k rs)).bind fun p => some ((), p.2))
  have found := h c rs free ends
  generalize read c = left, read' (c.lowered k rs) = right at found ⊢
  cases found with
  | none => exact .none
  | some related free' line taken => exact .some trivial free' line taken

theorem not_mem_of_splits {cs : List Char} {cut : Token.Cut} (free : '\n' ∉ cs)
    (splits : Token.Splits cs cut) :
    '\n' ∉ cut.1 ∧ '\n' ∉ cut.2 ∧ cs.length = cut.1.length + cut.2.length := by
  rw [← splits] at free ⊢
  simpa using free

theorem matches_token {take : List Char → Option Token.Cut} (within : Token.WithinLine take) :
    Matches 1 k Eq (token take) (token take) := by
  intro c rs free ends
  have same := within.append free ends
  simp only [token, Cursor.lowered] at same ⊢
  rw [same]
  cases taken : take c.rest with
  | none => exact .none
  | some cut =>
    obtain ⟨free', free'', length⟩ := not_mem_of_splits free (within.splits taken)
    have some := List.length_pos_iff.2 (within.nonempty taken)
    have past := Cursor.past_lowered (c := c) k rs free'
    simp only [Option.map_some, Cursor.lowered] at past ⊢
    rw [past]
    exact .some rfl free'' (Cursor.line_past free') (by simp only [Cursor.past]; omega)

theorem matches_skip {p : Char → Bool} (stops : p '\n' = false) :
    Matches 0 k (fun _ _ => True) (skip p) (skip p) := by
  intro c rs free ends
  obtain ⟨free', free'', length⟩ := not_mem_of_splits free (Token.splits_run p c.rest)
  have past := Cursor.past_lowered (c := c) k rs free'
  rw [← Token.run_append_lineEnd stops ends] at past
  show Same 0 k _ rs c (some ((), c.past (Token.run p c.rest)))
    (some ((), (c.lowered k rs).past (Token.run p (c.rest ++ rs))))
  rw [past]
  exact .some trivial free'' (Cursor.line_past free') (by simp only [Cursor.past]; omega)

/-- The second node is the first one read further down. -/
def Lowers (k : Nat) (node node' : Node) : Prop := node' = node.lowered k

/-- The nodes that are built at a place and further down. -/
def Builds (k : Nat) (build build' : Option Loc → Node) : Prop :=
  ∀ loc, build' (loc.map (Loc.lowered k)) = (build loc).lowered k

theorem matches_located {tag : String} {read read' : Reader (Option Loc → Node)}
    (h : Matches n k (Builds k) read read') :
    Matches n k (Lowers k) (located tag read) (located tag read') := by
  intro c rs free ends
  show Same n k _ rs c ((read c).bind fun p => some (p.1 (some (c.loc p.2 tag)), p.2))
    ((read' (c.lowered k rs)).bind fun p => some (p.1 (some ((c.lowered k rs).loc p.2 tag)), p.2))
  have found := h c rs free ends
  generalize read c = left, read' (c.lowered k rs) = right at found ⊢
  cases found with
  | none => exact .none
  | some builds free' line taken =>
    rw [Option.bind_some, Option.bind_some, Cursor.loc_lowered (by omega)]
    exact .some (builds (some _)) free' line taken

end Reader

/-! ## The rules of the grammar -/

namespace Grammar

open Reader

variable (k : Nat)

theorem matches_gap : Matches 1 k (fun _ _ => True) gap gap :=
  matches_discard (matches_token Token.withinLine_gap?)

theorem matches_word (words : List String)
    (free : ∀ word ∈ words, word ≠ "" ∧ word.toList.any isSeparator = false) :
    Matches 1 k (fun _ _ => True) (word words) (word words) :=
  matches_discard (matches_token (Token.withinLine_oneOf? free))

theorem matches_leaf {tag : String} {take : List Char → Option Token.Cut}
    {build : List Char → Option Loc → Node} (within : Token.WithinLine take)
    (builds : ∀ cs, Builds k (build cs) (build cs)) :
    Matches 1 k (Lowers k) (located tag do return build (← token take))
      (located tag do return build (← token take)) := by
  refine matches_located (matches_bind (m := 0) (matches_token within) fun cs cs' same => ?_)
  subst same
  exact matches_pure (builds cs)

theorem matches_identifierNode : Matches 1 k (Lowers k) identifierNode identifierNode :=
  matches_leaf k Token.withinLine_identifier? fun _ _ => rfl

theorem matches_integerNode : Matches 1 k (Lowers k) integerNode integerNode :=
  matches_leaf k Token.withinLine_integer? fun _ _ => rfl

theorem matches_stringNode : Matches 1 k (Lowers k) stringNode stringNode :=
  matches_leaf k Token.withinLine_string? fun _ _ => rfl

theorem matches_wrapped {tag : String} {read read' : Reader Node} {wrap : Node → Option Loc → Node}
    (h : Matches 1 k (Lowers k) read read')
    (builds : ∀ node, Builds k (wrap node) (wrap (node.lowered k))) :
    Matches 1 k (Lowers k) (located tag do return wrap (← read))
      (located tag do return wrap (← read')) := by
  refine matches_located (matches_bind (m := 0) h fun node node' lowers => ?_)
  rw [lowers]
  exact matches_pure (builds node)

theorem matches_objectNode : Matches 1 k (Lowers k) objectNode objectNode := by
  have read := matches_bind (matches_identifierNode k) fun obj obj' first =>
    matches_bind (matches_gap k) fun _ _ _ =>
      matches_bind (matches_identifierNode k) fun attr attr' second =>
        matches_pure (k := k) (S := Builds k) (a := .object obj attr) (b := .object obj' attr')
          fun loc => by
            rw [first, second]
            rfl
  exact matches_located (read.mono (by decide))

theorem matches_scalarNode : Matches 1 k (Lowers k) scalarNode scalarNode :=
  matches_wrapped k (matches_identifierNode k) fun _ _ => rfl

theorem matches_place : Matches 1 k (Lowers k) (objectNode <|> scalarNode)
    (objectNode <|> scalarNode) :=
  matches_orElse (matches_objectNode k) (matches_scalarNode k)

theorem matches_variableNode : Matches 1 k (Lowers k) variableNode variableNode :=
  matches_wrapped k (matches_place k) fun _ _ => rfl

theorem matches_literalNode : Matches 1 k (Lowers k) literalNode literalNode :=
  matches_wrapped k (matches_orElse (matches_integerNode k) (matches_stringNode k))
    fun _ _ => rfl

theorem matches_valueNode : Matches 1 k (Lowers k) valueNode valueNode :=
  matches_wrapped k (matches_orElse (matches_literalNode k) (matches_variableNode k))
    fun _ _ => rfl

theorem matches_assigneeNode : Matches 1 k (Lowers k) assigneeNode assigneeNode :=
  matches_wrapped k (matches_place k) fun _ _ => rfl

theorem matches_valueAssignmentNode :
    Matches 1 k (Lowers k) valueAssignmentNode valueAssignmentNode := by
  have read := matches_bind (matches_assigneeNode k) fun aim aim' first =>
    matches_bind (matches_gap k) fun _ _ _ =>
      matches_bind (matches_word k ["is"] (by decide)) fun _ _ _ =>
        matches_bind (matches_gap k) fun _ _ _ =>
          matches_bind (matches_valueNode k) fun value value' second =>
            matches_pure (k := k) (S := Builds k) (a := .valueAssignment aim value)
              (b := .valueAssignment aim' value') fun loc => by
                rw [first, second]
                rfl
  exact matches_located (read.mono (by decide))

theorem matches_typeAssignmentNode :
    Matches 1 k (Lowers k) typeAssignmentNode typeAssignmentNode := by
  have read := matches_bind (matches_assigneeNode k) fun aim aim' first =>
    matches_bind (matches_gap k) fun _ _ _ =>
      matches_bind (matches_word k ["is"] (by decide)) fun _ _ _ =>
        matches_bind (matches_gap k) fun _ _ _ =>
          matches_bind (matches_word k ["an", "a"] (by decide)) fun _ _ _ =>
            matches_bind (matches_gap k) fun _ _ _ =>
              matches_bind (matches_identifierNode k) fun type type' second =>
                matches_pure (k := k) (S := Builds k) (a := .typeAssignment aim type)
                  (b := .typeAssignment aim' type') fun loc => by
                    rw [first, second]
                    rfl
  exact matches_located (read.mono (by decide))

theorem matches_listOperationNode :
    Matches 1 k (Lowers k) listOperationNode listOperationNode :=
  matches_leaf k (Token.withinLine_oneOf? (by decide)) fun _ _ => rfl

theorem matches_listAssignmentNode :
    Matches 1 k (Lowers k) listAssignmentNode listAssignmentNode := by
  have read := matches_bind (matches_listOperationNode k) fun op op' first =>
    matches_bind (matches_gap k) fun _ _ _ =>
      matches_bind (matches_valueNode k) fun item item' second =>
        matches_bind (matches_gap k) fun _ _ _ =>
          matches_bind (matches_word k ["to", "from"] (by decide)) fun _ _ _ =>
            matches_bind (matches_gap k) fun _ _ _ =>
              matches_bind (matches_assigneeNode k) fun aim aim' third =>
                matches_pure (k := k) (S := Builds k) (a := .listAssignment op item aim)
                  (b := .listAssignment op' item' aim') fun loc => by
                    rw [first, second, third]
                    rfl
  exact matches_located (read.mono (by decide))

theorem matches_invocationNode : Matches 1 k (Lowers k) invocationNode invocationNode := by
  have read := matches_bind (matches_identifierNode k) fun callee callee' first =>
    matches_bind (matches_gap k) fun _ _ _ =>
      matches_bind (matches_valueNode k) fun arg arg' second =>
        matches_pure (k := k) (S := Builds k) (a := .invocation callee arg)
          (b := .invocation callee' arg') fun loc => by
            rw [first, second]
            rfl
  exact matches_located (read.mono (by decide))

theorem matches_expressionNode : Matches 1 k (Lowers k) expressionNode expressionNode := by
  have inner := matches_orElse (matches_listAssignmentNode k) <|
    matches_orElse (matches_typeAssignmentNode k) <|
      matches_orElse (matches_valueAssignmentNode k) (matches_invocationNode k)
  have blanks : Matches 0 k (fun _ _ => True) (skip isGap) (skip isGap) :=
    matches_skip (by decide)
  have read := matches_bind blanks fun _ _ _ => matches_bind inner fun node node' lowers =>
    matches_bind blanks fun _ _ _ =>
      matches_pure (k := k) (S := Builds k) (a := .expression node) (b := .expression node')
        fun loc => by
          rw [lowers]
          rfl
  exact matches_located (read.mono (by decide))

end Grammar

end AliasScript

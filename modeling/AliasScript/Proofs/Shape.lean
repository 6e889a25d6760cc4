import AliasScript.Eval.Items
import AliasScript.Proofs.Numeral
import AliasScript.Proofs.Scripted

/-!
# The shape of a program tree

The inductive predicates here say which trees the rules of the grammar make, with one constructor
for each choice of a rule, and `isProgram_of_ofSource` that a text is read as no other tree. A
reader is taken apart by `Yields`: every reading of it has a property, whatever the text.
-/

namespace AliasScript

/-- The location of a node with a tag and a source text. -/
def Located (tag text : String) (loc : Option Loc) : Prop :=
  ∃ line col : Nat, loc = some ⟨line, col, tag, .text text⟩

/-- The location of a node with a tag. -/
def Tagged (tag : String) (loc : Option Loc) : Prop := ∃ text, Located tag text loc

namespace Node

inductive IsName : Node → Prop
  | identifier {word : String} {loc : Option Loc} :
    OneWord word → Located "identifier" word loc → IsName (.identifier word loc)

/-- A name, or an attribute of a named object. -/
inductive IsPlace : Node → Prop
  | scalar {name : Node} {loc : Option Loc} :
    name.IsName → Tagged "scalar" loc → IsPlace (.scalar name loc)
  | object {obj attr : Node} {loc : Option Loc} :
    obj.IsName → attr.IsName → Tagged "object" loc → IsPlace (.object obj attr loc)

inductive IsLiteral : Node → Prop
  | integer {n : Int} {text : String} {loc : Option Loc} :
    Text.readNumeral? text = some n → Located "integer" text loc → IsLiteral (.integer n loc)
  | string {text : String} {loc : Option Loc} :
    Located "string" text loc → IsLiteral (.string (String.ofList (unquote text.toList)) loc)

inductive IsValue : Node → Prop
  | literal {inner : Node} {loc loc' : Option Loc} :
    inner.IsLiteral → Tagged "literal" loc → Tagged "value" loc' →
      IsValue (.value (.literal inner loc) loc')
  | reading {inner : Node} {loc loc' : Option Loc} :
    inner.IsPlace → Tagged "variable" loc → Tagged "value" loc' →
      IsValue (.value (.variable inner loc) loc')

inductive IsTarget : Node → Prop
  | assignee {place : Node} {loc : Option Loc} :
    place.IsPlace → Tagged "assignee" loc → IsTarget (.assignee place loc)

inductive IsStatement : Node → Prop
  | valueAssignment {target value : Node} {loc : Option Loc} :
    target.IsTarget → value.IsValue → Tagged "value_assignment" loc →
      IsStatement (.valueAssignment target value loc)
  | typeAssignment {target type : Node} {loc : Option Loc} :
    target.IsTarget → type.IsName → Tagged "type_assignment" loc →
      IsStatement (.typeAssignment target type loc)
  | listAssignment {op : ListOperation} {item target : Node} {loc loc' : Option Loc} :
    item.IsValue → target.IsTarget → Located "list_operation" op.keyword loc →
      Tagged "list_assignment" loc' →
        IsStatement (.listAssignment (.listOperation (.text op.keyword) loc) item target loc')
  | invocation {callee arg : Node} {loc : Option Loc} :
    callee.IsName → arg.IsValue → Tagged "invocation" loc →
      IsStatement (.invocation callee arg loc)

inductive IsExpression : Node → Prop
  | expression {inner : Node} {loc : Option Loc} :
    inner.IsStatement → Tagged "expression" loc → IsExpression (.expression inner loc)

inductive IsProgram : Node → Prop
  | root {body : List Node} {loc : Option Loc} :
    (∀ node ∈ body, node.IsExpression) → Tagged "root" loc → IsProgram (.root body loc)

end Node

/-! ## Readers -/

/-- Whatever the reader reads has the property. -/
def Reader.Yields {α : Type} (read : Reader α) (p : α → Prop) : Prop :=
  ∀ c a d, read c = some (a, d) → p a

namespace Reader

variable {α β : Type} {p : α → Prop} {q : β → Prop}

theorem yields_bind {read : Reader α} {next : α → Reader β} (first : read.Yields p)
    (rest : ∀ a, p a → (next a).Yields q) : (read >>= next).Yields q := by
  intro c b e h
  simp only [bind, StateT.bind] at h
  obtain ⟨⟨a, d⟩, found, h⟩ := Option.bind_eq_some_iff.1 h
  exact rest a (first c a d found) d b e h

theorem yields_pure {a : α} (h : p a) : (pure a : Reader α).Yields p := by
  intro c b d g
  cases g
  exact h

theorem eq_some_of_orElse {left right : Reader α} {c d : Cursor} {a : α}
    (h : (left <|> right) c = some (a, d)) : left c = some (a, d) ∨ right c = some (a, d) := by
  change (left c).orElse (fun _ => right c) = _ at h
  cases first : left c with
  | none =>
    rw [first] at h
    exact .inr h
  | some cut =>
    rw [first] at h
    exact .inl h

theorem yields_orElse {left right : Reader α} (h : left.Yields p) (g : right.Yields p) :
    (left <|> right).Yields p := by
  intro c a d found
  rcases eq_some_of_orElse found with first | second
  · exact h c a d first
  · exact g c a d second

theorem yields_true (read : Reader α) : read.Yields fun _ => True := fun _ _ _ _ => trivial

theorem yields_located {tag : String} {read : Reader (Option Loc → Node)} {p : Node → Prop}
    (h : read.Yields fun build => ∀ loc, Tagged tag loc → p (build loc)) :
    (located tag read).Yields p := by
  intro c node d found
  obtain ⟨⟨build, e⟩, inner, same⟩ := Option.bind_eq_some_iff.1 found
  cases same
  exact h c build _ inner _ ⟨_, c.line, c.col, rfl⟩

theorem yields_leaf {tag : String} {take : List Char → Option Token.Cut}
    {build : List Char → Option Loc → Node} {p : Node → Prop}
    (splits : ∀ {cs cut}, take cs = some cut → Token.Splits cs cut)
    (h : ∀ cs cut loc, take cs = some cut → Located tag (String.ofList cut.1) loc →
      p (build cut.1 loc)) :
    (located tag do return build (← token take)).Yields p := by
  intro c node d found
  obtain ⟨⟨build', e⟩, inner, same⟩ := Option.bind_eq_some_iff.1 found
  cases same
  obtain ⟨⟨cs, e'⟩, took, same⟩ := Option.bind_eq_some_iff.1 inner
  obtain ⟨cut, taken, same'⟩ := Option.map_eq_some_iff.1 took
  cases same'
  cases same
  refine h c.rest cut _ taken ⟨c.line, c.col, ?_⟩
  rw [Cursor.loc, Cursor.upTo_past (splits taken)]

end Reader

/-! ## The rules of the grammar -/

namespace Grammar

open Reader

theorem oneWord_of_identifier? {cs : List Char} {cut : Token.Cut}
    (h : Token.identifier? cs = some cut) : OneWord (String.ofList cut.1) := by
  cases cs with
  | nil => cases h
  | cons c rest =>
    rw [Token.identifier?] at h
    split at h
    · next ok =>
      cases h
      simp only [Bool.and_eq_true] at ok
      rw [OneWord, String.toList_ofList, List.mem_cons, not_or]
      constructor
      · rintro rfl
        exact absurd ok.1 (by decide)
      · intro mem
        exact absurd (List.mem_takeWhile_imp mem) (by decide)
    · cases h

theorem yields_identifierNode : identifierNode.Yields Node.IsName :=
  yields_leaf Token.splits_identifier? fun _ _ _ taken here =>
    .identifier (oneWord_of_identifier? taken) here

theorem yields_objectNode : objectNode.Yields Node.IsPlace :=
  yields_located <| yields_bind yields_identifierNode fun _ obj =>
    yields_bind (yields_true _) fun _ _ => yields_bind yields_identifierNode fun _ attr =>
      yields_pure fun _ here => .object obj attr here

theorem yields_scalarNode : scalarNode.Yields Node.IsPlace :=
  yields_located <| yields_bind yields_identifierNode fun _ name =>
    yields_pure fun _ here => .scalar name here

theorem yields_integerNode : integerNode.Yields Node.IsLiteral :=
  yields_leaf Token.splits_integer? fun _ _ _ taken here =>
    .integer (Token.readNumeral?_of_integer? taken) here

theorem yields_stringNode : stringNode.Yields Node.IsLiteral :=
  yields_leaf Token.splits_string? fun _ cut _ _ here => by
    have literal := Node.IsLiteral.string here
    rwa [String.toList_ofList] at literal

theorem yields_valueNode : valueNode.Yields Node.IsValue := by
  refine yields_located <| yields_bind (p := fun inner => ∀ loc, Tagged "value" loc →
    (Node.value inner loc).IsValue) (yields_orElse ?_ ?_) fun _ value => yields_pure value
  · refine yields_located <| yields_bind (yields_orElse yields_integerNode yields_stringNode)
      fun _ inner => yields_pure fun _ here _ here' => ?_
    exact .literal inner here here'
  · refine yields_located <| yields_bind (yields_orElse yields_objectNode yields_scalarNode)
      fun _ inner => yields_pure fun _ here _ here' => ?_
    exact .reading inner here here'

theorem yields_assigneeNode : assigneeNode.Yields Node.IsTarget :=
  yields_located <| yields_bind (yields_orElse yields_objectNode yields_scalarNode) fun _ place =>
    yields_pure fun _ here => .assignee place here

theorem yields_valueAssignmentNode : valueAssignmentNode.Yields Node.IsStatement :=
  yields_located <| yields_bind yields_assigneeNode fun _ target =>
    yields_bind (yields_true _) fun _ _ => yields_bind (yields_true _) fun _ _ =>
      yields_bind (yields_true _) fun _ _ => yields_bind yields_valueNode fun _ value =>
        yields_pure fun _ here => .valueAssignment target value here

theorem yields_typeAssignmentNode : typeAssignmentNode.Yields Node.IsStatement :=
  yields_located <| yields_bind yields_assigneeNode fun _ target =>
    yields_bind (yields_true _) fun _ _ => yields_bind (yields_true _) fun _ _ =>
      yields_bind (yields_true _) fun _ _ => yields_bind (yields_true _) fun _ _ =>
        yields_bind (yields_true _) fun _ _ => yields_bind yields_identifierNode fun _ type =>
          yields_pure fun _ here => .typeAssignment target type here

theorem yields_listOperationNode : listOperationNode.Yields fun node =>
    ∃ (op : ListOperation) (loc : Option Loc), node = .listOperation (.text op.keyword) loc ∧
      Located "list_operation" op.keyword loc := by
  refine yields_leaf Token.splits_oneOf? fun cs cut loc taken here => ?_
  obtain ⟨word, mem, found⟩ := List.exists_of_findSome?_eq_some taken
  have same : String.ofList cut.1 = word := by
    rw [Token.word?] at found
    split at found
    · cases found
      exact String.ofList_toList
    · cases found
  rw [same] at here ⊢
  rcases List.mem_cons.1 mem with rfl | mem
  · exact ⟨.add, loc, rfl, here⟩
  · rw [List.mem_singleton.1 mem] at here ⊢
    exact ⟨.remove, loc, rfl, here⟩

theorem yields_listAssignmentNode : listAssignmentNode.Yields Node.IsStatement :=
  yields_located <| yields_bind yields_listOperationNode fun _ ⟨_, _, same, keyword⟩ =>
    yields_bind (yields_true _) fun _ _ => yields_bind yields_valueNode fun _ item =>
      yields_bind (yields_true _) fun _ _ => yields_bind (yields_true _) fun _ _ =>
        yields_bind (yields_true _) fun _ _ => yields_bind yields_assigneeNode fun _ target =>
          yields_pure fun _ here => same ▸ .listAssignment item target keyword here

theorem yields_invocationNode : invocationNode.Yields Node.IsStatement :=
  yields_located <| yields_bind yields_identifierNode fun _ callee =>
    yields_bind (yields_true _) fun _ _ => yields_bind yields_valueNode fun _ arg =>
      yields_pure fun _ here => .invocation callee arg here

theorem yields_statement : statement.Yields Node.IsExpression := by
  refine yields_bind (yields_located ?_) fun _ node => yields_bind (yields_true _) fun _ _ =>
    yields_pure node
  refine yields_bind (yields_true _) fun _ _ => yields_bind (p := Node.IsStatement) ?_
    fun _ inner => yields_bind (yields_true _) fun _ _ => yields_pure fun _ here =>
      .expression inner here
  exact yields_orElse yields_listAssignmentNode <| yields_orElse yields_typeAssignmentNode <|
    yields_orElse yields_valueAssignmentNode yields_invocationNode

theorem statements_of_none {c : Cursor} (h : statement c = none) : statements c = ([], c) := by
  rw [statements, h]

theorem statements_of_some {c d : Cursor} {node : Node} (h : statement c = some (node, d))
    (shorter : d.rest.length < c.rest.length) :
    statements c = (node :: (statements d).1, (statements d).2) := by
  rw [statements, h]
  exact if_pos shorter

theorem statements_of_stuck {c d : Cursor} {node : Node} (h : statement c = some (node, d))
    (stuck : ¬ d.rest.length < c.rest.length) : statements c = ([], c) := by
  rw [statements, h]
  exact if_neg stuck

theorem isExpression_of_mem_statements (c : Cursor) :
    ∀ node ∈ (statements c).1, node.IsExpression := by
  induction c using statements.induct with
  | case1 c none =>
    rw [statements_of_none none]
    exact fun _ mem => nomatch mem
  | case2 c node d found shorter _ _ _ ih =>
    intro other mem
    rw [statements_of_some found shorter] at mem
    rcases List.mem_cons.1 mem with rfl | mem
    · exact yields_statement c _ d found
    · exact ih other mem
  | case3 c node d found stuck =>
    rw [statements_of_stuck found stuck]
    exact fun _ mem => nomatch mem

end Grammar

/-- A text is read as a tree of the shape of a program only. -/
theorem Node.isProgram_of_ofSource {source : String} {root : Node}
    (h : ofSource source = .ok root) : root.IsProgram := by
  simp only [ofSource] at h
  split at h
  · split at h
    · cases h
    · cases h
      exact .root (Grammar.isExpression_of_mem_statements _) ⟨_, _, _, rfl⟩
  · cases h

theorem Node.ofSource_of_statements (source : String) {body : List Node} {d : Cursor}
    (read : Grammar.statements ((Cursor.start source.toList).past
      (Token.run Text.isSeparator source.toList)) = (body, d))
    (whole : d.rest = []) (inRange : (integersOfAll body).findSome? rangeError? = none) :
    ofSource source = .ok (.root body (some ((Cursor.start source.toList).loc d "root"))) := by
  have integers : ∀ loc, (Node.root body loc).integers = integersOfAll body := fun loc => by
    rw [Node.integers]
  simp only [ofSource, Cursor.start] at read ⊢
  simp only [read, whole, integers, inRange, List.isEmpty_nil, if_true]

end AliasScript

import AliasScript.Proofs.Caret
import AliasScript.Proofs.ReadBack
import Mathlib.Data.Nat.Digits.Defs

/-!
# The leaves of a program

In a program that has been read every name, text and number is what its source text says, and no name
is a reserved word (`Node.leaves_of_source`).

The rule for names alone does not keep reserved words out: it takes `is` for a name in front of a
letter or digit of another script, where it stands for no whole word. But such a character continues
no name and separates nothing, and no statement begins with it (`Text.Stuck`). So what has been read is
as it should be, or the reader has stopped in front of a character that no program goes on with
(`Reader.Ensures`).
-/

namespace AliasScript

open Text Relation

/-! ## What the text of a leaf says -/

namespace Text

/-- Decimal digits of any script, the last one of which counts ones. -/
def Decimal (k : Nat) (cs : List Char) : Prop :=
  cs ≠ [] ∧ ∃ ds, List.Forall₂ (fun c d => digitValue? c = some d) cs ds ∧
    k = Nat.ofDigits 10 ds.reverse

/-- Decimal digits with or without a minus sign in front. -/
inductive Signed : Int → List Char → Prop
  | plain {k : Nat} {cs : List Char} : Decimal k cs → Signed k cs
  | negative {k : Nat} {cs : List Char} : Decimal k cs → Signed (-k) ('-' :: cs)

theorem ofDigits_eq_ofDigits_reverse (ds : List Nat) : ofDigits ds = Nat.ofDigits 10 ds.reverse := by
  rw [ofDigits, Nat.ofDigits_eq_foldr, List.foldr_reverse]
  congr 1
  funext n d
  exact Nat.add_comm _ _

theorem decimal_of_forall {cs : List Char} (nonempty : cs ≠ [])
    (digits : ∀ c ∈ cs, isDecimalDigit c = true) :
    Decimal (ofDigits (cs.filterMap digitValue?)) cs := by
  refine ⟨nonempty, cs.filterMap digitValue?, ?_, ofDigits_eq_ofDigits_reverse _⟩
  clear nonempty
  induction cs with
  | nil => exact .nil
  | cons c cs ih =>
    obtain ⟨first, others⟩ := List.forall_mem_cons.1 digits
    obtain ⟨d, value⟩ := Option.isSome_iff_exists.1 first
    rw [List.filterMap_cons_some value]
    exact .cons value (ih others)

/-! ## Where reading stops -/

/-- A character stands at the front that is neither a separator nor a part of a name. -/
def Stuck (cs : List Char) : Prop :=
  ∃ c rest, cs = c :: rest ∧ isSeparator c = false ∧ Token.isNamePart c = false

namespace Stuck

variable {cs : List Char} (h : Stuck cs)
include h

theorem ne_nil : cs ≠ [] := by
  obtain ⟨c, rest, rfl, -⟩ := h
  exact List.cons_ne_nil c rest

theorem dropWhile_eq {kind : Char → Bool} (apart : ∀ {c}, isSeparator c = false → kind c = false) :
    cs.dropWhile kind = cs := by
  obtain ⟨c, rest, rfl, stands, -⟩ := h
  exact List.dropWhile_cons_of_neg (by simp [apart stands])

theorem wordless : Wordless cs := by
  obtain ⟨c, rest, rfl, -, outside⟩ := h
  rintro c ⟨⟩
  rw [← Bool.not_eq_true]
  intro start
  exact absurd (isNamePart_of_isNameStart start) (by simp [outside])

theorem gap? : Token.gap? cs = none := by
  obtain ⟨c, rest, rfl, stands, -⟩ := h
  simp [Token.gap?, Token.run, isGap_of_isSeparator stands]

end Stuck

end Text

namespace Token

/-- A plain letter or underscore and plain letters, digits, underscores and hyphens behind it, that
are neither a reserved word nor go on from one with a hyphen. -/
structure IsName (cs : List Char) : Prop where
  letters : ∃ c tail, cs = c :: tail ∧ (c.isAlpha = true ∨ c = '_') ∧
    ∀ d ∈ tail, d.isAlphanum = true ∨ d = '_' ∨ d = '-'
  free : ∀ word ∈ reserved, cs ≠ word.toList ∧ ¬ word.toList ++ ['-'] <+: cs

/-! ## Tokens -/

variable {cs : List Char} {cut : Cut}

theorem shape_of_identifier? (h : identifier? cs = some cut) :
    ∃ c tail, cut.1 = c :: tail ∧ isNameStart c = true ∧ (∀ d ∈ tail, isNamePart d = true) ∧
      ∀ d ∈ cut.2.head?, isNamePart d = false := by
  cases cs with
  | nil => cases h
  | cons c rest =>
    rw [identifier?] at h
    split at h <;> cases h
    next ok =>
    rw [Bool.and_eq_true] at ok
    refine ⟨c, _, rfl, ok.1, fun d mem => List.mem_takeWhile_imp mem, fun d head => ?_⟩
    have stops := List.head?_dropWhile_not isNamePart rest
    rw [Option.mem_def.1 head] at stops
    simpa using stops

/-- A reserved word is taken for a name only in front of a character that no program goes on with. -/
theorem isName_or_stuck (h : identifier? cs = some cut) : IsName cut.1 ∨ Stuck cut.2 := by
  obtain ⟨c, tail, token, start, parts, stops⟩ := shape_of_identifier? h
  have whole := splits_identifier? h
  -- a reserved word at the front is no whole word, so it is continued by a word character
  have continued : ∀ word ∈ reserved, ∀ rest, cs = word.toList ++ rest →
      ∃ d more, rest = d :: more ∧ isWordChar d = true := by
    rintro word mem rest rfl
    have none := oneOf?_reserved_of_identifier? h
    rw [oneOf?, List.findSome?_eq_none_iff] at none
    have no := none word mem
    rw [word?, ← String.length_toList, List.drop_left] at no
    cases rest with
    | nil => simp [atBoundary] at no
    | cons d more => exact ⟨d, more, rfl, by simpa [atBoundary] using no⟩
  by_cases stuck : Stuck cut.2
  · exact .inr stuck
  refine .inl ⟨⟨c, tail, token, ?_, fun d mem => ?_⟩, fun word mem => ⟨fun same => ?_, ?_⟩⟩
  · simpa [isNameStart] using start
  · simpa [isNamePart, or_assoc] using parts d mem
  · obtain ⟨d, more, behind, letter⟩ := continued word mem cut.2 (by rw [← same, whole])
    refine stuck ⟨d, more, behind, ?_, stops d (by rw [behind]; rfl)⟩
    rw [← Bool.not_eq_true]
    intro separator
    exact absurd (isWordChar_of_isSeparator separator) (by simp [letter])
  · rintro ⟨more, same⟩
    obtain ⟨d, more', behind, letter⟩ :=
      continued word mem ('-' :: (more ++ cut.2)) (by rw [← whole, ← same]; simp)
    cases behind
    exact absurd letter (by decide)

example : identifier? "isé".toList = some ("is".toList, "é".toList) := rfl

theorem ofText_of_quoted? {quote : Char} (kind : quote ∈ ['"', '\'']) {rest : List Char}
    (h : quoted? quote rest = some cut) :
    Spelling.OfText (String.ofList (Node.unquote cut.1)) cut.1 := by
  rw [quoted?] at h
  split at h
  · split at h <;> cases h
    have text : Spelling.OfText (String.ofList (rest.takeWhile (isInside quote)))
        (quote :: rest.takeWhile (isInside quote) ++ [quote]) := by
      refine ⟨quote, kind, fun c mem => ?_, by rw [String.toList_ofList]⟩
      rw [String.toList_ofList] at mem
      exact List.mem_takeWhile_imp mem
    rwa [text.unquote, String.ofList_toList]
  · cases h

theorem ofText_of_string? (h : string? cs = some cut) :
    Spelling.OfText (String.ofList (Node.unquote cut.1)) cut.1 := by
  rw [string?.eq_def] at h
  split at h
  · exact ofText_of_quoted? (List.mem_cons_self ..) h
  · exact ofText_of_quoted? (List.mem_cons_of_mem _ (List.mem_cons_self ..)) h
  · cases h

theorem signed_of_integer? (h : integer? cs = some cut) : Signed (integerValue cut.1) cut.1 := by
  rw [integer?.eq_def] at h
  split at h
  · obtain ⟨inner, found, rfl⟩ := Option.map_eq_some_iff.1 h
    obtain ⟨nonempty, digits⟩ := digits_of_digits? found
    exact .negative (decimal_of_forall nonempty digits)
  · obtain ⟨nonempty, digits⟩ := digits_of_digits? h
    obtain ⟨c, rest, same⟩ := List.exists_cons_of_ne_nil nonempty
    have bare : c ≠ '-' := ne_of_isDecimalDigit (digits c (same ▸ List.mem_cons_self ..)) (by decide)
    have value : integerValue cut.1 = ofDigits (cut.1.filterMap digitValue?) := by
      rw [same, integerValue]
      exact fun _ other => bare (List.cons.inj other).1
    rw [value]
    exact .plain (decimal_of_forall nonempty digits)

end Token

/-! ## Trees -/

namespace Node

variable {node : Node}

/-- A leaf holds what its source text says. -/
def Exact (node : Node) : Prop :=
  match node with
  | .identifier name _ => node.written = name.toList ∧ Token.IsName name.toList
  | .string s _ => Spelling.OfText s node.written
  | .integer n _ => Signed n node.written
  | _ => True

/-- All leaves of a tree hold what their source texts say. -/
def ExactThroughout (node : Node) : Prop := ∀ leaf, node.Within leaf → leaf.Exact

theorem ExactThroughout.of_parts (here : node.Exact)
    (parts : ∀ part ∈ node.parts, part.ExactThroughout) : node.ExactThroughout := by
  intro leaf inner
  rcases ReflTransGen.cases_head inner with rfl | ⟨part, mem, inner⟩
  · exact here
  · exact parts part mem leaf inner

theorem ExactThroughout.of_leaf (here : node.Exact) (leaf : node.parts = []) :
    node.ExactThroughout :=
  .of_parts here fun _ mem => nomatch leaf ▸ mem

theorem written_of_located {tag text : String} (located : Located tag text node.loc) :
    node.written = text.toList := by
  obtain ⟨line, col, there⟩ := located
  rw [written, there]

end Node

/-! ## Readers -/

namespace Reader

variable {α β : Type} {p : α → Prop} {q : β → Prop}

/-- What is read has a property, or reading stops where no program goes on. -/
def Ensures (read : Reader α) (p : α → Prop) : Prop :=
  ∀ c a d, read c = some (a, d) → p a ∨ Stuck d.rest

/-- Where no program goes on the reader does not get any further. -/
def StaysStuck (read : Reader α) : Prop :=
  ∀ c a d, Stuck c.rest → read c = some (a, d) → Stuck d.rest

theorem staysStuck_pure (a : α) : (pure a : Reader α).StaysStuck := by
  rintro c _ _ stuck ⟨⟩
  exact stuck

theorem staysStuck_of_fails {read : Reader α} (h : ∀ cs, Stuck cs → read.Fails cs) :
    read.StaysStuck := by
  intro c a d stuck found
  rw [h c.rest stuck c rfl] at found
  cases found

theorem staysStuck_gap {next : Unit → Reader α} : (Grammar.gap >>= next).StaysStuck :=
  staysStuck_of_fails fun _ stuck => fails_bind (fails_discard (fails_token stuck.gap?))

theorem staysStuck_skip {next : Unit → Reader α} (h : (next ()).StaysStuck) :
    (skip isGap >>= next).StaysStuck := by
  intro c a e stuck found
  refine h (c.past (Token.run isGap c.rest)) a e ?_ found
  show Stuck (c.rest.dropWhile isGap)
  rwa [stuck.dropWhile_eq isGap_of_isSeparator]

theorem ensures_pure {a : α} (h : p a) : (pure a : Reader α).Ensures p := by
  rintro c _ _ ⟨⟩
  exact .inl h

theorem ensures_bind {read : Reader α} {next : α → Reader β} (first : read.Ensures p)
    (stays : ∀ a, (next a).StaysStuck) (then' : ∀ a, p a → (next a).Ensures q) :
    (read >>= next).Ensures q := by
  intro c b e found
  obtain ⟨⟨a, d⟩, here, found⟩ := Option.bind_eq_some_iff.1 found
  rcases first c a d here with has | stuck
  · exact then' a has d b e found
  · exact .inr (stays a d b e stuck found)

theorem ensures_skip {read : Reader α} {next : α → Reader β} (then' : ∀ a, (next a).Ensures q) :
    (read >>= next).Ensures q := by
  intro c b e found
  obtain ⟨⟨a, d⟩, -, found⟩ := Option.bind_eq_some_iff.1 found
  exact then' a d b e found

theorem Ensures.orElse {left right : Reader α} (h : left.Ensures p) (g : right.Ensures p) :
    (left <|> right).Ensures p := by
  intro c a d found
  rcases eq_some_of_orElse found with first | second
  · exact h c a d first
  · exact g c a d second

theorem ensures_located {tag : String} {read : Reader (Option Loc → Node)} {p : Node → Prop}
    (h : read.Ensures fun build => ∀ loc, p (build loc)) : (located tag read).Ensures p := by
  intro c node d found
  obtain ⟨⟨build, e⟩, inner, same⟩ := Option.bind_eq_some_iff.1 found
  cases same
  exact (h c build _ inner).imp_left fun has => has _

theorem ensures_leaf {tag : String} {take : List Char → Option Token.Cut}
    {build : List Char → Option Loc → Node}
    (splits : ∀ {cs cut}, take cs = some cut → Token.Splits cs cut)
    (built : ∀ token loc, (build token loc).loc = loc ∧ (build token loc).parts = [])
    (exact : ∀ cs cut, take cs = some cut →
      (∀ loc, (build cut.1 loc).written = cut.1 → (build cut.1 loc).Exact) ∨ Stuck cut.2) :
    (located tag do return build (← token take)).Ensures Node.ExactThroughout := by
  intro c node d found
  obtain ⟨⟨build', e⟩, inner, same⟩ := Option.bind_eq_some_iff.1 found
  cases same
  obtain ⟨⟨cs, e'⟩, took, same⟩ := Option.bind_eq_some_iff.1 inner
  obtain ⟨cut, taken, same'⟩ := Option.map_eq_some_iff.1 took
  cases same'
  cases same
  refine (exact c.rest cut taken).imp_left fun holds => ?_
  obtain ⟨loc, parts⟩ := built cut.1 (some (c.loc (c.past cut) tag))
  refine .of_leaf (holds _ ?_) parts
  have located : Located tag (String.ofList cut.1) (some (c.loc (c.past cut) tag)) :=
    ⟨c.line, c.col, by rw [Cursor.loc, Cursor.upTo_past (splits taken)]⟩
  rw [← loc] at located
  rw [Node.written_of_located located, String.toList_ofList]

theorem ensures_wrapped {tag : String} {read : Reader Node} {wrap : Node → Option Loc → Node}
    (h : read.Ensures Node.ExactThroughout)
    (built : ∀ node loc, (wrap node loc).Exact ∧ (wrap node loc).parts = [node]) :
    (located tag do return wrap (← read)).Ensures Node.ExactThroughout := by
  refine ensures_located <| ensures_bind h (fun _ => staysStuck_pure _) fun node inner =>
    ensures_pure fun loc => .of_parts (built node loc).1 ?_
  rw [(built node loc).2]
  exact List.forall_mem_singleton.2 inner

end Reader

/-! ## The rules of the grammar -/

namespace Grammar

open Reader

theorem ensures_identifierNode : identifierNode.Ensures Node.ExactThroughout := by
  refine ensures_leaf Token.splits_identifier? (fun _ _ => ⟨rfl, rfl⟩) fun cs cut taken => ?_
  refine (Token.isName_or_stuck taken).imp_left fun name loc written => ⟨?_, ?_⟩
  · rw [written, String.toList_ofList]
  · rwa [String.toList_ofList]

theorem ensures_integerNode : integerNode.Ensures Node.ExactThroughout := by
  refine ensures_leaf Token.splits_integer? (fun _ _ => ⟨rfl, rfl⟩) fun cs cut taken => ?_
  refine .inl fun loc written => ?_
  rw [Node.Exact, written]
  exact Token.signed_of_integer? taken

theorem ensures_stringNode : stringNode.Ensures Node.ExactThroughout := by
  refine ensures_leaf Token.splits_string? (fun _ _ => ⟨rfl, rfl⟩) fun cs cut taken => ?_
  refine .inl fun loc written => ?_
  rw [Node.Exact, written]
  exact Token.ofText_of_string? taken

theorem ensures_listOperationNode : listOperationNode.Ensures Node.ExactThroughout :=
  ensures_leaf Token.splits_oneOf? (fun _ _ => ⟨rfl, rfl⟩) fun _ _ _ => .inl fun _ _ => trivial

theorem ensures_place : (objectNode <|> scalarNode).Ensures Node.ExactThroughout := by
  have object : objectNode.Ensures Node.ExactThroughout :=
    ensures_located <| ensures_bind ensures_identifierNode (fun _ => staysStuck_gap) fun _ obj =>
      ensures_skip fun _ => ensures_bind ensures_identifierNode (fun _ => staysStuck_pure _)
        fun _ attr => ensures_pure fun _ => .of_parts trivial <|
          List.forall_mem_cons.2 ⟨obj, List.forall_mem_singleton.2 attr⟩
  exact object.orElse (ensures_wrapped ensures_identifierNode fun _ _ => ⟨trivial, rfl⟩)

theorem ensures_assigneeNode : assigneeNode.Ensures Node.ExactThroughout :=
  ensures_wrapped ensures_place fun _ _ => ⟨trivial, rfl⟩

theorem ensures_valueNode : valueNode.Ensures Node.ExactThroughout := by
  have literal : literalNode.Ensures Node.ExactThroughout :=
    ensures_wrapped (ensures_integerNode.orElse ensures_stringNode) fun _ _ => ⟨trivial, rfl⟩
  have variable' : variableNode.Ensures Node.ExactThroughout :=
    ensures_wrapped ensures_place fun _ _ => ⟨trivial, rfl⟩
  exact ensures_wrapped (literal.orElse variable') fun _ _ => ⟨trivial, rfl⟩

theorem ensures_valueAssignmentNode : valueAssignmentNode.Ensures Node.ExactThroughout :=
  ensures_located <| ensures_bind ensures_assigneeNode (fun _ => staysStuck_gap) fun _ target =>
    ensures_skip fun _ => ensures_skip fun _ => ensures_skip fun _ =>
      ensures_bind ensures_valueNode (fun _ => staysStuck_pure _) fun _ value =>
        ensures_pure fun _ => .of_parts trivial <|
          List.forall_mem_cons.2 ⟨target, List.forall_mem_singleton.2 value⟩

theorem ensures_typeAssignmentNode : typeAssignmentNode.Ensures Node.ExactThroughout :=
  ensures_located <| ensures_bind ensures_assigneeNode (fun _ => staysStuck_gap) fun _ target =>
    ensures_skip fun _ => ensures_skip fun _ => ensures_skip fun _ => ensures_skip fun _ =>
      ensures_skip fun _ => ensures_bind ensures_identifierNode (fun _ => staysStuck_pure _)
        fun _ type => ensures_pure fun _ => .of_parts trivial <|
          List.forall_mem_cons.2 ⟨target, List.forall_mem_singleton.2 type⟩

theorem ensures_listAssignmentNode : listAssignmentNode.Ensures Node.ExactThroughout :=
  ensures_located <| ensures_bind ensures_listOperationNode (fun _ => staysStuck_gap) fun _ op =>
    ensures_skip fun _ => ensures_bind ensures_valueNode (fun _ => staysStuck_gap) fun _ item =>
      ensures_skip fun _ => ensures_skip fun _ => ensures_skip fun _ =>
        ensures_bind ensures_assigneeNode (fun _ => staysStuck_pure _) fun _ target =>
          ensures_pure fun _ => .of_parts trivial <| List.forall_mem_cons.2 ⟨op,
            List.forall_mem_cons.2 ⟨item, List.forall_mem_singleton.2 target⟩⟩

theorem ensures_invocationNode : invocationNode.Ensures Node.ExactThroughout :=
  ensures_located <| ensures_bind ensures_identifierNode (fun _ => staysStuck_gap) fun _ callee =>
    ensures_skip fun _ => ensures_bind ensures_valueNode (fun _ => staysStuck_pure _) fun _ arg =>
      ensures_pure fun _ => .of_parts trivial <|
        List.forall_mem_cons.2 ⟨callee, List.forall_mem_singleton.2 arg⟩

theorem ensures_expressionNode : expressionNode.Ensures Node.ExactThroughout := by
  have statement := ensures_listAssignmentNode.orElse <| ensures_typeAssignmentNode.orElse <|
    ensures_valueAssignmentNode.orElse ensures_invocationNode
  exact ensures_located <| ensures_skip fun _ => ensures_bind statement
    (fun _ => staysStuck_skip (staysStuck_pure _)) fun _ inner => ensures_skip fun _ =>
      ensures_pure fun _ => .of_parts trivial (List.forall_mem_singleton.2 inner)

/-! ## Programs -/

/-- No statement is read where no program goes on. -/
theorem statement_of_stuck {c : Cursor} (stuck : Stuck c.rest) : statement c = none := by
  have wordless : Wordless (c.rest.dropWhile isGap) := by
    rw [stuck.dropWhile_eq isGap_of_isSeparator]
    exact stuck.wordless
  rw [statement_eq, fails_expressionNode wordless c rfl, Option.map_none]

/-- The statements that are read are exact, or something is left that no program goes on with. -/
theorem exact_or_left (c : Cursor) :
    (∀ node ∈ (statements c).1, node.ExactThroughout) ∨ (statements c).2.rest ≠ [] := by
  induction c using statements.induct with
  | case1 c none =>
    rw [statements_of_none none]
    exact .inl fun _ mem => absurd mem List.not_mem_nil
  | case2 c node d found shorter _ _ _ ih =>
    rw [statements_of_some found shorter]
    rw [statement_eq] at found
    obtain ⟨⟨first, e⟩, read, same⟩ := Option.map_eq_some_iff.1 found
    cases same
    rcases ensures_expressionNode c first e read with exact' | stuck
    · exact ih.imp_left fun others => List.forall_mem_cons.2 ⟨exact', others⟩
    · have same : (settle e).rest = e.rest := stuck.dropWhile_eq id
      have stays : Stuck (settle e).rest := same ▸ stuck
      rw [statements_of_none (statement_of_stuck stays)]
      exact .inr stays.ne_nil
  | case3 c node d found stuck =>
    rw [statements_of_stuck found stuck]
    exact .inl fun _ mem => absurd mem List.not_mem_nil

end Grammar

namespace Node

variable {source : String} {root leaf : Node}

/-- The node notes a text, and the text stands in the source where the node stands. -/
def Reads (source : String) (node : Node) (text : List Char) : Prop :=
  node.written = text ∧ ∃ i j, node.span? source.toList = some (i, j) ∧
    slice source.toList i j = text

theorem exact_of_ofSource (h : ofSource source = .ok root) (inner : root.Within leaf)
    (proper : root ≠ leaf) : leaf.Reads source leaf.written ∧ leaf.Exact := by
  have whole := ((exists_ofSource_iff source).1 ⟨root, h⟩).1
  rw [eq_root_of_ofSource h] at inner proper
  obtain rfl | ⟨node, mem, inner⟩ := ReflTransGen.cases_head inner
  · exact absurd rfl proper
  have mem : node ∈ statementsOf source := mem
  constructor
  · obtain ⟨i, j, lies, -⟩ := exists_lies_of_mem_statementsOf mem
    obtain ⟨a, b, here⟩ := lies.within inner
    exact ⟨rfl, a, b, here.span?, here.written.symm⟩
  · rcases Grammar.exact_or_left (Grammar.settle (.start source.toList)) with all | left
    · exact all node mem leaf inner
    · exact absurd whole left

/-- In a program every name is its source text and no reserved word, every text is its source text
without the quotes around it, which it does not hold, and every number is what its digits denote. -/
theorem leaves_of_source (h : ofSource source = .ok root) :
    (∀ name loc, root.Within (.identifier name loc) →
      (identifier name loc).Reads source name.toList ∧ Token.IsName name.toList) ∧
    (∀ s loc, root.Within (.string s loc) → ∃ quote ∈ ['"', '\''],
      (string s loc).Reads source (quote :: s.toList ++ [quote]) ∧
        quote ∉ s.toList ∧ '\n' ∉ s.toList) ∧
    ∀ n loc, root.Within (.integer n loc) →
      ∃ text, (integer n loc).Reads source text ∧ Signed n text := by
  have shape := eq_root_of_ofSource h
  refine ⟨fun name loc inner => ?_, fun s loc inner => ?_, fun n loc inner => ?_⟩
  · obtain ⟨reads, written, free⟩ := exact_of_ofSource h inner (by simp [shape])
    exact ⟨written ▸ reads, free⟩
  · obtain ⟨reads, quote, kind, inside, written⟩ := exact_of_ofSource h inner (by simp [shape])
    have apart : ∀ c ∈ s.toList, c ≠ quote ∧ c ≠ '\n' := by
      simpa [Token.isInside] using inside
    exact ⟨quote, kind, written ▸ reads, fun mem => (apart quote mem).1 rfl,
      fun mem => (apart _ mem).2 rfl⟩
  · obtain ⟨reads, signed⟩ := exact_of_ofSource h inner (by simp [shape])
    exact ⟨_, reads, signed⟩

/-- The names start like reserved words, the text holds a quote of the other kind, and the digit is of
another script. -/
theorem leaves_of_source_of_lookalikes : ∃ root, ofSource "is_a \"it's\"; an1 -٣" = .ok root ∧
    (∃ loc, root.Within (.identifier "is_a" loc) ∧
      (identifier "is_a" loc).Reads "is_a \"it's\"; an1 -٣" "is_a".toList ∧
      Token.IsName "is_a".toList) ∧
    (∃ loc, root.Within (.string "it's" loc) ∧ ∃ quote ∈ ['"', '\''],
      (string "it's" loc).Reads "is_a \"it's\"; an1 -٣" (quote :: "it's".toList ++ [quote]) ∧
        quote ∉ "it's".toList ∧ '\n' ∉ "it's".toList) ∧
    ∃ loc, root.Within (.integer (-3) loc) ∧
      ∃ text, (integer (-3) loc).Reads "is_a \"it's\"; an1 -٣" text ∧ Signed (-3) text := by
  obtain ⟨node, first, integers, ⟨loc, name⟩, ⟨loc', text⟩⟩ : ∃ node,
      Grammar.statement ⟨1, 1, "is_a \"it's\"; an1 -٣".toList⟩ =
        some (node, ⟨1, 14, "an1 -٣".toList⟩) ∧ node.integers = [] ∧
      (∃ loc, node.Within (.identifier "is_a" loc)) ∧ ∃ loc, node.Within (.string "it's" loc) := by
    obtain ⟨a, b, c, d, e, f, first⟩ : ∃ a b c d e f,
        Grammar.statement ⟨1, 1, "is_a \"it's\"; an1 -٣".toList⟩ =
          some (.expression (.invocation (.identifier "is_a" a)
            (.value (.literal (.string "it's" b) c) d) e) f, ⟨1, 14, "an1 -٣".toList⟩) :=
      ⟨_, _, _, _, _, _, rfl⟩
    refine ⟨_, first, rfl, ⟨a, ?_⟩, ⟨b, ?_⟩⟩
    · exact .head (List.mem_singleton_self _) (.single (List.mem_cons_self ..))
    · exact .head (List.mem_singleton_self _) (.head (List.mem_cons_of_mem _ (List.mem_cons_self ..))
        (.head (List.mem_singleton_self _) (.single (List.mem_singleton_self _))))
  obtain ⟨node', second, integers', ⟨loc'', number⟩⟩ : ∃ node,
      Grammar.statement ⟨1, 14, "an1 -٣".toList⟩ = some (node, ⟨1, 20, []⟩) ∧
        node.integers = [-3] ∧ ∃ loc, node.Within (.integer (-3) loc) := by
    obtain ⟨a, b, c, d, e, f, second⟩ : ∃ a b c d e f,
        Grammar.statement ⟨1, 14, "an1 -٣".toList⟩ =
          some (.expression (.invocation (.identifier "an1" a)
            (.value (.literal (.integer (-3) b) c) d) e) f, ⟨1, 20, []⟩) :=
      ⟨_, _, _, _, _, _, rfl⟩
    refine ⟨_, second, rfl, b, ?_⟩
    exact .head (List.mem_singleton_self _) (.head (List.mem_cons_of_mem _ (List.mem_cons_self ..))
      (.head (List.mem_singleton_self _) (.single (List.mem_singleton_self _))))
  have last : Grammar.statement ⟨1, 20, []⟩ = none := rfl
  have read := Grammar.statements_of_some first (by decide)
  rw [Grammar.statements_of_some second (by decide), Grammar.statements_of_none last] at read
  have parsed := ofSource_of_statements "is_a \"it's\"; an1 -٣" read rfl
    (by rw [integersOfAll, integersOfAll, integers, integers']; rfl)
  obtain ⟨names, texts, numbers⟩ := leaves_of_source parsed
  have inFirst {leaf : Node} {rest : List Node} {l : Option Loc} (inner : node.Within leaf) :
      (root (node :: rest) l).Within leaf := .head (List.mem_cons_self ..) inner
  have inSecond {l : Option Loc} : (root [node, node'] l).Within (integer (-3) loc'') :=
    .head (List.mem_cons_of_mem _ (List.mem_cons_self ..)) number
  exact ⟨_, parsed, ⟨loc, inFirst name, names _ _ (inFirst name)⟩,
    ⟨loc', inFirst text, texts _ _ (inFirst text)⟩, loc'', inSecond, numbers _ _ inSecond⟩

end Node

end AliasScript

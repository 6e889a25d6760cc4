import AliasScript.Proofs.Running
import AliasScript.Proofs.Spelling

/-!
# Reading a statement as it was written

The rules of the grammar are tried in an order and never reconsidered, so a statement is read as it
was written only if no rule that is tried before the right one fits. For a text given by its spelling
every rule is therefore said to take something of it (`Reader.Takes`) or to fail on it
(`Reader.Fails`), wherever the text stands. There is one lemma for each way to combine readers and
one for each rule, in the order of the grammar.
-/

namespace AliasScript

open Text

/-! ## What a tree says -/

namespace Node

/-- The node of a term, wherever it stands. -/
inductive Denotes : Term → Node → Prop
  | number {n : Int} {loc loc' loc'' : Option Loc} :
    Denotes (.number n) (.value (.literal (.integer n loc) loc') loc'')
  | text {s : String} {loc loc' loc'' : Option Loc} :
    Denotes (.text s) (.value (.literal (.string s loc) loc') loc'')
  | read {x : Reference} {place : Node} {loc loc' : Option Loc} : place.Places x →
    Denotes (.read x) (.value (.variable place loc) loc')

/-- The node of what a statement changes, wherever it stands. -/
inductive Aims : Reference → Node → Prop
  | assignee {x : Reference} {place : Node} {loc : Option Loc} : place.Places x →
    Aims x (.assignee place loc)

/-- The node of a statement without the blanks around it, wherever it stands. -/
inductive States : Statement → Node → Prop
  | assign {x : Reference} {t : Term} {aim value : Node} {loc : Option Loc} :
    aim.Aims x → value.Denotes t → States (.assign x t) (.valueAssignment aim value loc)
  | make {x : Reference} {type : String} {aim : Node} {loc loc' : Option Loc} :
    aim.Aims x → States (.make x type) (.typeAssignment aim (.identifier type loc) loc')
  | change {op : ListOperation} {t : Term} {x : Reference} {item aim : Node}
      {loc loc' : Option Loc} : item.Denotes t → aim.Aims x →
    States (.change op t x) (.listAssignment (.listOperation (.text op.keyword) loc) item aim loc')
  | call {function : String} {t : Term} {arg : Node} {loc loc' : Option Loc} : arg.Denotes t →
    States (.call function t) (.invocation (.identifier function loc) arg loc')

/-- The node of a statement in a program, wherever it stands. -/
inductive Says : Statement → Node → Prop
  | expression {s : Statement} {inner : Node} {loc : Option Loc} : inner.States s →
    Says s (.expression inner loc)

end Node

/-! ## Readers -/

namespace Reader

variable {α β : Type} {cs mid rest : List Char} {p : α → Prop} {q : β → Prop}

/-- Wherever a text stands, the reader reads something with a property off it and leaves the rest. -/
def Takes (read : Reader α) (cs rest : List Char) (p : α → Prop) : Prop :=
  ∀ c : Cursor, c.rest = cs → ∃ a d, read c = some (a, d) ∧ d.rest = rest ∧ p a

/-- Wherever a text stands, the reader reads nothing off it. -/
def Fails (read : Reader α) (cs : List Char) : Prop := ∀ c : Cursor, c.rest = cs → read c = none

theorem Takes.mono {p' : α → Prop} {read : Reader α} (h : read.Takes cs rest p)
    (weaker : ∀ a, p a → p' a) : read.Takes cs rest p' := by
  intro c here
  obtain ⟨a, d, found, left, has⟩ := h c here
  exact ⟨a, d, found, left, weaker a has⟩

theorem takes_pure {a : α} (h : p a) : (pure a : Reader α).Takes cs cs p :=
  fun c here => ⟨a, c, rfl, here, h⟩

theorem takes_bind {read : Reader α} {next : α → Reader β} (first : read.Takes cs mid p)
    (then' : ∀ a, p a → (next a).Takes mid rest q) : (read >>= next).Takes cs rest q := by
  intro c here
  obtain ⟨a, d, found, left, has⟩ := first c here
  obtain ⟨b, e, found', left', has'⟩ := then' a has d left
  refine ⟨b, e, ?_, left', has'⟩
  show (read c).bind _ = _
  rw [found]
  exact found'

theorem fails_bind {read : Reader α} {next : α → Reader β} (h : read.Fails cs) :
    (read >>= next).Fails cs := by
  intro c here
  show (read c).bind _ = _
  rw [h c here]
  rfl

theorem Takes.fails_bind {read : Reader α} {next : α → Reader β} (first : read.Takes cs mid p)
    (then' : ∀ a, p a → (next a).Fails mid) : (read >>= next).Fails cs := by
  intro c here
  obtain ⟨a, d, found, left, has⟩ := first c here
  show (read c).bind _ = _
  rw [found]
  exact then' a has d left

theorem Takes.orElse {left : Reader α} (h : left.Takes cs rest p) (right : Reader α) :
    (left <|> right).Takes cs rest p := by
  intro c here
  obtain ⟨a, d, found, behind, has⟩ := h c here
  refine ⟨a, d, ?_, behind, has⟩
  show (left c).orElse _ = _
  rw [found]
  rfl

theorem Fails.orElse_takes {left right : Reader α} (h : left.Fails cs)
    (g : right.Takes cs rest p) : (left <|> right).Takes cs rest p := by
  intro c here
  obtain ⟨a, d, found, behind, has⟩ := g c here
  refine ⟨a, d, ?_, behind, has⟩
  show (left c).orElse _ = _
  rw [h c here]
  exact found

theorem Fails.orElse {left right : Reader α} (h : left.Fails cs) (g : right.Fails cs) :
    (left <|> right).Fails cs := by
  intro c here
  show (left c).orElse _ = _
  rw [h c here]
  exact g c here

theorem takes_located {tag : String} {read : Reader (Option Loc → Node)} {p : Node → Prop}
    (h : read.Takes cs rest fun build => ∀ loc, p (build loc)) :
    (located tag read).Takes cs rest p := by
  intro c here
  obtain ⟨build, d, found, left, has⟩ := h c here
  refine ⟨build (some (c.loc d tag)), d, ?_, left, has _⟩
  show (read c).bind _ = _
  rw [found]
  rfl

theorem fails_located {tag : String} {read : Reader (Option Loc → Node)} (h : read.Fails cs) :
    (located tag read).Fails cs := by
  intro c here
  show (read c).bind _ = _
  rw [h c here]
  rfl

theorem takes_token {take : List Char → Option Token.Cut} {taken : List Char}
    (h : take cs = some (taken, rest)) : (token take).Takes cs rest (· = taken) := by
  intro c here
  refine ⟨taken, c.past (taken, rest), ?_, rfl, rfl⟩
  rw [token, here, h]
  rfl

theorem fails_token {take : List Char → Option Token.Cut} (h : take cs = none) :
    (token take).Fails cs := by
  intro c here
  rw [token, here, h]
  rfl

theorem takes_discard {read : Reader α} (h : read.Takes cs rest p) :
    (discard read).Takes cs rest fun _ => True := by
  intro c here
  obtain ⟨a, d, found, left, -⟩ := h c here
  refine ⟨(), d, ?_, left, trivial⟩
  show (read c).bind _ = _
  rw [found]
  rfl

theorem fails_discard {read : Reader α} (h : read.Fails cs) : (discard read).Fails cs := by
  intro c here
  show (read c).bind _ = _
  rw [h c here]
  rfl

theorem takes_skip (kind : Char → Bool) (cs : List Char) :
    (skip kind).Takes cs (cs.dropWhile kind) fun _ => True := by
  rintro c rfl
  exact ⟨(), _, rfl, rfl, trivial⟩

theorem takes_leaf {tag : String} {take : List Char → Option Token.Cut}
    {build : List Char → Option Loc → Node} {taken : List Char} {p : Node → Prop}
    (h : take cs = some (taken, rest)) (built : ∀ loc, p (build taken loc)) :
    (located tag do return build (← token take)).Takes cs rest p := by
  refine takes_located (takes_bind (takes_token h) fun a same => takes_pure ?_)
  rw [same]
  exact built

theorem fails_leaf {tag : String} {take : List Char → Option Token.Cut}
    {build : List Char → Option Loc → Node} (h : take cs = none) :
    (located tag do return build (← token take)).Fails cs :=
  fails_located (fails_bind (fails_token h))

theorem takes_wrapped {tag : String} {read : Reader Node} {wrap : Node → Option Loc → Node}
    {p q : Node → Prop} (h : read.Takes cs rest p) (built : ∀ a, p a → ∀ loc, q (wrap a loc)) :
    (located tag do return wrap (← read)).Takes cs rest q :=
  takes_located (takes_bind h fun a has => takes_pure (built a has))

theorem fails_wrapped {tag : String} {read : Reader Node} {wrap : Node → Option Loc → Node}
    (h : read.Fails cs) : (located tag do return wrap (← read)).Fails cs :=
  fails_located (fails_bind h)

end Reader

namespace Grammar

open Reader Spelling

variable {α : Type} {cs rest space : List Char}

/-! ## Gaps and words -/

theorem dropWhile_isGap (h : Gap space) (begun : Begun rest) :
    (space ++ rest).dropWhile isGap = rest := by
  rw [List.dropWhile_append_of_pos h.2]
  obtain ⟨c, tail, rfl, stands⟩ := begun
  exact List.dropWhile_cons_of_neg (by simp [isGap_of_isSeparator stands])

theorem takes_gap (h : Gap space) (begun : Begun rest) :
    gap.Takes (space ++ rest) rest fun _ => True := by
  have taken : (space ++ rest).takeWhile isGap = space := by
    have whole := List.takeWhile_append_dropWhile (p := isGap) (l := space ++ rest)
    rw [dropWhile_isGap h begun] at whole
    exact List.append_cancel_right whole
  suffices h : Token.gap? (space ++ rest) = some (space, rest) from takes_discard (takes_token h)
  obtain ⟨c, tail, rfl⟩ := List.exists_cons_of_ne_nil h.1
  rw [Token.gap?, Token.run, taken, dropWhile_isGap h begun]

theorem fails_gap {next : Unit → Reader α} (h : (next ()).Fails (rest.dropWhile isGap)) :
    (gap >>= next).Fails rest := by
  cases space : Token.gap? rest with
  | none => exact fails_bind (fails_discard (fails_token space))
  | some cut =>
    have left : cut.2 = rest.dropWhile isGap := by
      rw [Token.gap?] at space
      split at space
      · cases space
      · cases space
        rfl
    have taken : gap.Takes rest cut.2 fun _ => True := takes_discard (takes_token space)
    refine taken.fails_bind fun _ _ => ?_
    rw [left]
    exact h

theorem takes_word {words : List String} {w : String} (rule : words ∈ choices) (mem : w ∈ words)
    (clear : Clear rest) : (word words).Takes (w.toList ++ rest) rest fun _ => True :=
  takes_discard (takes_token (oneOf?_word rule mem clear))

theorem fails_word {words : List String} (rule : words ∈ choices)
    (h : Token.oneOf? Token.reserved cs = none) : (word words).Fails cs :=
  fails_discard (fails_token (Token.oneOf?_eq_none_of_subset (subset_reserved rule) h))

/-! ## Names and places -/

theorem takes_identifierNode {n : String} (h : OfName n cs) (clear : Clear rest) :
    identifierNode.Takes (cs ++ rest) rest fun node => ∃ loc, node = .identifier n loc := by
  refine takes_leaf (h.identifier? clear) fun loc => ⟨loc, ?_⟩
  rw [← h.1, String.ofList_toList]

/-- What follows a place: it ends there, and no second name stands behind a gap. -/
def Stops (rest : List Char) : Prop :=
  Clear rest ∧ Token.identifier? (rest.dropWhile isGap) = none

theorem takes_objectNode {obj attr : String} {ds : List Char} (first : OfName obj cs)
    (between : Gap space) (second : OfName attr ds) (clear : Clear rest) :
    objectNode.Takes (cs ++ (space ++ (ds ++ rest))) rest (Node.Places (.path obj attr)) := by
  refine takes_located <| takes_bind (takes_identifierNode first (between.clear _)) ?_
  rintro _ ⟨loc, rfl⟩
  refine takes_bind (takes_gap between (second.begun.append _)) fun _ _ => ?_
  refine takes_bind (takes_identifierNode second clear) ?_
  rintro _ ⟨loc', rfl⟩
  exact takes_pure fun _ => .path

theorem takes_place {x : Reference} (h : OfPlace x cs) (stops : Stops rest) :
    (objectNode <|> scalarNode).Takes (cs ++ rest) rest (Node.Places x) := by
  cases h with
  | name n =>
    have object : objectNode.Fails (cs ++ rest) :=
      fails_located <| (takes_identifierNode n stops.1).fails_bind fun _ _ =>
        fails_gap (fails_bind (fails_leaf stops.2))
    refine object.orElse_takes (takes_wrapped (takes_identifierNode n stops.1) ?_)
    rintro _ ⟨loc, rfl⟩ loc'
    exact .name
  | path first between second =>
    simp only [List.append_assoc]
    exact (takes_objectNode first between second stops.1).orElse _

theorem takes_assigneeNode {x : Reference} (h : OfPlace x cs) (stops : Stops rest) :
    assigneeNode.Takes (cs ++ rest) rest (Node.Aims x) :=
  takes_wrapped (takes_place h stops) fun _ place _ => .assignee place

/-! ## Values -/

theorem takes_valueNode {t : Term} (h : OfTerm t cs) (stops : Stops rest) :
    valueNode.Takes (cs ++ rest) rest (Node.Denotes t) := by
  suffices inner : (literalNode <|> variableNode).Takes (cs ++ rest) rest fun node =>
      ∀ loc, (Node.value node loc).Denotes t from takes_wrapped inner fun _ denotes => denotes
  cases h with
  | @number n _ _ _ number =>
    have leaf : integerNode.Takes (cs ++ rest) rest fun node =>
        ∀ loc loc', (Node.value (.literal node loc) loc').Denotes (.number n) := by
      refine takes_leaf (number.integer? stops.1) fun _ _ _ => ?_
      rw [number.integerValue]
      exact .number
    exact Takes.orElse (takes_wrapped (leaf.orElse _) fun _ denotes => denotes) _
  | @text s _ text =>
    have no : integerNode.Fails (cs ++ rest) := fails_leaf (text.integer? rest)
    have leaf : stringNode.Takes (cs ++ rest) rest fun node =>
        ∀ loc loc', (Node.value (.literal node loc) loc').Denotes (.text s) := by
      refine takes_leaf (text.string? rest) fun _ _ _ => ?_
      rw [text.unquote, String.ofList_toList]
      exact .text
    exact Takes.orElse (takes_wrapped (no.orElse_takes leaf) fun _ denotes => denotes) _
  | read place =>
    obtain ⟨integer, string⟩ := place.no_literal rest
    have no : literalNode.Fails (cs ++ rest) :=
      fails_wrapped ((fails_leaf integer).orElse (fails_leaf string))
    exact no.orElse_takes (takes_wrapped (takes_place place stops) fun _ places _ _ =>
      .read places)

/-! ## Statements -/

/-- What follows a statement: behind spaces and tabs there is nothing or another separator. -/
def Closed (rest : List Char) : Prop := Clear (rest.dropWhile isGap)

theorem Closed.stops (closed : Closed rest) : Stops rest := by
  refine ⟨fun c head => ?_, Token.identifier?_of_wordless closed.wordless⟩
  cases gap : isGap c with
  | true => exact isSeparator_of_isGap gap
  | false =>
    refine closed c ?_
    obtain ⟨tail, rfl⟩ := List.head?_eq_some_iff.1 head
    simp [gap]

theorem stops_of_word {words : List String} {w : String} (rule : words ∈ choices) (mem : w ∈ words)
    (h : Gap space) (clear : Clear rest) : Stops (space ++ (w.toList ++ rest)) := by
  refine ⟨h.clear _, ?_⟩
  rw [dropWhile_isGap h ((begun_word rule mem).append _)]
  exact identifier?_word rule mem clear

theorem fails_listAssignmentNode (h : Token.oneOf? Token.reserved cs = none) :
    listAssignmentNode.Fails cs :=
  fails_located <| fails_bind <| fails_leaf <| Token.oneOf?_eq_none_of_subset (by decide) h

/-- A text is no assignment if a place can be read at its front and no `is` behind it. -/
theorem fails_assignments {mid : List Char} (aim : assigneeNode.Takes cs mid fun _ => True)
    (h : Token.oneOf? Token.reserved (mid.dropWhile isGap) = none) :
    typeAssignmentNode.Fails cs ∧ valueAssignmentNode.Fails cs := by
  have no : (word ["is"]).Fails (mid.dropWhile isGap) := fails_word (by decide) h
  exact ⟨fails_located <| aim.fails_bind fun _ _ => fails_gap (fails_bind no),
    fails_located <| aim.fails_bind fun _ _ => fails_gap (fails_bind no)⟩

theorem fails_assignments_of_call {f : String} {t : Term} {arg : List Char} (name : OfName f cs)
    (between : Gap space) (h : OfTerm t arg) (closed : Closed rest) :
    typeAssignmentNode.Fails (cs ++ (space ++ (arg ++ rest))) ∧
      valueAssignmentNode.Fails (cs ++ (space ++ (arg ++ rest))) := by
  have begun : Begun (arg ++ rest) := h.begun.append rest
  have ofLiteral : Wordless (arg ++ rest) → typeAssignmentNode.Fails (cs ++ (space ++ (arg ++ rest))) ∧
      valueAssignmentNode.Fails (cs ++ (space ++ (arg ++ rest))) := by
    intro wordless
    have stops : Stops (space ++ (arg ++ rest)) := by
      refine ⟨between.clear _, ?_⟩
      rw [dropWhile_isGap between begun]
      exact Token.identifier?_of_wordless wordless
    refine fails_assignments ((takes_assigneeNode (.name name) stops).mono fun _ _ => trivial) ?_
    rw [dropWhile_isGap between begun]
    exact Token.oneOf?_reserved_of_wordless wordless
  have ofName : ∀ {n : String} {ds more : List Char}, OfName n ds → Clear more →
      assigneeNode.Takes (cs ++ (space ++ (ds ++ more))) more fun _ => True := fun second clear =>
    takes_wrapped ((takes_objectNode name between second clear).orElse _) fun _ _ _ => trivial
  cases h with
  | number _ _ number => exact ofLiteral (number.wordless rest)
  | text text => exact ofLiteral (text.wordless rest)
  | read place =>
    cases place with
    | name second =>
      exact fails_assignments (ofName second closed.stops.1)
        (Token.oneOf?_reserved_of_wordless closed.wordless)
    | path second between' third =>
      simp only [List.append_assoc]
      refine fails_assignments (ofName second (between'.clear _)) ?_
      rw [dropWhile_isGap between' (third.begun.append rest)]
      exact third.oneOf? closed.stops.1

section

variable {x : Reference} {aim more space' : List Char} (place : OfPlace x aim) (gap : Gap space)
  (gap' : Gap space') (begun : Begun more)
include place gap gap' begun

theorem takes_is {next : Node → Reader α} {p : α → Prop}
    (then' : ∀ node, node.Aims x → (next node).Takes more rest p) :
    (assigneeNode >>= fun node => Grammar.gap >>= fun _ => word ["is"] >>= fun _ =>
      Grammar.gap >>= fun _ => next node).Takes
        (aim ++ (space ++ ("is".toList ++ (space' ++ more)))) rest p := by
  have stops : Stops (space ++ ("is".toList ++ (space' ++ more))) :=
    stops_of_word (by decide) (List.mem_singleton_self _) gap (gap'.clear _)
  refine takes_bind (takes_assigneeNode place stops) fun node aims => ?_
  refine takes_bind (takes_gap gap ((begun_word (by decide) (List.mem_singleton_self _)).append _))
    fun _ _ => ?_
  refine takes_bind (takes_word (by decide) (List.mem_singleton_self _) (gap'.clear _)) fun _ _ => ?_
  exact takes_bind (takes_gap gap' begun) fun _ _ => then' node aims

theorem fails_typeAssignmentNode (noArticle : Token.oneOf? Token.reserved more = none) :
    typeAssignmentNode.Fails (aim ++ (space ++ ("is".toList ++ (space' ++ more)))) := by
  have stops : Stops (space ++ ("is".toList ++ (space' ++ more))) :=
    stops_of_word (by decide) (List.mem_singleton_self _) gap (gap'.clear _)
  refine fails_located <| (takes_assigneeNode place stops).fails_bind fun _ _ => ?_
  refine (takes_gap gap ((begun_word (by decide) (List.mem_singleton_self _)).append _)).fails_bind
    fun _ _ => ?_
  refine (takes_word (by decide) (List.mem_singleton_self _) (gap'.clear _)).fails_bind fun _ _ => ?_
  exact (takes_gap gap' begun).fails_bind fun _ _ => fails_bind (fails_word (by decide) noArticle)

end

/-- The rules in front of the right one fail on a statement, and that one reads it. -/
theorem takes_statement {s : Statement} (h : OfStatement s cs) (closed : Closed rest) :
    (listAssignmentNode <|> typeAssignmentNode <|> valueAssignmentNode <|> invocationNode).Takes
      (cs ++ rest) rest (Node.States s) := by
  have stops := closed.stops
  cases h with
  | assign place term gap gap' =>
    simp only [List.append_assoc]
    have begun := term.begun.append rest
    have noType := fails_typeAssignmentNode place gap gap' begun (term.oneOf? stops.1)
    refine (fails_listAssignmentNode (place.oneOf? (gap.clear _))).orElse_takes ?_
    refine noType.orElse_takes (Takes.orElse (takes_located ?_) _)
    exact takes_is place gap gap' begun fun _ aims =>
      takes_bind (takes_valueNode term stops) fun _ denotes => takes_pure fun _ => .assign aims denotes
  | make place kind type gap gap' gap'' =>
    simp only [List.append_assoc]
    refine (fails_listAssignmentNode (place.oneOf? (gap.clear _))).orElse_takes ?_
    refine Takes.orElse (takes_located ?_) _
    refine takes_is place gap gap' ((begun_word (by decide) kind).append _) fun _ aims => ?_
    refine takes_bind (takes_word (by decide) kind (gap''.clear _)) fun _ _ => ?_
    refine takes_bind (takes_gap gap'' (type.begun.append rest)) fun _ _ => ?_
    refine takes_bind (takes_identifierNode type stops.1) ?_
    rintro _ ⟨loc, rfl⟩
    exact takes_pure fun _ => .make aims
  | @change op t x preposition item aim space space' space'' term kind place gap gap' gap'' =>
    simp only [List.append_assoc]
    have keyword := oneOf?_word (by decide) (keyword_mem op) (gap.clear (item ++ (space' ++
      (preposition.toList ++ (space'' ++ (aim ++ rest))))))
    have operation : listOperationNode.Takes _ _ fun node =>
        ∃ loc, node = .listOperation (.text op.keyword) loc :=
      takes_leaf keyword fun loc => ⟨loc, by rw [String.ofList_toList]⟩
    have behind : Stops (space' ++ (preposition.toList ++ (space'' ++ (aim ++ rest)))) :=
      stops_of_word (by decide) kind gap' (gap''.clear _)
    refine Takes.orElse (takes_located <| takes_bind operation ?_) _
    rintro _ ⟨loc, rfl⟩
    refine takes_bind (takes_gap gap (term.begun.append _)) fun _ _ => ?_
    refine takes_bind (takes_valueNode term behind) fun _ denotes => ?_
    refine takes_bind (takes_gap gap' ((begun_word (by decide) kind).append _)) fun _ _ => ?_
    refine takes_bind (takes_word (by decide) kind (gap''.clear _)) fun _ _ => ?_
    refine takes_bind (takes_gap gap'' (place.begun.append rest)) fun _ _ => ?_
    exact takes_bind (takes_assigneeNode place stops) fun _ aims =>
      takes_pure fun _ => .change denotes aims
  | call name term gap =>
    simp only [List.append_assoc]
    obtain ⟨noType, noValue⟩ := fails_assignments_of_call name gap term closed
    refine (fails_listAssignmentNode (name.oneOf? (gap.clear _))).orElse_takes ?_
    refine noType.orElse_takes (noValue.orElse_takes (takes_located ?_))
    refine takes_bind (takes_identifierNode name (gap.clear _)) ?_
    rintro _ ⟨loc, rfl⟩
    exact takes_bind (takes_gap gap (term.begun.append rest)) fun _ _ =>
      takes_bind (takes_valueNode term stops) fun _ denotes => takes_pure fun _ => .call denotes

theorem takes_expressionNode {s : Statement} (h : OfStatement s cs) (closed : Closed rest) :
    expressionNode.Takes (cs ++ rest) (rest.dropWhile isGap) (Node.Says s) := by
  have front : (cs ++ rest).dropWhile isGap = cs ++ rest := by
    obtain ⟨c, tail, same, stands⟩ := h.begun.append rest
    rw [same]
    exact List.dropWhile_cons_of_neg (by simp [isGap_of_isSeparator stands])
  have skipped := takes_skip isGap (cs ++ rest)
  rw [front] at skipped
  refine takes_located <| takes_bind skipped fun _ _ => ?_
  refine takes_bind (takes_statement h closed) fun _ states => ?_
  exact takes_bind (takes_skip isGap rest) fun _ _ => takes_pure fun _ => .expression states

end Grammar

end AliasScript

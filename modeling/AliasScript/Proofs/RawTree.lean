import AliasScript.Proofs.Shape
import AliasScript.Syntax.FromRaw

/-!
# The raw tree of a program

The raw tree that the grammar makes of a text: an object for each node, with its tag, its source
text, its place and its children, and for a list operation the node of its keyword (`Node.raw`).
Such a tree is read without a misfit, and reading it gives the program tree back (`ofRaw_raw`). Each
node is read by the form that its tag asks for (`HasForm.ofRawWithin_eq`).
-/

namespace AliasScript

namespace Node

/-! ## Reading by form -/

/-- A value is a node of a form. -/
structure HasForm (raw : Raw) (tag : String) (form : Form) : Prop where
  tagged : raw.field "tag" = .text tag
  known : form? tag = some form

/-- Reads a value as a node of a form. -/
def Form.read (limit : Option Nat) (tag : String) (raw : Raw) : Form → Except Misfit Node
  | .sequence build => do
    return build (← (← children raw).mapM (ofRawWithin limit)) (rawLoc tag raw)
  | .one build => do
    match ← children raw with
    | [a] => return build (← ofRawWithin limit a) (rawLoc tag raw)
    | cs => .error (.wrongCount tag 1 cs.length)
  | .two build => do
    match ← children raw with
    | [a, b] => return build (← ofRawWithin limit a) (← ofRawWithin limit b) (rawLoc tag raw)
    | cs => .error (.wrongCount tag 2 cs.length)
  | .three build => do
    match ← children raw with
    | [a, b, c] =>
      return build (← ofRawWithin limit a) (← ofRawWithin limit b) (← ofRawWithin limit c)
        (rawLoc tag raw)
    | cs => .error (.wrongCount tag 3 cs.length)
  | .keyword => (operationKeyword raw).map (.listOperation · (rawLoc tag raw))
  | .integer => (integerValue limit raw).map (.integer · (rawLoc tag raw))
  | .string => (sourceText raw).map fun text =>
    .string (String.ofList (unquote text.toList)) (rawLoc tag raw)
  | .identifier => (sourceText raw).map (.identifier · (rawLoc tag raw))

section

variable {raw : Raw} {tag : String} {form : Form} (h : HasForm raw tag form)
include h

theorem HasForm.bare : wrapped? raw = none := by
  rw [wrapped?]
  split
  · rfl
  · next none =>
    have tagged := h.tagged
    rw [Raw.field, none] at tagged
    cases tagged

theorem HasForm.formed : formOf raw = .ok (tag, form) := by
  cases raw with
  | object fields => simp only [formOf, h.tagged, h.known]
  | _ => cases h.tagged

/-- Reading a node is reading it by its form. -/
theorem HasForm.ofRawWithin_eq {limit : Option Nat} :
    ofRawWithin limit raw = form.read limit tag raw := by
  rw [ofRawWithin.eq_def]
  split
  · next found => cases h.bare.symm.trans found
  rw [h.formed]
  simp only [bind, Except.bind]
  cases form <;> simp only [Form.read, bind, Except.bind]
  case sequence =>
    split
    · next failed => rw [failed]
    · next found =>
      rw [found, List.mapM_subtype (g := ofRawWithin limit) fun _ _ => rfl,
        List.unattach_attach]
  case keyword => cases operationKeyword raw <;> rfl
  case integer => cases integerValue limit raw <;> rfl
  case string | identifier => cases sourceText raw <;> rfl
  all_goals
    split
    · next failed => rw [failed]
    · next found => rw [found]
    · next other found =>
      rw [found]
      dsimp only
      split
      · simp at other
      · rfl

end

/-! ## The raw tree of a node -/

def rawNode (tag : Raw) (loc : Option Loc) (children : List Raw) (more : List (String × Raw)) :
    Raw :=
  .object ([("tag", tag), ("text", (loc.map Loc.text).getD .null),
    ("line", (loc.map fun l => .int l.line).getD .null),
    ("col", (loc.map fun l => .int l.col).getD .null), ("children", .array children)] ++ more)

mutual

def raw : Node → Raw
  | .identifier _ loc => rawNode (.text "identifier") loc [] []
  | .integer n loc => rawNode (.text "integer") loc [] [("value", .int n)]
  | .string _ loc => rawNode (.text "string") loc [] []
  | .literal inner loc => rawNode (.text "literal") loc [inner.raw] []
  | .scalar name loc => rawNode (.text "scalar") loc [name.raw] []
  | .object obj attr loc => rawNode (.text "object") loc [obj.raw, attr.raw] []
  | .variable inner loc => rawNode (.text "variable") loc [inner.raw] []
  | .value inner loc => rawNode (.text "value") loc [inner.raw] []
  | .assignee inner loc => rawNode (.text "assignee") loc [inner.raw] []
  | .valueAssignment target source loc =>
    rawNode (.text "value_assignment") loc [target.raw, source.raw] []
  | .typeAssignment target type loc =>
    rawNode (.text "type_assignment") loc [target.raw, type.raw] []
  | .listOperation keyword loc =>
    rawNode (.text "list_operation") loc [rawNode keyword loc [] []] []
  | .listAssignment operation item target loc =>
    rawNode (.text "list_assignment") loc [operation.raw, item.raw, target.raw] []
  | .invocation callee arg loc => rawNode (.text "invocation") loc [callee.raw, arg.raw] []
  | .expression inner loc => rawNode (.text "expression") loc [inner.raw] []
  | .block body loc => rawNode (.text "block") loc (rawAll body) []
  | .root body loc => rawNode (.text "root") loc (rawAll body) []

def rawAll : List Node → List Raw
  | [] => []
  | node :: nodes => node.raw :: rawAll nodes

end

/-! ## Reading one node -/

section

variable {limit : Option Nat} {tag text : String} {loc : Option Loc} {cs : List Raw}
  {more : List (String × Raw)}

theorem hasForm_rawNode {form : Form} (known : form? tag = some form) :
    HasForm (rawNode (.text tag) loc cs more) tag form := ⟨rfl, known⟩

theorem rawLoc_rawNode (here : Located tag text loc) :
    rawLoc tag (rawNode (.text tag) loc cs more) = loc := by
  obtain ⟨line, col, rfl⟩ := here
  rfl

theorem isNull_raw (node : Node) : isNull node.raw = false := by
  cases node <;> rfl

theorem children_rawNode (tag : String) (loc : Option Loc) (more : List (String × Raw))
    (some : ∀ c ∈ cs, isNull c = false) : children (rawNode (.text tag) loc cs more) = .ok cs := by
  show Except.ok (cs.filter (!isNull ·)) = _
  rw [List.filter_eq_self.2 fun c mem => by rw [some c mem]; rfl]

theorem sourceText_rawNode (here : Located tag text loc) :
    sourceText (rawNode (.text tag) loc cs more) = .ok text := by
  obtain ⟨line, col, rfl⟩ := here
  rfl

theorem isNull_of_mem_rawAll (nodes : List Node) : ∀ c ∈ rawAll nodes, isNull c = false := by
  induction nodes with
  | nil => exact fun _ mem => nomatch mem
  | cons node rest ih =>
    intro c mem
    rw [rawAll] at mem
    rcases List.mem_cons.1 mem with rfl | mem
    · exact isNull_raw node
    · exact ih c mem

theorem mapM_rawAll {nodes : List Node}
    (inner : ∀ node ∈ nodes, ofRawWithin limit node.raw = .ok node) :
    (rawAll nodes).mapM (ofRawWithin limit) = .ok nodes := by
  induction nodes with
  | nil => rfl
  | cons node rest ih =>
    rw [rawAll, List.mapM_cons, inner node (List.mem_cons_self ..),
      ih fun other mem => inner other (List.mem_cons_of_mem _ mem)]
    rfl

/-- The node of a form with these children, if that is how many it takes. -/
def Form.node? (form : Form) (children : List Node) (loc : Option Loc) : Option Node :=
  match form, children with
  | .sequence build, nodes => some (build nodes loc)
  | .one build, [a] => some (build a loc)
  | .two build, [a, b] => some (build a b loc)
  | .three build, [a, b, c] => some (build a b c loc)
  | _, _ => none

theorem read_rawNode {form : Form} {nodes : List Node} {node : Node}
    (known : form? tag = some form) (whole : form.node? nodes loc = some node)
    (inner : ∀ child ∈ nodes, ofRawWithin limit child.raw = .ok child) (here : Tagged tag loc) :
    ofRawWithin limit (rawNode (.text tag) loc (rawAll nodes) []) = .ok node := by
  obtain ⟨text, here⟩ := here
  have all := children_rawNode tag loc [] (isNull_of_mem_rawAll nodes)
  rw [(hasForm_rawNode known).ofRawWithin_eq]
  unfold Form.node? at whole
  split at whole <;> cases whole <;> rw [Form.read, all, rawLoc_rawNode here]
  · simp only [bind, Except.bind, mapM_rawAll inner]
    rfl
  · simp only [bind, Except.bind, rawAll, inner _ (List.mem_cons_self ..)]
    rfl
  · simp only [bind, Except.bind, rawAll, List.forall_mem_cons] at inner ⊢
    rw [inner.1, inner.2.1]
    rfl
  · simp only [bind, Except.bind, rawAll, List.forall_mem_cons] at inner ⊢
    rw [inner.1, inner.2.1, inner.2.2.1]
    rfl

variable {first second third : Node} (inner : ofRawWithin limit first.raw = .ok first)
  (inner' : ofRawWithin limit second.raw = .ok second)
  (inner'' : ofRawWithin limit third.raw = .ok third)
  (here : Tagged tag loc)
include inner here

theorem read_one {build : Node → Option Loc → Node} (known : form? tag = some (.one build)) :
    ofRawWithin limit (rawNode (.text tag) loc [first.raw] []) = .ok (build first loc) := by
  have whole : (Form.one build).node? [first] loc = some (build first loc) := rfl
  exact read_rawNode known whole (by simpa using inner) here

include inner'

theorem read_two {build : Node → Node → Option Loc → Node}
    (known : form? tag = some (.two build)) :
    ofRawWithin limit (rawNode (.text tag) loc [first.raw, second.raw] []) =
      .ok (build first second loc) := by
  have whole : (Form.two build).node? [first, second] loc = some (build first second loc) := rfl
  exact read_rawNode known whole (by simpa using ⟨inner, inner'⟩) here

include inner''

theorem read_three {build : Node → Node → Node → Option Loc → Node}
    (known : form? tag = some (.three build)) :
    ofRawWithin limit (rawNode (.text tag) loc [first.raw, second.raw, third.raw] []) =
      .ok (build first second third loc) := by
  have whole : (Form.three build).node? [first, second, third] loc =
    some (build first second third loc) := rfl
  exact read_rawNode known whole (by simpa using ⟨inner, inner', inner''⟩) here

end

/-! ## Reading the tree of a program -/

theorem read_keyword {op : ListOperation} {loc : Option Loc}
    (here : Located "list_operation" op.keyword loc) :
    ofRawWithin none (listOperation (.text op.keyword) loc).raw =
      .ok (.listOperation (.text op.keyword) loc) := by
  rw [raw, (hasForm_rawNode rfl).ofRawWithin_eq, Form.read, rawLoc_rawNode here]
  rfl

theorem IsName.read_raw {node : Node} (h : node.IsName) :
    ofRawWithin none node.raw = .ok node := by
  cases h with
  | identifier word here =>
    rw [raw, (hasForm_rawNode rfl).ofRawWithin_eq, Form.read, rawLoc_rawNode here,
      sourceText_rawNode here]
    rfl

theorem IsPlace.read_raw {node : Node} (h : node.IsPlace) :
    ofRawWithin none node.raw = .ok node := by
  cases h with
  | scalar name here => exact read_one name.read_raw here rfl
  | object obj attr here => exact read_two obj.read_raw attr.read_raw here rfl

theorem IsLiteral.read_raw {node : Node} (h : node.IsLiteral) :
    ofRawWithin none node.raw = .ok node := by
  cases h with
  | @integer n text loc numeral here =>
    have value :
        integerValue none (rawNode (.text "integer") loc [] [("value", .int n)]) = .ok n := by
      obtain ⟨line, col, rfl⟩ := here
      show numberOfField none (.text text) = _
      simp only [numberOfField, Text.readNumeralWithin, Text.excess?, numeral]
      rfl
    rw [raw, (hasForm_rawNode rfl).ofRawWithin_eq, Form.read, rawLoc_rawNode here, value]
    rfl
  | @string text loc here =>
    rw [raw, (hasForm_rawNode rfl).ofRawWithin_eq, Form.read, rawLoc_rawNode here,
      sourceText_rawNode here]
    rfl

theorem IsValue.read_raw {node : Node} (h : node.IsValue) :
    ofRawWithin none node.raw = .ok node := by
  cases h with
  | @literal inner loc _ literal here here' =>
    have first : ofRawWithin none (Node.literal inner loc).raw = .ok (.literal inner loc) :=
      read_one literal.read_raw here rfl
    exact read_one first here' rfl
  | @reading inner loc _ place here here' =>
    have first : ofRawWithin none (Node.variable inner loc).raw = .ok (.variable inner loc) :=
      read_one place.read_raw here rfl
    exact read_one first here' rfl

theorem IsTarget.read_raw {node : Node} (h : node.IsTarget) :
    ofRawWithin none node.raw = .ok node := by
  cases h with
  | assignee place here => exact read_one place.read_raw here rfl

theorem IsStatement.read_raw {node : Node} (h : node.IsStatement) :
    ofRawWithin none node.raw = .ok node := by
  cases h with
  | valueAssignment target value here =>
    exact read_two target.read_raw value.read_raw here rfl
  | typeAssignment target type here => exact read_two target.read_raw type.read_raw here rfl
  | listAssignment item target keyword here =>
    exact read_three (read_keyword keyword) item.read_raw target.read_raw here rfl
  | invocation callee arg here => exact read_two callee.read_raw arg.read_raw here rfl

theorem IsExpression.read_raw {node : Node} (h : node.IsExpression) :
    ofRawWithin none node.raw = .ok node := by
  cases h with
  | expression inner here => exact read_one inner.read_raw here rfl

/-- Reading the raw tree of a program gives the program. -/
theorem IsProgram.ofRaw_raw {node : Node} (h : node.IsProgram) : ofRaw node.raw = .ok node := by
  cases h with
  | root body here =>
    exact read_rawNode rfl rfl (fun node mem => (body node mem).read_raw) here

end Node

end AliasScript

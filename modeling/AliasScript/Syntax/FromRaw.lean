import AliasScript.Syntax.Node
import AliasScript.Text.Numeral

/-!
# Program trees from raw data

A raw tree has objects for nodes, with a tag, a text and children. Reading it checks each node
before its children and stops at the first fault. An object that has no tag but holds a tree under
`ast` stands for that tree; children that are null do not count.
-/

namespace AliasScript

/-- Why raw data is no program tree. -/
inductive Misfit where
  /-- A node that is not an object. -/
  | notANode (raw : Raw)
  | unknownTag (tag : Raw)
  | wrongCount (tag : String) (expected actual : Nat)
  /-- A list operation without exactly one keyword. -/
  | keywordCount
  | missingField (name : String)
  /-- Children that are neither an array, an object nor a text. -/
  | childless {given : Raw}
  /-- A keyword that is not an object. -/
  | badKeyword {given : Raw}
  /-- A text or a decimal that converts to no integer. -/
  | badNumeral {fault : Text.NumeralFault}
  /-- Data of a kind that is never a number, or never a text, in a field for one. -/
  | badField {name : String} {given : Raw}
deriving Inhabited

/-- What an error says: its kind and its text. -/
structure Complaint where
  kind : String
  text : String
deriving DecidableEq, Repr

/-- What is said of a text or a decimal that converts to no integer; of a text, as much as fits into
two hundred characters of its quoted form. -/
def Text.NumeralFault.complaint : NumeralFault → Complaint
  | .unreadable text => ⟨"ValueError", "invalid literal for int() with base 10: " ++
    String.ofList ((quoted text).toList.take 200)⟩
  | .tooLong limit digits => ⟨"ValueError", "Exceeds the limit (" ++ toString limit ++
    " digits) for integer string conversion: value has " ++ toString digits ++
    " digits; use sys.set_int_max_str_digits() to increase the limit"⟩
  | .unbounded => ⟨"OverflowError", "cannot convert float infinity to integer"⟩
  | .undefined => ⟨"ValueError", "cannot convert float NaN to integer"⟩

namespace Misfit

/-- What is said of data that is looked into by a name and has no named entries. -/
def notNamed : Raw → String
  | .text _ => "string indices must be integers, not 'str'"
  | .array _ => "list indices must be integers or slices, not str"
  | other => "'" ++ other.kindName ++ "' object is not subscriptable"

def complaint : Misfit → Complaint
  | .notANode raw => ⟨"TypeError", "Cannot transform " ++ raw.kindName ++ ": " ++ raw.shown⟩
  | .unknownTag tag => ⟨"NotImplementedError", "No transformer for tag '" ++ tag.plain ++ "'"⟩
  | .wrongCount tag expected actual => ⟨"ValueError",
    "'" ++ tag ++ "' expects " ++ toString expected ++ " children, got " ++ toString actual⟩
  | .keywordCount => ⟨"ValueError", "'list_operation' expects exactly one keyword"⟩
  | .missingField name => ⟨"KeyError", Text.quoted name⟩
  | @childless given => ⟨"TypeError", "'" ++ given.kindName ++ "' object is not iterable"⟩
  | @badKeyword given => ⟨"TypeError", notNamed given⟩
  | @badNumeral fault => fault.complaint
  | @badField name given => ⟨"TypeError",
    if name = "value" then
      "int() argument must be a string, a bytes-like object or a real number, not '" ++
        given.kindName ++ "'"
    else "object of type '" ++ given.kindName ++ "' has no len()"⟩

/-- Comes from a conversion or a look into the data, not from a check of the node; the words are
not the reader's own. -/
def isBorrowed : Misfit → Bool
  | .childless | .badKeyword | .badNumeral | .badField => true
  | _ => false

end Misfit

namespace Node

/-- What a tag asks of its node. -/
inductive Form where
  | sequence (build : List Node → Option Loc → Node)
  | one (build : Node → Option Loc → Node)
  | two (build : Node → Node → Option Loc → Node)
  | three (build : Node → Node → Node → Option Loc → Node)
  | keyword
  | integer
  | string
  | identifier

/-- The form of the nodes with a tag. -/
def form? : String → Option Form
  | "root" => some (.sequence .root)
  | "block" => some (.sequence .block)
  | "expression" => some (.one .expression)
  | "value_assignment" => some (.two .valueAssignment)
  | "type_assignment" => some (.two .typeAssignment)
  | "list_assignment" => some (.three .listAssignment)
  | "list_operation" => some .keyword
  | "invocation" => some (.two .invocation)
  | "value" => some (.one .value)
  | "literal" => some (.one .literal)
  | "variable" => some (.one .variable)
  | "assignee" => some (.one .assignee)
  | "scalar" => some (.one .scalar)
  | "object" => some (.two .object)
  | "integer" => some .integer
  | "string" => some .string
  | "identifier" => some .identifier
  | _ => none

/-- The location in a raw node; it has one when both its line and its column are given. -/
def rawLoc (tag : String) (raw : Raw) : Option Loc :=
  match raw.field "line", raw.field "col" with
  | .int line, .int col => some ⟨line, col, tag, raw.field "text"⟩
  | _, _ => none

/-- The children of a raw node in order, with the null ones. -/
def rawChildren (raw : Raw) : Except Misfit (List Raw) :=
  match raw.field "children" with
  | .array items => .ok items
  | .object fields => .ok (fields.map Prod.snd)
  | .text s => .ok (s.toList.map fun c => .text c.toString)
  | other => if other.isTruthy then .error (@Misfit.childless other) else .ok []

def isNull : Raw → Bool
  | .null => true
  | _ => false

/-- The children of a raw node that count. -/
def children (raw : Raw) : Except Misfit (List Raw) :=
  (rawChildren raw).map (List.filter (!isNull ·))

/-- The tag of a keyword. -/
def keywordTag : Raw → Except Misfit Raw
  | .object fields =>
    match Raw.lookup "tag" fields with
    | some tag => .ok tag
    | none => .error (.missingField "tag")
  | other => .error (@Misfit.badKeyword other)

/-- The tag of the one keyword of a list operation. -/
def operationKeyword (raw : Raw) : Except Misfit Raw := do
  match ← children raw with
  | [keyword] => keywordTag keyword
  | _ => .error .keywordCount

/-- The number that data converts to: fractions are cut off, and a text is read as a numeral of so
many digits at most. -/
def numberOfField (limit : Option Nat) : Raw → Except Misfit Int
  | .int n => .ok n
  | .bool b => .ok (if b then 1 else 0)
  | .decimal x => match x.truncate? with
    | some n => .ok n
    | none => .error (@Misfit.badNumeral (if x.isUndefined then .undefined else .unbounded))
  | .text s => (Text.readNumeralWithin limit s).mapError fun fault => @Misfit.badNumeral fault
  | other => .error (@Misfit.badField "value" other)

/-- The number of an integer node: its text when it has one, else its value. -/
def integerValue (limit : Option Nat) (raw : Raw) : Except Misfit Int :=
  match raw.field "text", raw.field? "value" with
  | .text s, _ => numberOfField limit (.text s)
  | _, some given => numberOfField limit given
  | _, none => .error (.missingField "value")

/-- The source text of a node that must have one. -/
def sourceText (raw : Raw) : Except Misfit String :=
  match raw.field? "text" with
  | some (.text s) => .ok s
  | some other => .error (@Misfit.badField "text" other)
  | none => .error (.missingField "text")

/-! ## Children are less deeply nested -/

theorem height_lt_of_rawChildren {raw child : Raw} {cs : List Raw} (h : rawChildren raw = .ok cs)
    (mem : child ∈ cs) : child.height < raw.height := by
  cases raw with
  | object fields =>
    rw [rawChildren, Raw.field, Raw.field?] at h
    cases found : Raw.lookup "children" fields with
    | none =>
      rw [found] at h
      cases h
      cases mem
    | some value =>
      rw [found] at h
      have below := Raw.height_lt_of_lookup found
      cases value with
      | array items =>
        cases h
        have := Raw.height_le_heightItems mem
        simp only [Raw.height] at below ⊢
        omega
      | object inner =>
        cases h
        have := Raw.height_le_heightFields mem
        simp only [Raw.height] at below ⊢
        omega
      | text s =>
        cases h
        obtain ⟨c, -, rfl⟩ := List.mem_map.1 mem
        simp [Raw.height]
      | null | bool | int | decimal =>
        simp only [Option.getD_some] at h
        split at h
        · cases h
        · cases h
          cases mem
  | _ =>
    simp only [rawChildren, Raw.field, Raw.field?, Option.getD_none, Raw.isTruthy] at h
    cases h
    cases mem

theorem height_lt_of_children {raw child : Raw} {cs : List Raw} (h : children raw = .ok cs)
    (mem : child ∈ cs) : child.height < raw.height := by
  rw [children] at h
  cases all : rawChildren raw with
  | error e =>
    rw [all] at h
    cases h
  | ok some =>
    rw [all] at h
    cases h
    exact height_lt_of_rawChildren all ((List.mem_filter.1 mem).1)

/-! ## Reading a tree -/

/-- The tree that stands for an object without a tag, if the data is such an object. -/
def wrapped? (raw : Raw) : Option Raw :=
  match raw.field? "tag" with
  | some _ => none
  | none => raw.field? "ast"

theorem height_lt_of_wrapped? {raw inner : Raw} (h : wrapped? raw = some inner) :
    inner.height < raw.height := by
  cases raw with
  | object fields =>
    rw [wrapped?] at h
    split at h
    · cases h
    · exact Raw.height_lt_of_lookup h
  | _ => cases h

/-- The tag of a raw node and the form that it asks for. -/
def formOf (raw : Raw) : Except Misfit (String × Form) :=
  match raw with
  | .object _ =>
    match raw.field "tag" with
    | .text tag =>
      match form? tag with
      | some form => .ok (tag, form)
      | none => .error (.unknownTag (.text tag))
    | other => .error (.unknownTag other)
  | other => .error (.notANode other)

/-- Reads the tree in raw data, with a limit on the digits of its integers if one is given. -/
def ofRawWithin (limit : Option Nat) (raw : Raw) : Except Misfit Node :=
  match _ : wrapped? raw with
  | some inner => ofRawWithin limit inner
  | none => do
    let (tag, form) ← formOf raw
    let loc := rawLoc tag raw
    match form with
    | .sequence build =>
      match _ : children raw with
      | .error e => .error e
      | .ok cs => return build (← cs.attach.mapM fun ⟨c, _⟩ => ofRawWithin limit c) loc
    | .one build =>
      match _ : children raw with
      | .error e => .error e
      | .ok [a] => return build (← ofRawWithin limit a) loc
      | .ok cs => .error (.wrongCount tag 1 cs.length)
    | .two build =>
      match _ : children raw with
      | .error e => .error e
      | .ok [a, b] => return build (← ofRawWithin limit a) (← ofRawWithin limit b) loc
      | .ok cs => .error (.wrongCount tag 2 cs.length)
    | .three build =>
      match _ : children raw with
      | .error e => .error e
      | .ok [a, b, c] =>
        return build (← ofRawWithin limit a) (← ofRawWithin limit b) (← ofRawWithin limit c) loc
      | .ok cs => .error (.wrongCount tag 3 cs.length)
    | .keyword => return .listOperation (← operationKeyword raw) loc
    | .integer => return .integer (← integerValue limit raw) loc
    | .string => return .string (String.ofList (unquote (← sourceText raw).toList)) loc
    | .identifier => return .identifier (← sourceText raw) loc
termination_by raw.height
decreasing_by
  · exact height_lt_of_wrapped? ‹_›
  all_goals exact height_lt_of_children ‹_› (by simp_all)

/-- Reads the tree in raw data, whose integers may have any number of digits. -/
def ofRaw (raw : Raw) : Except Misfit Node := ofRawWithin none raw

end Node

end AliasScript

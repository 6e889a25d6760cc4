import AliasScript.Syntax.FromRaw

/-!
# Faults of raw data

What is wrong with raw data that is no tree, said of the data alone. The data is visited from each
value to its children (`Raw.visited`): wrappers are taken off, children that are null are passed
over, and no node is entered whose children are not read. Each value on the way is faulty or sound
by itself (`Raw.IsFaulty`), whatever its children are, and the first faulty one decides on what is
complained of (`Raw.FirstFault`).
-/

namespace AliasScript

/-! ## The way -/

/-- What a tag demands of its node: children, of any number or of one number, a keyword, a number or
a text. -/
inductive Demand where
  | children
  | exactly (n : Nat)
  | keyword
  | number
  | text
deriving DecidableEq

/-- The children of the node are nodes. -/
def Demand.ofChildren : Demand → Bool
  | .children | .exactly _ => true
  | _ => false

/-- The tags there are, with their demands. -/
def demand? : String → Option Demand
  | "root" | "block" => some .children
  | "expression" | "value" | "literal" | "variable" | "assignee" | "scalar" => some (.exactly 1)
  | "value_assignment" | "type_assignment" | "invocation" | "object" => some (.exactly 2)
  | "list_assignment" => some (.exactly 3)
  | "list_operation" => some .keyword
  | "integer" => some .number
  | "string" | "identifier" => some .text
  | _ => none

namespace Raw

theorem height_lt_of_field? {raw inner : Raw} {name : String} (h : raw.field? name = some inner) :
    inner.height < raw.height := by
  cases raw with
  | object fields => exact height_lt_of_lookup h
  | _ => cases h

/-- The value itself, or the value that it wraps: an object without a tag wraps its `ast`. -/
def unwrapped (raw : Raw) : Raw :=
  match raw.field? "tag", _ : raw.field? "ast" with
  | none, some inner => inner.unwrapped
  | _, _ => raw
termination_by raw.height
decreasing_by exact height_lt_of_field? ‹_›

/-- The children that are not null, if there are any to go through: the items of an array, the
values of an object in the order of its keys, the characters of a text, and none where children are
missing, zero or false. -/
def offspring? (raw : Raw) : Option (List Raw) :=
  let all : Option (List Raw) :=
    match raw.field "children" with
    | .array items => some items
    | .object fields => some (fields.map Prod.snd)
    | .text s => some (s.toList.map fun c => .text c.toString)
    | other => if other.isTruthy then none else some []
  all.map (List.filter (!Node.isNull ·))

/-- The children that are visited after a value. -/
def entered (raw : Raw) : List Raw :=
  match raw.field "tag" with
  | .text "list_operation" | .text "integer" | .text "string" | .text "identifier" => []
  | _ => raw.offspring?.getD []

theorem children_of_offspring? {raw : Raw} {cs : List Raw} (h : raw.offspring? = some cs) :
    Node.children raw = .ok cs := by
  rw [offspring?] at h
  rw [Node.children, Node.rawChildren]
  cases given : raw.field "children" <;> simp only [given] at h ⊢
  case array | object | text => exact congrArg Except.ok (Option.some.inj h)
  all_goals
    split at h
    · cases h
    · next falsy => cases h; rw [if_neg falsy]; rfl

theorem children_of_offspring?_none {raw : Raw} (h : raw.offspring? = none) :
    Node.children raw = .error (@Misfit.childless (raw.field "children")) := by
  rw [offspring?] at h
  rw [Node.children, Node.rawChildren]
  cases given : raw.field "children" <;> simp only [given] at h ⊢
  case array | object | text => cases h
  all_goals
    split at h
    · next truthy => rw [if_pos truthy]; rfl
    · cases h

theorem height_lt_of_mem_entered {raw child : Raw} (h : child ∈ raw.entered) :
    child.height < raw.height := by
  rw [entered] at h
  split at h
  case h_5 =>
    cases offspring : raw.offspring? with
    | none =>
      rw [offspring] at h
      cases h
    | some cs =>
      rw [offspring] at h
      exact Node.height_lt_of_children (children_of_offspring? offspring) h
  all_goals cases h

section

variable {raw inner : Raw}

theorem unwrapped_of_wrapped? (h : Node.wrapped? raw = some inner) :
    raw.unwrapped = inner.unwrapped := by
  rw [Node.wrapped?] at h
  split at h
  · cases h
  · next bare =>
    rw [unwrapped]
    split
    · next found => rw [Option.some.inj (found.symm.trans h)]
    · next other => exact absurd h (other _ bare)

theorem unwrapped_of_wrapped?_none (h : Node.wrapped? raw = none) : raw.unwrapped = raw := by
  rw [Node.wrapped?] at h
  rw [unwrapped]
  split at h <;> simp [*]

end

theorem unwrapped_spec (raw : Raw) : Node.wrapped? raw.unwrapped = none ∧
    raw.unwrapped.height ≤ raw.height ∧
    ∀ limit, Node.ofRawWithin limit raw = Node.ofRawWithin limit raw.unwrapped := by
  cases h : Node.wrapped? raw with
  | none =>
    rw [unwrapped_of_wrapped?_none h]
    exact ⟨h, Nat.le_refl _, fun _ => rfl⟩
  | some inner =>
    -- One wrapper is taken off, and what it wraps is less deeply nested.
    have lower := Node.height_lt_of_wrapped? h
    obtain ⟨bare, low, same⟩ := unwrapped_spec inner
    rw [unwrapped_of_wrapped? h]
    refine ⟨bare, Nat.le_trans low (Nat.le_of_lt lower), fun limit => Eq.trans ?_ (same limit)⟩
    rw [Node.ofRawWithin.eq_def]
    split
    · next found => rw [Option.some.inj (found.symm.trans h)]
    · next found => cases found.symm.trans h
termination_by raw.height

/-- The values in the order in which they are visited: each one, unwrapped, before its children, and
its children one after the other. -/
def visited (raw : Raw) : List Raw :=
  raw.unwrapped :: raw.unwrapped.entered.attach.flatMap fun ⟨child, _⟩ => child.visited
termination_by raw.height
decreasing_by exact Nat.lt_of_lt_of_le (height_lt_of_mem_entered ‹_›) (unwrapped_spec raw).2.1

theorem visited_eq (raw : Raw) :
    raw.visited = raw.unwrapped :: raw.unwrapped.entered.flatMap visited := by
  rw [visited, List.flatMap_subtype (g := visited) fun _ _ => rfl, List.unattach_attach]

/-! ## Faults -/

/-- A node with a tag that demands this. -/
def Demands (raw : Raw) (d : Demand) : Prop :=
  ∃ tag, raw.field "tag" = .text tag ∧ demand? tag = some d

/-- What the number of a node is read from: its text if that is a text, else its value. -/
def numberGiven? (raw : Raw) : Option Raw :=
  match raw.field "text" with
  | .text s => some (.text s)
  | _ => raw.field? "value"

/-- A text in front of which stand more digits than a limit allows. -/
def TooLong (limit : Option Nat) (s : String) (most digits : Nat) : Prop :=
  limit = some most ∧ Text.digitCount? s = some digits ∧ most < digits

/-- Data that converts to no integer, and what is said of it. -/
inductive Unconverted (limit : Option Nat) : Raw → Complaint → Prop
  /-- A text with too many digits is not looked at any further. -/
  | tooLong {s : String} {most digits : Nat} : TooLong limit s most digits →
    Unconverted limit (.text s) ⟨"ValueError", "Exceeds the limit (" ++ toString most ++
      " digits) for integer string conversion: value has " ++ toString digits ++
      " digits; use sys.set_int_max_str_digits() to increase the limit"⟩
  | unreadable {s : String} : (∀ most digits, ¬ TooLong limit s most digits) →
    Text.readNumeral? s = none → Unconverted limit (.text s)
      ⟨"ValueError", "invalid literal for int() with base 10: " ++
        String.ofList ((Text.quoted s).toList.take 200)⟩
  | infinite {x : Double} : x.isFinite = false → x.isUndefined = false →
    Unconverted limit (.decimal x) ⟨"OverflowError", "cannot convert float infinity to integer"⟩
  | undefined {x : Double} : x.isUndefined = true →
    Unconverted limit (.decimal x) ⟨"ValueError", "cannot convert float NaN to integer"⟩
  | kind {given : Raw} :
    (given = .null ∨ (∃ items, given = .array items) ∨ ∃ fields, given = .object fields) →
    Unconverted limit given ⟨"TypeError",
      "int() argument must be a string, a bytes-like object or a real number, not '" ++
        given.kindName ++ "'"⟩

inductive Untagged : Raw → Complaint → Prop
  | text (s : String) :
    Untagged (.text s) ⟨"TypeError", "string indices must be integers, not 'str'"⟩
  | array (items : List Raw) :
    Untagged (.array items) ⟨"TypeError", "list indices must be integers or slices, not str"⟩
  | object {fields : List (String × Raw)} : lookup "tag" fields = none →
    Untagged (.object fields) ⟨"KeyError", "'tag'"⟩
  | other {keyword : Raw} : (∀ s, keyword ≠ .text s) → (∀ items, keyword ≠ .array items) →
    (∀ fields, keyword ≠ .object fields) →
    Untagged keyword ⟨"TypeError", "'" ++ keyword.kindName ++ "' object is not subscriptable"⟩

section

variable {limit : Option Nat} {c c' : Complaint}

theorem TooLong.unique {s : String} {most digits most' digits' : Nat}
    (h : TooLong limit s most digits) (h' : TooLong limit s most' digits') :
    most = most' ∧ digits = digits' :=
  ⟨Option.some.inj (h.1.symm.trans h'.1), Option.some.inj (h.2.1.symm.trans h'.2.1)⟩

theorem Unconverted.unique {given : Raw} (h : given.Unconverted limit c)
    (h' : given.Unconverted limit c') : c = c' := by
  cases h with
  | tooLong long =>
    cases h' with
    | tooLong long' =>
      obtain ⟨rfl, rfl⟩ := long.unique long'
      rfl
    | unreadable short => exact absurd long (short _ _)
    | kind other => simp at other
  | unreadable short =>
    cases h' with
    | tooLong long => exact absurd long (short _ _)
    | unreadable => rfl
    | kind other => simp at other
  | infinite _ defined =>
    cases h' with
    | infinite => rfl
    | undefined none => cases none.symm.trans defined
    | kind other => simp at other
  | undefined none =>
    cases h' with
    | infinite _ defined => cases none.symm.trans defined
    | undefined => rfl
    | kind other => simp at other
  | kind other =>
    cases h' with
    | kind => rfl
    | _ => simp at other

theorem Untagged.unique {keyword : Raw} (h : keyword.Untagged c) (h' : keyword.Untagged c') :
    c = c' := by
  cases h with
  | text s =>
    cases h' with
    | text => rfl
    | other other => exact absurd rfl (other s)
  | array items =>
    cases h' with
    | array => rfl
    | other _ other => exact absurd rfl (other items)
  | object =>
    cases h' with
    | object => rfl
    | other _ _ other => exact absurd rfl (other _)
  | other text array object =>
    cases h' with
    | text s => exact absurd rfl (text s)
    | array items => exact absurd rfl (array items)
    | object => exact absurd rfl (object _)
    | other => rfl

end

/-- A value has a fault of its own, whatever its children are, and this is what is said of it. -/
inductive IsFaulty (limit : Option Nat) : Raw → Complaint → Prop
  | notANode {raw : Raw} : (∀ fields, raw ≠ .object fields) →
    IsFaulty limit raw ⟨"TypeError", "Cannot transform " ++ raw.kindName ++ ": " ++ raw.shown⟩
  | unknownTag {raw : Raw} {fields : List (String × Raw)} : raw = .object fields →
    (∀ d, ¬ raw.Demands d) → IsFaulty limit raw
      ⟨"NotImplementedError", "No transformer for tag '" ++ (raw.field "tag").plain ++ "'"⟩
  /-- The children cannot be gone through. -/
  | childless {raw : Raw} {d : Demand} : raw.Demands d → d ≠ .number → d ≠ .text →
    raw.offspring? = none → IsFaulty limit raw
      ⟨"TypeError", "'" ++ (raw.field "children").kindName ++ "' object is not iterable"⟩
  | wrongCount {raw : Raw} {tag : String} {n : Nat} {cs : List Raw} : raw.field "tag" = .text tag →
    demand? tag = some (.exactly n) → raw.offspring? = some cs → cs.length ≠ n →
    IsFaulty limit raw ⟨"ValueError",
      "'" ++ tag ++ "' expects " ++ toString n ++ " children, got " ++ toString cs.length⟩
  | keywordCount {raw : Raw} {cs : List Raw} : raw.Demands .keyword → raw.offspring? = some cs →
    cs.length ≠ 1 →
    IsFaulty limit raw ⟨"ValueError", "'list_operation' expects exactly one keyword"⟩
  | untagged {raw keyword : Raw} {c : Complaint} : raw.Demands .keyword →
    raw.offspring? = some [keyword] → keyword.Untagged c → IsFaulty limit raw c
  | textless {raw : Raw} : raw.Demands .text → raw.field? "text" = none →
    IsFaulty limit raw ⟨"KeyError", "'text'"⟩
  | valueless {raw : Raw} : raw.Demands .number → raw.numberGiven? = none →
    IsFaulty limit raw ⟨"KeyError", "'value'"⟩
  | unconverted {raw given : Raw} {c : Complaint} : raw.Demands .number →
    raw.numberGiven? = some given → given.Unconverted limit c → IsFaulty limit raw c

/-- A value has no fault of its own. -/
def IsSound (limit : Option Nat) (raw : Raw) : Prop := ∀ c, ¬ raw.IsFaulty limit c

/-- What is complained of is the first faulty one of the values. -/
def FirstFault (limit : Option Nat) (values : List Raw) (c : Complaint) : Prop :=
  ∃ before value after, values = before ++ value :: after ∧
    (∀ other ∈ before, other.IsSound limit) ∧ value.IsFaulty limit c

/-- A node that demands a text has one if it has anything for it. -/
def TextIsText (raw : Raw) : Prop :=
  raw.Demands .text → ∀ given, raw.field? "text" = some given → ∃ s, given = .text s

theorem entered_eq {raw : Raw} {tag : String} {d : Demand} (tagged : raw.field "tag" = .text tag)
    (demands : demand? tag = some d) :
    raw.entered = if d.ofChildren then raw.offspring?.getD [] else [] := by
  unfold demand? at demands
  split at demands <;> cases demands <;> rw [entered, tagged] <;> rfl

theorem isSound_of_offspring? {limit : Option Nat} {raw : Raw} {tag : String} {d : Demand}
    {cs : List Raw} (tagged : raw.field "tag" = .text tag) (demands : demand? tag = some d)
    (offspring : raw.offspring? = some cs) (fits : d = .children ∨ d = .exactly cs.length) :
    raw.IsSound limit := by
  intro c faulty
  have only : ∀ d', raw.Demands d' → d' = d := by
    rintro d' ⟨tag', tagged', demands'⟩
    cases tagged.symm.trans tagged'
    exact Option.some.inj (demands'.symm.trans demands)
  cases faulty with
  | notANode other =>
    cases raw with
    | object fields => exact other fields rfl
    | _ => cases tagged
  | unknownTag object unknown => exact unknown d ⟨tag, tagged, demands⟩
  | childless demands number text none => cases offspring.symm.trans none
  | wrongCount tagged' demands' offspring' count =>
    cases offspring.symm.trans offspring'
    cases only _ ⟨_, tagged', demands'⟩
    rcases fits with same | same <;> cases same
    exact count rfl
  | keywordCount here | untagged here | textless here | valueless here | unconverted here =>
    cases only _ here
    rcases fits with same | same <;> cases same

section

variable {value : Raw} {values others : List Raw} {limit : Option Nat}
  {c : Complaint}

theorem firstFault_cons : FirstFault limit (value :: values) c ↔
    value.IsFaulty limit c ∨ value.IsSound limit ∧ FirstFault limit values c := by
  constructor
  · rintro ⟨before, faulty, after, same, sound, fault⟩
    cases before with
    | nil =>
      cases same
      exact .inl fault
    | cons first before =>
      cases same
      obtain ⟨here, sound⟩ := List.forall_mem_cons.1 sound
      exact .inr ⟨here, before, faulty, after, rfl, sound, fault⟩
  · rintro (fault | ⟨here, before, faulty, after, rfl, sound, fault⟩)
    · exact ⟨[], value, values, rfl, List.forall_mem_nil _, fault⟩
    · exact ⟨value :: before, faulty, after, rfl, List.forall_mem_cons.2 ⟨here, sound⟩, fault⟩

theorem not_firstFault_of_sound (sound : ∀ value ∈ values, value.IsSound limit) :
    ¬ FirstFault limit values c := by
  rintro ⟨before, faulty, after, rfl, -, fault⟩
  exact sound faulty (by simp) c fault

theorem firstFault_append : FirstFault limit (values ++ others) c ↔ FirstFault limit values c ∨
    (∀ value ∈ values, value.IsSound limit) ∧ FirstFault limit others c := by
  induction values with
  | nil =>
    have none : ¬ FirstFault limit [] c := not_firstFault_of_sound (List.forall_mem_nil _)
    simp [none]
  | cons value values ih =>
    rw [List.cons_append, firstFault_cons, firstFault_cons, ih, List.forall_mem_cons, and_or_left,
      or_assoc, and_assoc]

theorem exists_firstFault (h : ∃ value ∈ values, ∃ c, value.IsFaulty limit c) :
    ∃ c, FirstFault limit values c := by
  induction values with
  | nil =>
    obtain ⟨_, mem, -⟩ := h
    cases mem
  | cons first rest ih =>
    by_cases here : ∃ c, first.IsFaulty limit c
    · obtain ⟨c, fault⟩ := here
      exact ⟨c, firstFault_cons.2 (.inl fault)⟩
    · obtain ⟨value, mem, fault⟩ := h
      rcases List.mem_cons.1 mem with rfl | mem
      · exact absurd fault here
      · obtain ⟨c, later⟩ := ih ⟨value, mem, fault⟩
        exact ⟨c, firstFault_cons.2 (.inr ⟨not_exists.1 here, later⟩)⟩

end

end Raw

end AliasScript

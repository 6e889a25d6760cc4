import AliasScript.Proofs.RawFaults
import AliasScript.Proofs.RawTree
import AliasScript.Proofs.Spans
import Mathlib.Data.List.Basic

/-!
# Reading tells the first fault

Reading goes the way on which raw data is visited. A faulty value ends it with what is said of that
value (`Node.complains_of_isFaulty`), and a sound one leaves the outcome to its children
(`Node.follows_of_isSound`). So reading stops at the first faulty value and tells its fault, and
when there is none it makes one node of each value visited
(`Node.ofRawWithin_reports_first_fault`).
-/

namespace AliasScript

namespace Node

/-! ## The form of a node -/

/-- What the nodes of a form have to have. -/
def Form.demand : Form → Demand
  | .sequence _ => .children
  | .one _ => .exactly 1
  | .two _ => .exactly 2
  | .three _ => .exactly 3
  | .keyword => .keyword
  | .integer => .number
  | .string | .identifier => .text

theorem demand?_eq (tag : String) : demand? tag = (form? tag).map Form.demand := by
  unfold form?
  split
  case h_18 =>
    unfold demand?
    split <;> first | rfl | simp_all
  all_goals rfl

theorem tag_parts_of_node? {tag : String} {form : Form} {nodes : List Node} {node : Node}
    {loc : Option Loc} (known : form? tag = some form) (whole : form.node? nodes loc = some node) :
    node.tag = tag ∧ node.parts = nodes := by
  unfold Form.node? at whole
  split at whole <;> cases whole <;> unfold form? at known <;> split at known <;> cases known <;>
    exact ⟨rfl, rfl⟩

theorem hasForm_of_tag {raw : Raw} {tag : String} {d : Demand}
    (tagged : raw.field "tag" = .text tag) (demands : demand? tag = some d) :
    ∃ form, HasForm raw tag form ∧ form.demand = d := by
  rw [demand?_eq, Option.map_eq_some_iff] at demands
  obtain ⟨form, known, same⟩ := demands
  exact ⟨form, ⟨tagged, known⟩, same⟩

theorem integerValue_eq (limit : Option Nat) (raw : Raw) : integerValue limit raw =
    match raw.numberGiven? with
    | some given => numberOfField limit given
    | none => .error (.missingField "value") := by
  rw [integerValue, Raw.numberGiven?]
  cases raw.field "text" <;> cases raw.field? "value" <;> rfl

/-! ## What is said of an error -/

/-- A result is an error of which this is said. -/
def Complains {α : Type} (result : Except Misfit α) (c : Complaint) : Prop :=
  result.mapError Misfit.complaint = .error c

section

variable {α β : Type} {limit : Option Nat} {c : Complaint}

theorem complains_error {m : Misfit} : Complains (.error m : Except Misfit α) c ↔ m.complaint = c :=
  Except.error.injEq .. ▸ Iff.rfl

theorem not_complains_ok {a : α} : ¬ Complains (.ok a) c :=
  nofun

theorem complains_map {result : Except Misfit α} {f : α → β} :
    Complains (result.map f) c ↔ Complains result c := by
  cases result with
  | error m => rw [Except.map, complains_error, complains_error]
  | ok a => exact iff_of_false not_complains_ok not_complains_ok

/-- An error is told by what holds of one complaint only, and of that of the error. -/
theorem complains_iff_of_unique {m : Misfit} {told : Complaint → Prop} (holds : told m.complaint)
    (unique : ∀ {c c'}, told c → told c' → c = c') :
    Complains (.error m : Except Misfit α) c ↔ told c :=
  complains_error.trans ⟨fun same => same ▸ holds, unique holds⟩

theorem exists_ok {result : Except Misfit α} (sound : ∀ c, ¬ Complains result c) :
    ∃ a, result = .ok a := by
  cases result with
  | error m => exact absurd rfl (sound m.complaint)
  | ok a => exact ⟨a, rfl⟩

theorem excess?_eq_some_iff {s : String} {most digits : Nat} :
    Text.excess? limit s = some (most, digits) ↔ Raw.TooLong limit s most digits := by
  unfold Text.excess? Raw.TooLong
  cases limit <;> cases Text.digitCount? s <;> simp
  constructor
  · rintro ⟨less, rfl, rfl⟩
    exact ⟨rfl, rfl, less⟩
  · rintro ⟨rfl, rfl, less⟩
    exact ⟨less, rfl, rfl⟩

theorem complains_readNumeralWithin {s : String} :
    Complains ((Text.readNumeralWithin limit s).mapError fun fault => @Misfit.badNumeral fault) c ↔
      (Raw.text s).Unconverted limit c := by
  rw [Text.readNumeralWithin]
  cases excess : Text.excess? limit s with
  | some pair =>
    exact complains_iff_of_unique (.tooLong (excess?_eq_some_iff.1 excess)) Raw.Unconverted.unique
  | none =>
    have short : ∀ most digits, ¬ Raw.TooLong limit s most digits := fun most digits long => by
      cases excess.symm.trans (excess?_eq_some_iff.2 long)
    cases read : Text.readNumeral? s with
    | some n =>
      refine iff_of_false not_complains_ok fun faulty => ?_
      cases faulty with
      | tooLong long => exact short _ _ long
      | unreadable _ none => cases none.symm.trans read
      | kind other => simp at other
    | none => exact complains_iff_of_unique (.unreadable short read) Raw.Unconverted.unique

theorem complains_numberOfField {given : Raw} :
    Complains (numberOfField limit given) c ↔ given.Unconverted limit c := by
  cases given with
  | text s => exact complains_readNumeralWithin
  | int | bool =>
    refine iff_of_false not_complains_ok fun faulty => ?_
    cases faulty with
    | kind other => simp at other
  | decimal x =>
    rw [numberOfField, Double.truncate?]
    cases finite : x.isFinite with
    | true =>
      have defined : x.isUndefined = false := by simp [Double.isUndefined, finite]
      refine iff_of_false not_complains_ok fun faulty => ?_
      cases faulty with
      | infinite infinite => cases finite.symm.trans infinite
      | undefined none => cases defined.symm.trans none
      | kind other => simp at other
    | false =>
      cases undefined : x.isUndefined with
      | true => exact complains_iff_of_unique (.undefined undefined) Raw.Unconverted.unique
      | false => exact complains_iff_of_unique (.infinite finite undefined) Raw.Unconverted.unique
  | null | array | object =>
    exact complains_iff_of_unique (.kind (by simp)) Raw.Unconverted.unique

theorem complains_keywordTag {keyword : Raw} :
    Complains (keywordTag keyword) c ↔ keyword.Untagged c := by
  cases keyword with
  | object fields =>
    rw [keywordTag]
    cases tagged : Raw.lookup "tag" fields with
    | some tag =>
      refine iff_of_false not_complains_ok fun faulty => ?_
      cases faulty with
      | object none => cases none.symm.trans tagged
      | other _ _ other => exact other fields rfl
    | none => exact complains_iff_of_unique (.object tagged) Raw.Untagged.unique
  | text s => exact complains_iff_of_unique (.text s) Raw.Untagged.unique
  | array items => exact complains_iff_of_unique (.array items) Raw.Untagged.unique
  | _ => exact complains_iff_of_unique (.other nofun nofun nofun) Raw.Untagged.unique

end

/-! ## Reading one value -/

section

variable {limit : Option Nat} {raw : Raw} {c : Complaint}

/-- A node has the tag of a value and these parts. -/
def Stands (raw : Raw) (parts : List Node) (node : Node) : Prop :=
  raw.field "tag" = .text node.tag ∧ node.parts = parts

/-- A result follows another one: it is an error for the same fault, or what it gives goes with what
the other one gives. -/
inductive Follows {α β : Type} (fits : α → β → Prop) : Except Misfit α → Except Misfit β → Prop
  | error (m : Misfit) : Follows fits (.error m) (.error m)
  | ok {a : α} {b : β} : fits a b → Follows fits (.ok a) (.ok b)

theorem ofRawWithin_of_keyword (limit : Option Nat) (h : raw.Demands .keyword) : ∃ build : Raw → Node,
    (∀ keyword, Stands raw [] (build keyword)) ∧
      ofRawWithin limit raw = (operationKeyword raw).map build := by
  obtain ⟨tag, tagged, demands⟩ := h
  obtain ⟨form, h, same⟩ := hasForm_of_tag tagged demands
  have known := h.known
  rw [h.ofRawWithin_eq]
  cases form <;> cases same
  unfold form? at known
  split at known <;> cases known
  exact ⟨(.listOperation · (rawLoc "list_operation" raw)), fun _ => ⟨tagged, rfl⟩, rfl⟩

theorem ofRawWithin_of_number (limit : Option Nat) (h : raw.Demands .number) : ∃ build : Int → Node,
    (∀ n, Stands raw [] (build n)) ∧
      ofRawWithin limit raw = (integerValue limit raw).map build := by
  obtain ⟨tag, tagged, demands⟩ := h
  obtain ⟨form, h, same⟩ := hasForm_of_tag tagged demands
  have known := h.known
  rw [h.ofRawWithin_eq]
  cases form <;> cases same
  unfold form? at known
  split at known <;> cases known
  exact ⟨(.integer · (rawLoc "integer" raw)), fun _ => ⟨tagged, rfl⟩, rfl⟩

theorem ofRawWithin_of_text (limit : Option Nat) (h : raw.Demands .text) : ∃ build : String → Node,
    (∀ s, Stands raw [] (build s)) ∧
      ofRawWithin limit raw = (sourceText raw).map build := by
  obtain ⟨tag, tagged, demands⟩ := h
  obtain ⟨form, h, same⟩ := hasForm_of_tag tagged demands
  have known := h.known
  rw [h.ofRawWithin_eq]
  cases form <;> cases same <;> unfold form? at known <;> split at known <;> cases known
  · exact ⟨fun s => .string (String.ofList (unquote s.toList)) (rawLoc "string" raw),
      fun _ => ⟨tagged, rfl⟩, rfl⟩
  · exact ⟨(.identifier · (rawLoc "identifier" raw)), fun _ => ⟨tagged, rfl⟩, rfl⟩

theorem formOf_of_ne_object (other : ∀ fields, raw ≠ .object fields) :
    formOf raw = .error (.notANode raw) := by
  cases raw with
  | object fields => exact absurd rfl (other fields)
  | _ => rfl

theorem formOf_of_not_demands {fields : List (String × Raw)}
    (unknown : ∀ d, ¬ (Raw.object fields).Demands d) :
    formOf (.object fields) = .error (.unknownTag ((Raw.object fields).field "tag")) := by
  rw [formOf]
  split
  · next tag tagged =>
    cases known : form? tag with
    | none => simp only [tagged]
    | some form =>
      exact absurd ⟨tag, tagged, by rw [demand?_eq, known]; rfl⟩ (unknown form.demand)
  · rfl

theorem ofRawWithin_of_formOf_error {m : Misfit} (bare : wrapped? raw = none)
    (failed : formOf raw = .error m) : ofRawWithin limit raw = .error m := by
  rw [ofRawWithin.eq_def]
  split
  · next found => cases bare.symm.trans found
  · rw [failed]
    rfl

/-- A faulty value is refused for its own fault. -/
theorem complains_of_isFaulty (bare : wrapped? raw = none) (faulty : raw.IsFaulty limit c) :
    Complains (ofRawWithin limit raw) c := by
  cases faulty with
  | notANode other =>
    rw [ofRawWithin_of_formOf_error bare (formOf_of_ne_object other)]
    rfl
  | unknownTag object unknown =>
    subst object
    rw [ofRawWithin_of_formOf_error bare (formOf_of_not_demands unknown)]
    rfl
  | childless demands number text none =>
    obtain ⟨tag, tagged, demands⟩ := demands
    obtain ⟨form, h, rfl⟩ := hasForm_of_tag tagged demands
    have failed := Raw.children_of_offspring?_none none
    rw [h.ofRawWithin_eq]
    cases form with
    | integer => exact absurd rfl number
    | string | identifier => exact absurd rfl text
    | keyword => rw [Form.read, operationKeyword, failed]; rfl
    | _ => rw [Form.read, failed]; rfl
  | wrongCount tagged demands some count =>
    obtain ⟨form, h, same⟩ := hasForm_of_tag tagged demands
    have found := Raw.children_of_offspring? some
    rw [h.ofRawWithin_eq]
    cases form <;> cases same <;> simp only [Form.read, found, bind, Except.bind]
    all_goals
      split
      · exact absurd rfl count
      · rfl
  | keywordCount demands some count =>
    obtain ⟨build, -, read⟩ := ofRawWithin_of_keyword limit demands
    rw [read, complains_map, operationKeyword, Raw.children_of_offspring? some]
    simp only [bind, Except.bind]
    split
    · exact absurd rfl count
    · rfl
  | untagged demands one bad =>
    obtain ⟨build, -, read⟩ := ofRawWithin_of_keyword limit demands
    rw [read, complains_map, operationKeyword, Raw.children_of_offspring? one]
    exact complains_keywordTag.2 bad
  | textless demands none =>
    obtain ⟨build, -, read⟩ := ofRawWithin_of_text limit demands
    rw [read, complains_map, sourceText, none]
    rfl
  | valueless demands none =>
    obtain ⟨build, -, read⟩ := ofRawWithin_of_number limit demands
    rw [read, complains_map, integerValue_eq, none]
    rfl
  | unconverted demands given bad =>
    obtain ⟨build, -, read⟩ := ofRawWithin_of_number limit demands
    rw [read, complains_map, integerValue_eq, given]
    exact complains_numberOfField.2 bad

theorem HasForm.follows_of_children {tag : String} {form : Form} {cs : List Raw}
    (h : HasForm raw tag form) (kids : children raw = .ok cs)
    (fits : form.demand = .children ∨ form.demand = .exactly cs.length) :
    Follows (Stands raw) (cs.mapM (ofRawWithin limit)) (ofRawWithin limit raw) := by
  have stands : ∀ nodes node, form.node? nodes (rawLoc tag raw) = some node →
      Stands raw nodes node := by
    intro nodes node whole
    obtain ⟨rfl, parts⟩ := tag_parts_of_node? h.known whole
    exact ⟨h.tagged, parts⟩
  have count : ∀ n, form.demand = .exactly n → cs.length = n := by
    intro n demands
    rcases fits with same | same
    · cases demands.symm.trans same
    · exact Demand.exactly.inj (same.symm.trans demands)
  rw [h.ofRawWithin_eq]
  cases form with
  | sequence build =>
    simp only [Form.read, kids, bind, Except.bind]
    cases cs.mapM (ofRawWithin limit) with
    | error e => exact .error e
    | ok nodes => exact .ok (stands _ _ rfl)
  | one build =>
    obtain ⟨a, rfl⟩ := List.length_eq_one_iff.1 (count 1 rfl)
    simp only [Form.read, kids, List.mapM_cons, bind, Except.bind]
    cases ofRawWithin limit a with
    | error e => exact .error e
    | ok first => exact .ok (stands _ _ rfl)
  | two build =>
    obtain ⟨a, b, rfl⟩ := List.length_eq_two.1 (count 2 rfl)
    simp only [Form.read, kids, List.mapM_cons, bind, Except.bind]
    cases ofRawWithin limit a with
    | error e => exact .error e
    | ok first =>
      cases ofRawWithin limit b with
      | error e => exact .error e
      | ok second => exact .ok (stands _ _ rfl)
  | three build =>
    obtain ⟨a, b, c, rfl⟩ := List.length_eq_three.1 (count 3 rfl)
    simp only [Form.read, kids, List.mapM_cons, bind, Except.bind]
    cases ofRawWithin limit a with
    | error e => exact .error e
    | ok first =>
      cases ofRawWithin limit b with
      | error e => exact .error e
      | ok second =>
        cases ofRawWithin limit c with
        | error e => exact .error e
        | ok third => exact .ok (stands _ _ rfl)
  | _ => rcases fits with same | same <;> cases same

theorem operationKeyword_of_isSound (sound : raw.IsSound limit) (here : raw.Demands .keyword) :
    ∃ keyword, operationKeyword raw = .ok keyword := by
  cases offspring : raw.offspring? with
  | none => exact absurd (.childless here nofun nofun offspring) (sound _)
  | some cs =>
    have one : cs.length = 1 := by
      by_contra count
      exact sound _ (.keywordCount here offspring count)
    obtain ⟨keyword, rfl⟩ := List.length_eq_one_iff.1 one
    rw [operationKeyword, Raw.children_of_offspring? offspring]
    exact exists_ok fun c bad => sound c (.untagged here offspring (complains_keywordTag.1 bad))

theorem integerValue_of_isSound (sound : raw.IsSound limit) (here : raw.Demands .number) :
    ∃ n, integerValue limit raw = .ok n := by
  rw [integerValue_eq]
  cases given : raw.numberGiven? with
  | none => exact absurd (.valueless here given) (sound _)
  | some value =>
    exact exists_ok fun c bad => sound c (.unconverted here given (complains_numberOfField.1 bad))

theorem sourceText_of_isSound (sound : raw.IsSound limit) (here : raw.Demands .text)
    (text : raw.TextIsText) : ∃ s, sourceText raw = .ok s := by
  rw [sourceText]
  cases given : raw.field? "text" with
  | none => exact absurd (.textless here given) (sound _)
  | some value =>
    obtain ⟨s, rfl⟩ := text here value given
    exact ⟨s, rfl⟩

/-- A sound value is read when the children that are entered are, and is refused for the fault of
theirs. -/
theorem follows_of_isSound (sound : raw.IsSound limit) (text : raw.TextIsText) :
    Follows (Stands raw) (raw.entered.mapM (ofRawWithin limit)) (ofRawWithin limit raw) := by
  by_cases known : ∃ d, raw.Demands d
  · obtain ⟨d, tag, tagged, demands⟩ := known
    have here : raw.Demands d := ⟨tag, tagged, demands⟩
    rw [Raw.entered_eq tagged demands]
    cases d with
    | children | exactly n =>
      cases offspring : raw.offspring? with
      | none => exact absurd (.childless here nofun nofun offspring) (sound _)
      | some cs =>
        obtain ⟨form, h, same⟩ := hasForm_of_tag tagged demands
        refine h.follows_of_children (Raw.children_of_offspring? offspring) ?_
        first
        | exact .inl same
        | refine .inr (same.trans ?_)
          by_contra count
          refine sound _ (.wrongCount tagged demands offspring ?_)
          rintro rfl
          exact count rfl
    | keyword =>
      obtain ⟨build, stands, read⟩ := ofRawWithin_of_keyword limit here
      obtain ⟨keyword, found⟩ := operationKeyword_of_isSound sound here
      rw [read, found]
      exact .ok (stands keyword)
    | number =>
      obtain ⟨build, stands, read⟩ := ofRawWithin_of_number limit here
      obtain ⟨n, found⟩ := integerValue_of_isSound sound here
      rw [read, found]
      exact .ok (stands n)
    | text =>
      obtain ⟨build, stands, read⟩ := ofRawWithin_of_text limit here
      obtain ⟨s, found⟩ := sourceText_of_isSound sound here text
      rw [read, found]
      exact .ok (stands s)
  · cases raw with
    | object fields => exact absurd (.unknownTag rfl (not_exists.1 known)) (sound _)
    | _ => exact absurd (.notANode nofun) (sound _)

end

/-! ## Reading a tree -/

/-- A tree has one node for each value visited, in the same nesting and order: a node with the tag
of the value, and its parts for the children. -/
inductive Mirrors : Raw → Node → Prop
  | intro {raw : Raw} {node : Node} : raw.unwrapped.field "tag" = .text node.tag →
    List.Forall₂ Mirrors raw.unwrapped.entered node.parts → Mirrors raw node

/-- A result goes with values in the order in which they are visited: it is the first fault of them,
or there is none and what has been read fits. -/
structure Reports (limit : Option Nat) {α : Type} (values : List Raw) (fits : α → Prop)
    (result : Except Misfit α) : Prop where
  error : ∀ c, Complains result c ↔ Raw.FirstFault limit values c
  ok : ∀ a, result = .ok a → (∀ value ∈ values, value.IsSound limit) ∧ fits a

section

variable {limit : Option Nat} {α β : Type} {values front : List Raw} {fits : α → Prop}
  {result : Except Misfit α}

theorem Reports.behind (h : Reports limit values fits result)
    (sound : ∀ value ∈ front, value.IsSound limit) :
    Reports limit (front ++ values) fits result where
  error c := by
    rw [h.error, Raw.firstFault_append]
    exact ⟨fun fault => .inr ⟨sound, fault⟩,
      fun fault => fault.elim (absurd · (Raw.not_firstFault_of_sound sound)) And.right⟩
  ok a read := by
    obtain ⟨later, fit⟩ := h.ok a read
    exact ⟨List.forall_mem_append.2 ⟨sound, later⟩, fit⟩

theorem Reports.follows {fits' : β → Prop} {result' : Except Misfit β} {R : α → β → Prop}
    (h : Reports limit values fits result) (next : Follows R result result')
    (keeps : ∀ a b, R a b → fits a → fits' b) : Reports limit values fits' result' := by
  cases next with
  | error m =>
    exact ⟨fun c => complains_error.trans (complains_error.symm.trans (h.error c)), nofun⟩
  | @ok a b related =>
    obtain ⟨sound, fit⟩ := h.ok a rfl
    refine ⟨fun c => ⟨nofun, fun fault => nomatch (h.error c).2 fault⟩, fun other read => ?_⟩
    cases read
    exact ⟨sound, keeps a b related fit⟩

theorem Reports.of_error {m : Misfit} {others : List Raw}
    (h : Reports limit values fits (.error m)) :
    Reports limit (values ++ others) fits (.error m) where
  error c := by
    rw [h.error, Raw.firstFault_append]
    refine ⟨.inl, fun fault => fault.resolve_right fun ⟨sound, _⟩ => ?_⟩
    exact Raw.not_firstFault_of_sound sound ((h.error m.complaint).1 rfl)
  ok := nofun

end

theorem reports_mapM {limit : Option Nat} {cs : List Raw}
    (each : ∀ c ∈ cs, Reports limit c.visited (Mirrors c) (ofRawWithin limit c)) :
    Reports limit (cs.flatMap Raw.visited) (List.Forall₂ Mirrors cs)
      (cs.mapM (ofRawWithin limit)) := by
  induction cs with
  | nil =>
    refine ⟨fun c => ⟨nofun, fun fault => ?_⟩, fun nodes read => ?_⟩
    · exact absurd fault (Raw.not_firstFault_of_sound (List.forall_mem_nil _))
    · cases read
      exact ⟨List.forall_mem_nil _, .nil⟩
  | cons c cs ih =>
    obtain ⟨here, later⟩ := List.forall_mem_cons.1 each
    rw [List.mapM_cons, List.flatMap_cons]
    cases read : ofRawWithin limit c with
    | error e =>
      -- The walk ends here: what is visited after this child is never looked at.
      rw [read] at here
      exact here.of_error.follows (.error e) (R := fun _ _ => False) nofun
    | ok node =>
      obtain ⟨sound, mirrors⟩ := here.ok node read
      refine ((ih later).behind sound).follows (R := fun nodes all => all = node :: nodes) ?_ ?_
      · cases cs.mapM (ofRawWithin limit) with
        | error e => exact .error e
        | ok nodes => exact .ok rfl
      · rintro nodes _ rfl fit
        exact .cons mirrors fit

/-- Reading goes the way of the visit: by the nesting of raw data, a faulty value ends it at once,
and a sound one leaves it to the children. -/
theorem reports_ofRawWithin (limit : Option Nat) (raw : Raw)
    (texts : ∀ value ∈ raw.visited, value.TextIsText) :
    Reports limit raw.visited (Mirrors raw) (ofRawWithin limit raw) := by
  obtain ⟨bare, low, same⟩ := Raw.unwrapped_spec raw
  rw [Raw.visited_eq, List.forall_mem_cons] at texts
  obtain ⟨text, texts⟩ := texts
  rw [Raw.visited_eq, same]
  -- The value has been checked before any child is read, so its own fault comes first.
  by_cases sound : raw.unwrapped.IsSound limit
  · have children : Reports limit _ _ _ := reports_mapM fun c mem =>
      reports_ofRawWithin limit c fun value seen => texts value (List.mem_flatMap.2 ⟨c, mem, seen⟩)
    have front : ∀ value ∈ [raw.unwrapped], value.IsSound limit := by simpa using sound
    refine (children.behind front).follows (follows_of_isSound sound text) ?_
    rintro nodes node ⟨tag, rfl⟩ fit
    exact .intro tag fit
  · obtain ⟨c, fault⟩ := not_forall_not.1 sound
    have refused := complains_of_isFaulty bare fault
    refine ⟨fun c' => ⟨fun h => ?_, fun first => ?_⟩, fun node read => ?_⟩
    · cases refused.symm.trans h
      exact Raw.firstFault_cons.2 (.inl fault)
    · rcases Raw.firstFault_cons.1 first with fault | ⟨here, -⟩
      · exact complains_of_isFaulty bare fault
      · exact absurd here sound
    · rw [read] at refused
      cases refused
termination_by raw.height
decreasing_by exact (Raw.height_lt_of_mem_entered ‹_›).trans_le low

/-- Raw data is refused if and only if a value visited in it is faulty, and then with the kind of
error and the text that the first faulty one calls for; otherwise the tree has one node for each
value visited. -/
theorem ofRawWithin_reports_first_fault (limit : Option Nat) {raw : Raw}
    (texts : ∀ value ∈ raw.visited, value.TextIsText) :
    ((∃ m, ofRawWithin limit raw = .error m) ↔ ∃ value ∈ raw.visited, ∃ c, value.IsFaulty limit c) ∧
    (∀ c, (ofRawWithin limit raw).mapError Misfit.complaint = .error c ↔
      Raw.FirstFault limit raw.visited c) ∧
    ((∀ value ∈ raw.visited, value.IsSound limit) →
      ∃ node, ofRawWithin limit raw = .ok node ∧ Mirrors raw node) := by
  have reports := reports_ofRawWithin limit raw texts
  refine ⟨⟨?_, ?_⟩, reports.error, ?_⟩
  · rintro ⟨m, refused⟩
    have said : Complains (ofRawWithin limit raw) m.complaint := by rw [refused]; rfl
    obtain ⟨before, faulty, after, split, -, fault⟩ := (reports.error _).1 said
    exact ⟨faulty, by simp [split], _, fault⟩
  · intro faulty
    obtain ⟨c, first⟩ := Raw.exists_firstFault faulty
    have said := (reports.error c).2 first
    cases read : ofRawWithin limit raw with
    | error m => exact ⟨m, rfl⟩
    | ok node =>
      rw [read] at said
      cases said
  · intro sound
    obtain ⟨node, read⟩ := exists_ok fun c said =>
      Raw.not_firstFault_of_sound sound ((reports.error c).1 said)
    exact ⟨node, read, (reports.ok node read).2⟩

/-! ## Two numerals that do not convert -/

/-- An integer node with a numeral that ends in an underscore. -/
def openNumeral (digit : String) : Raw :=
  .object [("tag", .text "integer"), ("text", .text (digit ++ "_"))]

def nestedNode : Raw :=
  .object [("tag", .text "expression"), ("children", .array [.null, openNumeral "1"])]

def spelledNode : Raw := .object [("tag", .text "value"), ("children", .text "é")]

/-- A root with its children under keys: a wrapped one, a null, one with a character for a child
and another open numeral. -/
def keyedNode : Raw :=
  .object [("tag", .text "root"), ("children", .object [("z", .object [("ast", nestedNode)]),
    ("n", .null), ("b", spelledNode), ("a", openNumeral "2")])]

theorem visited_keyedNode : keyedNode.visited =
    [keyedNode, nestedNode, openNumeral "1", spelledNode, .text "é", openNumeral "2"] := by
  have plain {raw : Raw} (cs : List Raw) (bare : wrapped? raw = none) (entered : raw.entered = cs) :
      raw.visited = raw :: cs.flatMap Raw.visited := by
    rw [Raw.visited_eq, Raw.unwrapped_of_wrapped?_none bare, entered]
  have letter : (Raw.text "é").visited = [.text "é"] := plain [] rfl rfl
  have numeral (digit : String) : (openNumeral digit).visited = [openNumeral digit] :=
    plain [] rfl rfl
  have spelled : spelledNode.visited = [spelledNode, .text "é"] := by
    rw [plain [.text "é"] rfl rfl, List.flatMap_singleton, letter]
  have nested : nestedNode.visited = [nestedNode, openNumeral "1"] := by
    rw [plain [openNumeral "1"] rfl rfl, List.flatMap_singleton, numeral]
  have wrapper : (Raw.object [("ast", nestedNode)]).visited = nestedNode.visited := by
    have inside : wrapped? (.object [("ast", nestedNode)]) = some nestedNode := rfl
    rw [Raw.visited_eq, Raw.unwrapped_of_wrapped? inside, ← Raw.visited_eq]
  rw [plain [.object [("ast", nestedNode)], spelledNode, openNumeral "2"] rfl rfl]
  simp only [List.flatMap_cons, List.flatMap_nil, wrapper, nested, spelled, numeral]
  rfl

/-- Of the three faults the numeral below the wrapper is told, not the character or the other
numeral. -/
theorem ofRawWithin_reports_first_fault_keyedNode :
    (∀ value ∈ keyedNode.visited, value.TextIsText) ∧
    (ofRawWithin Text.digitLimit keyedNode).mapError Misfit.complaint =
      .error ⟨"ValueError", "invalid literal for int() with base 10: '1_'"⟩ := by
  have texts : ∀ value ∈ keyedNode.visited, value.TextIsText := by
    have other : ∀ {raw : Raw} {tag : String} {d : Demand}, raw.field "tag" = .text tag →
        demand? tag = some d → d ≠ .text → raw.TextIsText := by
      rintro raw tag d tagged demands apart ⟨tag', tagged', demands'⟩
      cases tagged.symm.trans tagged'
      exact absurd (Option.some.inj (demands.symm.trans demands')) apart
    have letter : (Raw.text "é").TextIsText := by
      rintro ⟨tag, tagged, -⟩
      cases tagged
    rw [visited_keyedNode]
    simp only [List.forall_mem_cons]
    exact ⟨other rfl rfl nofun, other rfl rfl nofun, other rfl rfl nofun, other rfl rfl nofun,
      letter, other rfl rfl nofun, List.forall_mem_nil _⟩
  have unread : (Raw.text "1_").Unconverted Text.digitLimit
      ⟨"ValueError", "invalid literal for int() with base 10: '1_'"⟩ := by
    have short : ∀ most digits, ¬ Raw.TooLong Text.digitLimit "1_" most digits := by
      rintro most digits ⟨-, count, -⟩
      have none : Text.digitCount? "1_" = none := by decide
      cases none.symm.trans count
    exact .unreadable short (by decide)
  refine ⟨texts, ((ofRawWithin_reports_first_fault _ texts).2.1 _).2 ?_⟩
  rw [visited_keyedNode]
  refine ⟨[keyedNode, nestedNode], openNumeral "1", [spelledNode, .text "é", openNumeral "2"], rfl,
    ?_, .unconverted ⟨"integer", rfl, rfl⟩ rfl unread⟩
  simp only [List.forall_mem_cons]
  exact ⟨Raw.isSound_of_offspring? rfl rfl rfl (.inl rfl),
    Raw.isSound_of_offspring? rfl rfl rfl (.inr rfl), List.forall_mem_nil _⟩

end Node

end AliasScript

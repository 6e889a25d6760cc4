import AliasScript.Proofs.Laid
import AliasScript.Proofs.Progress

/-!
# The caret under a failing statement

The message on a failure ends with a display line of the source and a caret under a column of it.
The place of the statement counts lines by newlines, and the display lines end at other breaks too
(`Text.isLineBreak`). There are never fewer display lines (`Text.line_le_length_displayLines`), so
the message always has its line. As long as the text up to the end of the statement has no other
breaks than newlines (`Text.Ordinary`), the two counts agree and the line goes on from the caret
with the statement (`Text.shown_from_place`, `Runner.caret_of_failure`).
-/

namespace AliasScript

namespace Text

variable {c : Char} {cs front back rest : List Char}

/-- Every line break of a text is a newline or a carriage return in front of one. -/
def Ordinary (cs : List Char) : Prop :=
  ∀ front c back, cs = front ++ c :: back → isLineBreak c = true →
    c = '\n' ∨ c = '\r' ∧ back.head? = some '\n'

theorem ordinary_of_newlines (h : ∀ c ∈ cs, isLineBreak c = true → c = '\n') : Ordinary cs := by
  rintro front c back rfl breaks
  exact .inl (h c (by simp) breaks)

theorem Ordinary.tail (h : Ordinary (c :: cs)) : Ordinary cs := fun front d back split =>
  h (c :: front) d back (congrArg (c :: ·) split)

theorem Ordinary.of_append (h : Ordinary (front ++ back)) : Ordinary back := by
  induction front with
  | nil => exact h
  | cons c front ih => exact ih h.tail

theorem Ordinary.not_isLineBreak (h : Ordinary cs) (free : '\n' ∉ cs) :
    ∀ c ∈ cs, isLineBreak c = false := by
  intro c mem
  obtain ⟨front, back, rfl⟩ := List.append_of_mem mem
  by_contra breaks
  rcases h front c back rfl (eq_true_of_ne_false breaks) with rfl | ⟨-, next⟩
  · exact free mem
  · have : '\n' ∈ back := List.mem_of_mem_head? next
    simp [this] at free

/-! ## Display lines -/

theorem displayLines_return_newline (rest : List Char) :
    displayLines ('\r' :: '\n' :: rest) = [] :: displayLines rest := rfl

theorem displayLines_cons (apart : ¬ (c = '\r' ∧ cs.head? = some '\n')) :
    displayLines (c :: cs) =
      if isLineBreak c then [] :: displayLines cs else consLine c (displayLines cs) := by
  rw [displayLines.eq_def]
  split
  · next same => cases same
  · next same =>
    cases same
    exact absurd ⟨rfl, rfl⟩ apart
  · next same =>
    cases same
    rfl

theorem displayLines_of_break (breaks : isLineBreak c = true)
    (apart : ¬ (c = '\r' ∧ cs.head? = some '\n')) :
    displayLines (c :: cs) = [] :: displayLines cs := by
  rw [displayLines_cons apart, if_pos breaks]

theorem displayLines_of_not_break (same : isLineBreak c = false) :
    displayLines (c :: cs) = consLine c (displayLines cs) := by
  rw [displayLines_cons, same, if_neg Bool.false_ne_true]
  rintro ⟨rfl, -⟩
  exact absurd same (by decide)

theorem displayLines_return (next : cs.head? = some '\n') :
    displayLines ('\r' :: cs) = displayLines cs := by
  obtain ⟨rest, rfl⟩ : ∃ rest, cs = '\n' :: rest := List.head?_eq_some_iff.1 next
  rw [displayLines_return_newline, displayLines_of_break (by decide) (by simp)]

theorem consLine_ne_nil (c : Char) (lines : List (List Char)) : consLine c lines ≠ [] := by
  cases lines <;> simp [consLine]

theorem length_consLine (c : Char) {lines : List (List Char)} (some : lines ≠ []) :
    (consLine c lines).length = lines.length := by
  cases lines with
  | nil => exact absurd rfl some
  | cons line lines => rfl

theorem displayLines_ne_nil (nonempty : cs ≠ []) : displayLines cs ≠ [] := by
  cases cs with
  | nil => exact absurd rfl nonempty
  | cons c cs =>
    by_cases pair : c = '\r' ∧ cs.head? = some '\n'
    · obtain ⟨rfl, next⟩ := pair
      obtain ⟨rest, rfl⟩ := List.head?_eq_some_iff.1 next
      simp [displayLines_return_newline]
    · cases breaks : isLineBreak c with
      | true => simp [displayLines_of_break breaks pair]
      | false => exact displayLines_of_not_break breaks ▸ consLine_ne_nil c _

theorem not_isLineBreak_of_mem_displayLines (cs : List Char) :
    ∀ line ∈ displayLines cs, ∀ c ∈ line, isLineBreak c = false := by
  fun_induction displayLines cs with
  | case1 => simp
  | case2 rest ih => simpa using ih
  | case3 c rest _ breaks ih => simpa using ih
  | case4 c rest _ same ih =>
    have inside : isLineBreak c = false := eq_false_of_ne_true same
    cases lines : displayLines rest with
    | nil => simpa [consLine] using inside
    | cons first others =>
      rw [lines] at ih
      simpa [consLine, inside] using ih

/-- A text has at least as many display lines as the place of any of its characters says. -/
theorem line_le_length_displayLines (front : List Char) (nonempty : back ≠ []) :
    (place front).1 ≤ (displayLines (front ++ back)).length := by
  show front.count '\n' + 1 ≤ _
  induction front with
  | nil => exact List.length_pos_iff.2 (displayLines_ne_nil nonempty)
  | cons c front ih =>
    have more : front ++ back ≠ [] := by simp [nonempty]
    rw [List.cons_append, List.count_cons]
    by_cases pair : c = '\r' ∧ (front ++ back).head? = some '\n'
    · obtain ⟨rfl, next⟩ := pair
      rw [displayLines_return next]
      exact ih
    · cases breaks : isLineBreak c with
      | true =>
        rw [displayLines_of_break breaks pair, List.length_cons]
        split <;> omega
      | false =>
        have other : c ≠ '\n' := by
          rintro rfl
          cases breaks
        rw [displayLines_of_not_break breaks, length_consLine c (displayLines_ne_nil more)]
        simpa [other] using ih

/-- An ordinary text that ends with a newline has as many display lines as newlines, whatever stands
behind it. -/
theorem Ordinary.exists_lines (h : Ordinary (front ++ '\n' :: rest)) :
    ∃ lines : List (List Char), lines.length = front.count '\n' + 1 ∧
      ∀ back, displayLines (front ++ '\n' :: back) = lines ++ displayLines back := by
  induction front with
  | nil => exact ⟨[[]], rfl, fun back => displayLines_of_break (by decide) (by simp)⟩
  | cons c front ih =>
    obtain ⟨lines, length, known⟩ := ih h.tail
    cases breaks : isLineBreak c with
    | true =>
      rcases h [] c _ rfl breaks with rfl | ⟨rfl, follows⟩
      · refine ⟨[] :: lines, by simp [length], fun back => ?_⟩
        rw [List.cons_append, displayLines_of_break breaks (by simp), known]
        rfl
      · refine ⟨lines, by simp [length], fun back => ?_⟩
        have next : (front ++ '\n' :: back).head? = some '\n' := by
          cases front with
          | nil => rfl
          | cons => exact follows
        rw [List.cons_append, displayLines_return next, known]
    | false =>
      have other : c ≠ '\n' := by
        rintro rfl
        cases breaks
      cases lines with
      | nil => simp at length
      | cons first others =>
        refine ⟨(c :: first) :: others, by simpa [other] using length, fun back => ?_⟩
        rw [List.cons_append, displayLines_of_not_break breaks, known]
        rfl

theorem exists_displayLines_append (nonempty : front ≠ [])
    (free : ∀ c ∈ front, isLineBreak c = false) (back : List Char) :
    ∃ line lines, displayLines (front ++ back) = (front ++ line) :: lines := by
  induction front with
  | nil => exact absurd rfl nonempty
  | cons c front ih =>
    obtain ⟨same, free⟩ := List.forall_mem_cons.1 free
    rw [List.cons_append, displayLines_of_not_break same]
    rcases front with _ | ⟨d, front⟩
    · cases displayLines ([] ++ back) with
      | nil => exact ⟨[], [], rfl⟩
      | cons first others => exact ⟨first, others, rfl⟩
    · obtain ⟨line, lines, known⟩ := ih (List.cons_ne_nil _ _) free
      exact ⟨line, lines, by rw [known]; rfl⟩

/-! ## Places and display lines -/

theorem exists_line (front : List Char) : ∃ above inLine, front = above ++ inLine ∧
    (above = [] ∨ ∃ lines, above = lines ++ ['\n']) ∧ '\n' ∉ inLine ∧
    place front = (above.count '\n' + 1, inLine.length + 1) := by
  induction front using List.reverseRecOn with
  | nil => exact ⟨[], [], rfl, .inl rfl, List.not_mem_nil, rfl⟩
  | append_singleton front c ih =>
    obtain ⟨above, inLine, rfl, ends, free, here⟩ := ih
    obtain ⟨lines, columns⟩ := Prod.mk.inj here
    by_cases newline : c = '\n'
    · subst newline
      refine ⟨above ++ inLine ++ ['\n'], [], by simp, .inr ⟨_, rfl⟩, List.not_mem_nil, ?_⟩
      simp [place]
    · refine ⟨above, inLine ++ [c], by simp, ends, by simpa [Ne.symm newline] using free, ?_⟩
      refine Prod.ext ?_ ?_
      · simpa [place, newline] using lines
      · simpa [place, newline] using columns

/-- There is a display line at the place of a text that stands in one line. If all breaks up to the
end of that text are newlines, the display line goes on with it from its column. -/
theorem exists_shown {written : List Char} (nonempty : written ≠ []) (free : '\n' ∉ written)
    (front back : List Char) :
    ∃ line, (displayLines (front ++ written ++ back))[(place front).1 - 1]? = some line ∧
      (Ordinary (front ++ written) → written <+: line.drop ((place front).2 - 1)) := by
  have positive : 0 < (place front).1 := Nat.succ_pos _
  have enough : (place front).1 ≤ (displayLines (front ++ written ++ back)).length := by
    rw [List.append_assoc]
    exact line_le_length_displayLines front (by simp [nonempty])
  obtain ⟨shown, there⟩ : ∃ line,
      (displayLines (front ++ written ++ back))[(place front).1 - 1]? = some line :=
    ⟨_, List.getElem?_eq_getElem (by omega)⟩
  refine ⟨shown, there, fun h => ?_⟩
  obtain ⟨above, inLine, rfl, ends, inside, here⟩ := exists_line front
  have plain : ∀ c ∈ inLine ++ written, isLineBreak c = false := by
    rw [List.append_assoc] at h
    exact h.of_append.not_isLineBreak (by simp [inside, free])
  obtain ⟨line, others, known⟩ := exists_displayLines_append (by simp [nonempty]) plain back
  rw [here] at there ⊢
  suffices same : (displayLines (above ++ inLine ++ written ++ back))[above.count '\n']? =
      some (inLine ++ written ++ line) by
    cases there.symm.trans same
    simp
  rcases ends with rfl | ⟨lines, rfl⟩
  · rw [List.nil_append, known]
    rfl
  · have ordinary : Ordinary (lines ++ '\n' :: (inLine ++ written)) := by simpa using h
    obtain ⟨above, length, all⟩ := ordinary.exists_lines
    have whole : lines ++ ['\n'] ++ inLine ++ written ++ back =
        lines ++ '\n' :: (inLine ++ written ++ back) := by simp
    rw [whole, all, known, List.count_append]
    simp [length]

theorem take_append_slice {i j : Nat} (le : i ≤ j) (cs : List Char) :
    cs.take i ++ slice cs i j = cs.take j := by
  rw [slice, ← List.take_add, Nat.add_sub_cancel' le]

end Text

/-! ## The text of a statement -/

namespace Grammar

open Text

variable {cs : List Char} {i : Nat} {c d : Cursor} {node : Node}

theorem exists_lineEnd (cs : List Char) :
    ∃ line rs, cs = line ++ rs ∧ '\n' ∉ line ∧ LineEnd rs := by
  induction cs with
  | nil => exact ⟨[], [], rfl, List.not_mem_nil, .last⟩
  | cons c cs ih =>
    by_cases newline : c = '\n'
    · exact ⟨[], c :: cs, rfl, List.not_mem_nil, newline ▸ .newline cs⟩
    · obtain ⟨line, rs, rfl, free, ends⟩ := ih
      exact ⟨c :: line, rs, rfl, by simpa [Ne.symm newline] using free, ends⟩

theorem text_of_expressionNode (read : expressionNode c = some (node, d)) {text : List Char}
    (taken : c.rest = text ++ d.rest) : text ≠ [] ∧ '\n' ∉ text := by
  obtain ⟨line, col, rest⟩ := c
  obtain ⟨front, rs, rfl, free, ends⟩ := exists_lineEnd rest
  have lowered : (⟨line, col, front ++ rs⟩ : Cursor) = Cursor.lowered 0 rs ⟨line, col, front⟩ := rfl
  rw [lowered] at read
  rcases reads_or_none (c := ⟨line, col, front⟩) free with ⟨first, e, reads⟩ | ⟨-, unread⟩
  · rw [reads.lowered 0 rs ends] at read
    cases read
    have inLine : front = text ++ e.rest := by
      change front ++ rs = text ++ (e.rest ++ rs) at taken
      exact List.append_cancel_right (taken.trans (List.append_assoc ..).symm)
    refine ⟨?_, fun mem => free (inLine ▸ List.mem_append_left _ mem)⟩
    rintro rfl
    exact absurd reads.shorter (inLine ▸ Nat.lt_irrefl _)
  · rw [unread 0 rs ends] at read
    cases read

theorem exists_lies_of_mem_statements (here : Cursor.At cs i c) (mem : node ∈ (statements c).1) :
    ∃ a b, node.Lies cs a b ∧ node.written ≠ [] ∧ '\n' ∉ node.written := by
  induction c using statements.induct generalizing i with
  | case1 c none =>
    rw [statements_of_none none] at mem
    cases mem
  | case2 c first d found shorter _ _ _ ih =>
    rw [statements_of_some found shorter] at mem
    rw [statement_eq] at found
    obtain ⟨⟨first, e⟩, read, same⟩ := Option.map_eq_some_iff.1 found
    cases same
    obtain ⟨j, there, lies⟩ := covers_expressionNode i c here first e read
    rcases List.mem_cons.1 mem with rfl | mem
    · refine ⟨i, j, lies, ?_⟩
      rw [lies.written]
      exact text_of_expressionNode read (here.rest_eq there lies.le)
    · obtain ⟨k, -, behind⟩ := at_settle there
      exact ih behind mem
  | case3 c first d found stuck =>
    rw [statements_of_stuck found stuck] at mem
    cases mem

end Grammar

theorem Node.exists_lies_of_mem_statementsOf {source : String} {node : Node}
    (mem : node ∈ statementsOf source) :
    ∃ i j, node.Lies source.toList i j ∧ node.written ≠ [] ∧ '\n' ∉ node.written := by
  obtain ⟨k, -, settled⟩ := Grammar.at_settle (Cursor.At.start source.toList)
  exact Grammar.exists_lies_of_mem_statements settled mem

/-! ## Messages -/

/-- The two lines that a message ends with: a line of the source and a caret under a column. -/
def Report.pointing (line : List Char) (col : Int) : String :=
  String.ofList (line ++ '\n' :: List.replicate (col - 1).toNat ' ' ++ ['^'])

theorem Report.failureMessage_of_getElem? {source : String} (f : Failure) {loc : Loc} {line : Nat}
    {shown : List Char} (at? : loc.line = line) (positive : 0 < line)
    (known : (Text.displayLines source.toList)[line - 1]? = some shown) :
    failureMessage source f (some loc) =
      f.title ++ ": " ++ f.message ++ "\n" ++ pointing shown loc.col := by
  have inside := (List.getElem?_eq_some_iff.1 known).1
  have index : ((line : Int) - 1).toNat = line - 1 := by omega
  have context : sourceContext source loc.line loc.col = pointing shown loc.col := by
    rw [sourceContext, at?, if_pos ⟨by omega, by omega⟩, index, List.getD_eq_getElem?_getD, known]
    rfl
  have told : pointing shown loc.col ≠ "" := fun none => by
    have := congrArg String.toList none
    simp [pointing] at this
  simp only [failureMessage, Option.map_some, Option.getD_some, context, if_neg told]

namespace Runner

variable {hosts : Hosts}

/-- A script that fails at a statement says what is wrong and shows a display line of the source and
a caret below it. If the text up to the end of the statement breaks its lines at newlines only, the
display line goes on from the caret with the text of the statement. -/
theorem caret_of_failure (discreet : hosts.Discreet) {r after : Runner} {source : String} {root : Node}
    (program : Node.ofSource source = .ok root) {report : Report}
    (run : r.run hosts source = (.ok report, after)) (failed : report.status = .error) :
    ∃ front node rest said m f stopped, ∃ (loc : Loc) (shown : List Char),
      Node.statementsOf source = front ++ node :: rest ∧
      Runs hosts front (begun r.machine) said m ∧ node.Fails hosts m (.failure f) stopped ∧
      node.loc = some loc ∧ report.token = loc.raw ∧
      report.message = some (f.title ++ ": " ++ f.message ++ "\n" ++ Report.pointing shown loc.col) ∧
      (Text.displayLines source.toList)[(loc.line - 1).toNat]? = some shown ∧
      (∀ c ∈ shown, Text.isLineBreak c = false) ∧
      ∃ i j, node.span? source.toList = some (i, j) ∧ node.written ≠ [] ∧
        (Text.Ordinary (source.toList.take j) → node.written <+: shown.drop (loc.col - 1).toNat) := by
  rcases (run_up_to_failure discreet run).2 root program with
    ⟨said, ret, m, -, rfl, -⟩ |
    ⟨front, node, rest, said, m, f, stopped, loc, message, split, runs, fails, place, rfl, rfl, -⟩
  · cases failed
  · have mem : node ∈ Node.statementsOf source := by simp [split]
    obtain ⟨i, j, lies, nonempty, free⟩ := Node.exists_lies_of_mem_statementsOf mem
    have span := lies.span?
    have written := lies.written
    obtain ⟨le, inside, at?, -⟩ := lies
    cases place.symm.trans at?
    have upTo : source.toList.take i ++ node.written = source.toList.take j :=
      written ▸ Text.take_append_slice le source.toList
    obtain ⟨shown, known, goes⟩ :=
      Text.exists_shown nonempty free (source.toList.take i) (source.toList.drop j)
    rw [upTo, List.take_append_drop] at known
    rw [upTo] at goes
    refine ⟨front, node, rest, said, m, f, stopped, _, shown, split, runs, fails, place, rfl, ?_, ?_,
      Text.not_isLineBreak_of_mem_displayLines _ _ (List.mem_of_getElem? known), i, j, span,
      nonempty, fun ordinary => ?_⟩
    · exact congrArg some (Report.failureMessage_of_getElem? f rfl (Nat.succ_pos _) known)
    · have index : (((Text.place (source.toList.take i)).1 : Int) - 1).toNat =
          (Text.place (source.toList.take i)).1 - 1 := by omega
      exact index ▸ known
    · have column : (((Text.place (source.toList.take i)).2 : Int) - 1).toNat =
          (Text.place (source.toList.take i)).2 - 1 := by omega
      exact column ▸ goes ordinary

/-- The caret in the message on the second statement of the greeting points at its text. -/
theorem caret_of_failure_greeting : Hosts.Discreet Console.noHosts ∧
    (∃ root, Node.ofSource "write \"hi\"\nx y" = .ok root) ∧
    ∃ (report : Report) (after : Runner),
      (fresh true).run Console.noHosts "write \"hi\"\nx y" = (.ok report, after) ∧
      report.status = .error ∧ ∃ node shown i j, ∃ loc : Loc,
        node ∈ greetingNodes ∧ report.token = loc.raw ∧
        node.span? "write \"hi\"\nx y".toList = some (i, j) ∧
        Text.Ordinary ("write \"hi\"\nx y".toList.take j) ∧
        node.written <+: List.drop (loc.col - 1).toNat shown := by
  obtain ⟨after, run⟩ := run_greeting
  refine ⟨discreet_noHosts, ⟨_, ofSource_greeting⟩, _, after, run, rfl, ?_⟩
  obtain ⟨front, node, rest, said, m, f, stopped, loc, shown, split, -, -, -, token, -, -, -, i,
      j, span, -, goes⟩ := caret_of_failure discreet_noHosts ofSource_greeting run rfl
  have newlines : ∀ c ∈ "write \"hi\"\nx y".toList, Text.isLineBreak c = true → c = '\n' := by
    simp [Text.isLineBreak]
  have ordinary : Text.Ordinary ("write \"hi\"\nx y".toList.take j) :=
    Text.ordinary_of_newlines fun c mem => newlines c (List.mem_of_mem_take mem)
  exact ⟨node, shown, i, j, loc, by simp [← statementsOf_greeting, split], token, span, ordinary,
    goes ordinary⟩

def pageBreakSource : String := "\x0cx y"

theorem run_pageBreak : ∃ after, (fresh true).run Console.noHosts pageBreakSource =
    (.ok ⟨.error, .nothing,
      some ("UnboundVariable: I do not know of anything called x.\n" ++ Report.pointing [] 2),
      (Loc.mk 1 2 "expression" (.text "x y")).raw,
      [⟨.stderr, "UnboundVariable: I do not know of anything called x.\n" ++
        Report.pointing [] 2⟩]⟩, after) := by
  let at? (col : Int) (tag text : String) : Option Loc := some ⟨1, col, tag, .text text⟩
  let call : Node := .expression (.invocation (.identifier "x" (at? 2 "identifier" "x"))
    (.value (.variable (.scalar (.identifier "y" (at? 4 "identifier" "y"))
      (at? 4 "scalar" "y")) (at? 4 "variable" "y")) (at? 4 "value" "y"))
    (at? 2 "invocation" "x y")) (at? 2 "expression" "x y")
  have first : Grammar.statement ⟨1, 2, "x y".toList⟩ = some (call, ⟨1, 5, []⟩) := rfl
  have last : Grammar.statement ⟨1, 5, []⟩ = none := rfl
  have read := Grammar.statements_of_some first (by decide)
  rw [Grammar.statements_of_none last] at read
  have program := Node.ofSource_of_statements pageBreakSource read rfl rfl
  have run : ∃ after, after.statement = call.loc ∧ after.effects = [] ∧
      runSequence Console.noHosts [call] (.done .nothing) (begun (fresh true).machine) =
        (.error (.failure (.unboundVariable "x")), after) := by
    refine ⟨?after, ?statement, ?effects, ?run⟩
    case run =>
      rw [runSequence, act_bind_ok (show begin _ _ = (.ok (), _) from rfl)]
      apply act_bind_error
      rw [interpret, interpret_invocation_of_error (functionNamed_of_unbound rfl)]
    case statement => rfl
    case effects => rfl
  obtain ⟨after, statement, effects, run⟩ := run
  rw [Runner.run, parse_of_ok program,
    runProgram_error ((interpret_root Console.noHosts [call] _ _).trans run),
    conclude, statement, effects]
  exact ⟨_, rfl⟩

/-- The page break ends a display line and no line of a place, so the caret stands under an empty
line and not at the text of the statement. -/
theorem not_caret_of_pageBreak : ∃ (report : Report) (after : Runner),
    (fresh true).run Console.noHosts pageBreakSource = (.ok report, after) ∧
    report.status = .error ∧ report.token = (Loc.mk 1 2 "expression" (.text "x y")).raw ∧
    report.message =
      some ("UnboundVariable: I do not know of anything called x.\n" ++ Report.pointing [] 2) ∧
    ¬ "x y".toList <+: List.drop 1 [] := by
  obtain ⟨after, run⟩ := run_pageBreak
  exact ⟨_, after, run, rfl, rfl, rfl, by decide⟩

end Runner

end AliasScript

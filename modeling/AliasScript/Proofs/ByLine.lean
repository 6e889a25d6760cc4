import AliasScript.Proofs.Locality
import AliasScript.Proofs.Shape

/-!
# Reading line by line

Statements do not cross the end of a line and separators do, so a text is read as its lines are read
one by one (`Grammar.byLine_program`): it is read whole where all its lines are, with the statements
of all lines, and else it is read up to the place where the first line that is not read whole cannot
be read on.

The separators in front of a statement are read by the statement before it, or at the start of the
text. `Grammar.program` starts with them; so the rest of a text is read by `program` again, and with
it the next line.
-/

namespace AliasScript

open Text

namespace Grammar

/-- The cursor behind the separators that follow it. -/
def settle (c : Cursor) : Cursor := c.past (Token.run isSeparator c.rest)

/-- Reads separators, and then statements as long as there are any. -/
def program (c : Cursor) : List Node × Cursor := statements (settle c)

variable {c d : Cursor} {k : Nat} {rs : List Char} {node : Node}

/-! ## Separators -/

theorem length_settle_le (c : Cursor) : (settle c).rest.length ≤ c.rest.length :=
  (List.dropWhile_suffix _).length_le

theorem settle_append {line col : Nat} (front : List Char)
    (separators : ∀ x ∈ front, isSeparator x = true) (back : List Char) :
    settle ⟨line, col, front ++ back⟩ =
      settle ⟨(Cursor.advance line col front).1, (Cursor.advance line col front).2, back⟩ := by
  simp only [settle, Cursor.past, Token.run, List.takeWhile_append_of_pos separators,
    List.dropWhile_append_of_pos separators, Cursor.advance_append]

theorem settle_newline {line col : Nat} (more : List Char) :
    settle ⟨line, col, '\n' :: more⟩ = settle ⟨line + 1, 1, more⟩ :=
  settle_append ['\n'] (by simp [isSeparator_newline]) more

theorem settle_settled {line col : Nat} (some : (settle c).rest ≠ []) (back : List Char) :
    settle ⟨line, col, (settle c).rest ++ back⟩ = ⟨line, col, (settle c).rest ++ back⟩ := by
  have rest : (settle c).rest = c.rest.dropWhile isSeparator := rfl
  cases left : c.rest.dropWhile isSeparator with
  | nil => exact absurd (rest.trans left) some
  | cons x xs =>
    have stops : isSeparator x = false := by
      have head := List.head?_dropWhile_not isSeparator c.rest
      simpa [left] using head
    rw [rest, left]
    simp [settle, Token.run, stops, Cursor.past, Cursor.advance]

section

variable (free : '\n' ∉ c.rest)
include free

theorem free_settle : '\n' ∉ (settle c).rest := fun mem =>
  free ((List.dropWhile_suffix isSeparator).subset mem)

theorem line_settle : (settle c).line = c.line :=
  Cursor.line_past fun mem => free ((List.takeWhile_prefix isSeparator).subset mem)

theorem settle_lowered (k : Nat) (rs : List Char) :
    settle (c.lowered k rs) = settle ((settle c).lowered k rs) := by
  have split : c.rest.takeWhile isSeparator ++ c.rest.dropWhile isSeparator = c.rest :=
    List.takeWhile_append_dropWhile
  have free' : '\n' ∉ c.rest.takeWhile isSeparator := fun mem =>
    free ((List.takeWhile_prefix isSeparator).subset mem)
  have separators : ∀ x ∈ c.rest.takeWhile isSeparator, isSeparator x = true :=
    fun x mem => List.mem_takeWhile_imp mem
  calc settle (c.lowered k rs)
      = settle ⟨c.line + k, c.col,
          c.rest.takeWhile isSeparator ++ (c.rest.dropWhile isSeparator ++ rs)⟩ := by
        rw [← List.append_assoc, split]
        rfl
    _ = settle ((settle c).lowered k rs) := by
        rw [settle_append _ separators]
        simp only [Cursor.advance_of_not_mem _ _ _ free', settle, Cursor.past, Cursor.lowered,
          Token.run]

end

/-! ## Statements -/

theorem statement_eq (c : Cursor) :
    statement c = (expressionNode c).map fun p => (p.1, settle p.2) := by
  show (expressionNode c).bind _ = _
  cases expressionNode c <;> rfl

theorem program_of_none (h : expressionNode (settle c) = none) : program c = ([], settle c) :=
  statements_of_none (by rw [statement_eq, h, Option.map_none])

theorem program_of_some (h : expressionNode (settle c) = some (node, d))
    (shorter : d.rest.length < (settle c).rest.length) :
    program c = (node :: (program d).1, (program d).2) := by
  have read : statement (settle c) = some (node, settle d) := by
    rw [statement_eq, h, Option.map_some]
  exact statements_of_some read (Nat.lt_of_le_of_lt (length_settle_le d) shorter)

/-- A statement of a line is read further down as well. -/
structure Reads (c : Cursor) (node : Node) (d : Cursor) : Prop where
  here : expressionNode c = some (node, d)
  lowered : ∀ k rs, LineEnd rs →
    expressionNode (c.lowered k rs) = some (node.lowered k, d.lowered k rs)
  free : '\n' ∉ d.rest
  line : d.line = c.line
  shorter : d.rest.length < c.rest.length

theorem reads_or_none (free : '\n' ∉ c.rest) :
    (∃ node d, Reads c node d) ∨
      expressionNode c = none ∧ ∀ k rs, LineEnd rs → expressionNode (c.lowered k rs) = none := by
  cases read : expressionNode c with
  | none =>
    refine .inr ⟨rfl, fun k rs ends => ?_⟩
    have same := matches_expressionNode k c rs free ends
    rw [read] at same
    generalize expressionNode (c.lowered k rs) = found at same ⊢
    cases same
    rfl
  | some p =>
    obtain ⟨node, d⟩ := p
    have lowered : ∀ k rs, LineEnd rs →
        expressionNode (c.lowered k rs) = some (node.lowered k, d.lowered k rs) ∧
          '\n' ∉ d.rest ∧ d.line = c.line ∧ d.rest.length < c.rest.length := by
      intro k rs ends
      have same := matches_expressionNode k c rs free ends
      rw [read] at same
      generalize expressionNode (c.lowered k rs) = found at same ⊢
      cases same with
      | some lowers free' line taken => exact ⟨by rw [lowers], free', line, taken⟩
    obtain ⟨-, free', line, shorter⟩ := lowered 0 [] .last
    exact .inl ⟨node, d, read, fun k rs ends => (lowered k rs ends).1, free', line, shorter⟩

theorem Reads.lowered_shorter (h : Reads c node d) (k : Nat) (rs : List Char) :
    (d.lowered k rs).rest.length < (c.lowered k rs).rest.length := by
  have := h.shorter
  simp only [Cursor.lowered, List.length_append]
  omega

theorem program_induction {motive : Cursor → Prop}
    (none : ∀ c, '\n' ∉ c.rest → expressionNode (settle c) = none →
      (∀ k rs, LineEnd rs → expressionNode ((settle c).lowered k rs) = none) → motive c)
    (next : ∀ c node d, '\n' ∉ c.rest → Reads (settle c) node d → motive d → motive c)
    (c : Cursor) (free : '\n' ∉ c.rest) : motive c := by
  induction length : c.rest.length using Nat.strongRecOn generalizing c with
  | _ n ih =>
  rcases reads_or_none (free_settle free) with ⟨node, d, reads⟩ | ⟨here, lowered⟩
  · have shorter : d.rest.length < n := by
      have := length_settle_le c
      have := reads.shorter
      omega
    exact next c node d free reads (ih _ shorter d reads.free rfl)
  · exact none c free here lowered

theorem program_in_line (free : '\n' ∉ c.rest) :
    '\n' ∉ (program c).2.rest ∧ (program c).2.line = c.line := by
  refine program_induction (motive := fun c => '\n' ∉ (program c).2.rest ∧
    (program c).2.line = c.line) ?none ?next c free
  case none =>
    intro c free here _
    rw [program_of_none here]
    exact ⟨free_settle free, line_settle free⟩
  case next =>
    intro c node d free reads ih
    rw [program_of_some reads.here reads.shorter]
    exact ⟨ih.1, by rw [ih.2, reads.line, line_settle free]⟩

/-- A line that stands further down is read in the same way. Reading stops where it stops in the line
alone, or goes on behind the line when nothing is left of it. -/
theorem program_lowered (ends : LineEnd rs) (k : Nat) (free : '\n' ∉ c.rest) :
    ((program c).2.rest ≠ [] → program (c.lowered k rs) =
      ((program c).1.map (Node.lowered k), (program c).2.lowered k rs)) ∧
    ((program c).2.rest = [] → program (c.lowered k rs) =
      ((program c).1.map (Node.lowered k) ++ (program ((program c).2.lowered k rs)).1,
        (program ((program c).2.lowered k rs)).2)) := by
  have settled : ∀ {c : Cursor}, '\n' ∉ c.rest → (settle c).rest ≠ [] →
      settle (c.lowered k rs) = (settle c).lowered k rs := by
    intro c free some
    rw [settle_lowered free]
    exact settle_settled some rs
  refine program_induction (motive := fun c => ((program c).2.rest ≠ [] →
    program (c.lowered k rs) =
      ((program c).1.map (Node.lowered k), (program c).2.lowered k rs)) ∧
    ((program c).2.rest = [] → program (c.lowered k rs) =
      ((program c).1.map (Node.lowered k) ++ (program ((program c).2.lowered k rs)).1,
        (program ((program c).2.lowered k rs)).2))) ?none ?next c free
  case none =>
    intro c free here lowered
    rw [program_of_none here]
    constructor
    · intro left
      have stuck := lowered k rs ends
      rw [← settled free left] at stuck
      rw [program_of_none stuck, settled free left]
      rfl
    · intro _
      show statements (settle (c.lowered k rs)) = _
      rw [settle_lowered free]
      rfl
  case next =>
    intro c node d free reads ih
    have left : (settle c).rest ≠ [] := by
      intro nothing
      have := reads.shorter
      simp [nothing] at this
    have read := reads.lowered k rs ends
    have shorter := reads.lowered_shorter k rs
    rw [← settled free left] at read shorter
    rw [program_of_some reads.here reads.shorter, program_of_some read shorter]
    constructor
    · intro left'
      rw [ih.1 left']
      rfl
    · intro nothing
      rw [ih.2 nothing]
      rfl

/-! ## Lines -/

/-- What is read of lines, the first of which stands below `k` others: the statements of all lines up
to the first one that is not read whole, and the place where reading stops. -/
inductive ByLine : Nat → List (List Char) → List Node × Cursor → Prop
  | last {k : Nat} (line : List Char) :
    ByLine k [line] ((program (.start line)).1.map (Node.lowered k),
      (program (.start line)).2.lowered k [])
  | stuck {k : Nat} {line : List Char} (lines : List (List Char)) (rs : List Char) :
    (program (.start line)).2.rest ≠ [] →
      ByLine k (line :: lines) ((program (.start line)).1.map (Node.lowered k),
        (program (.start line)).2.lowered k rs)
  | next {k : Nat} {line : List Char} {lines : List (List Char)} {nodes : List Node} {d : Cursor} :
    (program (.start line)).2.rest = [] → ByLine (k + 1) lines (nodes, d) →
      ByLine k (line :: lines) ((program (.start line)).1.map (Node.lowered k) ++ nodes, d)

theorem program_nil (line col : Nat) : program ⟨line, col, []⟩ = ([], ⟨line, col, []⟩) := by
  rcases reads_or_none (c := ⟨line, col, []⟩) List.not_mem_nil with ⟨node, d, reads⟩ | ⟨none, -⟩
  · exact absurd reads.shorter (Nat.not_lt_zero _)
  · exact program_of_none none

/-- Lines joined by newlines are read line by line. -/
theorem byLine_program (lines : List (List Char)) (some : lines ≠ []) :
    ∀ k, (∀ line ∈ lines, '\n' ∉ line) →
      ByLine k lines (program ⟨1 + k, 1, ['\n'].intercalate lines⟩) := by
  induction lines with
  | nil => exact absurd rfl some
  | cons line lines ih =>
    intro k free
    have freeLine : '\n' ∉ (Cursor.start line).rest := free line (List.mem_cons_self ..)
    cases lines with
    | nil =>
      obtain ⟨stuck, whole⟩ := program_lowered .last k freeLine
      have alone : program ⟨1 + k, 1, ['\n'].intercalate [line]⟩ =
          ((program (.start line)).1.map (Node.lowered k),
            (program (.start line)).2.lowered k []) := by
        have same : (⟨1 + k, 1, ['\n'].intercalate [line]⟩ : Cursor) =
            (Cursor.start line).lowered k [] := by simp [Cursor.start, Cursor.lowered]
        rw [same]
        by_cases nothing : (program (.start line)).2.rest = []
        · rw [whole nothing, Cursor.lowered, nothing, List.append_nil, program_nil, List.append_nil]
        · exact stuck nothing
      rw [alone]
      exact .last line
    | cons line' lines =>
      have same : (⟨1 + k, 1, ['\n'].intercalate (line :: line' :: lines)⟩ : Cursor) =
          (Cursor.start line).lowered k ('\n' :: ['\n'].intercalate (line' :: lines)) := by
        simp [Cursor.start, Cursor.lowered, List.intercalate_cons_cons]
      obtain ⟨stuck, whole⟩ := program_lowered
        (.newline (['\n'].intercalate (line' :: lines))) k freeLine
      rw [same]
      by_cases nothing : (program (.start line)).2.rest = []
      · rw [whole nothing]
        -- Behind the line the next one is read.
        have next : program ((program (.start line)).2.lowered k
            ('\n' :: ['\n'].intercalate (line' :: lines))) =
            program ⟨1 + (k + 1), 1, ['\n'].intercalate (line' :: lines)⟩ := by
          have here : (program (.start line)).2.line = 1 := (program_in_line freeLine).2
          rw [program, Cursor.lowered, nothing, List.nil_append, settle_newline, here, Nat.add_assoc]
          rfl
        rw [next]
        exact .next nothing (ih (by simp) (k + 1) fun other mem =>
          free other (List.mem_cons_of_mem _ mem))
      · rw [stuck nothing]
        exact .stuck _ _ nothing

end Grammar

end AliasScript

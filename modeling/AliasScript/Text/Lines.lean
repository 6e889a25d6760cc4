/-!
# Lines of a text

Three ways to see lines. A *display line* ends at any of the line breaks of the character standard
and is what an error message shows. A *typed line* ends at a newline only. A text read from a file
first has its carriage returns turned into newlines.
-/

namespace AliasScript.Text

/-- Ends a display line. A carriage return followed by a newline counts as one break. -/
def isLineBreak (c : Char) : Bool :=
  c == '\n' || c == '\r' || c == '\x0b' || c == '\x0c' || c == '\x1c' || c == '\x1d' ||
    c == '\x1e' || c.toNat == 0x85 || c.toNat == 0x2028 || c.toNat == 0x2029

def consLine (c : Char) : List (List Char) → List (List Char)
  | [] => [[c]]
  | line :: lines => (c :: line) :: lines

/-- The display lines of a text, without their breaks; a last empty line does not count. -/
def displayLines : List Char → List (List Char)
  | [] => []
  | '\r' :: '\n' :: rest => [] :: displayLines rest
  | c :: rest => if isLineBreak c then [] :: displayLines rest else consLine c (displayLines rest)

/-- The lines typed at a prompt, without their newlines; a last empty line does not count. -/
def typedLines : List Char → List (List Char)
  | [] => []
  | c :: rest => if c = '\n' then [] :: typedLines rest else consLine c (typedLines rest)

/-- Turns each carriage return, alone or before a newline, into one newline. -/
def unifyNewlines : List Char → List Char
  | [] => []
  | '\r' :: '\n' :: rest => '\n' :: unifyNewlines rest
  | c :: rest => (if c = '\r' then '\n' else c) :: unifyNewlines rest

theorem not_mem_consLine {c d : Char} {lines : List (List Char)} (different : c ≠ d)
    (h : ∀ line ∈ lines, d ∉ line) : ∀ line ∈ consLine c lines, d ∉ line := by
  cases lines with
  | nil =>
    intro line mem
    simp only [consLine, List.mem_singleton] at mem
    subst mem
    simpa using different.symm
  | cons first rest =>
    intro line mem
    rcases List.mem_cons.1 mem with rfl | mem
    · have := h first (List.mem_cons_self ..)
      simp [this, different.symm]
    · exact h line (List.mem_cons_of_mem _ mem)

/-- No typed line holds a newline. -/
theorem newline_not_mem_typedLines (cs : List Char) : ∀ line ∈ typedLines cs, '\n' ∉ line := by
  induction cs with
  | nil => simp [typedLines]
  | cons c rest ih =>
    rw [typedLines]
    split
    · intro line mem
      rcases List.mem_cons.1 mem with rfl | mem
      · exact List.not_mem_nil
      · exact ih line mem
    · next different => exact not_mem_consLine different ih

end AliasScript.Text

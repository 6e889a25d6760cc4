import AliasScript.Syntax.Node
import AliasScript.Syntax.Token

/-!
# Reading with a place

A cursor is a place in a source text with the text from there on. Lines and columns count from one,
and only a newline starts a line. A reader moves the cursor forward or fails.
-/

namespace AliasScript

/-- A place in a source text and what follows it. -/
structure Cursor where
  line : Nat
  col : Nat
  rest : List Char
deriving DecidableEq, Repr

namespace Cursor

def start (cs : List Char) : Cursor := ⟨1, 1, cs⟩

/-- The line and column behind one more character. -/
def step (line col : Nat) (c : Char) : Nat × Nat :=
  if c = '\n' then (line + 1, 1) else (line, col + 1)

/-- The line and column behind some more characters. -/
def advance (line col : Nat) : List Char → Nat × Nat
  | [] => (line, col)
  | c :: cs => advance (step line col c).1 (step line col c).2 cs

def past (c : Cursor) (cut : Token.Cut) : Cursor :=
  let place := advance c.line c.col cut.1
  ⟨place.1, place.2, cut.2⟩

/-- The text from one cursor to a later one. -/
def upTo (c d : Cursor) : List Char := c.rest.take (c.rest.length - d.rest.length)

/-- The location of what stands from one cursor to a later one. -/
def loc (c d : Cursor) (tag : String) : Loc :=
  ⟨c.line, c.col, tag, .text (String.ofList (c.upTo d))⟩

theorem advance_append (line col : Nat) (as bs : List Char) :
    advance line col (as ++ bs) = advance (advance line col as).1 (advance line col as).2 bs := by
  induction as generalizing line col with
  | nil => rfl
  | cons a as ih => exact ih _ _

theorem upTo_past {c : Cursor} {cut : Token.Cut} (h : Token.Splits c.rest cut) :
    c.upTo (c.past cut) = cut.1 := by
  rw [upTo, past, ← h]
  simp

end Cursor

/-- Reads something at a cursor and moves it, or fails. -/
abbrev Reader := StateT Cursor Option

namespace Reader

def token (take : List Char → Option Token.Cut) : Reader (List Char) := fun c =>
  (take c.rest).map fun cut => (cut.1, c.past cut)

def skip (p : Char → Bool) : Reader Unit := fun c => some ((), c.past (Token.run p c.rest))

def located (tag : String) (read : Reader (Option Loc → Node)) : Reader Node := fun c => do
  let (build, d) ← read c
  return (build (some (c.loc d tag)), d)

end Reader

end AliasScript

import AliasScript.Text.CharRange

/-!
# Blanks and separators

Three sets of characters that differ in few members: what may surround a numeral, what is cut from
the ends of a line typed at the prompt, and what stands between two statements.
-/

namespace AliasScript.Text

/-- The blanks common to all uses: tab to carriage return, the space and the wide spaces. -/
def blanks : List CharRange := [
  (0x9, 0xD), (0x20, 0x20), (0x85, 0x85), (0xA0, 0xA0), (0x1680, 0x1680), (0x2000, 0x200A),
  (0x2028, 0x2029), (0x202F, 0x202F), (0x205F, 0x205F), (0x3000, 0x3000)]

/-- May surround a numeral. -/
def isBlank (c : Char) : Bool := inRanges blanks c

/-- Is cut from both ends of a typed line: a blank or one of the four information separators. -/
def isTrimmed (c : Char) : Bool := isBlank c || (0x1C ≤ c.toNat && c.toNat ≤ 0x1F)

/-- Stands between statements: a semicolon, a blank or the Mongolian vowel separator. -/
def isSeparator (c : Char) : Bool := c == ';' || isBlank c || c.toNat == 0x180E

def isGap (c : Char) : Bool := c == ' ' || c == '\t'

def trimBy (p : Char → Bool) (cs : List Char) : List Char :=
  ((cs.dropWhile p).reverse.dropWhile p).reverse

theorem isSeparator_of_isGap {c : Char} (h : isGap c = true) : isSeparator c = true := by
  simp only [isGap, Bool.or_eq_true, beq_iff_eq] at h
  rcases h with rfl | rfl <;> decide

theorem isSeparator_newline : isSeparator '\n' = true := by decide

end AliasScript.Text

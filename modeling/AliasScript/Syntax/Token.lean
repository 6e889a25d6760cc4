import AliasScript.Text.Blank
import AliasScript.Text.Digit
import AliasScript.Text.WordChar

/-!
# Tokens

Each reader takes one token off the front of a text and gives the token with what is left. A
reserved word is never read as a name, but only where it stands as a whole word: a letter or number
of any script behind it makes the reserved word part of a longer word.
-/

namespace AliasScript.Token

open AliasScript.Text

/-- A token and the text behind it. -/
abbrev Cut := List Char × List Char

/-- No word character stands at the front. -/
def atBoundary : List Char → Bool
  | [] => true
  | c :: _ => !isWordChar c

/-- Takes a given word, if it stands there as a whole. -/
def word? (word : String) (cs : List Char) : Option Cut :=
  let rest := cs.drop word.length
  if word.toList.isPrefixOf cs && atBoundary rest then some (word.toList, rest) else none

def oneOf? (words : List String) (cs : List Char) : Option Cut := words.findSome? (word? · cs)

/-- The words that cannot be names. -/
def reserved : List String := ["is", "a", "an", "add", "remove", "to", "from"]

def isNameStart (c : Char) : Bool := c.isAlpha || c == '_'

def isNamePart (c : Char) : Bool := c.isAlphanum || c == '_' || c == '-'

def identifier? (cs : List Char) : Option Cut :=
  match cs with
  | [] => none
  | c :: rest =>
    if isNameStart c && (oneOf? reserved cs).isNone then
      some (c :: rest.takeWhile isNamePart, rest.dropWhile isNamePart)
    else none

/-- Takes a row of decimal digits of any script. -/
def digits? (cs : List Char) : Option Cut :=
  match cs.takeWhile isDecimalDigit with
  | [] => none
  | ds => some (ds, cs.dropWhile isDecimalDigit)

/-- Takes a whole number with an optional minus sign. -/
def integer? : List Char → Option Cut
  | '-' :: rest => (digits? rest).map fun cut => ('-' :: cut.1, cut.2)
  | cs => digits? cs

/-- The characters of a text in quotes that are neither the quote nor a newline. -/
def isInside (quote c : Char) : Bool := c != quote && c != '\n'

/-- Takes a text in one kind of quotes. -/
def quoted? (quote : Char) (rest : List Char) : Option Cut :=
  match rest.dropWhile (isInside quote) with
  | c :: after =>
    if c = quote then some (quote :: rest.takeWhile (isInside quote) ++ [quote], after) else none
  | [] => none

/-- Takes a text in double quotes or apostrophes. -/
def string? : List Char → Option Cut
  | '"' :: rest => quoted? '"' rest
  | '\'' :: rest => quoted? '\'' rest
  | _ => none

/-- Takes a possibly empty run of the characters of a class. -/
def run (p : Char → Bool) (cs : List Char) : Cut := (cs.takeWhile p, cs.dropWhile p)

def gap? (cs : List Char) : Option Cut :=
  match run isGap cs with
  | ([], _) => none
  | cut => some cut

def integerValue (token : List Char) : Int :=
  match token with
  | '-' :: rest => -(ofDigits (rest.filterMap digitValue?) : Int)
  | cs => ofDigits (cs.filterMap digitValue?)

/-! ## Nothing is lost -/

/-- A token and what is left make up the text. -/
def Splits (cs : List Char) (cut : Cut) : Prop := cut.1 ++ cut.2 = cs

theorem splits_run (p : Char → Bool) (cs : List Char) : Splits cs (run p cs) :=
  List.takeWhile_append_dropWhile

theorem splits_gap? {cs : List Char} {cut : Cut} (h : gap? cs = some cut) : Splits cs cut := by
  have whole := splits_run isGap cs
  rw [gap?] at h
  split at h
  · cases h
  · cases h
    exact whole

theorem splits_word? {word : String} {cs : List Char} {cut : Cut} (h : word? word cs = some cut) :
    Splits cs cut := by
  rw [word?] at h
  split at h
  · next ok =>
    cases h
    rw [Bool.and_eq_true, List.isPrefixOf_iff_prefix] at ok
    obtain ⟨⟨rest, rfl⟩, -⟩ := ok
    rw [Splits, ← String.length_toList, List.drop_left]
  · cases h

theorem splits_oneOf? {words : List String} {cs : List Char} {cut : Cut}
    (h : oneOf? words cs = some cut) : Splits cs cut := by
  obtain ⟨word, -, found⟩ := List.exists_of_findSome?_eq_some h
  exact splits_word? found

theorem splits_identifier? {cs : List Char} {cut : Cut} (h : identifier? cs = some cut) :
    Splits cs cut := by
  cases cs with
  | nil => cases h
  | cons c rest =>
    rw [identifier?] at h
    split at h
    · cases h
      simp [Splits]
    · cases h

theorem splits_digits? {cs : List Char} {cut : Cut} (h : digits? cs = some cut) :
    Splits cs cut := by
  rw [digits?] at h
  split at h
  · cases h
  · cases h
    exact List.takeWhile_append_dropWhile

theorem splits_integer? {cs : List Char} {cut : Cut} (h : integer? cs = some cut) :
    Splits cs cut := by
  rw [integer?.eq_def] at h
  split at h
  · next rest =>
    obtain ⟨inner, found, rfl⟩ := Option.map_eq_some_iff.1 h
    have := splits_digits? found
    simpa [Splits] using this
  · exact splits_digits? h

theorem splits_quoted? {quote : Char} {rest : List Char} {cut : Cut}
    (h : quoted? quote rest = some cut) : Splits (quote :: rest) cut := by
  rw [quoted?] at h
  split at h
  · next c after found =>
    split at h
    · next same =>
      cases h
      subst same
      simp only [Splits, List.cons_append, List.append_assoc, List.nil_append]
      rw [← found, List.takeWhile_append_dropWhile]
    · cases h
  · cases h

theorem splits_string? {cs : List Char} {cut : Cut} (h : string? cs = some cut) :
    Splits cs cut := by
  rw [string?.eq_def] at h
  split at h
  · exact splits_quoted? h
  · exact splits_quoted? h
  · cases h

end AliasScript.Token

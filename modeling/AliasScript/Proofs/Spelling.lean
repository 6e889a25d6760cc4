import AliasScript.Eval.Items
import AliasScript.Proofs.Numeral
import AliasScript.Proofs.Tokens
import AliasScript.Syntax.Program
import Mathlib.Data.List.Basic

/-!
# How a program is written

A statement can be written in many ways: with any spaces and tabs between its words, with either
article and either preposition, with the digits of any script and with either kind of quotes. The
predicates of `Spelling` say which texts write a given sequence of statements, and the lemmas on
tokens that each word of such a text is read as itself and never as another kind of token, whatever
follows behind a separator.
-/

namespace AliasScript

open Text

/-- What an assignment stores, a list statement takes and a function is called on. -/
inductive Term where
  | number (n : Int)
  | text (s : String)
  | read (x : Reference)
deriving DecidableEq, Repr

/-- What a statement says, without the text that it is written in. -/
inductive Statement where
  | assign (x : Reference) (value : Term)
  | make (x : Reference) (type : String)
  | change (op : ListOperation) (item : Term) (x : Reference)
  | call (function : String) (arg : Term)
deriving DecidableEq, Repr

namespace Spelling

/-- A possibly empty run of separators. -/
def Separators (cs : List Char) : Prop := ∀ c ∈ cs, isSeparator c = true

/-- A nonempty run of spaces and tabs. -/
def Gap (cs : List Char) : Prop := cs ≠ [] ∧ ∀ c ∈ cs, isGap c = true

/-- A run of separators with one that is neither a space nor a tab. -/
def Break (cs : List Char) : Prop := Separators cs ∧ ∃ c ∈ cs, isGap c = false

/-- A name is written as it is, and the rule for names takes the whole of it. -/
def OfName (name : String) (cs : List Char) : Prop :=
  name.toList = cs ∧ Token.identifier? cs = some (cs, [])

/-- Decimal digits of any script. -/
def OfDigits (k : Nat) (cs : List Char) : Prop :=
  cs ≠ [] ∧ (∀ c ∈ cs, isDecimalDigit c = true) ∧ ofDigits (cs.filterMap digitValue?) = k

inductive OfNumber : Int → List Char → Prop
  | plain {k : Nat} {cs : List Char} : OfDigits k cs → OfNumber k cs
  | negative {k : Nat} {cs : List Char} : OfDigits k cs → OfNumber (-k) ('-' :: cs)

/-- A text stands in quotes that it does not hold itself, and on one line. -/
def OfText (s : String) (cs : List Char) : Prop :=
  ∃ quote ∈ ['"', '\''], (∀ c ∈ s.toList, Token.isInside quote c = true) ∧
    cs = quote :: s.toList ++ [quote]

inductive OfPlace : Reference → List Char → Prop
  | name {n : String} {cs : List Char} : OfName n cs → OfPlace (.name n) cs
  | path {obj attr : String} {cs gap ds : List Char} : OfName obj cs → Gap gap → OfName attr ds →
    OfPlace (.path obj attr) (cs ++ gap ++ ds)

inductive OfTerm : Term → List Char → Prop
  | number {n : Int} {cs : List Char} : Node.smallest ≤ n → n ≤ Node.largest → OfNumber n cs →
    OfTerm (.number n) cs
  | text {s : String} {cs : List Char} : OfText s cs → OfTerm (.text s) cs
  | read {x : Reference} {cs : List Char} : OfPlace x cs → OfTerm (.read x) cs

inductive OfStatement : Statement → List Char → Prop
  | assign {x : Reference} {t : Term} {aim value gap gap' : List Char} :
    OfPlace x aim → OfTerm t value → Gap gap → Gap gap' →
      OfStatement (.assign x t) (aim ++ gap ++ "is".toList ++ gap' ++ value)
  | make {x : Reference} {type article : String} {aim name gap gap' gap'' : List Char} :
    OfPlace x aim → article ∈ ["an", "a"] → OfName type name → Gap gap → Gap gap' → Gap gap'' →
      OfStatement (.make x type)
        (aim ++ gap ++ "is".toList ++ gap' ++ article.toList ++ gap'' ++ name)
  | change {op : ListOperation} {t : Term} {x : Reference} {preposition : String}
      {item aim gap gap' gap'' : List Char} :
    OfTerm t item → preposition ∈ ["to", "from"] → OfPlace x aim → Gap gap → Gap gap' → Gap gap'' →
      OfStatement (.change op t x)
        (op.keyword.toList ++ gap ++ item ++ gap' ++ preposition.toList ++ gap'' ++ aim)
  | call {function : String} {t : Term} {name arg gap : List Char} :
    OfName function name → OfTerm t arg → Gap gap →
      OfStatement (.call function t) (name ++ gap ++ arg)

/-- Statements with a break in front of each, and any separators behind the last. -/
inductive OfRest : List Statement → List Char → Prop
  | done {cs : List Char} : Separators cs → OfRest [] cs
  | next {s : Statement} {ss : List Statement} {cs text rest : List Char} :
    Break cs → OfStatement s text → OfRest ss rest → OfRest (s :: ss) (cs ++ text ++ rest)

/-- Statements with breaks between them, and any separators around them. -/
inductive OfProgram : List Statement → List Char → Prop
  | empty {cs : List Char} : Separators cs → OfProgram [] cs
  | statements {s : Statement} {ss : List Statement} {cs text rest : List Char} :
    Separators cs → OfStatement s text → OfRest ss rest → OfProgram (s :: ss) (cs ++ text ++ rest)

end Spelling

/-! ## What a text starts with -/

namespace Text

/-- A token stands at the front: a character that is no separator. -/
def Begun (cs : List Char) : Prop := ∃ c rest, cs = c :: rest ∧ isSeparator c = false

/-- No name and no word stands at the front. -/
def Wordless (cs : List Char) : Prop := ∀ c ∈ cs.head?, Token.isNameStart c = false

variable {c : Char} {cs rs : List Char}

theorem Begun.append (h : Begun cs) (rs : List Char) : Begun (cs ++ rs) := by
  obtain ⟨c, rest, rfl, stands⟩ := h
  exact ⟨c, rest ++ rs, rfl, stands⟩

theorem isGap_of_isSeparator (h : isSeparator c = false) : isGap c = false := by
  rw [← Bool.not_eq_true]
  intro gap
  exact absurd (isSeparator_of_isGap gap) (by simp [h])

theorem isSeparator_of_isNamePart (h : Token.isNamePart c = true) : isSeparator c = false := by
  rw [← Bool.not_eq_true]
  intro separator
  exact absurd (isNamePart_of_isSeparator separator) (by simp [h])

theorem isNamePart_of_isNameStart (h : Token.isNameStart c = true) : Token.isNamePart c = true := by
  simp only [Token.isNameStart, Token.isNamePart, Char.isAlphanum, Bool.or_eq_true] at h ⊢
  exact .inl (h.imp_left .inl)

theorem isSeparator_of_isNameStart (h : Token.isNameStart c = true) : isSeparator c = false :=
  isSeparator_of_isNamePart (isNamePart_of_isNameStart h)

theorem isDecimalDigit_of_isNameStart (h : Token.isNameStart c = true) :
    isDecimalDigit c = false := by
  rw [← Bool.not_eq_true]
  intro digit
  obtain ⟨z, mem, above, below⟩ := exists_zero_of_isDecimalDigit digit
  have apart : ∀ z ∈ zeros, ∀ i < 10, Token.isNameStart (.ofNat (z + i)) = false := by
    decide +kernel
  have code := apart z mem (c.toNat - z) (by omega)
  rw [Nat.add_sub_cancel' above, Char.ofNat_toNat, h] at code
  cases code

theorem Clear.wordless (clear : Clear cs) : Wordless cs := by
  intro c head
  rw [← Bool.not_eq_true]
  intro start
  exact absurd (isSeparator_of_isNameStart start) (by simp [clear c head])

end Text

namespace Token

variable {cs rest : List Char}

/-! ## Words and names -/

theorem oneOf?_reserved_of_identifier? {cut : Cut} (h : identifier? cs = some cut) :
    oneOf? reserved cs = none := by
  cases cs with
  | nil => cases h
  | cons c cs =>
    rw [identifier?] at h
    split at h
    · next ok =>
      rw [Bool.and_eq_true, Option.isNone_iff_eq_none] at ok
      exact ok.2
    · cases h

theorem oneOf?_eq_none_of_subset {words all : List String} (subset : words ⊆ all)
    (h : oneOf? all cs = none) : oneOf? words cs = none := by
  rw [oneOf?, List.findSome?_eq_none_iff] at h ⊢
  exact fun word mem => h word (subset mem)

theorem oneOf?_reserved_of_wordless (h : Wordless cs) : oneOf? reserved cs = none := by
  have letters : ∀ word ∈ reserved, word.toList.head?.any isNameStart = true := by decide
  rw [oneOf?, List.findSome?_eq_none_iff]
  intro word mem
  obtain ⟨c, head, start⟩ := (Option.any_eq_true ..).1 (letters word mem)
  obtain ⟨tail, same⟩ : ∃ tail, word.toList = c :: tail := List.head?_eq_some_iff.1 head
  rw [word?, if_neg]
  rw [Bool.and_eq_true, List.isPrefixOf_iff_prefix, same]
  rintro ⟨⟨more, rfl⟩, -⟩
  exact absurd (h c rfl) (by simp [start])

theorem identifier?_of_wordless (h : Wordless cs) : identifier? cs = none := by
  cases cs with
  | nil => rfl
  | cons c cs => simp [identifier?, h c rfl]

/-! ## Rows of digits and texts in quotes -/

theorem digits?_of_forall (some' : cs ≠ []) (digits : ∀ c ∈ cs, isDecimalDigit c = true) :
    digits? cs = some (cs, []) := by
  have whole : cs.takeWhile isDecimalDigit = cs := List.takeWhile_eq_self_iff.2 digits
  have nothing : cs.dropWhile isDecimalDigit = [] := List.dropWhile_eq_nil_iff.2 digits
  cases cs with
  | nil => exact absurd rfl some'
  | cons c cs => rw [digits?, whole, nothing]

theorem integer?_eq_none {c : Char} (minus : c ≠ '-') (digit : isDecimalDigit c = false)
    (cs : List Char) : integer? (c :: cs) = none := by
  rw [integer?_of_ne minus]
  simp [digits?, digit]

theorem quoted?_append_quote {quote : Char} (inside : ∀ c ∈ cs, isInside quote c = true)
    (rest : List Char) :
    quoted? quote (cs ++ quote :: rest) = some (quote :: cs ++ [quote], rest) := by
  have stops : isInside quote quote = false := by simp [isInside]
  rw [quoted?, List.dropWhile_append_of_pos inside, List.takeWhile_append_of_pos inside]
  simp [stops]

end Token

namespace Spelling

variable {cs rest : List Char}

/-! ## Names -/

namespace OfName

variable {n : String} (h : OfName n cs)
include h

theorem exists_cons : ∃ c tail, cs = c :: tail ∧ Token.isNameStart c = true := by
  obtain ⟨-, whole⟩ := h
  cases cs with
  | nil => cases whole
  | cons c tail =>
    refine ⟨c, tail, rfl, ?_⟩
    by_contra other
    simp [Token.identifier?, other] at whole

theorem begun : Begun cs := by
  obtain ⟨c, tail, rfl, start⟩ := h.exists_cons
  exact ⟨c, tail, rfl, isSeparator_of_isNameStart start⟩

theorem identifier? (clear : Clear rest) : Token.identifier? (cs ++ rest) = some (cs, rest) := by
  rw [Token.identifier?_append clear, h.2]
  rfl

theorem oneOf? (clear : Clear rest) : Token.oneOf? Token.reserved (cs ++ rest) = none :=
  Token.oneOf?_reserved_of_identifier? (h.identifier? clear)

theorem no_literal (rest : List Char) :
    Token.integer? (cs ++ rest) = none ∧ Token.string? (cs ++ rest) = none := by
  obtain ⟨c, tail, rfl, start⟩ := h.exists_cons
  have other : ∀ d, Token.isNameStart d = false → c ≠ d := by
    rintro d no rfl
    rw [start] at no
    cases no
  refine ⟨Token.integer?_eq_none (other _ (by decide)) (isDecimalDigit_of_isNameStart start) _, ?_⟩
  rw [List.cons_append, Token.string?.eq_def]
  simp [other '"' (by decide), other '\'' (by decide)]

end OfName

/-! ## Literals -/

namespace OfNumber

variable {n : Int} (h : OfNumber n cs)
include h

theorem integer? (clear : Clear rest) : Token.integer? (cs ++ rest) = some (cs, rest) := by
  rw [Token.integer?_append clear]
  cases h with
  | negative digits => simp [Token.integer?, Token.digits?_of_forall digits.1 digits.2.1]
  | plain digits =>
    obtain ⟨c, tail, rfl⟩ := List.exists_cons_of_ne_nil digits.1
    have bare : c ≠ '-' := ne_of_isDecimalDigit (digits.2.1 c (by simp)) (by decide)
    rw [Token.integer?_of_ne bare, Token.digits?_of_forall digits.1 digits.2.1]
    rfl

theorem integerValue : Token.integerValue cs = n := by
  cases h with
  | negative digits => simp [Token.integerValue, digits.2.2]
  | plain digits =>
    obtain ⟨c, tail, rfl⟩ := List.exists_cons_of_ne_nil digits.1
    have bare : c ≠ '-' := ne_of_isDecimalDigit (digits.2.1 c (by simp)) (by decide)
    rw [Token.integerValue, digits.2.2]
    exact fun _ same => bare (List.cons.inj same).1

theorem exists_cons : ∃ c tail, cs = c :: tail ∧ isSeparator c = false ∧
    Token.isNameStart c = false := by
  cases h with
  | @negative k tail digits => exact ⟨'-', tail, rfl, by decide⟩
  | plain digits =>
    obtain ⟨c, tail, rfl⟩ := List.exists_cons_of_ne_nil digits.1
    have digit := digits.2.1 c (by simp)
    refine ⟨c, tail, rfl, ?_, ?_⟩
    · rw [← Bool.not_eq_true]
      intro separator
      exact absurd (isDecimalDigit_of_isSeparator separator) (by simp [digit])
    · rw [← Bool.not_eq_true]
      intro start
      exact absurd (isDecimalDigit_of_isNameStart start) (by simp [digit])

end OfNumber

namespace OfText

variable {s : String} (h : OfText s cs)
include h

theorem string? (rest : List Char) : Token.string? (cs ++ rest) = some (cs, rest) := by
  obtain ⟨quote, kind, inside, rfl⟩ := h
  have read := Token.quoted?_append_quote inside rest
  simp only [List.mem_cons, List.not_mem_nil, or_false] at kind
  rcases kind with rfl | rfl <;> simpa [Token.string?] using read

theorem unquote : Node.unquote cs = s.toList := by
  obtain ⟨quote, kind, -, rfl⟩ := h
  simp only [List.mem_cons, List.not_mem_nil, or_false] at kind
  simp [Node.unquote, kind]

theorem exists_cons : ∃ quote tail, cs = quote :: tail ∧ isSeparator quote = false ∧
    Token.isNameStart quote = false ∧ quote ≠ '-' ∧ isDecimalDigit quote = false := by
  obtain ⟨quote, kind, -, rfl⟩ := h
  refine ⟨quote, s.toList ++ [quote], rfl, ?_⟩
  simp only [List.mem_cons, List.not_mem_nil, or_false] at kind
  rcases kind with rfl | rfl <;> decide

theorem integer? (rest : List Char) : Token.integer? (cs ++ rest) = none := by
  obtain ⟨quote, tail, rfl, -, -, minus, digit⟩ := h.exists_cons
  exact Token.integer?_eq_none minus digit _

end OfText

/-! ## How statements and their words begin -/

theorem Gap.clear {space : List Char} (h : Gap space) (rest : List Char) :
    Clear (space ++ rest) := by
  obtain ⟨c, tail, rfl⟩ := List.exists_cons_of_ne_nil h.1
  rintro c ⟨⟩
  exact isSeparator_of_isGap (h.2 c (by simp))

theorem OfNumber.wordless {n : Int} (h : OfNumber n cs) (rest : List Char) :
    Wordless (cs ++ rest) := by
  obtain ⟨c, tail, rfl, -, noName⟩ := h.exists_cons
  rintro c ⟨⟩
  exact noName

theorem OfText.wordless {s : String} (h : OfText s cs) (rest : List Char) :
    Wordless (cs ++ rest) := by
  obtain ⟨quote, tail, rfl, -, noName, -⟩ := h.exists_cons
  rintro c ⟨⟩
  exact noName

namespace OfPlace

variable {x : Reference} (h : OfPlace x cs)
include h

theorem no_literal (rest : List Char) :
    Token.integer? (cs ++ rest) = none ∧ Token.string? (cs ++ rest) = none := by
  cases h with
  | name name => exact name.no_literal rest
  | path obj => simpa using obj.no_literal _

theorem oneOf? (clear : Clear rest) : Token.oneOf? Token.reserved (cs ++ rest) = none := by
  cases h with
  | name name => exact name.oneOf? clear
  | path obj gap => simpa using obj.oneOf? (gap.clear _)

theorem begun : Begun cs := by
  cases h with
  | name name => exact name.begun
  | path obj => simpa using obj.begun.append _

end OfPlace

theorem OfTerm.oneOf? {t : Term} (h : OfTerm t cs) (clear : Clear rest) :
    Token.oneOf? Token.reserved (cs ++ rest) = none := by
  cases h with
  | number _ _ number => exact Token.oneOf?_reserved_of_wordless (number.wordless rest)
  | text text => exact Token.oneOf?_reserved_of_wordless (text.wordless rest)
  | read place => exact place.oneOf? clear

theorem OfTerm.begun {t : Term} (h : OfTerm t cs) : Begun cs := by
  cases h with
  | number _ _ number =>
    obtain ⟨c, tail, rfl, stands, -⟩ := number.exists_cons
    exact ⟨c, tail, rfl, stands⟩
  | text text =>
    obtain ⟨c, tail, rfl, stands, -⟩ := text.exists_cons
    exact ⟨c, tail, rfl, stands⟩
  | read place => exact place.begun

/-- The words that a rule of the grammar chooses from. -/
def choices : List (List String) := [["is"], ["an", "a"], ["to", "from"], ["add", "remove"]]

theorem keyword_mem (op : ListOperation) : op.keyword ∈ ["add", "remove"] := by
  cases op <;> decide

section

variable {words : List String} (rule : words ∈ choices)
include rule

theorem subset_reserved : words ⊆ Token.reserved := by
  revert words
  decide

variable {w : String} (mem : w ∈ words)
include mem

theorem begun_word : Begun w.toList := by
  have nonempty : ∀ words ∈ choices, ∀ w ∈ words,
      w.toList.head?.any (!isSeparator ·) = true := by decide
  obtain ⟨c, head, stands⟩ := (Option.any_eq_true ..).1 (nonempty words rule w mem)
  obtain ⟨tail, same⟩ := List.head?_eq_some_iff.1 head
  exact ⟨c, tail, same, by simpa using stands⟩

theorem oneOf?_word (clear : Clear rest) :
    Token.oneOf? words (w.toList ++ rest) = some (w.toList, rest) := by
  have alone : ∀ words ∈ choices, (∀ w ∈ words, w.toList.any isSeparator = false) ∧
      ∀ w ∈ words, Token.oneOf? words w.toList = some (w.toList, []) := by decide
  obtain ⟨free, own⟩ := alone words rule
  rw [Token.oneOf?_append clear free, own w mem]
  rfl

theorem identifier?_word (clear : Clear rest) : Token.identifier? (w.toList ++ rest) = none := by
  have noName : ∀ words ∈ choices, ∀ w ∈ words, Token.identifier? w.toList = none := by decide
  rw [Token.identifier?_append clear, noName words rule w mem]
  rfl

end

theorem OfStatement.begun {s : Statement} (h : OfStatement s cs) : Begun cs := by
  cases h with
  | assign place => simpa using place.begun.append _
  | make place => simpa using place.begun.append _
  | @change op => simpa using (begun_word (by decide) (keyword_mem op)).append _
  | call name => simpa using name.begun.append _

/-! ## Every statement can be written -/

theorem ofDigits_of_isDigit {ds : List Char} (digits : ∀ c ∈ ds, c.isDigit = true) :
    (∀ c ∈ ds, isDecimalDigit c = true) ∧
      ofDigits (ds.filterMap digitValue?) = Nat.ofDigitChars 10 ds 0 := by
  have value : ∀ c ∈ ds, digitValue? c = some (c.toNat - '0'.toNat) := by
    intro c mem
    have table : ∀ i < 10, digitValue? (.ofNat (0x30 + i)) = some i := by decide
    have range := digits c mem
    simp only [Char.isDigit, Bool.and_eq_true, decide_eq_true_eq] at range
    have low : 0x30 ≤ c.toNat := range.1
    have high : c.toNat ≤ 0x39 := range.2
    have found := table (c.toNat - 0x30) (by omega)
    rwa [Nat.add_sub_cancel' low, Char.ofNat_toNat] at found
  constructor
  · intro c mem
    rw [isDecimalDigit, value c mem]
    rfl
  · rw [ofDigits, List.foldl_filterMap, Nat.ofDigitChars]
    refine List.foldl_ext _ _ _ fun n c mem => ?_
    rw [value c mem]

theorem ofDigits_toDigits (k : Nat) : OfDigits k (Nat.toDigits 10 k) := by
  have first : ∀ c ∈ Nat.toDigits 10 k, c.isDigit = true := fun c mem =>
    Nat.isDigit_of_mem_toDigits (by decide) (by decide) mem
  obtain ⟨digits, value⟩ := ofDigits_of_isDigit first
  refine ⟨Nat.toDigits_ne_nil, digits, ?_⟩
  rw [value, Nat.ofDigitChars_toDigits (by decide) (by decide)]

theorem exists_ofNumber (n : Int) : ∃ cs, OfNumber n cs := by
  obtain ⟨k, rfl | rfl⟩ := n.eq_nat_or_neg
  · exact ⟨_, .plain (ofDigits_toDigits k)⟩
  · exact ⟨_, .negative (ofDigits_toDigits k)⟩

theorem gap_space : Gap [' '] := ⟨by decide, List.all_eq_true.1 rfl⟩

theorem break_newline : Break ['\n'] :=
  ⟨List.all_eq_true.1 rfl, '\n', List.mem_singleton_self _, by decide⟩

end Spelling

open Spelling

/-- A name that the rule for names takes as a whole word. -/
def IsWord (n : String) : Prop := Token.identifier? n.toList = some (n.toList, [])

/-- The names, numbers and texts that a program can hold. -/
def Reference.Writable : Reference → Prop
  | .name n => IsWord n
  | .path obj attr => IsWord obj ∧ IsWord attr

def Term.Writable : Term → Prop
  | .number n => Node.smallest ≤ n ∧ n ≤ Node.largest
  | .text s => ∃ quote ∈ ['"', '\''], ∀ c ∈ s.toList, Token.isInside quote c = true
  | .read x => x.Writable

def Statement.Writable : Statement → Prop
  | .assign x t => x.Writable ∧ t.Writable
  | .make x type => x.Writable ∧ IsWord type
  | .change _ t x => t.Writable ∧ x.Writable
  | .call function t => IsWord function ∧ t.Writable

theorem Reference.Writable.exists_ofPlace {x : Reference} (h : x.Writable) :
    ∃ cs, OfPlace x cs := by
  cases x with
  | name n => exact ⟨_, .name ⟨rfl, h⟩⟩
  | path obj attr => exact ⟨_, .path ⟨rfl, h.1⟩ gap_space ⟨rfl, h.2⟩⟩

theorem Term.Writable.exists_ofTerm {t : Term} (h : t.Writable) : ∃ cs, OfTerm t cs := by
  cases t with
  | number n =>
    obtain ⟨cs, number⟩ := exists_ofNumber n
    exact ⟨cs, .number h.1 h.2 number⟩
  | text s =>
    obtain ⟨quote, kind, inside⟩ := h
    exact ⟨_, .text ⟨quote, kind, inside, rfl⟩⟩
  | read x =>
    obtain ⟨cs, place⟩ := Reference.Writable.exists_ofPlace h
    exact ⟨cs, .read place⟩

theorem Statement.Writable.exists_ofStatement {s : Statement} (h : s.Writable) :
    ∃ cs, OfStatement s cs := by
  cases s with
  | assign x t =>
    obtain ⟨_, place⟩ := h.1.exists_ofPlace
    obtain ⟨_, term⟩ := h.2.exists_ofTerm
    exact ⟨_, .assign place term gap_space gap_space⟩
  | make x type =>
    obtain ⟨_, place⟩ := h.1.exists_ofPlace
    exact ⟨_, .make place (List.mem_cons_self ..) ⟨rfl, h.2⟩ gap_space gap_space gap_space⟩
  | change op t x =>
    obtain ⟨_, term⟩ := h.1.exists_ofTerm
    obtain ⟨_, place⟩ := h.2.exists_ofPlace
    exact ⟨_, .change term (List.mem_cons_self ..) place gap_space gap_space gap_space⟩
  | call function t =>
    obtain ⟨_, term⟩ := h.2.exists_ofTerm
    exact ⟨_, .call ⟨rfl, h.1⟩ term gap_space⟩

theorem exists_ofProgram (ss : List Statement) (writable : ∀ s ∈ ss, s.Writable) :
    ∃ cs, OfProgram ss cs := by
  have none : Separators [] := fun _ mem => nomatch mem
  have rest : ∀ ss : List Statement, (∀ s ∈ ss, s.Writable) → ∃ cs, OfRest ss cs := by
    intro ss
    induction ss with
    | nil => exact fun _ => ⟨[], .done none⟩
    | cons s ss ih =>
      intro writable
      obtain ⟨_, first⟩ := (writable s (List.mem_cons_self ..)).exists_ofStatement
      obtain ⟨_, others⟩ := ih fun s mem => writable s (List.mem_cons_of_mem _ mem)
      exact ⟨_, .next break_newline first others⟩
  cases ss with
  | nil => exact ⟨[], .empty none⟩
  | cons s ss =>
    obtain ⟨_, first⟩ := (writable s (List.mem_cons_self ..)).exists_ofStatement
    obtain ⟨_, others⟩ := rest ss fun s mem => writable s (List.mem_cons_of_mem _ mem)
    exact ⟨_, .statements none first others⟩

end AliasScript

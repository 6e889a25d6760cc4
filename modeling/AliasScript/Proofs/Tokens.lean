import AliasScript.Syntax.Token

/-!
# Where tokens end

No separator continues a token: it is no digit, no part of a name and no word character, and no word
holds one. So what a reader of names, words or numbers takes off the front of a text it takes as well
when a separator and more text follow, and where it takes nothing it takes nothing then. A newline is
a separator, and a text in quotes does not go on behind it either: no reader of tokens looks beyond
the end of a line (`Token.WithinLine`).
-/

namespace AliasScript

open Text

namespace Text

/-! ## Separators -/

/-- The code points of the separators. -/
def separatorCodes : List Nat :=
  0x3B :: 0x180E :: blanks.flatMap fun r => List.range' r.1 (r.2 + 1 - r.1)

theorem eq_false_of_isSeparator {p : Char → Bool} {c : Char} (h : isSeparator c = true)
    (apart : ∀ n ∈ separatorCodes, p (.ofNat n) = false) : p c = false := by
  have code : c.toNat ∈ separatorCodes := by
    simp only [isSeparator, Bool.or_eq_true, beq_iff_eq] at h
    rcases h with (rfl | blank) | vowel
    · exact List.mem_cons_self ..
    · obtain ⟨r, mem, within⟩ := inRanges_iff.1 blank
      refine List.mem_cons_of_mem _ (List.mem_cons_of_mem _ (List.mem_flatMap.2 ⟨r, mem, ?_⟩))
      rw [List.mem_range'_1]
      omega
    · rw [vowel]
      exact List.mem_cons_of_mem _ (List.mem_cons_self ..)
  have := apart _ code
  rwa [Char.ofNat_toNat] at this

theorem isDecimalDigit_of_isSeparator {c : Char} (h : isSeparator c = true) :
    isDecimalDigit c = false :=
  eq_false_of_isSeparator h (by decide +kernel)

theorem isWordChar_of_isSeparator {c : Char} (h : isSeparator c = true) : isWordChar c = false :=
  eq_false_of_isSeparator h (by decide +kernel)

theorem isNamePart_of_isSeparator {c : Char} (h : isSeparator c = true) :
    Token.isNamePart c = false :=
  eq_false_of_isSeparator h (by decide +kernel)

def Clear (rs : List Char) : Prop := ∀ c ∈ rs.head?, isSeparator c = true

/-- What stands behind a line: nothing, or a newline and further lines. -/
inductive LineEnd : List Char → Prop
  | last : LineEnd []
  | newline (more : List Char) : LineEnd ('\n' :: more)

theorem LineEnd.clear {rs : List Char} (ends : LineEnd rs) : Clear rs := by
  cases ends with
  | last => rintro c ⟨⟩
  | newline more =>
    rintro c ⟨⟩
    exact isSeparator_newline

end Text

namespace Token

/-- A reader of nonempty tokens that takes the same of a line, whatever stands behind the line. -/
structure WithinLine (take : List Char → Option Cut) : Prop where
  splits : ∀ {cs cut}, take cs = some cut → Splits cs cut
  nonempty : ∀ {cs cut}, take cs = some cut → cut.1 ≠ []
  append : ∀ {cs rs}, '\n' ∉ cs → LineEnd rs →
    take (cs ++ rs) = (take cs).map fun cut => (cut.1, cut.2 ++ rs)

variable {p : Char → Bool} {rs : List Char}

/-! ## Runs of characters -/

section

variable (stops : ∀ c ∈ rs.head?, p c = false)
include stops

theorem takeWhile_append_of_stops (cs : List Char) :
    (cs ++ rs).takeWhile p = cs.takeWhile p := by
  induction cs with
  | nil => cases rs <;> simp_all
  | cons c cs ih => cases h : p c <;> simp [h, ih]

theorem dropWhile_append_of_stops (cs : List Char) :
    (cs ++ rs).dropWhile p = cs.dropWhile p ++ rs := by
  induction cs with
  | nil => cases rs <;> simp_all
  | cons c cs ih => cases h : p c <;> simp [h, ih]

theorem run_append_of_stops (cs : List Char) :
    run p (cs ++ rs) = ((run p cs).1, (run p cs).2 ++ rs) := by
  simp only [run, takeWhile_append_of_stops stops, dropWhile_append_of_stops stops]

end

theorem run_append_lineEnd (stops : p '\n' = false) (ends : LineEnd rs) (cs : List Char) :
    run p (cs ++ rs) = ((run p cs).1, (run p cs).2 ++ rs) := by
  refine run_append_of_stops (fun c head => ?_) cs
  cases ends <;> cases head
  exact stops

theorem digits?_append (clear : Clear rs) (cs : List Char) :
    digits? (cs ++ rs) = (digits? cs).map fun cut => (cut.1, cut.2 ++ rs) := by
  have stops : ∀ c ∈ rs.head?, isDecimalDigit c = false := fun c head =>
    isDecimalDigit_of_isSeparator (clear c head)
  rw [digits?, digits?, takeWhile_append_of_stops stops, dropWhile_append_of_stops stops]
  cases cs.takeWhile isDecimalDigit <;> rfl

theorem withinLine_gap? : WithinLine gap? where
  splits := splits_gap?
  nonempty := by
    intro cs cut h
    rw [gap?] at h
    split at h
    · cases h
    · next other =>
      cases h
      exact fun empty => other _ (Prod.ext empty rfl)
  append := by
    intro cs rs _ ends
    have stops : isGap '\n' = false := by decide
    rw [gap?, gap?, run_append_lineEnd stops ends]
    rcases run isGap cs with ⟨token, rest⟩
    cases token <;> rfl

theorem withinLine_digits? : WithinLine digits? where
  splits := splits_digits?
  nonempty := by
    intro cs cut h
    rw [digits?] at h
    split at h
    · cases h
    · next other =>
      cases h
      exact fun empty => other empty
  append := fun _ ends => digits?_append ends.clear _

/-! ## Words -/

theorem atBoundary_append (clear : Clear rs) (rest : List Char) :
    atBoundary (rest ++ rs) = atBoundary rest := by
  cases rest with
  | cons c rest => rfl
  | nil =>
    cases rs with
    | nil => rfl
    | cons c rs => simp [atBoundary, isWordChar_of_isSeparator (clear c rfl)]

theorem isPrefixOf_append (clear : Clear rs) (word : List Char)
    (free : word.any isSeparator = false) :
    ∀ cs : List Char, word.isPrefixOf (cs ++ rs) = word.isPrefixOf cs := by
  induction word with
  | nil => simp
  | cons w word ih =>
    intro cs
    obtain ⟨first, others⟩ := Bool.or_eq_false_iff.1 (List.any_cons.symm.trans free)
    cases cs with
    | cons c cs => simp [List.isPrefixOf, ih others cs]
    | nil =>
      cases rs with
      | nil => rfl
      | cons c rs =>
        have other : w ≠ c := by
          rintro rfl
          exact absurd (clear w rfl) (by simp [first])
        simp [List.isPrefixOf, other]

theorem word?_append (clear : Clear rs) {word : String}
    (free : word.toList.any isSeparator = false) (cs : List Char) :
    word? word (cs ++ rs) = (word? word cs).map fun cut => (cut.1, cut.2 ++ rs) := by
  rw [word?, word?, isPrefixOf_append clear _ free]
  by_cases stands : word.toList.isPrefixOf cs = true
  · have enough : word.length ≤ cs.length := by
      rw [← String.length_toList]
      exact (List.isPrefixOf_iff_prefix.1 stands).length_le
    rw [List.drop_append_of_le_length enough, atBoundary_append clear]
    split <;> rfl
  · simp [stands]

theorem oneOf?_append (clear : Clear rs) {words : List String}
    (free : ∀ word ∈ words, word.toList.any isSeparator = false) (cs : List Char) :
    oneOf? words (cs ++ rs) = (oneOf? words cs).map fun cut => (cut.1, cut.2 ++ rs) := by
  induction words with
  | nil => rfl
  | cons word words ih =>
    have others := ih fun other mem => free other (List.mem_cons_of_mem _ mem)
    simp only [oneOf?, List.findSome?_cons] at others ⊢
    rw [word?_append clear (free word (List.mem_cons_self ..)), others]
    cases word? word cs <;> rfl

theorem withinLine_oneOf? {words : List String}
    (free : ∀ word ∈ words, word ≠ "" ∧ word.toList.any isSeparator = false) :
    WithinLine (oneOf? words) where
  splits := splits_oneOf?
  nonempty := by
    intro cs cut h
    obtain ⟨word, mem, found⟩ := List.exists_of_findSome?_eq_some h
    rw [word?] at found
    split at found
    · cases found
      simpa using (free word mem).1
    · cases found
  append := fun _ ends => oneOf?_append ends.clear (fun word mem => (free word mem).2) _

theorem identifier?_append (clear : Clear rs) (cs : List Char) :
    identifier? (cs ++ rs) = (identifier? cs).map fun cut => (cut.1, cut.2 ++ rs) := by
  have stops : ∀ c ∈ rs.head?, isNamePart c = false := fun c head =>
    isNamePart_of_isSeparator (clear c head)
  have words : ∀ word ∈ reserved, word.toList.any isSeparator = false := by decide
  cases cs with
  | nil =>
    cases rs with
    | nil => rfl
    | cons c rs =>
      have start : isNameStart c = false := by
        have := stops c rfl
        simp only [isNamePart, isNameStart, Char.isAlphanum, Bool.or_eq_false_iff] at this ⊢
        exact ⟨this.1.1.1, this.1.2⟩
      simp [identifier?, start]
  | cons c cs =>
    have same := oneOf?_append clear words (c :: cs)
    rw [List.cons_append] at same ⊢
    rw [identifier?, identifier?, same, takeWhile_append_of_stops stops,
      dropWhile_append_of_stops stops, Option.isNone_map]
    split <;> rfl

theorem withinLine_identifier? : WithinLine identifier? where
  splits := splits_identifier?
  nonempty := by
    intro cs cut h
    cases cs with
    | nil => cases h
    | cons c cs =>
      rw [identifier?] at h
      split at h <;> cases h
      simp
  append := fun _ ends => identifier?_append ends.clear _

/-! ## Numbers and texts -/

theorem integer?_of_ne {c : Char} (other : c ≠ '-') (cs : List Char) :
    integer? (c :: cs) = digits? (c :: cs) := by
  rw [integer?.eq_def]
  split
  · next same =>
    cases same
    exact absurd rfl other
  · rfl

theorem integer?_append (clear : Clear rs) (cs : List Char) :
    integer? (cs ++ rs) = (integer? cs).map fun cut => (cut.1, cut.2 ++ rs) := by
  cases cs with
  | nil =>
    cases rs with
    | nil => rfl
    | cons c rs =>
      have digit := isDecimalDigit_of_isSeparator (clear c rfl)
      have minus : c ≠ '-' := by
        rintro rfl
        exact absurd (clear '-' rfl) (by decide)
      rw [List.nil_append, integer?_of_ne minus]
      simp [digits?, integer?, digit]
  | cons c cs =>
    by_cases minus : c = '-'
    · subst minus
      simp only [List.cons_append, integer?, digits?_append clear, Option.map_map]
      rfl
    · rw [List.cons_append, integer?_of_ne minus, integer?_of_ne minus, ← List.cons_append]
      exact digits?_append clear _

theorem withinLine_integer? : WithinLine integer? where
  splits := splits_integer?
  nonempty := by
    intro cs cut h
    rw [integer?.eq_def] at h
    split at h
    · obtain ⟨inner, found, rfl⟩ := Option.map_eq_some_iff.1 h
      simp
    · exact withinLine_digits?.nonempty h
  append := fun _ ends => integer?_append ends.clear _

theorem quoted?_append {quote : Char} (other : quote ≠ '\n') (ends : LineEnd rs) (cs : List Char) :
    quoted? quote (cs ++ rs) = (quoted? quote cs).map fun cut => (cut.1, cut.2 ++ rs) := by
  have stops : ∀ c ∈ rs.head?, isInside quote c = false := by
    intro c head
    cases ends <;> cases head
    simp [isInside]
  rw [quoted?, quoted?, takeWhile_append_of_stops stops, dropWhile_append_of_stops stops]
  cases cs.dropWhile (isInside quote) with
  | nil =>
    cases ends with
    | last => rfl
    | newline more => simp [other.symm]
  | cons c after =>
    simp only [List.cons_append]
    split <;> rfl

theorem withinLine_string? : WithinLine string? where
  splits := splits_string?
  nonempty := by
    have inQuotes : ∀ {quote : Char} {rest : List Char} {cut : Cut},
        quoted? quote rest = some cut → cut.1 ≠ [] := by
      intro quote rest cut h
      rw [quoted?] at h
      split at h
      · split at h <;> cases h
        simp
      · cases h
    intro cs cut h
    rw [string?.eq_def] at h
    split at h
    · exact inQuotes h
    · exact inQuotes h
    · cases h
  append := by
    intro cs rs _ ends
    cases cs with
    | nil => cases ends <;> rfl
    | cons c cs =>
      rw [List.cons_append, string?.eq_def, string?.eq_def]
      by_cases double : c = '"'
      · subst double
        exact quoted?_append (by decide) ends cs
      · by_cases single : c = '\''
        · subst single
          exact quoted?_append (by decide) ends cs
        · simp [double, single]

end Token

end AliasScript

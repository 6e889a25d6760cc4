import AliasScript.Syntax.Token
import AliasScript.Text.Numeral
import Mathlib.Data.List.TakeWhile

/-!
# Integers in a program

An integer token is a numeral, and reading the numeral gives the number of the token
(`readNumeral?_of_integer?`): no digit of any script is a blank, an underscore or a sign.
-/

namespace AliasScript

namespace Text

theorem exists_zero_of_isDecimalDigit {c : Char} (h : isDecimalDigit c = true) :
    ∃ z ∈ zeros, z ≤ c.toNat ∧ c.toNat < z + 10 := by
  rw [isDecimalDigit, digitValue?, Option.isSome_map, List.find?_isSome] at h
  obtain ⟨z, mem, within⟩ := h
  simp only [Bool.and_eq_true, decide_eq_true_eq] at within
  exact ⟨z, mem, within⟩

theorem isBlank_of_isDecimalDigit {c : Char} (h : isDecimalDigit c = true) : isBlank c = false := by
  obtain ⟨z, mem, above, below⟩ := exists_zero_of_isDecimalDigit h
  have apart : ∀ z ∈ zeros, ∀ r ∈ blanks, r.2 < z ∨ z + 10 ≤ r.1 := by decide +kernel
  rw [← Bool.not_eq_true]
  intro blank
  obtain ⟨r, there, low, high⟩ := inRanges_iff.1 blank
  have := apart z mem r there
  omega

theorem ne_of_isDecimalDigit {c d : Char} (h : isDecimalDigit c = true)
    (other : isDecimalDigit d = false) : c ≠ d := by
  rintro rfl
  rw [h] at other
  cases other

theorem numeralDigits?_of_forall {cs : List Char} (some : cs ≠ [])
    (digits : ∀ c ∈ cs, isDecimalDigit c = true) :
    numeralDigits? cs = .some (cs.filterMap digitValue?) := by
  induction cs with
  | nil => exact absurd rfl some
  | cons c rest ih =>
    obtain ⟨d, value⟩ := Option.isSome_iff_exists.1 (digits c (List.mem_cons_self ..))
    cases rest with
    | nil => simp [numeralDigits?, value]
    | cons c' rest =>
      have next := ih (by simp) fun x mem => digits x (List.mem_cons_of_mem _ mem)
      have bare : c' ≠ '_' := ne_of_isDecimalDigit (digits c' (by simp)) (by decide)
      rw [numeralDigits?, next, value]
      · simp [value]
      · simp
      · exact fun _ same => bare (List.cons.inj same).1

theorem trimBy_of_forall {p : Char → Bool} {cs : List Char} (none : ∀ c ∈ cs, p c = false) :
    trimBy p cs = cs := by
  have stays : ∀ l : List Char, (∀ c ∈ l, p c = false) → l.dropWhile p = l := by
    intro l free
    cases l with
    | nil => rfl
    | cons c rest => rw [List.dropWhile_cons_of_neg (by simp [free c (List.mem_cons_self ..)])]
  rw [trimBy, stays cs none, stays _ fun c mem => none c (List.mem_reverse.1 mem),
    List.reverse_reverse]

end Text

namespace Token

open Text

theorem digits_of_digits? {cs : List Char} {cut : Cut} (h : digits? cs = some cut) :
    cut.1 ≠ [] ∧ ∀ c ∈ cut.1, isDecimalDigit c = true := by
  rw [digits?] at h
  split at h
  · cases h
  · next ds some =>
    cases h
    exact ⟨some, fun c mem => List.mem_takeWhile_imp mem⟩

/-- Reading the numeral of an integer token gives the number of the token. -/
theorem readNumeral?_of_integer? {cs : List Char} {cut : Cut} (h : integer? cs = some cut) :
    readNumeral? (String.ofList cut.1) = some (integerValue cut.1) := by
  have plus : isDecimalDigit '+' = false := by decide
  have minus : isDecimalDigit '-' = false := by decide
  rw [readNumeral?, String.toList_ofList]
  rw [integer?.eq_def] at h
  split at h
  · next rest =>
    obtain ⟨inner, found, rfl⟩ := Option.map_eq_some_iff.1 h
    obtain ⟨some, digits⟩ := digits_of_digits? found
    rw [trimBy_of_forall, signedNumeral?, numeralDigits?_of_forall some digits]
    · rfl
    · intro c mem
      rcases List.mem_cons.1 mem with rfl | mem
      · decide
      · exact isBlank_of_isDecimalDigit (digits c mem)
  · obtain ⟨some, digits⟩ := digits_of_digits? h
    rw [trimBy_of_forall fun c mem => isBlank_of_isDecimalDigit (digits c mem)]
    obtain ⟨c, rest, same⟩ := List.exists_cons_of_ne_nil some
    have first := digits c (same ▸ List.mem_cons_self ..)
    rw [same, signedNumeral?, integerValue, ← same, numeralDigits?_of_forall some digits]
    · rfl
    · exact fun _ other => absurd (List.cons.inj other).1 (ne_of_isDecimalDigit first minus)
    · exact fun _ other => absurd (List.cons.inj other).1 (ne_of_isDecimalDigit first minus)
    · exact fun _ other => absurd (List.cons.inj other).1 (ne_of_isDecimalDigit first plus)

end Token

end AliasScript

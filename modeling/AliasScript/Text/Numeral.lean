import AliasScript.Text.Blank
import AliasScript.Text.Digit

/-!
# Reading a numeral

A numeral may have blanks around it, one sign in front, and single underscores between its digits,
which may be of any script. Where the number of digits is limited, a longer row of digits is refused
for its length before what stands behind it is looked at.
-/

namespace AliasScript.Text

/-- The digits of a numeral, where a single underscore may stand between two digits. -/
def numeralDigits? : List Char → Option (List Nat)
  | [] => none
  | [c] => (digitValue? c).map ([·])
  | c :: '_' :: rest => do return (← digitValue? c) :: (← numeralDigits? rest)
  | c :: rest => do return (← digitValue? c) :: (← numeralDigits? rest)

/-- The number that a numeral without blanks denotes. -/
def signedNumeral? : List Char → Option Int
  | '-' :: rest => (numeralDigits? rest).map fun ds => -(ofDigits ds : Int)
  | '+' :: rest => (numeralDigits? rest).map fun ds => (ofDigits ds : Int)
  | cs => (numeralDigits? cs).map fun ds => (ofDigits ds : Int)

/-- The number that a text denotes, if it is a numeral. -/
def readNumeral? (s : String) : Option Int := signedNumeral? (trimBy isBlank s.toList)

/-! ## With a limit on the digits -/

/-- The most digits that are converted, unless the limit is changed or lifted. -/
def digitLimit : Option Nat := some 4300

/-- The digits and underscores behind a sign, up to the first other character. -/
def digitRun (cs : List Char) : List Char :=
  let unsigned := match cs with
    | '-' :: rest | '+' :: rest => rest
    | _ => cs
  unsigned.takeWhile fun c => c == '_' || (digitValue? c).isSome

/-- The number of digits that a text begins with, if they are digits of a numeral. -/
def digitCount? (s : String) : Option Nat :=
  (numeralDigits? (digitRun (trimBy isBlank s.toList))).map List.length

/-- Why a text or a decimal converts to no integer. -/
inductive NumeralFault where
  /-- The text is no numeral. -/
  | unreadable (text : String)
  | tooLong (limit digits : Nat)
  /-- The decimal is infinite, or no number at all. -/
  | unbounded
  | undefined
deriving DecidableEq, Repr, Inhabited

/-- The limit and the number of digits of a text that goes beyond it. -/
def excess? (limit : Option Nat) (s : String) : Option (Nat × Nat) :=
  match limit, digitCount? s with
  | some most, some digits => if most < digits then some (most, digits) else none
  | _, _ => none

/-- Reads a numeral of no more digits than a limit, if there is one. -/
def readNumeralWithin (limit : Option Nat) (s : String) : Except NumeralFault Int :=
  match excess? limit s, readNumeral? s with
  | some (most, digits), _ => .error (.tooLong most digits)
  | none, some n => .ok n
  | none, none => .error (.unreadable s)

end AliasScript.Text

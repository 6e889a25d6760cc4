/-!
# Binary fractions and their shortest decimal form

A `Double` is a number of the binary format with 53 significant bits. It is shown with the fewest
digits that still read back as the same number; of two such decimals with equally many digits the
nearer one is taken, and the one with an even last digit when both are equally near. All the
arithmetic is exact, on a mantissa and an exponent of two.
-/

namespace AliasScript

/-- A number of the binary format with 53 significant bits, by its bit pattern. -/
structure Double where
  bits : UInt64
deriving DecidableEq, Repr

namespace Double

/-- The number nearest to `mantissa * 10 ^ exponent`, with a sign. -/
def ofDecimal (negative : Bool) (mantissa : Nat) (exponent : Int) : Double :=
  let magnitude := Float.ofScientific mantissa (exponent < 0) exponent.natAbs
  ⟨(if negative then -magnitude else magnitude).toBits⟩

def isNegative (x : Double) : Bool := x.bits.toNat / Nat.pow 2 63 == 1

def exponentField (x : Double) : Nat := x.bits.toNat / Nat.pow 2 52 % Nat.pow 2 11

def fractionField (x : Double) : Nat := x.bits.toNat % Nat.pow 2 52

/-- Neither infinite nor undefined. -/
def isFinite (x : Double) : Bool := x.exponentField != 2047

/-- Stands for no number, not even an infinite one. -/
def isUndefined (x : Double) : Bool := !x.isFinite && x.fractionField != 0

/-- The whole number of units in the magnitude of a finite number. -/
def mantissa (x : Double) : Nat :=
  if x.exponentField = 0 then x.fractionField else x.fractionField + Nat.pow 2 52

/-- The power of two that one unit of the mantissa stands for. -/
def exponent (x : Double) : Int := (max x.exponentField 1 : Int) - 1075

/-- `n * 2 ^ e`, rounded toward zero. -/
def scaleDown (n : Nat) (e : Int) : Nat :=
  if e < 0 then n / Nat.pow 2 e.natAbs else n * Nat.pow 2 e.natAbs

/-- The number without its fraction; infinite and undefined numbers have none. -/
def truncate? (x : Double) : Option Int :=
  if x.isFinite then
    let magnitude : Int := scaleDown x.mantissa x.exponent
    some (if x.isNegative then -magnitude else magnitude)
  else none

/-- Finite and without a fraction. -/
def isWhole (x : Double) : Bool :=
  x.isFinite && (0 ≤ x.exponent || x.mantissa % Nat.pow 2 x.exponent.natAbs == 0)

/-- The whole number that a number is. Both zeros are the number zero, and a number that is not
whole has only one bit pattern. -/
def whole? (x : Double) : Option Int := if x.isWhole then x.truncate? else none

/-! ## The fewest digits that read back -/

/-- A positive fraction of two natural numbers. -/
structure Ratio where
  num : Nat
  den : Nat

def Ratio.ofBinary (n : Nat) (e : Int) : Ratio :=
  if e < 0 then ⟨n, Nat.pow 2 e.natAbs⟩ else ⟨n * Nat.pow 2 e.natAbs, 1⟩

def Ratio.ofDecimal (n : Nat) (e : Int) : Ratio :=
  if e < 0 then ⟨n, Nat.pow 10 e.natAbs⟩ else ⟨n * Nat.pow 10 e.natAbs, 1⟩

def Ratio.lt (a b : Ratio) : Bool := a.num * b.den < b.num * a.den

def Ratio.le (a b : Ratio) : Bool := a.num * b.den ≤ b.num * a.den

/-- How far a decimal lies from a fraction, in units of the product of the denominators. -/
def Ratio.gap (a b : Ratio) : Nat :=
  (a.num * b.den - b.num * a.den) + (b.num * a.den - a.num * b.den)

def magnitude (x : Double) : Ratio := .ofBinary x.mantissa x.exponent

def numerator (x : Double) : Int :=
  if x.isNegative then -(x.magnitude.num : Int) else x.magnitude.num

def isBelow (x : Double) (n : Int) : Bool :=
  if x.isFinite then x.numerator < n * x.magnitude.den else x.isNegative && !x.isUndefined

def isAbove (x : Double) (n : Int) : Bool :=
  if x.isFinite then n * x.magnitude.den < x.numerator else !x.isNegative && !x.isUndefined

/-- Reads back as `x`: lies between the middles to the two neighbours of `x`, the middles included
when the mantissa is even. Below a power of two the neighbour is only half as far away. -/
def readsBack (x : Double) (r : Ratio) : Bool :=
  let m := x.mantissa
  let e := x.exponent - 2
  let atPower : Bool := x.fractionField = 0 ∧ 1 < x.exponentField
  let low := Ratio.ofBinary (if atPower then 4 * m - 1 else 4 * m - 2) e
  let high := Ratio.ofBinary (4 * m + 2) e
  if m % 2 = 0 then low.le r && r.le high else low.lt r && r.lt high

/-- The place of the decimal point: the least `p` with `r < 10 ^ p`. -/
def pointPlace (r : Ratio) : Int :=
  if r.den ≤ r.num then (Nat.toDigits 10 (r.num / r.den)).length
  else 1 - ((List.range 400).find? fun j => r.den ≤ r.num * Nat.pow 10 j).getD 0

/-- The better of the two neighbours of `r` with `count` digits, if one of them reads back. -/
def candidate? (x : Double) (r : Ratio) (point : Int) (count : Nat) : Option (Nat × Int) :=
  let e := point - count
  let below :=
    if e < 0 then r.num * Nat.pow 10 e.natAbs / r.den else r.num / (r.den * Nat.pow 10 e.natAbs)
  let fits (n : Nat) : Bool := readsBack x (.ofDecimal n e)
  if fits below && fits (below + 1) then
    let down := (Ratio.ofDecimal below e).gap r
    let up := (Ratio.ofDecimal (below + 1) e).gap r
    some (if down < up ∨ (down = up ∧ below % 2 = 0) then below else below + 1, e)
  else if fits below then some (below, e)
  else if fits (below + 1) then some (below + 1, e)
  else none

/-- The digits of the shortest decimal and its power of ten. -/
def shortest (x : Double) : Nat × Int :=
  let r := x.magnitude
  let point := pointPlace r
  ((List.range 17).findSome? fun n => candidate? x r point (n + 1)).getD (0, 0)

/-! ## Written form -/

/-- The digits without the zeros at their end. -/
def dropTrailingZeros (ds : List Char) : List Char := (ds.reverse.dropWhile (· == '0')).reverse

/-- The exponent part: a sign and at least two digits. -/
def exponentText (e : Int) : List Char :=
  let ds := Nat.toDigits 10 e.natAbs
  'e' :: (if e < 0 then '-' else '+') :: (if ds.length < 2 then '0' :: ds else ds)

/-- Writes digits with the point after the first `point` of them: plainly from four zeros behind
the point up to sixteen digits before it, and with an exponent beyond. -/
def writeDigits (ds : List Char) (point : Int) : List Char :=
  if -3 ≤ point ∧ point ≤ 16 then
    if point ≤ 0 then '0' :: '.' :: List.replicate point.natAbs '0' ++ ds
    else
      let before := ds.take point.natAbs ++ List.replicate (point.natAbs - ds.length) '0'
      let after := ds.drop point.natAbs
      before ++ '.' :: (if after.isEmpty then ['0'] else after)
  else
    let mantissaText := match ds with
      | d :: more => if more.isEmpty then [d] else d :: '.' :: more
      | [] => []
    mantissaText ++ exponentText (point - 1)

/-- The number in its shortest written form. -/
def text (x : Double) : String :=
  let body : List Char :=
    if x.isFinite then
      if x.mantissa = 0 then "0.0".toList
      else
        let (n, e) := x.shortest
        let ds := Nat.toDigits 10 n
        writeDigits (dropTrailingZeros ds) (ds.length + e)
    else if x.fractionField = 0 then "inf".toList else "nan".toList
  let signed := x.isNegative && (x.isFinite || x.fractionField == 0)
  String.ofList (if signed then '-' :: body else body)

end Double

end AliasScript

/-!
# Decimals

A *decimal* is a number `digits * 10 ^ exponent`.  It is kept exactly, until it is
rounded to the nearest *binary* number `mantissa * 2 ^ exponent` of 53 bits.  Of
two that are equally near the one with the even mantissa is taken.

A binary number is written with the fewest digits that are rounded to it again
(`Binary.shortest`).  Of two such decimals the nearer one is taken, and the
greater one if they are equally near.  All is done in whole numbers.
-/

namespace Presence

/-- The number `digits * 10 ^ exponent`. -/
structure Decimal where
  /-- The digits as a number. -/
  digits : Nat
  /-- The power of ten. -/
  exponent : Int
  deriving DecidableEq, Repr

/-- The number `mantissa * 2 ^ exponent`. -/
structure Binary where
  /-- The mantissa, below `2 ^ 53`, and at least `2 ^ 52` unless the exponent is
  the least one. -/
  mantissa : Nat
  /-- The power of two. -/
  exponent : Int
  deriving DecidableEq, Repr

namespace Binary

/-- The least power of two. -/
def leastExponent : Int := -1074

/-- The greatest power of two. -/
def greatestExponent : Int := 971

/-- The number is not too great. -/
def isFinite (x : Binary) : Bool := x.exponent ≤ greatestExponent

/-- A quotient rounded to the nearest whole number, and to the even one of two that
are equally near. -/
def roundedQuotient (n d : Nat) : Nat :=
  let q := n / d
  let twice := 2 * (n % d)
  if twice < d then q else if d < twice then q + 1 else q + q % 2

/-- The binary number nearest to `n / d`, where both are positive. -/
def ofQuotient (n d : Nat) : Binary :=
  let scaled (q : Int) : Nat × Nat := (n * Nat.pow 2 (-q).toNat, d * Nat.pow 2 q.toNat)
  let estimate : Int := (n.log2 : Int) - d.log2 - 52
  let (above, below) := scaled estimate
  let q := max leastExponent (if above < below * Nat.pow 2 52 then estimate - 1 else estimate)
  let (above, below) := scaled q
  let m := roundedQuotient above below
  if m = Nat.pow 2 53 then ⟨Nat.pow 2 52, q + 1⟩ else ⟨m, q⟩

/-! ## Digits -/

/-- The number as a quotient. -/
def quotient (x : Binary) : Nat × Nat :=
  (x.mantissa * Nat.pow 2 x.exponent.toNat, Nat.pow 2 (-x.exponent).toNat)

/-- The number of decimal digits, none for zero. -/
def digitCount (n : Nat) : Nat := if n = 0 then 0 else (Nat.toDigits 10 n).length

/-- The least power of ten above `n / d`, where both are positive. -/
def scale (n d : Nat) : Int :=
  if d ≤ n then digitCount (n / d) else 1 - (digitCount ((d + n - 1) / n - 1) : Int)

/-- The order of `a * 10 ^ i` and `b * 2 ^ j`. -/
def compareScaled (a : Nat) (i : Int) (b : Nat) (j : Int) : Ordering :=
  compare (a * Nat.pow 10 i.toNat * Nat.pow 2 (-j).toNat)
    (b * Nat.pow 2 j.toNat * Nat.pow 10 (-i).toNat)

/-- The decimal is rounded to the number: it lies no further than halfway to the
neighbours, where halfway counts for an even mantissa.  Below a power of two the
neighbour is half as far away. -/
def readsBack (x : Binary) (d : Decimal) : Bool :=
  let isNarrow := x.mantissa = Nat.pow 2 52 && x.exponent ≠ leastExponent
  let low := compareScaled d.digits d.exponent
    (if isNarrow then 4 * x.mantissa - 1 else 4 * x.mantissa - 2) (x.exponent - 2)
  let high := compareScaled d.digits d.exponent (4 * x.mantissa + 2) (x.exponent - 2)
  let isEven := x.mantissa % 2 = 0
  (low = .gt || isEven && low = .eq) && (high = .lt || isEven && high = .eq)

/-- The decimal of at most `count` digits that is rounded to the number, if there is
one, where `k` is the scale of the number.  The two candidates are the neighbours of
the number among such decimals. -/
def ofDigitCount? (x : Binary) (k : Int) (count : Nat) : Option Decimal :=
  let e := k - count
  let (n, d) := x.quotient
  let n := n * Nat.pow 10 (-e).toNat
  let d := d * Nat.pow 10 e.toNat
  let low := n / d
  let hits := [low + 1, low].filter fun digits => x.readsBack ⟨digits, e⟩
  match hits with
  | [_, _] => some ⟨if d ≤ 2 * (n % d) then low + 1 else low, e⟩
  | [digits] => some ⟨digits, e⟩
  | _ => none

/-- The decimal that is equal to the number. -/
def toDecimal (x : Binary) : Decimal :=
  if 0 ≤ x.exponent then ⟨x.mantissa * Nat.pow 2 x.exponent.toNat, 0⟩
  else ⟨x.mantissa * Nat.pow 5 (-x.exponent).toNat, x.exponent⟩

/-- The decimal of the fewest digits that is rounded to the number. -/
def shortest (x : Binary) : Decimal :=
  if x.mantissa = 0 then ⟨0, 0⟩
  else
    let (n, d) := x.quotient
    let k := scale n d
    ((List.range' 1 17).findSome? (x.ofDigitCount? k)).getD x.toDecimal

end Binary

namespace Decimal

/-- The nearest binary number, unless it is too great. -/
def nearest? (d : Decimal) : Option Binary :=
  let magnitude := Binary.digitCount d.digits + d.exponent
  if d.digits = 0 || magnitude < -330 then some ⟨0, Binary.leastExponent⟩
  else if 310 < magnitude then none
  else
    let x := Binary.ofQuotient (d.digits * Nat.pow 10 d.exponent.toNat)
      (Nat.pow 10 (-d.exponent).toNat)
    if x.isFinite then some x else none

/-- The text of a decimal, with a point and at least one digit on both sides of it. -/
def render (d : Decimal) : String :=
  let digits := Nat.toDigits 10 d.digits
  let kept := (digits.reverse.dropWhile (· == '0')).reverse
  let place := digits.length + d.exponent
  let whole := (kept ++ List.replicate (place.toNat - kept.length) '0').take place.toNat
  let fraction := List.replicate (-place).toNat '0' ++ kept.drop place.toNat
  let orZero (part : List Char) : List Char := if part.isEmpty then ['0'] else part
  String.ofList (orZero whole ++ '.' :: orZero fraction)

end Decimal

end Presence

/-!
Shortest decimals. A binary floating-point number stands for every real that is nearer to it than
to its neighbours (`Binary.low`, `Binary.high`); its shortest decimal has the fewest digits among
those in that interval, and of two with that many digits it is the nearer one.
-/

set_option autoImplicit false

namespace DocumentTypes.Decimal

/-- The positive number `significand * 2 ^ exponent`, as a member of a binary format. `isLeast`
says that the number below it is half as far away as the one above, which happens at powers of
two. -/
structure Binary where
  significand : Nat
  exponent : Int
  isLeast : Bool

/-- Bounds of the reals that a number stands for, and the number itself, over one denominator. -/
structure Interval where
  low : Nat
  value : Nat
  high : Nat
  denominator : Nat
  isClosed : Bool

/-- The reals that round to the number. Both ends belong to them when the significand is even. -/
def Binary.interval (b : Binary) : Interval :=
  let up := Nat.pow 2 (b.exponent - 2).toNat
  { low := (4 * b.significand - if b.isLeast then 1 else 2) * up
    value := 4 * b.significand * up
    high := (4 * b.significand + 2) * up
    denominator := Nat.pow 2 (2 - b.exponent).toNat
    isClosed := b.significand % 2 = 0 }

/-- Whether `c * 10 ^ k` belongs to the interval. -/
def Interval.contains (i : Interval) (c : Nat) (k : Int) : Bool :=
  let scaled := c * Nat.pow 10 k.toNat * i.denominator
  let down := Nat.pow 10 (-k).toNat
  if i.isClosed then i.low * down ≤ scaled && scaled ≤ i.high * down
  else i.low * down < scaled && scaled < i.high * down

/-- The number of decimal digits of a positive number. -/
def digitCount (n : Nat) : Nat :=
  (Nat.toDigits 10 n).length

/-- The power of ten of the leading digit of the value. -/
def Interval.leadingPower (i : Interval) : Int :=
  if i.denominator ≤ i.value then (digitCount (i.value / i.denominator) : Int) - 1
  else
    let scale := digitCount (i.denominator / i.value)
    if i.denominator ≤ i.value * Nat.pow 10 (scale - 1) then -((scale : Int) - 1)
    else -(scale : Int)

/-- Of the two neighbours of the value on the grid of multiples of `10 ^ k`, the one that belongs to
the interval; the nearer one when both do, and of two equally near ones the even one. -/
def Interval.onGrid? (i : Interval) (k : Int) : Option Nat :=
  let numerator := i.value * Nat.pow 10 (-k).toNat
  let unit := i.denominator * Nat.pow 10 k.toNat
  let c := numerator / unit
  let rest := numerator % unit
  match i.contains c k, i.contains (c + 1) k with
  | true, true =>
    if 2 * rest < unit ∨ (2 * rest = unit ∧ c % 2 = 0) then some c else some (c + 1)
  | true, false => some c
  | false, true => some (c + 1)
  | false, false => none

/-- A decimal: the digits, and the power of ten of the first of them. -/
structure Digits where
  digits : List Char
  power : Int

/-- The decimal `c * 10 ^ k`, without zeros at the end. -/
def Digits.ofScaled (c : Nat) (k : Int) : Digits :=
  let digits := Nat.toDigits 10 c
  { digits := (digits.reverse.dropWhile (· = '0')).reverse
    power := k + digits.length - 1 }

/-- The first grid that meets the interval, trying coarser grids before finer ones: with `count`
digits, and then with up to `more` digits more. -/
def Interval.search (i : Interval) (power : Int) (count : Nat) : Nat → Digits
  | 0 =>
    let k := power - count + 1
    let numerator := i.value * Nat.pow 10 (-k).toNat
    let unit := i.denominator * Nat.pow 10 k.toNat
    .ofScaled (numerator / unit) k
  | more + 1 =>
    let k := power - count + 1
    match i.onGrid? k with
    | some c => .ofScaled c k
    | none => i.search power (count + 1) more

/-- The shortest decimal of a number. Seventeen digits are enough for every member of a format with
significands of 53 bits. -/
def Binary.shortest (b : Binary) : Digits :=
  let i := b.interval
  i.search i.leadingPower 1 17

end DocumentTypes.Decimal

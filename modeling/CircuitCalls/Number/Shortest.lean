import CircuitCalls.Number.Binary

/-!
# The fewest digits that read back

`Decimal.shortest` chooses, among the decimals that are rounded to a given double when read, one
with the fewest digits, and among those the one nearest to the double. For every digit count the two
neighbours of the value on that decimal grid are tested against the interval of reals that round to
the double; all comparisons are between natural numbers.
-/

namespace CircuitCalls

structure Decimal where
  digits : Nat
  exponent : Int
deriving DecidableEq, Repr

/-- Which of two equally near decimals is taken. -/
inductive TieRule where
  | away
  | toEven
deriving DecidableEq, Repr

namespace Decimal

/-- The number of decimal digits of `n`, 1 for zero. -/
def countDigits (n : Nat) : Nat := (Nat.toDigits 10 n).length

/-- The exponent of the first digit: the decimal is `d.ddd * 10 ^ leading`. -/
def leading (d : Decimal) : Int := d.exponent + countDigits d.digits - 1

/-- The same decimal without trailing zeros; the fuel bounds the number of zeros. -/
def stripZeros : Nat → Decimal → Decimal
  | 0, d => d
  | fuel + 1, d =>
    if d.digits ≠ 0 ∧ d.digits % 10 = 0 then stripZeros fuel ⟨d.digits / 10, d.exponent + 1⟩ else d

/-- The reals that round to a double, scaled by a common denominator: they lie between `low` and
`high`, ends included when `closed`, around the double itself at `value`. -/
structure Interval where
  low : Nat
  value : Nat
  high : Nat
  denominator : Nat
  closed : Bool

/-- The interval of a finite double other than zero, sign apart. Its ends are half way to the
neighbouring doubles, and reading rounds a half to the even significand. -/
def interval (b : Binary) : Interval :=
  let quarter := b.exponent - 2
  let scale := if 0 ≤ quarter then 1 <<< quarter.toNat else 1
  let denominator := if 0 ≤ quarter then 1 else 1 <<< (-quarter).toNat
  { low := (4 * b.significand - (if b.atBinadeStart then 1 else 2)) * scale
    value := 4 * b.significand * scale
    high := (4 * b.significand + 2) * scale
    denominator := denominator
    closed := b.significand % 2 == 0 }

def Interval.contains (i : Interval) (numerator : Nat) : Bool :=
  if i.closed then i.low ≤ numerator && numerator ≤ i.high
  else i.low < numerator && numerator < i.high

/-- The exponent of the first digit of `numerator / denominator`, from an estimate by digit counts
that is right or one too large. -/
def leadingExponent (numerator denominator : Nat) : Int :=
  let estimate : Int := (countDigits numerator : Int) - (countDigits denominator : Int)
  let reached := if 0 ≤ estimate then denominator * Nat.pow 10 estimate.toNat ≤ numerator
    else denominator ≤ numerator * Nat.pow 10 (-estimate).toNat
  if reached then estimate else estimate - 1

/-- The decimals with step `10 ^ exponent` next to the value that read back, nearest first. -/
def candidates (i : Interval) (tie : TieRule) (exponent : Int) : Option Nat :=
  -- scale so that the grid step is a natural number over the common denominator
  let grow := if exponent < 0 then Nat.pow 10 (-exponent).toNat else 1
  let step := (if exponent < 0 then 1 else Nat.pow 10 exponent.toNat) * i.denominator
  let wide : Interval := { i with low := i.low * grow, value := i.value * grow, high := i.high * grow }
  let below := wide.value / step
  let above := below + 1
  let down := wide.value - below * step
  let up := above * step - wide.value
  match wide.contains (below * step), wide.contains (above * step) with
  | true, true =>
    if down < up then some below
    else if up < down then some above
    else match tie with
      | .away => some above
      | .toEven => if below % 2 = 0 then some below else some above
  | true, false => some below
  | false, true => some above
  | false, false => none

/-- Tries grids with more and more digits; seventeen always suffice for a double. -/
def search (i : Interval) (tie : TieRule) (first : Int) : Nat → Nat → Decimal
  | 0, _ => ⟨0, 0⟩
  | fuel + 1, count =>
    let exponent := first - count
    match candidates i tie exponent with
    | some digits => stripZeros 20 ⟨digits, exponent⟩
    | none => search i tie first fuel (count + 1)

/-- The shortest decimal that reads back as the double, sign apart; zero for zero. -/
def shortest (tie : TieRule) (b : Binary) : Decimal :=
  if b.significand = 0 then ⟨0, 0⟩
  else
    let i := interval b
    search i tie (leadingExponent i.value i.denominator) 18 0

end Decimal

end CircuitCalls

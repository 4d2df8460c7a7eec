/-!
# Floats as binary fractions

A finite double is `± significand * 2 ^ exponent` with a natural significand. `Binary.ofFloat?`
reads these parts off the bit pattern, so that everything about the exact value of a double (its
shortest decimal, its rounding to one place, the remainder of a division) is arithmetic on natural
numbers.
-/

namespace CircuitCalls

/-- The exact value of a finite double: `significand * 2 ^ exponent`, negated if `negative`. -/
structure Binary where
  negative : Bool
  significand : Nat
  exponent : Int
deriving DecidableEq, Repr

namespace Binary

def leastExponent : Int := -1074

/-- The parts of a finite double; infinities and NaN have none. -/
def ofFloat? (x : Float) : Option Binary :=
  let bits := x.toBits.toNat
  let negative := bits >>> 63 == 1
  let field : Nat := (bits >>> 52) % 2048
  let fraction := bits % (1 <<< 52)
  if field = 2047 then none
  else if field = 0 then some ⟨negative, fraction, leastExponent⟩
  else some ⟨negative, fraction + (1 <<< 52), leastExponent + (field - 1 : Nat)⟩

/-- The double with these parts, for parts that a double can hold exactly. -/
def toFloat (b : Binary) : Float :=
  let magnitude := (Float.ofNat b.significand).scaleB b.exponent
  if b.negative then -magnitude else magnitude

/-- The value as a fraction of natural numbers, sign apart. -/
def toFraction (b : Binary) : Nat × Nat :=
  if 0 ≤ b.exponent then (b.significand <<< b.exponent.toNat, 1)
  else (b.significand, 1 <<< (-b.exponent).toNat)

/-- Whether the value is the least of its binade, so that the gap below it is half the gap above. -/
def atBinadeStart (b : Binary) : Bool :=
  b.significand == (1 <<< 52) && b.exponent != leastExponent

/-- `a` modulo `b`, exactly, with the sign of `a`. The result needs no more digits than `a` or `b`
have, so it is again a double. -/
def remainder (a b : Binary) : Binary :=
  let low := min a.exponent b.exponent
  let x := a.significand <<< (a.exponent - low).toNat
  let y := b.significand <<< (b.exponent - low).toNat
  ⟨a.negative, x % y, low⟩

end Binary

/-- The remainder of a truncated division of doubles: it has the sign of the dividend, an infinite
divisor leaves the dividend alone, and a zero divisor or an infinite dividend gives NaN. -/
def floatRemainder (x y : Float) : Float :=
  match Binary.ofFloat? x, Binary.ofFloat? y with
  | some a, some b => if b.significand = 0 then 0.0 / 0.0 else (a.remainder b).toFloat
  | some _, none => if y.isNaN then y else x
  | none, _ => 0.0 / 0.0

def isWhole (x : Float) : Bool :=
  match Binary.ofFloat? x with
  | some b => b.toFraction.1 % b.toFraction.2 == 0
  | none => false

/-- The whole number nearest to `numerator / denominator`, a half going to the even neighbour. -/
def roundHalfEven (numerator denominator : Nat) : Nat :=
  let quotient := numerator / denominator
  let rest := numerator % denominator
  if 2 * rest < denominator then quotient
  else if denominator < 2 * rest then quotient + 1
  else if quotient % 2 = 0 then quotient else quotient + 1

end CircuitCalls

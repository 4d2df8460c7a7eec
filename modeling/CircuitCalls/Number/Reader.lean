/-!
# Reading decimals

Decimal text names a rational number; reading it gives the nearest double.
-/

namespace CircuitCalls

def digitValue (c : Char) : Nat := c.toNat - '0'.toNat

def readDigits (digits : List Char) : Nat :=
  digits.foldl (fun value c => 10 * value + digitValue c) 0

/-- The double nearest to `digits * 10 ^ exponent`. A coefficient of more than 310 places overflows
to infinity, and one more than 330 places behind the point vanishes, whatever the digits are. -/
def nearestFloat (digits : Nat) (exponent : Int) : Float :=
  let places : Int := (Nat.toDigits 10 digits).length + exponent
  if digits = 0 then 0
  else if 310 < places then 1.0 / 0.0
  else if places < -330 then 0
  else Float.ofScientific digits (exponent < 0) exponent.natAbs

/-- The double nearest to the decimal `whole.fraction * 10 ^ exponent`. -/
def readDecimal (whole fraction : List Char) (exponent : Int) : Float :=
  nearestFloat (readDigits (whole ++ fraction)) (exponent - fraction.length)

end CircuitCalls

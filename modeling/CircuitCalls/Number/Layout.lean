import CircuitCalls.Number.Shortest

/-!
# How doubles are written

A `Layout` holds the decisions of one number format: which exponents are written positionally,
whether a whole number keeps `.0`, how the exponent is marked, and the texts of the values that are
no numbers. The digits are always the shortest ones.
-/

namespace CircuitCalls

/-- The decisions of a number format. -/
structure Layout where
  /-- Which exponents of the first digit are written positionally. -/
  positional : Int → Bool
  /-- Whether a whole number written positionally ends in `.0`. -/
  pointZero : Bool
  /-- Whether a positive exponent carries a plus sign. -/
  plusSign : Bool
  /-- The least number of exponent digits. -/
  exponentWidth : Nat
  tie : TieRule
  notANumber : String
  infinity : String
  negativeInfinity : String

namespace Layout

def padded (width n : Nat) : String :=
  let digits := Nat.toDigits 10 n
  String.ofList (List.replicate (width - digits.length) '0' ++ digits)

def writePositional (pointZero : Bool) (d : Decimal) : String :=
  let digits := Nat.toDigits 10 d.digits
  if 0 ≤ d.exponent then
    String.ofList (digits ++ List.replicate d.exponent.toNat '0') ++ (if pointZero then ".0" else "")
  else
    let places := (-d.exponent).toNat
    let whole := digits.take (digits.length - places)
    let fraction := List.replicate (places - digits.length) '0' ++ digits.drop (digits.length - places)
    (if whole.isEmpty then "0" else String.ofList whole) ++ "." ++ String.ofList fraction

/-- The decimal with one digit before the point and an exponent. -/
def writeScientific (plusSign : Bool) (exponentWidth : Nat) (d : Decimal) : String :=
  let digits := Nat.toDigits 10 d.digits
  let mantissa := match digits with
    | [] => "0"
    | [c] => c.toString
    | c :: rest => c.toString ++ "." ++ String.ofList rest
  let sign := if d.leading < 0 then "-" else if plusSign then "+" else ""
  mantissa ++ "e" ++ sign ++ padded exponentWidth d.leading.natAbs

/-- A double in this format. -/
def write (layout : Layout) (x : Float) : String :=
  match Binary.ofFloat? x with
  | none =>
    if x.isNaN then layout.notANumber
    else if x < 0 then layout.negativeInfinity else layout.infinity
  | some b =>
    let d := Decimal.shortest layout.tie b
    (if b.negative then "-" else "") ++
      (if b.significand = 0 ∨ layout.positional d.leading = true then writePositional layout.pointZero d
       else writeScientific layout.plusSign layout.exponentWidth d)

end Layout

/-- Plain notation at every magnitude: `100000`, `0.00001`, `-0`. -/
def Layout.plain : Layout where
  positional _ := true
  pointZero := false
  plusSign := false
  exponentWidth := 1
  tie := .away
  notANumber := "NaN"
  infinity := "inf"
  negativeInfinity := "-inf"

/-- One place after the point, the exact value rounded half to even. -/
def writeTenths (x : Float) : String :=
  match Binary.ofFloat? x with
  | none => Layout.plain.write x
  | some b =>
    let tenths := roundHalfEven (b.toFraction.1 * 10) b.toFraction.2
    (if b.negative then "-" else "") ++ toString (tenths / 10) ++ "." ++ toString (tenths % 10)

end CircuitCalls

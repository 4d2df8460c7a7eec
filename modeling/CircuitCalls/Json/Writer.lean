import CircuitCalls.Json.Value
import CircuitCalls.Number.Layout

/-!
# Writing JSON

Two layouts of the same tokens: `Json.compact` without any blanks, and `Json.pretty` with a field or
an item a line, indented by two blanks a level. Non-ASCII text stands as it is.
-/

namespace CircuitCalls

namespace Json

def hexDigit (n : Nat) : Char := (Nat.digitChar (n % 16))

def escapeChar (c : Char) : List Char :=
  if c = '"' then ['\\', '"']
  else if c = '\\' then ['\\', '\\']
  else if c = '\n' then ['\\', 'n']
  else if c = '\r' then ['\\', 'r']
  else if c = '\t' then ['\\', 't']
  else if c = '\x08' then ['\\', 'b']
  else if c = '\x0c' then ['\\', 'f']
  else if c.toNat < 32 then ['\\', 'u', '0', '0', hexDigit (c.toNat / 16), hexDigit c.toNat]
  else [c]

def quote (s : String) : String := "\"" ++ String.ofList (s.toList.flatMap escapeChar) ++ "\""

/-- Doubles always show a point or an exponent; the first digit's exponent decides which. What is no
number is written as `null`. -/
def numberLayout : Layout where
  positional e := -5 ≤ e && e ≤ 15
  pointZero := true
  plusSign := true
  exponentWidth := 1
  tie := .toEven
  notANumber := "null"
  infinity := "null"
  negativeInfinity := "null"

mutual

/-- The value without blanks. -/
def compact : Json → String
  | null => "null"
  | bool b => if b then "true" else "false"
  | int n => toString n
  | float x => numberLayout.write x
  | str s => quote s
  | arr items => "[" ++ ",".intercalate (compactItems items) ++ "]"
  | obj fields => "\x7b" ++ ",".intercalate (compactFields fields) ++ "\x7d"

def compactItems : List Json → List String
  | [] => []
  | item :: rest => compact item :: compactItems rest

def compactFields : List (String × Json) → List String
  | [] => []
  | (key, value) :: rest => (quote key ++ ":" ++ compact value) :: compactFields rest

end

def margin (level : Nat) : String := "\n" ++ String.ofList (List.replicate (2 * level) ' ')

/-- A bracketed list of parts, one a line, or the bare brackets when there are none. -/
def bracketed (level : Nat) («open» close : String) (parts : List String) : String :=
  if parts.isEmpty then «open» ++ close
  else «open» ++ margin (level + 1) ++ ("," ++ margin (level + 1)).intercalate parts ++
    margin level ++ close

mutual

/-- The value over several lines, as it stands at a level of nesting. -/
def prettyAt (level : Nat) : Json → String
  | null => "null"
  | bool b => if b then "true" else "false"
  | int n => toString n
  | float x => numberLayout.write x
  | str s => quote s
  | arr items => bracketed level "[" "]" (prettyItems (level + 1) items)
  | obj fields => bracketed level "\x7b" "\x7d" (prettyFields (level + 1) fields)

def prettyItems (level : Nat) : List Json → List String
  | [] => []
  | item :: rest => prettyAt level item :: prettyItems level rest

def prettyFields (level : Nat) : List (String × Json) → List String
  | [] => []
  | (key, value) :: rest => (quote key ++ ": " ++ prettyAt level value) :: prettyFields level rest

end

def pretty (j : Json) : String := prettyAt 0 j

end Json

end CircuitCalls

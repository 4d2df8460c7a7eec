import CircuitCalls.Number.Reader

/-!
# JSON tokens

A machine that takes one character at a time and gives out the tokens that are complete. It is
strict: no leading zeros, no raw control characters in strings, no half of a surrogate pair, no
number beyond the range of doubles.
-/

namespace CircuitCalls

namespace Json

/-- A token of JSON text. Numbers are already read. -/
inductive Token where
  | openArray
  | closeArray
  | openObject
  | closeObject
  | comma
  | colon
  | null
  | bool (value : Bool)
  | int (value : Int)
  | float (value : Float)
  | str (value : String)
deriving DecidableEq

/-- Where the machine stands between two characters. Text read so far is held in reverse. -/
inductive Lexing where
  /-- Between tokens. -/
  | between
  /-- Inside `null`, `true` or `false`. -/
  | word (letters : List Char)
  /-- Inside a number. -/
  | number (text : List Char)
  /-- Inside a string. -/
  | text (read : List Char)
  /-- After a backslash. -/
  | escape (read : List Char)
  /-- Inside `\uXXXX`, with `left` digits to come. -/
  | unit (read : List Char) (high : Option Nat) (left value : Nat)
  /-- After a leading surrogate, which has to be followed by `\u`. -/
  | pairBackslash (read : List Char) (high : Nat)
  /-- After a leading surrogate and a backslash. -/
  | pairMark (read : List Char) (high : Nat)

/-- The two halves of a surrogate pair. -/
def isLeading (unit : Nat) : Bool := 0xD800 ≤ unit && unit < 0xDC00

/-- Whether a unit can only stand second in a surrogate pair. -/
def isTrailing (unit : Nat) : Bool := 0xDC00 ≤ unit && unit < 0xE000

def hexValue? (c : Char) : Option Nat :=
  if '0' ≤ c ∧ c ≤ '9' then some (c.toNat - '0'.toNat)
  else if 'a' ≤ c ∧ c ≤ 'f' then some (c.toNat - 'a'.toNat + 10)
  else if 'A' ≤ c ∧ c ≤ 'F' then some (c.toNat - 'A'.toNat + 10)
  else none

/-- The character after a backslash, the four-digit form apart. -/
def unescape? (c : Char) : Option Char :=
  match c with
  | '"' => some '"'
  | '\\' => some '\\'
  | '/' => some '/'
  | 'b' => some '\x08'
  | 'f' => some '\x0c'
  | 'n' => some '\n'
  | 'r' => some '\r'
  | 't' => some '\t'
  | _ => none

def isNumberChar (c : Char) : Bool := c.isDigit || c == '-' || c == '+' || c == '.' || c == 'e' || c == 'E'

/-- An exponent after its `e`: an optional sign and at least one digit. -/
def exponent? (text : List Char) : Option Int :=
  let (negative, digits) := match text with
    | '-' :: rest => (true, rest)
    | '+' :: rest => (false, rest)
    | _ => (false, text)
  if digits.isEmpty || !digits.all Char.isDigit then none
  else some (if negative then -(readDigits digits : Int) else readDigits digits)

/-- The fraction and the exponent after the whole part of a number. -/
def tail? (text : List Char) : Option (List Char × Int) :=
  let (fraction, rest) := match text with
    | '.' :: rest => (some (rest.takeWhile Char.isDigit), rest.dropWhile Char.isDigit)
    | _ => (none, text)
  if fraction == some [] then none
  else match rest with
    | [] => some (fraction.getD [], 0)
    | c :: rest => if c == 'e' || c == 'E' then (exponent? rest).map (fraction.getD [], ·) else none

/-- An integer that fits in 64 bits stays one; a negative zero and what is too large is a double. -/
def wholeNumber (negative : Bool) (n : Nat) : Token :=
  if negative then
    if n = 0 ∨ 0x8000000000000000 < n then .float (-(nearestFloat n 0)) else .int (-n)
  else if n < UInt64.size then .int n else .float (nearestFloat n 0)

/-- A complete number. A decimal is read as the double nearest to it; a reader that only comes close can give a
neighbour for a text of many digits. -/
def number? (text : List Char) : Option Token :=
  let (negative, rest) := match text with
    | '-' :: rest => (true, rest)
    | _ => (false, text)
  let whole := rest.takeWhile Char.isDigit
  let rest := rest.dropWhile Char.isDigit
  if whole.isEmpty || (whole.head? == some '0' && whole.length != 1) then none
  else
    let token :=
      if rest.isEmpty then some (wholeNumber negative (readDigits whole))
      else (tail? rest).map fun (fraction, exponent) =>
        let magnitude := readDecimal whole fraction exponent
        .float (if negative then -magnitude else magnitude)
    match token with
    | some (.float x) => if x.isInf then none else token
    | _ => token

def word? (letters : List Char) : Option Token :=
  if letters = "null".toList then some .null
  else if letters = "true".toList then some (.bool true)
  else if letters = "false".toList then some (.bool false)
  else none

/-- A character between tokens: what it starts, and the token it is. -/
def start? (c : Char) : Option (Lexing × List Token) :=
  match c with
  | ' ' | '\n' | '\r' | '\t' => some (.between, [])
  | '[' => some (.between, [.openArray])
  | ']' => some (.between, [.closeArray])
  | '\x7b' => some (.between, [.openObject])
  | '\x7d' => some (.between, [.closeObject])
  | ',' => some (.between, [.comma])
  | ':' => some (.between, [.colon])
  | '"' => some (.text [], [])
  | _ =>
    if c.isDigit || c == '-' then some (.number [c], [])
    else if c.isLower then some (.word [c], [])
    else none

/-- Closes a number or a word before a character that does not belong to it. -/
def closeBefore? (token : Option Token) (c : Char) : Option (Lexing × List Token) := do
  let token ← token
  let (state, tokens) ← start? c
  some (state, token :: tokens)

/-- The end of a `\uXXXX` form. -/
def unit? (read : List Char) (high : Option Nat) (value : Nat) : Option (Lexing × List Token) :=
  match high with
  | some high =>
    if isTrailing value then
      some (.text (Char.ofNat (0x10000 + (high - 0xD800) * 0x400 + (value - 0xDC00)) :: read), [])
    else none
  | none =>
    if isLeading value then some (.pairBackslash read value, [])
    else if isTrailing value then none
    else some (.text (Char.ofNat value :: read), [])

def step? : Lexing → Char → Option (Lexing × List Token)
  | .between, c => start? c
  | .word letters, c =>
    if c.isLower then some (.word (c :: letters), []) else closeBefore? (word? letters.reverse) c
  | .number text, c =>
    if isNumberChar c then some (.number (c :: text), []) else closeBefore? (number? text.reverse) c
  | .text read, c =>
    if c = '"' then some (.between, [.str (String.ofList read.reverse)])
    else if c = '\\' then some (.escape read, [])
    else if c.toNat < 32 then none
    else some (.text (c :: read), [])
  | .escape read, c =>
    if c = 'u' then some (.unit read none 4 0, [])
    else (unescape? c).map fun c => (.text (c :: read), [])
  | .unit read high left value, c => do
    let digit ← hexValue? c
    let value := 16 * value + digit
    if left ≤ 1 then unit? read high value else some (.unit read high (left - 1) value, [])
  | .pairBackslash read high, c => if c = '\\' then some (.pairMark read high, []) else none
  | .pairMark read high, c => if c = 'u' then some (.unit read (some high) 4 0, []) else none

/-- The tokens still owed at the end of the text. -/
def finish? : Lexing → Option (List Token)
  | .between => some []
  | .word letters => (word? letters.reverse).map ([·])
  | .number text => (number? text.reverse).map ([·])
  | _ => none

def tokensFrom? : Lexing → List Char → Option (List Token)
  | state, [] => finish? state
  | state, c :: rest => do
    let (state, tokens) ← step? state c
    let more ← tokensFrom? state rest
    some (tokens ++ more)

/-- The tokens of a JSON text. -/
def tokens? (text : String) : Option (List Token) := tokensFrom? .between text.toList

end Json

end CircuitCalls

import CircuitCalls.Number.Reader
import CircuitCalls.Qasm.Error
import CircuitCalls.Qasm.Token

/-!
# Reading tokens

The longest lexeme wins, and a keyword wins over an identifier of the same text. `scan` finds the
lexeme at the start of a text and says how many characters belong to it after the first one; `tokens`
goes through the text lexeme by lexeme and counts lines. A newline inside a string is not counted.
-/

namespace CircuitCalls.Qasm

/-- What a lexeme stands for. -/
inductive Lexeme where
  | token (token : Token)
  /-- Blanks and comments with this many newlines. -/
  | skipped (newlines : Nat)
  | invalid (text : String)

def isNameStart (c : Char) : Bool := c.isAlpha || c == '_'

def isNamePart (c : Char) : Bool := isNameStart c || c.isDigit

/-! ## Numbers -/

/-- The exponent of a decimal number at the start of a text, if it is complete, with its length. -/
def exponentAt? : List Char → Option (Int × Nat)
  | mark :: rest =>
    if mark == 'e' || mark == 'E' then
      let (sign, width, rest) : Int × Nat × List Char := match rest with
        | '+' :: rest => (1, 2, rest)
        | '-' :: rest => (-1, 2, rest)
        | _ => (1, 1, rest)
      match rest.takeWhile Char.isDigit with
      | [] => none
      | digits => some (sign * readDigits digits, width + digits.length)
    else none
  | [] => none

/-- A whole number, which has to fit in 64 bits. -/
def wholeLexeme (digits : List Char) : Lexeme :=
  let value := readDigits digits
  if value < UInt64.size then .token (.int (UInt64.ofNat value)) else .invalid (String.ofList digits)

def scanNumber (first : Char) (text : List Char) : Lexeme × Nat :=
  let more := text.takeWhile Char.isDigit
  let whole := first :: more
  match text.drop more.length with
  | '.' :: rest =>
    let fraction := rest.takeWhile Char.isDigit
    let plain := more.length + 1 + fraction.length
    match exponentAt? (rest.drop fraction.length) with
    | some (exponent, length) => (.token (.float (readDecimal whole fraction exponent)), plain + length)
    | none => (.token (.float (readDecimal whole fraction 0)), plain)
  | rest =>
    match exponentAt? rest with
    | some (exponent, length) => (.token (.float (readDecimal whole [] exponent)), more.length + length)
    | none => (wholeLexeme whole, more.length)

/-! ## Words, strings and comments -/

def scanName (first : Char) (text : List Char) : Lexeme × Nat :=
  let more := text.takeWhile isNamePart
  let name := String.ofList (first :: more)
  match Keyword.ofText? name with
  | some k => (.token (.keyword k), more.length)
  | none => (.token (.identifier name), more.length)

/-- The string that starts before `text`; without its closing quote all of the text is invalid. -/
def scanString (text : List Char) : Lexeme × Nat :=
  let body := text.takeWhile (· != '"')
  if body.length < text.length then (.token (.string (String.ofList body)), body.length + 1)
  else (.invalid (String.ofList ('"' :: text)), text.length)

/-- The text before the end of a block comment, whose newlines `block_comment` counts. -/
def commentBody? : List Char → Option (List Char)
  | [] => none
  | '*' :: '/' :: _ => some []
  | c :: rest => (commentBody? rest).map (c :: ·)

/-- The block comment that starts two characters before `text`; without its end all of the text is
invalid. -/
def scanComment (text : List Char) : Lexeme × Nat :=
  match commentBody? text with
  | some body => (.skipped (body.count '\n'), body.length + 3)
  | none => (.invalid (String.ofList ('/' :: '*' :: text)), text.length + 1)

/-! ## Symbols -/

def pairSymbol? : Char → Char → Option Symbol
  | '*', '*' => some .power
  | '=', '=' => some .equal
  | '!', '=' => some .notEqual
  | '<', '=' => some .lessEqual
  | '>', '=' => some .greaterEqual
  | '&', '&' => some .and
  | '|', '|' => some .or
  | '<', '<' => some .shiftLeft
  | '>', '>' => some .shiftRight
  | '-', '>' => some .arrow
  | _, _ => none

def singleSymbol? : Char → Option Symbol
  | '+' => some .plus
  | '-' => some .minus
  | '*' => some .star
  | '/' => some .slash
  | '%' => some .percent
  | '<' => some .less
  | '>' => some .greater
  | '!' => some .not
  | '&' => some .bitAnd
  | '|' => some .bitOr
  | '^' => some .bitXor
  | '=' => some .assign
  | '@' => some .atSign
  | '(' => some .leftParen
  | ')' => some .rightParen
  | '[' => some .leftBracket
  | ']' => some .rightBracket
  | '\x7b' => some .leftBrace
  | '\x7d' => some .rightBrace
  | ';' => some .semicolon
  | ':' => some .colon
  | ',' => some .comma
  | _ => none

def scanSymbol (first : Char) (text : List Char) : Lexeme × Nat :=
  match text.head?.bind (pairSymbol? first) with
  | some s => (.token (.symbol s), 1)
  | none =>
    match singleSymbol? first with
    | some s => (.token (.symbol s), 0)
    | none => (.invalid (String.singleton first), 0)

/-! ## Lexemes in a row -/

/-- The blanks that are no newline. -/
def isBlank (c : Char) : Bool := c == ' ' || c == '\t' || c == '\r' || c == '\x0c'

/-- The lexeme that starts with `first`, and its length after that character. -/
def scan (first : Char) (text : List Char) : Lexeme × Nat :=
  if isBlank first then (.skipped 0, (text.takeWhile isBlank).length)
  else if first == '\n' then (.skipped 1, 0)
  else if first.isDigit then scanNumber first text
  else if isNameStart first then scanName first text
  else if first == 'π' then (.token (.keyword .pi), 0)
  else if first == 'τ' then (.token (.keyword .tau), 0)
  else if first == '"' then scanString text
  else
    match first, text with
    | '/', '/' :: rest => (.skipped 0, (rest.takeWhile (· != '\n')).length + 1)
    | '/', '*' :: rest => scanComment rest
    | _, _ => scanSymbol first text

/-- The tokens of a text from line `line` on, after leaving out its first `skip` characters. -/
def tokensFrom : Nat → Nat → List Char → Except Error (List Located)
  | _, _, [] => .ok []
  | skip + 1, line, _ :: text => tokensFrom skip line text
  | 0, line, first :: text =>
    match scan first text with
    | (.token token, length) => do
      let rest ← tokensFrom length line text
      return ⟨token, line⟩ :: rest
    | (.skipped newlines, length) => tokensFrom length (line + newlines) text
    | (.invalid text, _) => .error (.invalidToken line text)

/-- The tokens of a source (`tokenize`). -/
def tokens (source : String) : Except Error (List Located) := tokensFrom 0 1 source.toList

end CircuitCalls.Qasm

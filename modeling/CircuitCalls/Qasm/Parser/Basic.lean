import CircuitCalls.Qasm.Error
import CircuitCalls.Qasm.Token

/-!
# Taking tokens

A parser works on the list of tokens that are left. An error about a token that was found names the
line of that token. Recursive parsers have a budget of nested steps; running out of it is kept apart
from errors of the source.
-/

namespace CircuitCalls.Qasm

/-- Why a parser stopped. -/
inductive Halt where
  | failed (error : Error)
  /-- The budget of steps was too small. -/
  | exhausted

/-- A parser of tokens. -/
abbrev Parser := StateT (List Located) (Except Halt)

namespace Parser

def fail {α : Type} (error : Error) : Parser α := throw (.failed error)

/-- Stops because the budget is spent. -/
def exhausted {α : Type} : Parser α := throw .exhausted

/-- Stops at a token that is not the expected one. -/
def unexpected {α : Type} (expected : String) (found : Located) : Parser α :=
  fail (.unexpectedToken found.line expected found.token.text)

def peek? : Parser (Option Token) := do
  let left ← get
  return left.head?.map (·.token)

def peekSecond? : Parser (Option Token) := do
  let left ← get
  return left.tail.head?.map (·.token)

/-- Takes a token (`advance`); `expected` is what the end of the input is in the place of. -/
def next (expected : String) : Parser Located := do
  match ← get with
  | [] => fail (.unexpectedEnd expected)
  | token :: left =>
    set left
    return token

def skip : Parser Unit := modify List.tail

def check (token : Token) : Parser Bool := do
  let found ← peek?
  return found = some token

/-- Takes the next token if it is `token` (`consume`). -/
def consume (token : Token) : Parser Bool := do
  let found ← check token
  if found then
    skip
  return found

/-- Takes the token `token`. -/
def expect (token : Token) : Parser Unit := do
  let found ← next token.text
  unless found.token = token do
    unexpected token.text found

def symbol (s : Symbol) : Parser Unit := expect (.symbol s)

def identifier : Parser String := do
  let found ← next "identifier"
  match found.token with
  | .identifier name => return name
  | _ => unexpected "identifier" found

/-- Takes a whole number of 32 bits (`parse_u32_literal`). -/
def size : Parser UInt32 := do
  let found ← next "integer"
  match found.token with
  | .int value =>
    if value.toNat < UInt32.size then
      return UInt32.ofNat value.toNat
    else
      unexpected "integer below 2^32" found
  | _ => unexpected "integer" found

/-- Takes a whole number in brackets, if there is one (`parse_optional_size`). -/
def bracketedSize? : Parser (Option UInt32) := do
  let found ← consume (.symbol .leftBracket)
  if found then
    let n ← size
    symbol .rightBracket
    return some n
  else
    return none

end Parser

end CircuitCalls.Qasm

import CircuitCalls.Number.Layout

/-!
# Tokens of OpenQASM

Keywords and symbols have one spelling each; two of the mathematical constants may also be written as
the Greek letter.
-/

namespace CircuitCalls.Qasm

inductive Keyword where
  | openqasm | includeFile | qubit | bit | qreg | creg | int | gate
  | measure | reset | barrier | delay | ctrl | negctrl | inv | pow | gateU | gateCX
  | ifKey | elseKey | whileKey | forKey | inKey
  | pi | tau | euler | trueKey | falseKey
deriving DecidableEq, Repr

/-- An operator or a punctuation mark. -/
inductive Symbol where
  | plus | minus | star | slash | percent | power
  | equal | notEqual | less | lessEqual | greater | greaterEqual
  | and | or | not | bitAnd | bitOr | bitXor | shiftLeft | shiftRight
  | assign | arrow | atSign
  | leftParen | rightParen | leftBracket | rightBracket | leftBrace | rightBrace
  | semicolon | colon | comma
deriving DecidableEq, Repr

inductive Token where
  | keyword (keyword : Keyword)
  | symbol (symbol : Symbol)
  | identifier (name : String)
  | int (value : UInt64)
  | float (value : Float)
  | string (text : String)
deriving DecidableEq

/-- A token and the line it starts on, counted from 1. -/
structure Located where
  token : Token
  line : Nat
deriving DecidableEq

namespace Keyword

def all : List Keyword :=
  [openqasm, includeFile, qubit, bit, qreg, creg, int, gate, measure, reset, barrier, delay, ctrl,
    negctrl, inv, pow, gateU, gateCX, ifKey, elseKey, whileKey, forKey, inKey, pi, tau, euler, trueKey,
    falseKey]

/-- The spelling of a keyword (`spelling`). -/
def text : Keyword → String
  | openqasm => "OPENQASM"
  | includeFile => "include"
  | qubit => "qubit"
  | bit => "bit"
  | qreg => "qreg"
  | creg => "creg"
  | int => "int"
  | gate => "gate"
  | measure => "measure"
  | reset => "reset"
  | barrier => "barrier"
  | delay => "delay"
  | ctrl => "ctrl"
  | negctrl => "negctrl"
  | inv => "inv"
  | pow => "pow"
  | gateU => "U"
  | gateCX => "CX"
  | ifKey => "if"
  | elseKey => "else"
  | whileKey => "while"
  | forKey => "for"
  | inKey => "in"
  | pi => "pi"
  | tau => "tau"
  | euler => "euler"
  | trueKey => "true"
  | falseKey => "false"

def ofText? (text : String) : Option Keyword := all.find? (·.text == text)

end Keyword

def Symbol.text : Symbol → String
  | plus => "+"
  | minus => "-"
  | star => "*"
  | slash => "/"
  | percent => "%"
  | power => "**"
  | equal => "=="
  | notEqual => "!="
  | less => "<"
  | lessEqual => "<="
  | greater => ">"
  | greaterEqual => ">="
  | and => "&&"
  | or => "||"
  | not => "!"
  | bitAnd => "&"
  | bitOr => "|"
  | bitXor => "^"
  | shiftLeft => "<<"
  | shiftRight => ">>"
  | assign => "="
  | arrow => "->"
  | atSign => "@"
  | leftParen => "("
  | rightParen => ")"
  | leftBracket => "["
  | rightBracket => "]"
  | leftBrace => "\x7b"
  | rightBrace => "\x7d"
  | semicolon => ";"
  | colon => ":"
  | comma => ","

/-- The text of a token; that of a number need not be the one it was read from. -/
def Token.text : Token → String
  | keyword k => k.text
  | symbol s => s.text
  | identifier name => name
  | int value => toString value.toNat
  | float value => Layout.plain.write value
  | string text => "\"" ++ text ++ "\""

end CircuitCalls.Qasm

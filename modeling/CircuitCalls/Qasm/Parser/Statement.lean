import CircuitCalls.Qasm.Lexer
import CircuitCalls.Qasm.Parser.Expression

/-!
# Statements from tokens

A source is a version line followed by statements. The type of a loop variable and the unit of a
duration are read and dropped.
-/

namespace CircuitCalls.Qasm

namespace Parser

/-! ## Operands -/

/-- What is selected from a register whose name has been taken (`parse_operand_tail`). -/
def selection : Parser Selection := do
  let bracket ← consume (.symbol .leftBracket)
  if bracket then
    let first ← size
    let colon ← consume (.symbol .colon)
    if colon then
      let last ← size
      symbol .rightBracket
      return .slice first last
    else
      symbol .rightBracket
      return .index first
  else
    return .all

def operand : Parser Operand := do
  let register ← identifier
  let selection ← selection
  return ⟨register, selection⟩

def moreOperands : Nat → Parser (List Operand)
  | 0 => exhausted
  | budget + 1 => do
    let comma ← consume (.symbol .comma)
    if comma then
      let first ← operand
      let rest ← moreOperands budget
      return first :: rest
    else
      return []

def operands (budget : Nat) : Parser (List Operand) := do
  let first ← operand
  let rest ← moreOperands budget
  return first :: rest

/-! ## Statements without a body -/

def includeFile : Parser Statement := do
  let found ← next "include path"
  match found.token with
  | .string path =>
    symbol .semicolon
    return .includeFile path
  | _ => unexpected "string literal" found

/-- A declaration with the size before the name. -/
def declaration (kind : BitKind) : Parser Statement := do
  let size ← bracketedSize?
  let name ← identifier
  symbol .semicolon
  return .declare kind name (size.getD 1)

/-- A declaration with the size after the name (`parse_legacy_declaration`). -/
def namedDeclaration (kind : BitKind) : Parser Statement := do
  let name ← identifier
  let size ← bracketedSize?
  symbol .semicolon
  return .declare kind name (size.getD 1)

def measure (budget : Nat) : Parser Statement := do
  let qubits ← operands budget
  let arrow ← consume (.symbol .arrow)
  let bits ← if arrow then operands budget else pure []
  symbol .semicolon
  return .measure qubits bits

/-- The assignment of a measurement to a register whose name has been taken (`parse_measure_assignment`). -/
def measureInto (budget : Nat) (register : String) : Parser Statement := do
  let selection ← selection
  symbol .assign
  expect (.keyword .measure)
  let qubits ← operands budget
  symbol .semicolon
  return .measure qubits [⟨register, selection⟩]

def reset (budget : Nat) : Parser Statement := do
  let qubits ← operands budget
  symbol .semicolon
  return .reset qubits

def barrier (budget : Nat) : Parser Statement := do
  let bare ← check (.symbol .semicolon)
  let qubits ← if bare then pure [] else operands budget
  symbol .semicolon
  return .barrier qubits

/-- The unit of a duration. -/
def skipUnit : Parser Unit := do
  let token ← peek?
  match token with
  | some (.identifier _) => skip
  | _ => return

def delay (budget : Nat) : Parser Statement := do
  symbol .leftBracket
  let duration ← expression budget
  skipUnit
  symbol .rightBracket
  let qubits ← operands budget
  symbol .semicolon
  return .delay duration qubits

/-! ## Gate calls -/

/-- The number of controls of a modifier (`parse_modifier_count`). -/
def controlCount : Parser UInt32 := do
  let paren ← consume (.symbol .leftParen)
  if paren then
    let count ← size
    symbol .rightParen
    return count
  else
    return 1

/-- A modifier without the sign after it, if there is one. -/
def modifier? (budget : Nat) : Parser (Option Modifier) := do
  let token ← peek?
  match token with
  | some (.keyword .ctrl) =>
    skip
    let count ← controlCount
    return some (.ctrl count)
  | some (.keyword .negctrl) =>
    skip
    let count ← controlCount
    return some (.negctrl count)
  | some (.keyword .inv) =>
    skip
    return some .inv
  | some (.keyword .pow) =>
    skip
    symbol .leftParen
    let exponent ← expression budget
    symbol .rightParen
    return some (.pow exponent)
  | _ => return none

def modifiers : Nat → Parser (List Modifier)
  | 0 => exhausted
  | budget + 1 => do
    let found ← modifier? budget
    match found with
    | some modifier =>
      symbol .atSign
      let rest ← modifiers budget
      return modifier :: rest
    | none => return []

def gateName : Parser String := do
  let found ← next "gate name"
  match found.token with
  | .identifier name => return name
  | .keyword .gateU => return "U"
  | .keyword .gateCX => return "CX"
  | _ => unexpected "gate name" found

def gateParameters (budget : Nat) : Parser (List Expression) := do
  let paren ← consume (.symbol .leftParen)
  if paren then
    let parameters ← expressionsUntil budget .rightParen
    symbol .rightParen
    return parameters
  else
    return []

/-- A gate call, after its modifiers and its name (`parse_gate_call`). -/
def gateCall (budget : Nat) (modifiers : List Modifier) (name : String) : Parser Statement := do
  let parameters ← gateParameters budget
  let qubits ← operands budget
  symbol .semicolon
  return .gate ⟨name, parameters, qubits, modifiers⟩

def modifiedCall (budget : Nat) : Parser Statement := do
  let modifiers ← modifiers budget
  let name ← gateName
  gateCall budget modifiers name

/-- A statement that starts with a name (`parse_identifier_statement`). -/
def namedStatement (budget : Nat) (name : String) : Parser Statement := do
  let token ← peek?
  match token with
  | some (.symbol .assign) => measureInto budget name
  | some (.symbol .leftBracket) => measureInto budget name
  | _ => gateCall budget [] name

/-! ## Conditionals and loops -/

def condition (budget : Nat) : Parser Expression := do
  symbol .leftParen
  let e ← expression budget
  symbol .rightParen
  return e

/-- The type of a loop variable, if there is one (`skip_loop_type`). -/
def skipLoopType : Parser Unit := do
  let first ← peek?
  let second ← peekSecond?
  let typed := match first, second with
    | some (.keyword .int), _ => true
    | some (.identifier _), some (.keyword .inKey) => false
    | some (.identifier _), _ => true
    | _, _ => false
  if typed then
    skip
    let _ ← bracketedSize?
  return

def range (budget : Nat) : Parser LoopDomain := do
  let start ← expression budget
  symbol .colon
  let second ← expression budget
  let colon ← consume (.symbol .colon)
  if colon then
    let finish ← expression budget
    symbol .rightBracket
    return .range start (some second) finish
  else
    symbol .rightBracket
    return .range start none second

/-- What a loop runs over. -/
def loopDomain (budget : Nat) : Parser LoopDomain := do
  let found ← next "loop range"
  match found.token with
  | .symbol .leftBracket => range budget
  | .symbol .leftBrace =>
    let values ← expressionsUntil budget .rightBrace
    symbol .rightBrace
    return .values values
  | _ => unexpected "'[' or '\x7b'" found

mutual

/-- A statement (`parse_statement`). -/
def statement : Nat → Parser Statement
  | 0 => exhausted
  | budget + 1 => do
    let token ← peek?
    match token with
    | some (.keyword .includeFile) =>
      skip
      includeFile
    | some (.keyword .qubit) =>
      skip
      declaration .quantum
    | some (.keyword .bit) =>
      skip
      declaration .classical
    | some (.keyword .qreg) =>
      skip
      namedDeclaration .quantum
    | some (.keyword .creg) =>
      skip
      namedDeclaration .classical
    | some (.keyword .measure) =>
      skip
      measure budget
    | some (.keyword .reset) =>
      skip
      reset budget
    | some (.keyword .barrier) =>
      skip
      barrier budget
    | some (.keyword .delay) =>
      skip
      delay budget
    | some (.keyword .ifKey) =>
      skip
      let condition ← condition budget
      let thenBody ← body budget
      let hasElse ← consume (.keyword .elseKey)
      if hasElse then
        let elseBody ← body budget
        return .ifElse condition thenBody (some elseBody)
      else
        return .ifElse condition thenBody none
    | some (.keyword .whileKey) =>
      skip
      let condition ← condition budget
      let body ← body budget
      return .whileLoop condition body
    | some (.keyword .forKey) =>
      skip
      skipLoopType
      let loopVar ← identifier
      expect (.keyword .inKey)
      let domain ← loopDomain budget
      let body ← body budget
      return .forLoop loopVar domain body
    | some (.keyword .ctrl) => modifiedCall budget
    | some (.keyword .negctrl) => modifiedCall budget
    | some (.keyword .inv) => modifiedCall budget
    | some (.keyword .pow) => modifiedCall budget
    | some (.keyword .gateU) =>
      skip
      gateCall budget [] "U"
    | some (.keyword .gateCX) =>
      skip
      gateCall budget [] "CX"
    | some (.identifier name) =>
      skip
      namedStatement budget name
    | _ =>
      let found ← next "statement"
      unexpected "statement" found

/-- A block in braces, or a single statement (`parse_block_or_statement`). -/
def body : Nat → Parser (List Statement)
  | 0 => exhausted
  | budget + 1 => do
    let brace ← consume (.symbol .leftBrace)
    if brace then
      statementsUntilBrace budget
    else
      let single ← statement budget
      return [single]

/-- Statements before a closing brace, and the brace. -/
def statementsUntilBrace : Nat → Parser (List Statement)
  | 0 => exhausted
  | budget + 1 => do
    let token ← peek?
    match token with
    | none => fail (.unexpectedEnd "'\x7d'")
    | some (.symbol .rightBrace) =>
      skip
      return []
    | some _ =>
      let first ← statement budget
      let rest ← statementsUntilBrace budget
      return first :: rest

end

/-! ## Sources -/

/-- Statements up to the end. -/
def statementsToEnd : Nat → Parser (List Statement)
  | 0 => exhausted
  | budget + 1 => do
    let token ← peek?
    match token with
    | none => return []
    | some _ =>
      let first ← statement budget
      let rest ← statementsToEnd budget
      return first :: rest

def version : Parser String := do
  let found ← next "version number"
  match found.token with
  | .float value => return writeTenths value
  | .int value => return toString value.toNat ++ ".0"
  | token => fail (.invalidVersion token.text)

/-- A whole source (`parse_program`). -/
def script (budget : Nat) : Parser Script := do
  expect (.keyword .openqasm)
  let version ← version
  symbol .semicolon
  let statements ← statementsToEnd budget
  return ⟨version, statements⟩

/-- The budget for a number of tokens: each token is taken within four nested steps. -/
def budgetFor (tokens : Nat) : Nat := 4 * tokens + 8

end Parser

namespace Script

/-- The source that tokens make up. The budget is never spent; the end of the input would be the
error if it were. -/
def ofTokens (tokens : List Located) : Except Error Script :=
  match Parser.script (Parser.budgetFor tokens.length) tokens with
  | .ok (script, _) => .ok script
  | .error (.failed e) => .error e
  | .error .exhausted => .error (.unexpectedEnd "statement")

/-- The tree of a source text (`parse_ast`). -/
def parse (source : String) : Except Error Script := do
  let tokens ← tokens source
  ofTokens tokens

end Script

end CircuitCalls.Qasm

import CircuitCalls.Qasm.Parser.Basic

/-!
# Expressions from tokens

Binary operators are read by precedence climbing, and all of them associate to the left: after an
operator only tighter ones go to its right operand. The operators `-` and `!` before an operand bind
tighter than any binary operator.
-/

namespace CircuitCalls.Qasm

/-- The binary operator that a symbol stands for, as `peek_binary_op` finds it. -/
def BinaryOperator.ofSymbol? : Symbol → Option BinaryOperator
  | .plus => some add
  | .minus => some sub
  | .star => some mul
  | .slash => some div
  | .percent => some mod
  | .power => some pow
  | .equal => some eq
  | .notEqual => some notEq
  | .less => some lt
  | .lessEqual => some ltEq
  | .greater => some gt
  | .greaterEqual => some gtEq
  | .and => some and
  | .or => some or
  | .bitAnd => some bitAnd
  | .bitOr => some bitOr
  | .bitXor => some bitXor
  | .shiftLeft => some shiftLeft
  | .shiftRight => some shiftRight
  | _ => none

def BinaryOperator.ofToken? : Token → Option BinaryOperator
  | .symbol s => ofSymbol? s
  | _ => none

namespace Parser

/-- A whole number as an expression; it has to fit in a signed word. -/
def literal (value : UInt64) (found : Located) : Parser Expression :=
  if value.toNat < 0x8000000000000000 then return .int (Int64.ofNat value.toNat)
  else unexpected "integer below 2^63" found

mutual

/-- An expression whose operators outside parentheses bind at least as tightly as `least`
(`parse_binary_expr`). -/
def expressionAbove : Nat → Nat → Parser Expression
  | 0, _ => exhausted
  | budget + 1, least => do
    let left ← unary budget
    operatorsAfter budget least left

/-- The operators that follow the operand `left`. -/
def operatorsAfter : Nat → Nat → Expression → Parser Expression
  | 0, _, _ => exhausted
  | budget + 1, least, left => do
    let token ← peek?
    match token.bind BinaryOperator.ofToken? with
    | some op =>
      if op.precedence < least then
        return left
      else
        skip
        let right ← expressionAbove budget (op.precedence + 1)
        operatorsAfter budget least (.binary op left right)
    | none => return left

/-- An operand with the operators before it (`parse_unary_expr`). -/
def unary : Nat → Parser Expression
  | 0 => exhausted
  | budget + 1 => do
    let token ← peek?
    match token with
    | some (.symbol .minus) =>
      skip
      let operand ← unary budget
      return .unary .neg operand
    | some (.symbol .not) =>
      skip
      let operand ← unary budget
      return .unary .not operand
    | _ => primary budget

def primary : Nat → Parser Expression
  | 0 => exhausted
  | budget + 1 => do
    let found ← next "expression"
    match found.token with
    | .int value => literal value found
    | .float value => return .float value
    | .keyword .pi => return .constant .pi
    | .keyword .tau => return .constant .tau
    | .keyword .euler => return .constant .euler
    | .keyword .trueKey => return .bool true
    | .keyword .falseKey => return .bool false
    | .identifier name =>
      let token ← peek?
      match token with
      | some (.symbol .leftParen) =>
        skip
        let arguments ← expressionsUntil budget .rightParen
        symbol .rightParen
        return .call name arguments
      | some (.symbol .leftBracket) =>
        skip
        let index ← expressionAbove budget 0
        symbol .rightBracket
        return .index name index
      | _ => return .name name
    | .symbol .leftParen =>
      let inner ← expressionAbove budget 0
      symbol .rightParen
      return inner
    | _ => unexpected "expression" found

/-- Expressions divided by commas before the symbol `close`, which stays (`parse_expression_list_until`). -/
def expressionsUntil : Nat → Symbol → Parser (List Expression)
  | 0, _ => exhausted
  | budget + 1, close => do
    let closed ← check (.symbol close)
    if closed then
      return []
    else
      let first ← expressionAbove budget 0
      let rest ← moreExpressions budget
      return first :: rest

def moreExpressions : Nat → Parser (List Expression)
  | 0 => exhausted
  | budget + 1 => do
    let comma ← consume (.symbol .comma)
    if comma then
      let first ← expressionAbove budget 0
      let rest ← moreExpressions budget
      return first :: rest
    else
      return []

end

def expression (budget : Nat) : Parser Expression := expressionAbove budget 0

end Parser

end CircuitCalls.Qasm

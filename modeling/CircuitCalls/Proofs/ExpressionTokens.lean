import CircuitCalls.Proofs.Reading
import CircuitCalls.Qasm.Parser.Expression
import CircuitCalls.Qasm.Tree

/-!
# Expressions read from their tokens

An expression is written with the parentheses that precedence asks for and no others. The parser climbs:
it takes an operand, and then operators as long as they bind tightly enough. `Climbs` says so for the
tokens of an expression from any level on that its own operator reaches, and `climbs_tokens` goes by
induction over the expression, the left operand of an operator being climbed over before its right one
is read at the next level.
-/

namespace CircuitCalls.Qasm

/-! ## Writing expressions -/

def MathConstant.keyword : MathConstant → Keyword
  | pi => .pi
  | tau => .tau
  | euler => .euler

def UnaryOperator.symbol : UnaryOperator → Symbol
  | neg => .minus
  | not => .not

def BinaryOperator.symbol : BinaryOperator → Symbol
  | add => .plus
  | sub => .minus
  | mul => .star
  | div => .slash
  | mod => .percent
  | pow => .power
  | eq => .equal
  | notEq => .notEqual
  | lt => .less
  | ltEq => .lessEqual
  | gt => .greater
  | gtEq => .greaterEqual
  | and => .and
  | or => .or
  | bitAnd => .bitAnd
  | bitOr => .bitOr
  | bitXor => .bitXor
  | shiftLeft => .shiftLeft
  | shiftRight => .shiftRight

theorem BinaryOperator.ofSymbol?_symbol (op : BinaryOperator) : ofSymbol? op.symbol = some op := by
  cases op <;> rfl

def parenthesized (tokens : List Token) : List Token :=
  .symbol .leftParen :: (tokens ++ [.symbol .rightParen])

def commaLed (parts : List (List Token)) : List Token := parts.flatMap (.symbol .comma :: ·)

def commaSeparated : List (List Token) → List Token
  | [] => []
  | part :: more => part ++ commaLed more

theorem commaLed_cons (part : List Token) (more : List (List Token)) :
    commaLed (part :: more) = .symbol .comma :: (part ++ commaLed more) := rfl

namespace Expression

/-- How tightly the outermost operator of the expression binds; without a binary one, tighter than all
of them. -/
def strength : Expression → Nat
  | .binary op _ _ => op.precedence
  | _ => 12

/-- Parentheses are put around what binds more loosely than `least`. -/
def enclosed (least : Nat) (e : Expression) (tokens : List Token) : List Token :=
  if e.strength < least then parenthesized tokens else tokens

mutual

def tokens : Expression → List Token
  | .int value => [.int value.toUInt64]
  | .float value => [.float value]
  | .bool value => [.keyword (if value then .trueKey else .falseKey)]
  | .constant c => [.keyword c.keyword]
  | .name register => [.identifier register]
  | .unary op operand => .symbol op.symbol :: enclosed 12 operand operand.tokens
  | .binary op left right =>
    enclosed op.precedence left left.tokens ++
      .symbol op.symbol :: enclosed (op.precedence + 1) right right.tokens
  | .call function arguments =>
    .identifier function :: parenthesized (commaSeparated (tokensAll arguments))
  | .index register place =>
    .identifier register :: .symbol .leftBracket :: (place.tokens ++ [.symbol .rightBracket])

def tokensAll : List Expression → List (List Token)
  | [] => []
  | e :: more => e.tokens :: tokensAll more

end

theorem tokensAll_eq (es : List Expression) : tokensAll es = es.map tokens := by
  induction es with
  | nil => rfl
  | cons e es ih => rw [tokensAll, ih, List.map_cons]

mutual

/-- Whether no whole number in the expression is negative. -/
def isUnsigned : Expression → Bool
  | .int value => 0 ≤ value
  | .unary _ operand => operand.isUnsigned
  | .binary _ left right => left.isUnsigned && right.isUnsigned
  | .call _ arguments => areUnsigned arguments
  | .index _ place => place.isUnsigned
  | _ => true

def areUnsigned : List Expression → Bool
  | [] => true
  | e :: more => e.isUnsigned && areUnsigned more

end

theorem areUnsigned_eq (es : List Expression) : areUnsigned es = es.all isUnsigned := by
  induction es with
  | nil => rfl
  | cons e es ih => rw [areUnsigned, ih, List.all_cons]

/-- Induction over expressions. -/
theorem induction {P : Expression → Prop} (int : ∀ value, P (.int value))
    (float : ∀ value, P (.float value)) (bool : ∀ value, P (.bool value))
    (constant : ∀ c, P (.constant c)) (name : ∀ register, P (.name register))
    (unary : ∀ op operand, P operand → P (.unary op operand))
    (binary : ∀ op left right, P left → P right → P (.binary op left right))
    (call : ∀ function arguments, (∀ e ∈ arguments, P e) → P (.call function arguments))
    (index : ∀ register place, P place → P (.index register place)) (e : Expression) : P e :=
  Expression.rec (motive_1 := P) (motive_2 := fun es => ∀ e ∈ es, P e) int float bool constant name
    unary binary call index (fun _ h => by cases h)
    (fun _ _ he hes => List.forall_mem_cons.2 ⟨he, hes⟩) e

/-- An expression starts with a word, a number, an operator before an operand or a parenthesis. -/
theorem head_tokens (e : Expression) :
    ∃ t more, e.tokens = t :: more ∧ ∀ s, t = .symbol s → s = .minus ∨ s = .not ∨ s = .leftParen := by
  induction e using Expression.induction with
  | int value => exact ⟨_, _, rfl, by simp⟩
  | float value => exact ⟨_, _, rfl, by simp⟩
  | bool value => exact ⟨_, _, rfl, by simp⟩
  | constant c => exact ⟨_, _, rfl, by simp⟩
  | name register => exact ⟨_, _, rfl, by simp⟩
  | unary op operand ih =>
    refine ⟨_, _, rfl, ?_⟩
    cases op <;> simp [UnaryOperator.symbol]
  | binary op left right ih _ =>
    obtain ⟨t, more, htokens, ht⟩ := ih
    rw [tokens, enclosed]
    by_cases hloose : left.strength < op.precedence
    · rw [if_pos hloose]
      exact ⟨_, _, rfl, by simp⟩
    · rw [if_neg hloose, htokens]
      exact ⟨_, _, rfl, ht⟩
  | call function arguments ih => exact ⟨_, _, rfl, by simp⟩
  | index register place ih => exact ⟨_, _, rfl, by simp⟩

theorem tokens_ne_nil (e : Expression) : e.tokens ≠ [] := by
  obtain ⟨t, more, htokens, -⟩ := e.head_tokens
  simp [htokens]

theorem enclosed_ne_nil (least : Nat) (e : Expression) : enclosed least e e.tokens ≠ [] := by
  rw [enclosed]
  split
  · exact List.cons_ne_nil _ _
  · exact e.tokens_ne_nil

end Expression

theorem BinaryOperator.precedence_lt (op : BinaryOperator) : op.precedence < 12 := by
  cases op <;> decide

/-! ## Reading expressions -/

namespace Parser

/-- A name at the end of the tokens is not taken for that of a function or a register. -/
def NameEnds (tokens : List Token) (next : Option Token) : Prop :=
  ∀ name, tokens.getLast? = some (.identifier name) →
    next ≠ some (.symbol .leftParen) ∧ next ≠ some (.symbol .leftBracket)

/-- The next token is no operator that binds as tightly as `least`. -/
def Looser (least : Nat) (next : Option Token) : Prop :=
  ∀ op, next.bind BinaryOperator.ofToken? = some op → op.precedence < least

/-- The next token ends an expression, whatever its last token. -/
def Closes (next : Option Token) : Prop :=
  next.bind BinaryOperator.ofToken? = none ∧ next ≠ some (.symbol .leftParen) ∧
    next ≠ some (.symbol .leftBracket)

theorem Closes.after {next : Option Token} (h : Closes next) (tokens : List Token) (least : Nat) :
    NameEnds tokens next ∧ Looser least next := by
  refine ⟨fun _ _ => h.2, fun op hop => ?_⟩
  rw [h.1] at hop
  cases hop

theorem closes_symbol {s : Symbol}
    (h : s ∈ [Symbol.rightParen, .rightBracket, .rightBrace, .comma, .colon]) :
    Closes (some (.symbol s)) := by
  simp only [List.mem_cons, List.not_mem_nil, or_false] at h
  rcases h with rfl | rfl | rfl | rfl | rfl <;> exact ⟨rfl, by decide, by decide⟩

theorem closes_commaLed (parts : List (List Token)) {next : Option Token} (h : Closes next) :
    Closes ((commaLed parts).head?.or next) := by
  cases parts with
  | nil => exact h
  | cons part more => exact closes_symbol (s := .comma) (by decide)

/-- The tokens are read as the operand `e`. -/
def ReadsOperand (tokens : List Token) (e : Expression) : Prop :=
  ∀ budget, 4 * tokens.length ≤ budget + 1 → Reads (unary budget) tokens e (NameEnds tokens)

/-- Behind the tokens the operators that follow `e` are read next, if they bind no more tightly than
`strength`. -/
def Climbs (tokens : List Token) (e : Expression) (strength : Nat) : Prop :=
  ∀ budget least, least ≤ strength → 4 * tokens.length ≤ budget + 1 →
    ∀ found rest, found.map (·.token) = tokens → NameEnds tokens (ahead rest) →
      Looser (strength + 1) (ahead rest) →
      ∃ left, budget ≤ left + tokens.length ∧
        expressionAbove (budget + 1) least (found ++ rest) = operatorsAfter left least e rest

section

variable {tokens : List Token} {e : Expression} {strength : Nat}

theorem ReadsOperand.climbs (h : ReadsOperand tokens e) : Climbs tokens e strength := by
  intro budget least _ hbudget found rest hfound hends _
  refine ⟨budget, by omega, ?_⟩
  rw [expressionAbove, bind_apply, h budget hbudget found rest hfound hends, ok_bind]

theorem Climbs.mono {weaker : Nat} (h : Climbs tokens e strength) (hle : weaker ≤ strength) :
    Climbs tokens e weaker := by
  intro budget least hleast hbudget found rest hfound hends hloose
  refine h budget least (by omega) hbudget found rest hfound hends fun op hop => ?_
  have := hloose op hop
  omega

theorem operatorsAfter_stop {budget least : Nat} {rest : List Located}
    (h : Looser least (ahead rest)) :
    operatorsAfter (budget + 1) least e rest = .ok (e, rest) := by
  have hpeek : peek? rest = .ok (ahead rest, rest) := rfl
  rw [operatorsAfter, bind_apply, hpeek, ok_bind]
  dsimp only
  cases hop : (ahead rest).bind BinaryOperator.ofToken? with
  | none => rfl
  | some op =>
    dsimp only
    rw [if_pos (h op hop)]
    rfl

/-- An operator that binds tightly enough takes an operand of what binds more tightly than itself. -/
theorem operatorsAfter_operator {op : BinaryOperator} {budget least line : Nat} {left : Expression}
    {rest : List Located} (h : least ≤ op.precedence) :
    operatorsAfter (budget + 1) least left (⟨.symbol op.symbol, line⟩ :: rest) =
      (expressionAbove budget (op.precedence + 1) >>= fun right =>
        operatorsAfter budget least (.binary op left right)) rest := by
  have hpeek : peek? (⟨.symbol op.symbol, line⟩ :: rest) =
      .ok (some (.symbol op.symbol), ⟨.symbol op.symbol, line⟩ :: rest) := rfl
  have hop : (some (Token.symbol op.symbol)).bind BinaryOperator.ofToken? = some op :=
    op.ofSymbol?_symbol
  rw [operatorsAfter, bind_apply, hpeek, ok_bind]
  dsimp only
  rw [hop]
  dsimp only
  rw [if_neg (by omega)]
  rfl

/-- After what climbs the operators are read on as long as they bind tightly enough. -/
theorem Climbs.reads {budget least : Nat} (h : Climbs tokens e strength) (hne : tokens ≠ [])
    (hbudget : 4 * tokens.length ≤ budget) (hleast : least ≤ strength) :
    Reads (expressionAbove budget least) tokens e
      fun next => NameEnds tokens next ∧ Looser least next := by
  intro found rest hfound hrest
  have hlength := List.length_pos_iff.2 hne
  obtain ⟨budget, rfl⟩ : ∃ b, budget = b + 1 := ⟨budget - 1, by omega⟩
  have hloose : Looser (strength + 1) (ahead rest) := fun op hop => by
    have := hrest.2 op hop
    omega
  obtain ⟨left, hleft, heq⟩ := h budget least hleast hbudget found rest hfound hrest.1 hloose
  obtain ⟨left, rfl⟩ : ∃ b, left = b + 1 := ⟨left - 1, by omega⟩
  rw [heq, operatorsAfter_stop hrest.2]

/-- Behind two operands with an operator between them the climb goes on with the joined expression: operators
associate to the left. -/
theorem Climbs.binary {op : BinaryOperator} {leftTokens rightTokens : List Token}
    {left right : Expression} (hleft : Climbs leftTokens left op.precedence)
    (hright : Climbs rightTokens right (op.precedence + 1)) (hne : rightTokens ≠ []) :
    Climbs (leftTokens ++ .symbol op.symbol :: rightTokens) (.binary op left right) op.precedence := by
  intro budget least hleast hbudget found rest hfound hends hloose
  rw [List.length_append, List.length_cons] at hbudget
  obtain ⟨first, second, rfl, hfirst, hsecond⟩ := List.map_eq_append_iff.1 hfound
  obtain ⟨⟨t, line⟩, third, rfl, hop, hthird⟩ := List.map_eq_cons_iff.1 hsecond
  obtain rfl : t = .symbol op.symbol := hop
  -- The left operand ends at the operator, whose own strength is the one it may have.
  have hleftEnds : NameEnds leftTokens (some (.symbol op.symbol)) := fun _ _ => by
    cases op <;> exact ⟨by decide, by decide⟩
  have hleftLoose : Looser (op.precedence + 1) (some (.symbol op.symbol)) := fun op' hop' => by
    obtain rfl : op = op' := Option.some.inj (op.ofSymbol?_symbol.symm.trans hop')
    exact Nat.lt_succ_self _
  obtain ⟨left', hleft', heq⟩ := hleft budget least hleast (by omega) first
    (⟨.symbol op.symbol, line⟩ :: (third ++ rest)) hfirst hleftEnds hleftLoose
  obtain ⟨left', rfl⟩ : ∃ b, left' = b + 1 := ⟨left' - 1, by omega⟩
  have hrightEnds : NameEnds rightTokens (ahead rest) := fun name hname =>
    hends name (by rw [List.getLast?_append_cons, List.getLast?_cons_of_ne_nil hne, hname])
  have hrightBudget : 4 * rightTokens.length ≤ left' := by omega
  have hrightReads := hright.reads hne hrightBudget (Nat.le_refl _) third rest hthird
    ⟨hrightEnds, hloose⟩
  refine ⟨left', by simp only [List.length_append, List.length_cons]; omega, ?_⟩
  rw [List.append_assoc, List.cons_append, heq, operatorsAfter_operator hleast, bind_apply, hrightReads,
    ok_bind]

theorem unary_eq_primary {budget : Nat} {left : List Located}
    (h : ∀ s, ahead left = some (.symbol s) → s ≠ .minus ∧ s ≠ .not) :
    unary (budget + 1) left = primary budget left := by
  have hpeek : peek? left = .ok (ahead left, left) := rfl
  rw [unary, bind_apply, hpeek, ok_bind]
  dsimp only
  generalize ahead left = next at h
  split
  · exact absurd rfl (h _ rfl).1
  · exact absurd rfl (h _ rfl).2
  · rfl

theorem reads_unary {budget : Nat} {t : Token} {us : List Token} {after : Option Token → Prop}
    (ht : ∀ s, t = .symbol s → s ≠ .minus ∧ s ≠ .not) (h : Reads (primary budget) (t :: us) e after) :
    Reads (unary (budget + 1)) (t :: us) e after := by
  intro found rest hfound hrest
  have hahead : ahead (found ++ rest) = some t := ahead_append hfound
  rw [unary_eq_primary fun s hs => ht s (Option.some.inj (hahead.symm.trans hs))]
  exact h found rest hfound hrest

/-- Whatever stands in parentheses is an operand. -/
theorem Climbs.parenthesized (h : Climbs tokens e strength) (hne : tokens ≠ []) :
    ReadsOperand (parenthesized tokens) e := by
  intro budget hbudget
  have hlength : (Qasm.parenthesized tokens).length = tokens.length + 2 := by
    simp [Qasm.parenthesized]
  obtain ⟨budget, rfl⟩ : ∃ b, budget = b + 2 := ⟨budget - 2, by omega⟩
  have hinner := h.reads hne (by omega : 4 * tokens.length ≤ budget) (Nat.zero_le _)
  refine reads_unary (by simp) ?_
  change Reads (next "expression" >>= _) _ _ _
  refine .next _ _ fun line => ?_
  exact .bind hinner (.symbol _ (.pure e)) fun _ _ =>
    (closes_symbol (s := .rightParen) (by decide)).after _ _

end

def ReadsEach (es : List Expression) : Prop :=
  ∀ e ∈ es, ∀ budget, 4 * e.tokens.length ≤ budget →
    Reads (expressionAbove budget 0) e.tokens e Closes

theorem reads_moreExpressions {es : List Expression} (h : ReadsEach es) {budget : Nat}
    (hbudget : 4 * (commaLed (es.map Expression.tokens)).length + 1 ≤ budget) :
    Reads (moreExpressions budget) (commaLed (es.map Expression.tokens)) es
      fun next => Closes next ∧ next ≠ some (.symbol .comma) := by
  induction es generalizing budget with
  | nil =>
    obtain ⟨budget, rfl⟩ : ∃ b, budget = b + 1 := ⟨budget - 1, by omega⟩
    rw [moreExpressions]
    exact .still (reads_unconsumed _) (.pure []) fun _ hnext => hnext.2
  | cons e es ih =>
    rw [List.map_cons, commaLed_cons] at hbudget ⊢
    rw [List.length_cons, List.length_append] at hbudget
    obtain ⟨budget, rfl⟩ : ∃ b, budget = b + 1 := ⟨budget - 1, by omega⟩
    have hfirst := h e List.mem_cons_self budget (by omega)
    have hmore := ih (fun e' he' => h e' (List.mem_cons_of_mem _ he')) (by omega : _ ≤ budget)
    rw [moreExpressions]
    exact .consume _ (.bind hfirst (.last hmore _) fun _ hnext => closes_commaLed _ hnext.1)

/-- Expressions are read up to the symbol that closes the list. -/
theorem reads_expressionsUntil {es : List Expression} (h : ReadsEach es) {close : Symbol}
    (hclose : close = .rightParen ∨ close = .rightBrace) {budget : Nat}
    (hbudget : 4 * (commaSeparated (es.map Expression.tokens)).length + 2 ≤ budget) :
    Reads (expressionsUntil budget close) (commaSeparated (es.map Expression.tokens)) es
      (· = some (.symbol close)) := by
  obtain ⟨budget, rfl⟩ : ∃ b, budget = b + 1 := ⟨budget - 1, by omega⟩
  rw [expressionsUntil]
  cases es with
  | nil => exact .still (reads_check _) (.pure []) fun _ hnext => hnext
  | cons e es =>
    obtain ⟨t, more, htokens, ht⟩ := e.head_tokens
    rw [List.map_cons, commaSeparated] at hbudget ⊢
    rw [List.length_append] at hbudget
    have hfirst := h e List.mem_cons_self budget (by omega)
    have hmore := reads_moreExpressions (fun e' he' => h e' (List.mem_cons_of_mem _ he'))
      (by omega : _ ≤ budget)
    have hends : ∀ next, next = some (.symbol close) →
        Closes next ∧ next ≠ some (.symbol .comma) := by
      rintro _ rfl
      rcases hclose with rfl | rfl <;> exact ⟨closes_symbol (by decide), by decide⟩
    refine .still (reads_uncheck _) (.bind hfirst (.last (hmore.weaken hends) _)
      fun next hnext => closes_commaLed _ (hends next hnext).1) fun next _ => ?_
    -- No expression starts with a closing symbol.
    rw [htokens]
    rintro hstart
    have hstart : t = .symbol close := Option.some.inj hstart
    rcases hclose with rfl | rfl <;> simpa using ht _ hstart

/-! ## Every expression -/

theorem literal_toUInt64 {value : Int64} (h : 0 ≤ value) (found : Located) (left : List Located) :
    literal value.toUInt64 found left = .ok (.int value, left) := by
  have hbound : value.toUInt64.toNat < 0x8000000000000000 := by
    have hint : 0 ≤ value.toBitVec.toInt := Int64.le_iff_toInt_le.1 h
    rw [BitVec.toInt_eq_toNat_cond] at hint
    have hnat : value.toUInt64.toNat = value.toBitVec.toNat := rfl
    have hlt := value.toBitVec.isLt
    split at hint <;> omega
  have hvalue : Int64.ofNat value.toUInt64.toNat = value :=
    Int64.toBitVec_inj.1 (BitVec.ofNat_toNat 64 value.toBitVec)
  rw [literal, if_pos hbound, hvalue]
  rfl

/-- A token that is an operand by itself. -/
theorem ReadsOperand.single {t : Token} {e : Expression} (ht : ∀ s, t ≠ .symbol s)
    (hprimary : ∀ budget line left, NameEnds [t] (ahead left) →
      primary (budget + 1) (⟨t, line⟩ :: left) = .ok (e, left)) : ReadsOperand [t] e := by
  intro budget hbudget
  obtain ⟨budget, rfl⟩ : ∃ b, budget = b + 2 := ⟨budget - 2, by simp at hbudget; omega⟩
  refine reads_unary (fun s hs => absurd hs (ht s)) ?_
  intro found rest hfound hrest
  obtain ⟨⟨t', line⟩, rfl, rfl⟩ := List.map_eq_singleton_iff.1 hfound
  exact hprimary budget line rest hrest

/-- A name by itself is an operand where neither a parenthesis nor a bracket follows. -/
theorem readsOperand_name (register : String) :
    ReadsOperand [.identifier register] (.name register) := by
  refine .single (by simp) fun budget line left hends => ?_
  obtain ⟨hparen, hbracket⟩ := hends register rfl
  change (next "expression" >>= _) (⟨.identifier register, line⟩ :: left) = _
  rw [bind_apply, next_cons, ok_bind]
  have hpeek : peek? left = .ok (ahead left, left) := rfl
  dsimp only
  rw [bind_apply, hpeek, ok_bind]
  dsimp only
  generalize ahead left = next at hparen hbracket
  split
  · exact absurd rfl hparen
  · exact absurd rfl hbracket
  · rfl

section

variable {tokens : List Token} {e : Expression}

theorem ReadsOperand.unary (op : UnaryOperator) (hne : tokens ≠ []) (h : ReadsOperand tokens e) :
    ReadsOperand (.symbol op.symbol :: tokens) (.unary op e) := by
  intro budget hbudget
  rw [List.length_cons] at hbudget
  obtain ⟨budget, rfl⟩ : ∃ b, budget = b + 1 := ⟨budget - 1, by omega⟩
  have hoperand : Reads (Parser.unary budget) tokens e (NameEnds (.symbol op.symbol :: tokens)) :=
    (h budget (by omega)).weaken fun next hends name hname =>
      hends name (by rw [List.getLast?_cons_of_ne_nil hne, hname])
  rw [Parser.unary]
  cases op with
  | neg => exact .peek _ (.skip _ (.last hoperand _))
  | not => exact .peek _ (.skip _ (.last hoperand _))

theorem Climbs.reads_closed {strength budget : Nat} (h : Climbs tokens e strength) (hne : tokens ≠ [])
    (hbudget : 4 * tokens.length ≤ budget) : Reads (expressionAbove budget 0) tokens e Closes :=
  (h.reads hne hbudget (Nat.zero_le _)).weaken fun _ hnext => hnext.after _ _

theorem Climbs.index {strength : Nat} (register : String) (h : Climbs tokens e strength)
    (hne : tokens ≠ []) :
    ReadsOperand (.identifier register :: .symbol .leftBracket :: (tokens ++ [.symbol .rightBracket]))
      (.index register e) := by
  intro budget hbudget
  simp only [List.length_cons, List.length_append, List.length_nil] at hbudget
  obtain ⟨budget, rfl⟩ : ∃ b, budget = b + 2 := ⟨budget - 2, by omega⟩
  have hplace := h.reads_closed hne (by omega : 4 * tokens.length ≤ budget)
  refine reads_unary (by simp) ?_
  change Reads (next "expression" >>= _) _ _ _
  exact .next _ _ fun line => .peek _ (.skip _ (.bind hplace (.symbol _ (.pure _))
    fun _ _ => closes_symbol (s := .rightBracket) (by decide)))

end

theorem ReadsEach.call {es : List Expression} (function : String) (h : ReadsEach es) :
    ReadsOperand (.identifier function :: parenthesized (commaSeparated (es.map Expression.tokens)))
      (.call function es) := by
  intro budget hbudget
  simp only [parenthesized, List.length_cons, List.length_append, List.length_nil] at hbudget
  obtain ⟨budget, rfl⟩ : ∃ b, budget = b + 2 := ⟨budget - 2, by omega⟩
  have harguments := reads_expressionsUntil h (.inl rfl) (by omega : _ ≤ budget)
  refine reads_unary (by simp) ?_
  change Reads (next "expression" >>= _) _ _ _
  exact .next _ _ fun line => .peek _ (.skip _ (.bind harguments (.symbol _ (.pure _)) fun _ _ => rfl))

/-- What binds too loosely is read from the parentheses put around it. -/
theorem Climbs.enclosed {e : Expression} (least : Nat) (h : Climbs e.tokens e e.strength) :
    Climbs (e.enclosed least e.tokens) e least := by
  rw [Expression.enclosed]
  by_cases hloose : e.strength < least
  · rw [if_pos hloose]
    exact (h.parenthesized e.tokens_ne_nil).climbs
  · rw [if_neg hloose]
    exact h.mono (by omega)

/-- Reading takes an expression back from its tokens: as an operand if it needs no parentheses there,
and in any case as far as the operators that follow bind more loosely than its own. -/
theorem climbs_tokens (e : Expression) (h : e.isUnsigned = true) :
    (12 ≤ e.strength → ReadsOperand e.tokens e) ∧ Climbs e.tokens e e.strength := by
  have operand : ∀ {e : Expression}, ReadsOperand e.tokens e →
      (12 ≤ e.strength → ReadsOperand e.tokens e) ∧ Climbs e.tokens e e.strength :=
    fun h => ⟨fun _ => h, h.climbs⟩
  induction e using Expression.induction with
  | int value =>
    have hvalue : 0 ≤ value := by simpa [Expression.isUnsigned] using h
    exact operand (.single (by simp) fun budget line left _ => literal_toUInt64 hvalue _ left)
  | float value => exact operand (.single (by simp) fun budget line left _ => rfl)
  | bool value =>
    cases value <;> exact operand (.single (by simp) fun budget line left _ => rfl)
  | constant c => cases c <;> exact operand (.single (by simp) fun budget line left _ => rfl)
  | name register => exact operand (readsOperand_name register)
  | unary op e ih =>
    obtain ⟨hoperand, hclimbs⟩ := ih h
    refine operand (.unary op (Expression.enclosed_ne_nil 12 e) ?_)
    rw [Expression.enclosed]
    by_cases hloose : e.strength < 12
    · rw [if_pos hloose]
      exact hclimbs.parenthesized e.tokens_ne_nil
    · rw [if_neg hloose]
      exact hoperand (by omega)
  | binary op left right ihl ihr =>
    obtain ⟨hleft, hright⟩ : left.isUnsigned = true ∧ right.isUnsigned = true := by
      simpa [Expression.isUnsigned] using h
    refine ⟨fun hstrength => absurd op.precedence_lt (Nat.not_lt.2 hstrength), ?_⟩
    exact ((ihl hleft).2.enclosed op.precedence).binary ((ihr hright).2.enclosed (op.precedence + 1))
      (right.enclosed_ne_nil _)
  | call function arguments ih =>
    rw [Expression.isUnsigned, Expression.areUnsigned_eq, List.all_eq_true] at h
    have heach : ReadsEach arguments := fun e he budget hbudget =>
      (ih e he (h e he)).2.reads_closed e.tokens_ne_nil hbudget
    refine operand ?_
    rw [Expression.tokens, Expression.tokensAll_eq]
    exact heach.call function
  | index register place ih => exact operand ((ih h).2.index register place.tokens_ne_nil)

/-- An expression is read from its tokens up to a token that ends it. -/
theorem reads_expression {e : Expression} (h : e.isUnsigned = true) {budget : Nat}
    (hbudget : 4 * e.tokens.length ≤ budget) : Reads (expression budget) e.tokens e Closes :=
  (climbs_tokens e h).2.reads_closed e.tokens_ne_nil hbudget

theorem readsEach {es : List Expression} (h : es.all Expression.isUnsigned = true) : ReadsEach es :=
  fun _ he _ hbudget => reads_expression (List.all_eq_true.1 h _ he) hbudget

end Parser

end CircuitCalls.Qasm

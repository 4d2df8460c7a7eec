import CircuitCalls.Proofs.CallText
import CircuitCalls.Proofs.Elaboration
import CircuitCalls.Proofs.Simulation

/-!
# Ranges of loops

A source gives a range by its first and its last value, a program by its first value and by the first
one past the last. Both run through the same values (`IsInclusiveRange`), whatever the sign of the step
and whether or not the last value is met.

The header of a loop is a text in the end. `CountingLoop.ofText?` reads such a text: where the variable
starts, what it is compared with, and how it goes on. A loop that runs by these parts visits the same
values once more.
-/

namespace CircuitCalls

open Qasm (takeWhile_stop)

/-! ## Values of a range -/

/-- A value has not passed `finish` in the direction of `step`. -/
def Within (finish step value : Int) : Prop :=
  (0 < step ∧ value ≤ finish) ∨ (step < 0 ∧ finish ≤ value)

/-- The values are `start` and what follows it step by step, as long as `finish` is not passed; there
are none if `start` has passed it. -/
def IsInclusiveRange (start finish step : Int) (values : List Int) : Prop :=
  ∃ n : Nat, values = ((List.range n).map fun k : Nat => start + step * (k : Int)) ∧
    ∀ k : Nat, k < n ↔ Within finish step (start + step * (k : Int))

/-- The rounds of a loop are those in which its variable has not reached `stop`. -/
theorem lt_rangeLength_iff {start stop step : Int} {k : Nat} :
    k < rangeLength start stop step ↔
      (0 < step ∧ start + step * (k : Int) < stop) ∨ (step < 0 ∧ stop < start + step * (k : Int)) := by
  induction k generalizing start with
  | zero =>
    simp only [Int.natCast_zero, Int.mul_zero, Int.add_zero]
    constructor
    · intro hpos
      by_contra h
      rw [rangeLength_eq_zero h] at hpos
      omega
    · intro h
      rw [rangeLength_eq_succ h]
      omega
  | succ k ih =>
    have hnext : start + step * ((k + 1 : Nat) : Int) = start + step + step * (k : Int) := by
      push_cast
      rw [Int.mul_add, Int.mul_one]
      omega
    rw [hnext]
    by_cases h : (0 < step ∧ start < stop) ∨ (step < 0 ∧ stop < start)
    · rw [rangeLength_eq_succ h, Nat.add_lt_add_iff_right, ih]
    · -- What has reached `stop` does not come back.
      rw [rangeLength_eq_zero h]
      refine iff_of_false (Nat.not_lt_zero _) ?_
      rintro (⟨hstep, hlt⟩ | ⟨hstep, hlt⟩)
      · have := Int.mul_nonneg (Int.le_of_lt hstep) (Int.natCast_nonneg k)
        omega
      · have := Int.mul_nonneg (Int.neg_nonneg_of_nonpos (Int.le_of_lt hstep)) (Int.natCast_nonneg k)
        rw [Int.neg_mul] at this
        omega

/-- One past the last value is where a range that ends before its bound has to stop. -/
theorem isInclusiveRange_rangeLength (start finish step : Int) :
    IsInclusiveRange start finish step
      ((List.range (rangeLength start (finish + step.sign) step)).map fun k : Nat =>
        start + step * (k : Int)) := by
  refine ⟨_, rfl, fun k => ?_⟩
  rw [lt_rangeLength_iff, Within]
  rcases Int.lt_trichotomy step 0 with h | h | h
  · rw [Int.sign_eq_neg_one_of_neg h]
    omega
  · omega
  · rw [Int.sign_eq_one_of_pos h]
    omega

/-! ## Headers as loops -/

/-- How a loop compares its variable with the bound. -/
inductive Comparison where
  | less
  | greater
deriving DecidableEq

/-- How the variable of a loop goes on. -/
inductive Advance where
  | increment
  | decrement
  | add (amount : Int)
deriving DecidableEq

/-- The three parts of a loop's header. -/
structure CountingLoop where
  start : Int
  comparison : Comparison
  bound : Int
  advance : Advance
deriving DecidableEq

def Comparison.holds : Comparison → Int → Int → Prop
  | less, value, bound => value < bound
  | greater, value, bound => bound < value

def Advance.after : Advance → Int → Int
  | increment, value => value + 1
  | decrement, value => value - 1
  | add amount, value => value + amount

namespace CountingLoop

/-- A variable at this value goes through these values until the comparison fails. -/
inductive Visits (loop : CountingLoop) : Int → List Int → Prop where
  | done {value : Int} : ¬ loop.comparison.holds value loop.bound → Visits loop value []
  | round {value : Int} {rest : List Int} : loop.comparison.holds value loop.bound →
      Visits loop (loop.advance.after value) rest → Visits loop value (value :: rest)

theorem Visits.unique {loop : CountingLoop} {value : Int} {xs ys : List Int}
    (hx : loop.Visits value xs) (hy : loop.Visits value ys) : xs = ys := by
  induction hx generalizing ys with
  | done hno =>
    cases hy with
    | done _ => rfl
    | round hyes _ => exact absurd hyes hno
  | round hyes _ ih =>
    cases hy with
    | done hno => exact absurd hyes hno
    | round _ hrest => rw [ih hrest]

/-! ### Reading a header -/

def behind? (mark : String) (text : List Char) : Option (List Char) :=
  if mark.toList.isPrefixOf text then some (text.drop mark.toList.length) else none

def digitsValue? (word : List Char) : Option Int :=
  if word.isEmpty || !word.all Char.isDigit then none else some (readDigits word)

def wordValue? : List Char → Option Int
  | '-' :: word => (digitsValue? word).map (- ·)
  | word => digitsValue? word

def number? (text : List Char) : Option (Int × List Char) := do
  let word := text.takeWhile isSignedChar
  let value ← wordValue? word
  return (value, text.drop word.length)

def comparison? (text : List Char) : Option (Comparison × List Char) :=
  ((behind? " < " text).map (Comparison.less, ·)).or ((behind? " > " text).map (Comparison.greater, ·))

def advance? (loopVar : String) (text : List Char) : Option Advance :=
  if text = ("++" ++ loopVar).toList then some .increment
  else if text = ("--" ++ loopVar).toList then some .decrement
  else do
    let word ← behind? (loopVar ++ " += ") text
    let amount ← wordValue? word
    return .add amount

/-- The loop over a variable that a text describes. -/
def ofText? (loopVar text : String) : Option CountingLoop := do
  let text ← behind? ("int " ++ loopVar ++ " = ") text.toList
  let (start, text) ← number? text
  let text ← behind? ("; " ++ loopVar) text
  let (comparison, text) ← comparison? text
  let (bound, text) ← number? text
  let text ← behind? "; " text
  let advance ← advance? loopVar text
  return ⟨start, comparison, bound, advance⟩

theorem behind?_append (mark : String) (text : List Char) :
    behind? mark (mark.toList ++ text) = some text := by
  rw [behind?, if_pos (List.isPrefixOf_iff_prefix.2 (List.prefix_append _ _)), List.drop_left]

theorem digitsValue?_toDigits (n : Nat) : digitsValue? (Nat.toDigits 10 n) = some (n : Int) := by
  have hall : (Nat.toDigits 10 n).all Char.isDigit = true := List.all_eq_true.2 fun _ => isDigit_toDigits
  simp [digitsValue?, hall, Nat.toDigits_ne_nil, readDigits_toDigits]

/-- A signed number reads as itself from its text. -/
theorem wordValue?_signedText (n : Int64) : wordValue? (signedText n).toList = some n.toInt := by
  rw [signedText, Int.toString_eq_repr]
  cases n.toInt with
  | ofNat m =>
    have hrepr : (Int.ofNat m).repr.toList = Nat.toDigits 10 m := Nat.toList_repr
    rw [hrepr, wordValue?]
    · exact digitsValue?_toDigits m
    · intro word hword
      have hsign : '-' ∈ Nat.toDigits 10 m := hword ▸ List.mem_cons_self
      exact absurd (isDigit_toDigits hsign) (by decide)
  | negSucc m =>
    have hrepr : (Int.negSucc m).repr.toList = '-' :: Nat.toDigits 10 (m + 1) := by
      rw [Int.repr, String.toList_append, Nat.toList_repr]
      rfl
    rw [hrepr, wordValue?, digitsValue?_toDigits]
    rfl

/-- A number is read up to the first character that is not part of it. -/
theorem number?_append (n : Int64) {text : List Char} (h : Stops isSignedChar text) :
    number? ((signedText n).toList ++ text) = some (n.toInt, text) := by
  obtain ⟨c, rest, rfl, hc⟩ := h
  have hword : ((signedText n).toList ++ c :: rest).takeWhile isSignedChar = (signedText n).toList :=
    takeWhile_stop (spells_signedText n) hc
  simp only [number?, hword, wordValue?_signedText, List.drop_left]
  rfl

theorem comparison?_append (step : Int64) (text : List Char) :
    comparison? ((if 0 < step then " < " else " > ").toList ++ text) =
      some (if 0 < step then .less else .greater, text) := by
  by_cases h : 0 < step
  · rw [if_pos h, if_pos h, comparison?, behind?_append]
    rfl
  · rw [if_neg h, if_neg h, comparison?, behind?_append]
    rfl

/-- The part of a header that a step is written as. -/
def advanceBy (step : Int64) : Advance :=
  if step = 1 then .increment else if step = -1 then .decrement else .add step.toInt

/-- The third part of a header says the step, in each of the ways to write it. -/
theorem advance?_advanceText (loopVar : String) (step : Int64) :
    advance? loopVar (advanceText loopVar step).toList = some (advanceBy step) := by
  unfold advanceText advanceBy
  by_cases hup : step = 1
  · rw [if_pos hup, if_pos hup, advance?, if_pos rfl]
  rw [if_neg hup, if_neg hup]
  by_cases hdown : step = -1
  · have hdiffer : ("--" ++ loopVar).toList ≠ ("++" ++ loopVar).toList := by
      rw [String.toList_append, String.toList_append]
      exact fun h => absurd (List.cons.inj h).1 (by decide)
    rw [if_pos hdown, if_pos hdown, advance?, if_neg hdiffer, if_pos rfl]
  · -- The sum is longer than the two short forms.
    have hdiffer : ∀ sign : String, sign.toList.length = 2 →
        (loopVar ++ " += " ++ signedText step).toList ≠ (sign ++ loopVar).toList := by
      intro sign hsign h
      have hlength := congrArg List.length h
      simp [hsign] at hlength
      omega
    rw [if_neg hdown, if_neg hdown, advance?, if_neg (hdiffer "++" rfl), if_neg (hdiffer "--" rfl),
      String.toList_append, behind?_append]
    simp [wordValue?_signedText]

/-- The loop that the header of a range describes. -/
def ofRange (start stop step : Int64) : CountingLoop :=
  ⟨start.toInt, if 0 < step then .less else .greater, stop.toInt, advanceBy step⟩

/-- The text of a header over a range describes the loop over this range. -/
theorem ofText?_text (loopVar : String) (start stop step : Int64) :
    ofText? loopVar (LoopHeader.range loopVar start stop step).text = some (ofRange start stop step) := by
  have htext : (LoopHeader.range loopVar start stop step).text.toList =
      ("int " ++ loopVar ++ " = ").toList ++ ((signedText start).toList ++ (("; " ++ loopVar).toList ++
        ((if 0 < step then " < " else " > ").toList ++ ((signedText stop).toList ++ ("; ".toList ++
          (advanceText loopVar step).toList))))) := by
    simp only [LoopHeader.toList_range, String.toList_append, List.append_assoc]
  have hstart : ∀ text, Stops isSignedChar (("; " ++ loopVar).toList ++ text) := fun text =>
    ⟨';', ' ' :: (loopVar.toList ++ text), by rw [String.toList_append]; rfl, rfl⟩
  have hstop : ∀ text, Stops isSignedChar ("; ".toList ++ text) := fun text => ⟨';', _, rfl, rfl⟩
  simp only [ofText?, htext, behind?_append, number?_append _ (hstart _), comparison?_append,
    number?_append _ (hstop _), advance?_advanceText, Option.bind_eq_bind, Option.bind_some,
    Option.pure_def, ofRange]

theorem after_advanceBy (step : Int64) (value : Int) :
    (advanceBy step).after value = value + step.toInt := by
  unfold advanceBy
  by_cases hup : step = 1
  · rw [if_pos hup, hup]
    rfl
  rw [if_neg hup]
  by_cases hdown : step = -1
  · rw [if_pos hdown, hdown]
    rfl
  · rw [if_neg hdown]
    rfl

theorem holds_ofRange {start stop step : Int64} (hstep : step ≠ 0) (value : Int) :
    (ofRange start stop step).comparison.holds value (ofRange start stop step).bound ↔
      (0 < step.toInt ∧ value < stop.toInt) ∨ (step.toInt < 0 ∧ stop.toInt < value) := by
  have hsign : 0 < step ↔ 0 < step.toInt := Int64.lt_iff_toInt_lt
  have hne : step.toInt ≠ 0 := fun h => hstep (Int64.toInt_inj.1 h)
  by_cases h : 0 < step
  · simp only [ofRange, if_pos h, Comparison.holds]
    have := hsign.1 h
    omega
  · simp only [ofRange, if_neg h, Comparison.holds]
    have := mt hsign.2 h
    omega

/-- The text of a header goes through the values that the header itself stands for. -/
theorem visits_of_yields {start stop step : Int64} (hstep : step ≠ 0) {value : Int} {values : List Int}
    (h : (Cursor.counting value stop.toInt step.toInt).Yields values) :
    (ofRange start stop step).Visits value values := by
  generalize hcursor : Cursor.counting value stop.toInt step.toInt = cursor at h
  induction h generalizing value with
  | done hnone =>
    subst hcursor
    refine .done fun hholds => ?_
    rw [Cursor.next?, if_pos ((holds_ofRange hstep value).1 hholds)] at hnone
    cases hnone
  | next hsome _ ih =>
    subst hcursor
    by_cases hholds : (ofRange start stop step).comparison.holds value (ofRange start stop step).bound
    · rw [Cursor.next?, if_pos ((holds_ofRange hstep value).1 hholds)] at hsome
      obtain ⟨rfl, rfl⟩ := Prod.mk.inj (Option.some.inj hsome)
      have hafter : (ofRange start stop step).advance.after value = value + step.toInt :=
        after_advanceBy step value
      exact .round hholds (hafter ▸ ih rfl)
    · rw [Cursor.next?, if_neg (mt (holds_ofRange hstep value).2 hholds)] at hsome
      cases hsome

end CountingLoop

/-! ## From sources to headers -/

namespace Qasm

def stepValue? : Option Expression → Option Int64
  | none => some 1
  | some e => e.integer?

theorem loopBound_eq_ok {e : Expression} {v : Int64} (h : e.integer? = some v) : loopBound e = .ok v := by
  rw [loopBound, h]

theorem iteration_range {start finish : Expression} {step : Option Expression} {a b s : Int64}
    (hstart : start.integer? = some a) (hfinish : finish.integer? = some b)
    (hstep : stepValue? step = some s) :
    (LoopDomain.range start step finish).iteration = inclusiveRange a b s := by
  rw [LoopDomain.iteration, loopBound_eq_ok hstart, ok_bind, loopBound_eq_ok hfinish, ok_bind]
  cases step with
  | none =>
    cases hstep
    rfl
  | some e =>
    dsimp only
    rw [loopBound_eq_ok hstep, ok_bind]

def IsWord (n : Int) : Prop := Int64.minValue.toInt ≤ n ∧ n ≤ Int64.maxValue.toInt

/-- With a word past its end a range is refused for a step of zero only. -/
theorem inclusiveRange_of_isWord {start finish step : Int64}
    (h : IsWord (finish.toInt + step.toInt.sign)) :
    ∃ stop : Int64, stop.toInt = finish.toInt + step.toInt.sign ∧
      inclusiveRange start finish step =
        if step = 0 then .error (.circuit .zeroStep) else .ok (.range start stop step) := by
  have hlow : Int64.minValue.toInt = -0x8000000000000000 := rfl
  have hhigh : Int64.maxValue.toInt = 0x7fffffffffffffff := rfl
  have hpast : pastEnd? finish step = some (Int64.ofInt (finish.toInt + step.toInt.sign)) := if_pos h
  obtain ⟨h₁, h₂⟩ := h
  refine ⟨Int64.ofInt (finish.toInt + step.toInt.sign), ?_, ?_⟩
  · exact Int64.toInt_ofInt_of_le (by omega) (by omega)
  · rw [inclusiveRange, hpast]
    dsimp only
    rw [Iteration.ofRange]
    split <;> rfl

theorem inclusiveRange_of_not_isWord {start finish step : Int64}
    (h : ¬ IsWord (finish.toInt + step.toInt.sign)) :
    inclusiveRange start finish step = .error (.unsupported .loopBoundOverflow) := by
  have hpast : pastEnd? finish step = none := if_neg h
  rw [inclusiveRange, hpast]

/-- Without a step the end of a range is not moved. -/
theorem isWord_of_step_zero (finish : Int64) : IsWord (finish.toInt + (0 : Int64).toInt.sign) := by
  have hzero : (0 : Int64).toInt.sign = 0 := rfl
  rw [hzero, Int.add_zero]
  exact ⟨finish.minValue_le_toInt, finish.toInt_le⟩

/-- A range of a source fails exactly if its step is zero or if one past its end is no word. Otherwise
its loop goes through the values from its start to its end: so does the header that is emitted, under
any name of the variable, and so does the text of that header. -/
theorem loops_visit_inclusive_ranges {start finish : Expression} {step : Option Expression}
    {a b s : Int64} (hstart : start.integer? = some a) (hfinish : finish.integer? = some b)
    (hstep : stepValue? step = some s) :
    ((LoopDomain.range start step finish).iteration = .error (.circuit .zeroStep) ↔ s = 0) ∧
    ((∃ form, (LoopDomain.range start step finish).iteration = .error (.unsupported form)) ↔
      ¬ IsWord (b.toInt + s.toInt.sign)) ∧
    (s ≠ 0 → IsWord (b.toInt + s.toInt.sign) →
      ∃ stop values, (LoopDomain.range start step finish).iteration = .ok (.range a stop s) ∧
        IsInclusiveRange a.toInt b.toInt s.toInt values ∧
        ∀ loopVar, ∃ header loop,
          Surroundings.header loopVar (.range a stop s) = .ok header ∧
          header = .range loopVar a stop s ∧
          (∀ vs, header.cursor.Yields vs ↔ vs = values) ∧
          CountingLoop.ofText? loopVar header.text = some loop ∧
          ∀ vs, loop.Visits loop.start vs ↔ vs = values) := by
  rw [iteration_range hstart hfinish hstep]
  by_cases hword : IsWord (b.toInt + s.toInt.sign)
  · obtain ⟨stop, hstop, heq⟩ := @inclusiveRange_of_isWord a b s hword
    rw [heq]
    by_cases hzero : s = 0
    · rw [if_pos hzero]
      exact ⟨by simp [hzero], by simp [hword], fun hne => absurd hzero hne⟩
    · rw [if_neg hzero]
      refine ⟨by simp [hzero], by simp [hword], fun _ _ => ?_⟩
      have hyields := yields_counting a.toInt stop.toInt s.toInt
      have hvisits := @CountingLoop.visits_of_yields a _ _ hzero _ _ hyields
      refine ⟨stop, _, rfl, hstop ▸ isInclusiveRange_rangeLength a.toInt b.toInt s.toInt, fun loopVar => ?_⟩
      refine ⟨.range loopVar a stop s, .ofRange a stop s, if_neg hzero, rfl, ?_,
        CountingLoop.ofText?_text loopVar a stop s, ?_⟩
      · exact fun vs => ⟨fun h => h.unique hyields, fun h => h ▸ hyields⟩
      · exact fun vs => ⟨fun h => h.unique hvisits, fun h => h ▸ hvisits⟩
  · have hzero : s ≠ 0 := by
      rintro rfl
      exact hword (isWord_of_step_zero b)
    rw [inclusiveRange_of_not_isWord hword]
    exact ⟨by simp [hzero], by simp [hword], fun _ h => absurd h hword⟩

/-- `[7:-3:0]` goes through 7, 4 and 1, a step of zero fails, and so does an end without a number past
it. -/
theorem loops_visit_inclusive_ranges_downwards :
    (∃ loop, CountingLoop.ofText? "i" "int i = 7; i > -1; i += -3" = some loop ∧
      (LoopDomain.range (.int 7) (some (.unary .neg (.int 3))) (.int 0)).iteration =
        .ok (.range 7 (-1) (-3)) ∧
      IsInclusiveRange 7 0 (-3) [7, 4, 1] ∧ loop.Visits loop.start [7, 4, 1]) ∧
    (LoopDomain.range (.int 7) (some (.int 0)) (.int 0)).iteration = .error (.circuit .zeroStep) ∧
    ∃ form, (LoopDomain.range (.int 7) none (.int Int64.maxValue)).iteration =
      .error (.unsupported form) := by
  refine ⟨?_, ?_, ?_⟩
  · obtain ⟨-, -, hloop⟩ := @loops_visit_inclusive_ranges (.int 7) (.int 0)
      (some (.unary .neg (.int 3))) 7 0 (-3) rfl rfl rfl
    obtain ⟨stop, values, hiteration, hrange, hheader⟩ := hloop (by decide) ⟨by decide, by decide⟩
    obtain ⟨header, loop, -, rfl, hyields, htext, hvisits⟩ := hheader "i"
    have hstop : (.ok (.range 7 (-1) (-3)) : Except Error Iteration) = .ok (.range 7 stop (-3)) := hiteration
    cases hstop
    have hvalues : [7, 4, 1] = values := (hyields _).1 (.next rfl (.next rfl (.next rfl (.done rfl))))
    subst hvalues
    exact ⟨loop, htext, rfl, hrange, (hvisits _).2 rfl⟩
  · exact (@loops_visit_inclusive_ranges (.int 7) (.int 0) (some (.int 0)) 7 0 0 rfl rfl rfl).1.2 rfl
  · refine (@loops_visit_inclusive_ranges (.int 7) (.int Int64.maxValue) none 7 _ 1 rfl rfl rfl).2.1.2 ?_
    exact fun h => absurd h.2 (by decide)

end Qasm

end CircuitCalls

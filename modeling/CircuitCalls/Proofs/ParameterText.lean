import CircuitCalls.Proofs.CallText
import CircuitCalls.Proofs.Simplification

/-!
# Arguments of calls as texts

An argument holds no marks that could end it (`Parameter.spells_argument`), and its words show its symbols:
numbers start with digits, so that the identifiers in the text are the symbols of the parameter in their
order, beside the names of π and of the values that are no numbers (`Parameter.argumentSymbols_argument`).
-/

namespace CircuitCalls

open Qasm (isNamePart isNameStart isIdentifier isIdentifier_iff not_isDigit_letter)

/-! ## Characters -/

theorem isArgumentChar_of_isNamePart {c : Char} (h : isNamePart c = true) : isArgumentChar c = true := by
  rw [isArgumentChar, h, Bool.true_or]

theorem isArgumentChar_toDigits (n : Nat) : ∀ c ∈ Nat.toDigits 10 n, isArgumentChar c = true := by
  intro c hc
  exact isArgumentChar_of_isNamePart (by simp [isNamePart, isDigit_toDigits hc])

theorem isArgumentChar_zeros (n : Nat) : ∀ c ∈ List.replicate n '0', isArgumentChar c = true := by
  intro c hc
  rw [List.eq_of_mem_replicate hc]
  rfl

namespace Layout

theorem spells_padded (width n : Nat) : Spells isArgumentChar (padded width n) :=
  spells_ofList (List.forall_mem_append.2 ⟨isArgumentChar_zeros _, isArgumentChar_toDigits n⟩)

theorem spells_writePositional (pointZero : Bool) (d : Decimal) :
    Spells isArgumentChar (writePositional pointZero d) := by
  have hdigits := isArgumentChar_toDigits d.digits
  unfold writePositional
  dsimp only
  split
  · refine (spells_ofList (List.forall_mem_append.2 ⟨hdigits, isArgumentChar_zeros _⟩)).append ?_
    cases pointZero <;> exact spells_of_all rfl
  · have hwhole : Spells isArgumentChar (String.ofList ((Nat.toDigits 10 d.digits).take
        ((Nat.toDigits 10 d.digits).length - (-d.exponent).toNat))) :=
      spells_ofList fun c hc => hdigits c (List.mem_of_mem_take hc)
    refine (Spells.append ?_ (spells_of_all rfl)).append (spells_ofList (List.forall_mem_append.2
      ⟨isArgumentChar_zeros _, fun c hc => hdigits c (List.mem_of_mem_drop hc)⟩))
    split
    · exact spells_of_all rfl
    · exact hwhole

theorem spells_toString_char {p : Char → Bool} {c : Char} (h : p c = true) : Spells p c.toString := by
  simpa [Spells, Char.toString] using h

theorem spells_writeScientific (plusSign : Bool) (exponentWidth : Nat) (d : Decimal) :
    Spells isArgumentChar (writeScientific plusSign exponentWidth d) := by
  have hdigits := isArgumentChar_toDigits d.digits
  unfold writeScientific
  refine ((Spells.append ?_ (spells_of_all rfl)).append ?_).append (spells_padded _ _)
  · split
    next => exact spells_of_all rfl
    next c heq =>
      rw [heq] at hdigits
      exact spells_toString_char (hdigits c List.mem_cons_self)
    next c rest _ heq =>
      rw [heq, List.forall_mem_cons] at hdigits
      have hfirst := spells_toString_char hdigits.1
      exact (hfirst.append (spells_of_all rfl)).append (spells_ofList hdigits.2)
  · split
    · exact spells_of_all rfl
    · cases plusSign <;> exact spells_of_all rfl

end Layout

theorem spells_argumentLayout (x : Float) : Spells isArgumentChar (argumentLayout.write x) := by
  unfold Layout.write
  split
  · split
    · exact (spells_of_all rfl : Spells isArgumentChar "nan")
    · split
      · exact (spells_of_all rfl : Spells isArgumentChar "-inf")
      · exact (spells_of_all rfl : Spells isArgumentChar "inf")
  · refine Spells.append ?_ ?_
    · split <;> exact spells_of_all rfl
    · split
      · exact Layout.spells_writePositional _ _
      · exact Layout.spells_writeScientific _ _ _

namespace Parameter

theorem occurrences_rename (f : String → String) (p : Parameter) :
    (p.rename f).occurrences = p.occurrences.map f := by
  induction p with
  | constant v => rfl
  | symbol name => rfl
  | pi => rfl
  | neg e ih => exact ih
  | binary op a b iha ihb => rw [rename, occurrences, iha, ihb, occurrences, List.map_append]

/-- A parameter is written with characters of arguments only, if its symbols are names. -/
theorem spells_write {p : Parameter} (h : ∀ name ∈ p.occurrences, Spells isNamePart name) :
    Spells isArgumentChar (p.write argumentLayout.write "M_PI") := by
  induction p with
  | constant v => exact spells_argumentLayout v
  | symbol name => exact fun c hc => isArgumentChar_of_isNamePart (h name List.mem_cons_self c hc)
  | pi => exact spells_of_all rfl
  | neg e ih => exact ((spells_of_all rfl).append (ih h)).append (spells_of_all rfl)
  | binary op a b iha ihb =>
    have ⟨ha, hb⟩ := List.forall_mem_append.1 h
    have hsign : Spells isArgumentChar op.sign := by cases op <;> exact spells_of_all rfl
    have hblank : Spells isArgumentChar " " := spells_of_all rfl
    have hopen : Spells isArgumentChar "(" := spells_of_all rfl
    have hleft := (hopen.append (iha ha)).append hblank
    exact (((hleft.append hsign).append hblank).append (ihb hb)).append (spells_of_all rfl)

theorem spells_argument {p : Parameter} (h : ∀ name ∈ p.occurrences, Spells isNamePart name) :
    Spells isArgumentChar p.argument := by
  unfold argument
  cases p.value? with
  | some v => exact spells_argumentLayout v
  | none => exact spells_write fun name hname => h name (occurrences_simplify p ▸ hname)

end Parameter

/-! ## Words -/

def isMark (c : Char) : Bool := !isNamePart c

/-- The identifiers in a text: the longest words of name characters that start as a name does. -/
def identifiers (text : String) : List String :=
  ((text.toList.splitOnP isMark).filter (·.head?.any isNameStart)).map String.ofList

theorem identifiers_marks_append {marks : String} (h : Spells isMark marks) (after : String) :
    identifiers (marks ++ after) = identifiers after := by
  have hsplit : ∀ cs : List Char, (∀ c ∈ cs, isMark c = true) →
      ((cs ++ after.toList).splitOnP isMark).filter (·.head?.any isNameStart) =
        (after.toList.splitOnP isMark).filter (·.head?.any isNameStart) := by
    intro cs hcs
    induction cs with
    | nil => rfl
    | cons c cs ih =>
      obtain ⟨hc, hrest⟩ := List.forall_mem_cons.1 hcs
      have hcons := List.splitOnP_append_cons [] (cs ++ after.toList) hc
      rw [List.nil_append] at hcons
      rw [List.cons_append, hcons, List.filter_append, ih hrest]
      rfl
  rw [identifiers, String.toList_append, hsplit marks.toList h]
  rfl

/-- No identifier goes across a mark. -/
theorem identifiers_append (before after : String) {marks : String} (h : Spells isMark marks)
    (hne : marks.toList ≠ []) :
    identifiers (before ++ marks ++ after) = identifiers before ++ identifiers after := by
  obtain ⟨c, cs, hmarks⟩ := List.exists_cons_of_ne_nil hne
  rw [Spells, hmarks] at h
  obtain ⟨hc, hcs⟩ := List.forall_mem_cons.1 h
  have htext : (before ++ marks ++ after).toList =
      before.toList ++ c :: (String.ofList cs ++ after).toList := by simp [hmarks]
  rw [identifiers, htext, List.splitOnP_append_cons _ _ hc, List.filter_append, List.map_append]
  exact congrArg (identifiers before ++ ·) (identifiers_marks_append (spells_ofList hcs) after)

theorem identifiers_append_marks (before : String) {marks : String} (h : Spells isMark marks) :
    identifiers (before ++ marks) = identifiers before := by
  by_cases hne : marks.toList = []
  · rw [String.toList_eq_nil_iff.1 hne, String.append_empty]
  · have happend := identifiers_append before "" h hne
    rwa [String.append_empty, show identifiers "" = [] from rfl, List.append_nil] at happend

theorem identifiers_of_word {word : String} (h : Spells isNamePart word) :
    identifiers word = if word.toList.head?.any isNameStart then [word] else [] := by
  have hsplit : word.toList.splitOnP isMark = [word.toList] :=
    List.splitOnP_eq_singleton fun c hc => by simp [isMark, h c hc]
  rw [identifiers, hsplit, List.filter_singleton]
  cases word.toList.head?.any isNameStart <;> simp

theorem identifiers_identifier {name : String} (h : isIdentifier name = true) : identifiers name = [name] := by
  obtain ⟨c, more, hname, hstart, -⟩ := isIdentifier_iff.1 h
  have hhead : name.toList.head?.any isNameStart = true := by simp [hname, hstart]
  rw [identifiers_of_word (spells_identifier h), if_pos hhead]

theorem not_isNameStart_digit {c : Char} (h : c.isDigit = true) : isNameStart c = false := by
  rw [isNameStart, Bool.or_eq_false_iff, beq_eq_false_iff_ne]
  constructor
  · by_contra hletter
    rw [not_isDigit_letter ((Bool.not_eq_false _).mp hletter)] at h
    cases h
  · rintro rfl
    cases h

/-- A word that starts with a digit is no identifier. -/
theorem identifiers_digit {word : String} (h : Spells isNamePart word)
    (hhead : ∀ c ∈ word.toList.head?, c.isDigit = true) : identifiers word = [] := by
  have hstart : word.toList.head?.any isNameStart = false := by
    cases hword : word.toList.head? with
    | none => rfl
    | some c => exact not_isNameStart_digit (hhead c hword)
  rw [identifiers_of_word h, if_neg (by simp [hstart])]

theorem spells_isNamePart_of_digits {word : String} (h : Spells Char.isDigit word) : Spells isNamePart word :=
  fun c hc => by simp [isNamePart, h c hc]

theorem identifiers_digits {word : String} (h : Spells Char.isDigit word) : identifiers word = [] :=
  identifiers_digit (spells_isNamePart_of_digits h) fun c hc => h c (List.mem_of_head? hc)

theorem identifiers_digits_exponent {digits : String} (h : Spells Char.isDigit digits)
    (hne : digits.toList ≠ []) : identifiers (digits ++ "e") = [] := by
  refine identifiers_digit ((spells_isNamePart_of_digits h).append (spells_of_all rfl)) fun c hc => ?_
  rw [String.toList_append, List.head?_append_of_ne_nil _ hne] at hc
  exact h c (List.mem_of_head? hc)

theorem isDigit_zeros (n : Nat) : ∀ c ∈ List.replicate n '0', c.isDigit = true := by
  intro c hc
  rw [List.eq_of_mem_replicate hc]
  rfl

namespace Layout

theorem identifiers_padded (width n : Nat) : identifiers (padded width n) = [] :=
  identifiers_digits (spells_ofList (List.forall_mem_append.2 ⟨isDigit_zeros _, fun _ hc => isDigit_toDigits hc⟩))

/-- The text of a number has no identifier in it. -/
theorem identifiers_writePositional (d : Decimal) : identifiers (writePositional true d) = [] := by
  have hdigits : ∀ c ∈ Nat.toDigits 10 d.digits, c.isDigit = true := fun c hc => isDigit_toDigits hc
  unfold writePositional
  dsimp only
  split
  · have hpoint : (".0" : String) = "." ++ "0" := rfl
    rw [if_pos rfl, hpoint, ← String.append_assoc, identifiers_append _ _ (spells_of_all rfl) (by decide),
      identifiers_digits (spells_ofList (List.forall_mem_append.2 ⟨hdigits, isDigit_zeros _⟩))]
    exact identifiers_digits (spells_of_all rfl)
  · rw [identifiers_append _ _ (spells_of_all rfl) (by decide),
      identifiers_digits (spells_ofList (List.forall_mem_append.2
        ⟨isDigit_zeros _, fun c hc => hdigits c (List.mem_of_mem_drop hc)⟩)), List.append_nil]
    refine identifiers_digits ?_
    split
    · exact spells_of_all rfl
    · exact spells_ofList fun c hc => hdigits c (List.mem_of_mem_take hc)

/-- The `e` of an exponent belongs to the word that its digits start. -/
theorem identifiers_writeScientific (exponentWidth : Nat) (d : Decimal) :
    identifiers (writeScientific true exponentWidth d) = [] := by
  have hdigits : ∀ c ∈ Nat.toDigits 10 d.digits, c.isDigit = true := fun c hc => isDigit_toDigits hc
  have hsign : Spells isMark (if d.leading < 0 then "-" else if true then "+" else "") ∧
      (if d.leading < 0 then "-" else if true then "+" else "").toList ≠ [] := by
    split <;> exact ⟨spells_of_all rfl, by decide⟩
  unfold writeScientific
  rw [identifiers_append _ _ hsign.1 hsign.2, identifiers_padded, List.append_nil]
  split
  next => exact identifiers_digits_exponent (spells_of_all rfl) (by decide)
  next c heq =>
    have hc : Spells Char.isDigit c.toString := spells_toString_char (hdigits c (heq ▸ List.mem_cons_self))
    exact identifiers_digits_exponent hc (by simp [Char.toString])
  next c rest hrest heq =>
    rw [heq, List.forall_mem_cons] at hdigits
    have hne : (String.ofList rest).toList ≠ [] := by
      rw [String.toList_ofList]
      rintro rfl
      exact hrest rfl
    rw [String.append_assoc, identifiers_append _ _ (spells_of_all rfl) (by decide),
      identifiers_digits (spells_toString_char hdigits.1),
      identifiers_digits_exponent (spells_ofList hdigits.2) hne]
    rfl

end Layout

/-! ## Symbols of an argument -/

/-- Not the name of π or of a value that is no number. -/
def isSymbolName (name : String) : Bool :=
  name != "M_PI" && name != argumentLayout.notANumber && name != argumentLayout.infinity

/-- The symbols that an argument shows. -/
def argumentSymbols (text : String) : List String := (identifiers text).filter isSymbolName

theorem argumentSymbols_number (x : Float) : argumentSymbols (argumentLayout.write x) = [] := by
  unfold Layout.write
  split
  · split
    · decide
    · split <;> decide
  · have hsign : ∀ negative : Bool, Spells isMark (if negative then "-" else "") := fun negative => by
      cases negative <;> exact spells_of_all rfl
    rw [argumentSymbols, identifiers_marks_append (hsign _)]
    split
    · rw [argumentLayout, Layout.identifiers_writePositional, List.filter_nil]
    · rw [argumentLayout, Layout.identifiers_writeScientific, List.filter_nil]

namespace Parameter

/-- A parameter with a value has no symbols. -/
theorem occurrences_of_value? {p : Parameter} {v : Float} (h : p.value? = some v) : p.occurrences = [] := by
  induction p generalizing v with
  | constant v => rfl
  | symbol name => cases h
  | pi => rfl
  | neg e ih =>
    obtain ⟨w, hw, -⟩ := Option.map_eq_some_iff.1 h
    exact ih hw
  | binary op a b iha ihb =>
    rw [value?] at h
    obtain ⟨y, hy, h⟩ := Option.bind_eq_some_iff.1 h
    obtain ⟨x, hx, -⟩ := Option.bind_eq_some_iff.1 h
    rw [occurrences, iha hx, ihb hy, List.append_nil]

/-- The identifiers in the text of a parameter are its symbols in their order. -/
theorem argumentSymbols_write {p : Parameter} (h : ∀ name ∈ p.occurrences, isIdentifier name = true) :
    argumentSymbols (p.write argumentLayout.write "M_PI") = p.occurrences.filter isSymbolName := by
  induction p with
  | constant v => exact argumentSymbols_number v
  | symbol name =>
    rw [write, argumentSymbols, identifiers_identifier (h name List.mem_cons_self)]
    rfl
  | pi => decide
  | neg e ih =>
    rw [write, argumentSymbols, identifiers_append_marks _ (spells_of_all rfl),
      identifiers_marks_append (spells_of_all rfl)]
    exact ih h
  | binary op a b iha ihb =>
    obtain ⟨ha, hb⟩ := List.forall_mem_append.1 h
    have hsign : Spells isMark op.sign := by cases op <;> exact spells_of_all rfl
    rw [write, argumentSymbols, identifiers_append_marks _ (spells_of_all rfl),
      identifiers_append _ _ (spells_of_all rfl) (by decide), identifiers_append_marks _ hsign,
      identifiers_append_marks _ (spells_of_all rfl), identifiers_marks_append (spells_of_all rfl),
      List.filter_append, occurrences, List.filter_append, ← iha ha, ← ihb hb]
    rfl

theorem argumentSymbols_argument {p : Parameter} (h : ∀ name ∈ p.occurrences, isIdentifier name = true) :
    argumentSymbols p.argument = p.occurrences.filter isSymbolName := by
  unfold argument
  cases hv : p.value? with
  | some v =>
    rw [occurrences_of_value? hv]
    exact argumentSymbols_number v
  | none =>
    rw [argumentSymbols_write fun name hname => h name (occurrences_simplify p ▸ hname), occurrences_simplify]

end Parameter

end CircuitCalls

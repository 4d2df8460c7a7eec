import CircuitCalls.Proofs.Except
import CircuitCalls.Proofs.JsonText
import CircuitCalls.Qasm.Lexer

/-!
# Tokens read from their own texts

A token that is followed by a white character is read from its text as a whole, whatever stands
further on (`scan_text`): no longer lexeme runs into the white character, and no shorter one wins. What
stands between tokens leaves nothing behind but its newlines (`tokensFrom_filler`). So a list of tokens
comes back from any text that spells them out in order, and the line of a token is told by the newlines
in front of it, those inside string literals left out (`tokens_follow_their_texts`).
-/

namespace CircuitCalls.Qasm

def newlines (text : List Char) : Nat := text.count '\n'

theorem newlines_append (a b : List Char) : newlines (a ++ b) = newlines a + newlines b :=
  List.count_append

/-! ## Texts between tokens -/

def isWhite (c : Char) : Bool := isBlank c || c == '\n'

/-- A piece of the text between tokens. -/
inductive Filler where
  | white (c : Char) (isWhite : isWhite c = true)
  /-- A comment with the newline that ends it. -/
  | lineComment (text : List Char) (oneLine : '\n' ∉ text)
  /-- A comment up to the first mark of an end. -/
  | blockComment (text : List Char) (unended : ¬ ['*', '/'] <:+: text)

def Filler.text : Filler → List Char
  | white c _ => [c]
  | lineComment text _ => '/' :: '/' :: (text ++ ['\n'])
  | blockComment text _ => '/' :: '*' :: (text ++ ['*', '/'])

/-- A text between tokens: a white character, and after it pieces of any kind. -/
structure Separator where
  first : Char
  isWhite : isWhite first = true
  more : List Filler

def Separator.text (s : Separator) : List Char := s.first :: s.more.flatMap Filler.text

theorem white_cases {c : Char} (h : isWhite c = true) :
    c = ' ' ∨ c = '\t' ∨ c = '\r' ∨ c = '\x0c' ∨ c = '\n' := by
  simpa [isWhite, isBlank, or_assoc] using h

theorem not_isDigit_white {c : Char} (h : isWhite c = true) : c.isDigit = false := by
  rcases white_cases h with rfl | rfl | rfl | rfl | rfl <;> rfl

theorem not_isNamePart_white {c : Char} (h : isWhite c = true) : isNamePart c = false := by
  rcases white_cases h with rfl | rfl | rfl | rfl | rfl <;> rfl

theorem not_isDigit_letter {c : Char} (h : c.isAlpha = true) : c.isDigit = false := by
  have hletter : (decide ('A'.val ≤ c.val ∧ c.val ≤ 'Z'.val) ||
      (decide ('a'.val ≤ c.val) && decide (c.val ≤ 'z'.val))) = true := h
  by_contra hdigit
  have hbounds : (decide ('0'.val ≤ c.val) && decide (c.val ≤ '9'.val)) = true :=
    (Bool.not_eq_false _).mp hdigit
  simp only [Bool.or_eq_true, Bool.and_eq_true, decide_eq_true_eq, UInt32.le_iff_toNat_le,
    Char.reduceVal, UInt32.reduceToNat] at hletter hbounds
  omega

/-- The first end mark closes a comment. -/
theorem commentBody?_append {text : List Char} (h : ¬ ['*', '/'] <:+: text) (rest : List Char) :
    commentBody? (text ++ '*' :: '/' :: rest) = some text := by
  induction text with
  | nil => rfl
  | cons c text ih =>
    have htext : ¬ ['*', '/'] <:+: text := fun hinfix => h (List.infix_cons hinfix)
    rw [List.cons_append, commentBody?, ih htext, Option.map_some]
    -- The first two characters are no end: if both are of the comment they would be one inside it.
    rintro more rfl htail
    cases text with
    | nil => cases htail
    | cons d text =>
      obtain ⟨rfl, -⟩ := List.cons.inj htail
      exact h ⟨[], text, rfl⟩

/-! ## Going through a text -/

theorem tokensFrom_skip (line : Nat) (skipped rest : List Char) :
    tokensFrom skipped.length line (skipped ++ rest) = tokensFrom 0 line rest := by
  induction skipped with
  | nil => rfl
  | cons c skipped ih => exact ih

theorem tokensFrom_skipped {line count : Nat} {c : Char} {more rest : List Char}
    (h : scan c (more ++ rest) = (.skipped count, more.length)) :
    tokensFrom 0 line (c :: (more ++ rest)) = tokensFrom 0 (line + count) rest := by
  rw [tokensFrom, h]
  exact tokensFrom_skip (line + count) more rest

theorem tokensFrom_token {line : Nat} {token : Token} {c : Char} {more rest : List Char}
    (h : scan c (more ++ rest) = (.token token, more.length)) :
    tokensFrom 0 line (c :: (more ++ rest)) =
      tokensFrom 0 line rest >>= fun later => .ok (⟨token, line⟩ :: later) := by
  rw [tokensFrom, h]
  dsimp only
  rw [tokensFrom_skip line more rest]
  rfl

theorem scan_blank {c : Char} (h : isBlank c = true) (text : List Char) :
    scan c text = (.skipped 0, (text.takeWhile isBlank).length) := by
  unfold scan
  rw [if_pos h]

/-- Blanks are skipped, whether as one row or one by one. -/
theorem tokensFrom_blanks (line : Nat) (rest : List Char) :
    tokensFrom (rest.takeWhile isBlank).length line rest = tokensFrom 0 line rest := by
  cases rest with
  | nil => rfl
  | cons c rest =>
    by_cases hc : isBlank c = true
    · rw [List.takeWhile_cons_of_pos hc, List.length_cons, tokensFrom, tokensFrom, scan_blank hc]
      rfl
    · rw [List.takeWhile_cons_of_neg hc, List.length_nil]

theorem tokensFrom_white {c : Char} (h : isWhite c = true) (line : Nat) (rest : List Char) :
    tokensFrom 0 line (c :: rest) = tokensFrom 0 (line + newlines [c]) rest := by
  have hblank : isBlank c = true → newlines [c] = 0 → tokensFrom 0 line (c :: rest) =
      tokensFrom 0 (line + newlines [c]) rest := by
    intro hc hcount
    rw [tokensFrom, scan_blank hc, hcount, Nat.add_zero]
    exact tokensFrom_blanks line rest
  rcases white_cases h with rfl | rfl | rfl | rfl | rfl
  · exact hblank rfl rfl
  · exact hblank rfl rfl
  · exact hblank rfl rfl
  · exact hblank rfl rfl
  · have hscan : scan '\n' rest = (.skipped 1, 0) := rfl
    rw [tokensFrom, hscan]
    rfl

/-- A piece between tokens is skipped and its newlines are counted. -/
theorem tokensFrom_filler (f : Filler) (line : Nat) (rest : List Char) :
    tokensFrom 0 line (f.text ++ rest) = tokensFrom 0 (line + newlines f.text) rest := by
  cases f with
  | white c h => exact tokensFrom_white h line rest
  | lineComment text h =>
    have hcount : newlines (Filler.lineComment text h).text = newlines ['\n'] := by
      simp [Filler.text, newlines, List.count_eq_zero.2 h]
    -- The comment itself ends before its newline, which is then read as a white character.
    have hscan : scan '/' (('/' :: text) ++ '\n' :: rest) = (.skipped 0, ('/' :: text).length) := by
      have hline : (text ++ '\n' :: rest).takeWhile (· != '\n') = text := by
        rw [List.takeWhile_append_of_pos (by grind)]
        simp
      change (Lexeme.skipped 0, ((text ++ '\n' :: rest).takeWhile (· != '\n')).length + 1) = _
      rw [hline]
      rfl
    have hskip : tokensFrom 0 line ((Filler.lineComment text h).text ++ rest) =
        tokensFrom 0 line ('/' :: (('/' :: text) ++ '\n' :: rest)) := by
      simp [Filler.text]
    rw [hskip, tokensFrom_skipped hscan, tokensFrom_white rfl, hcount, Nat.add_zero]
  | blockComment text h =>
    have hcount : newlines (Filler.blockComment text h).text = text.count '\n' := by
      simp [Filler.text, newlines]
    have hscan : scan '/' (('*' :: (text ++ ['*', '/'])) ++ rest) =
        (.skipped (text.count '\n'), ('*' :: (text ++ ['*', '/'])).length) := by
      change scanComment ((text ++ ['*', '/']) ++ rest) = _
      rw [List.append_assoc, scanComment, List.cons_append, List.singleton_append, commentBody?_append h]
      simp
    rw [hcount]
    exact tokensFrom_skipped hscan

/-- What stands between tokens is skipped, and the lines are counted on. -/
theorem tokensFrom_separator (s : Separator) (line : Nat) (rest : List Char) :
    tokensFrom 0 line (s.text ++ rest) = tokensFrom 0 (line + newlines s.text) rest := by
  have hmore : ∀ (fillers : List Filler) (line : Nat),
      tokensFrom 0 line (fillers.flatMap Filler.text ++ rest) =
        tokensFrom 0 (line + newlines (fillers.flatMap Filler.text)) rest := by
    intro fillers
    induction fillers with
    | nil => intro line; rfl
    | cons f fillers ih =>
      intro line
      rw [List.flatMap_cons, List.append_assoc, tokensFrom_filler, ih, newlines_append, Nat.add_assoc]
  have htext : s.text = [s.first] ++ s.more.flatMap Filler.text := rfl
  rw [htext, newlines_append, List.append_assoc, List.singleton_append, tokensFrom_white s.isWhite, hmore,
    Nat.add_assoc]

/-! ## Tokens -/

/-- A name of letters, digits and underscores that does not start with a digit. -/
def isIdentifier (name : String) : Bool :=
  match name.toList with
  | [] => false
  | first :: more => isNameStart first && more.all isNamePart

/-- A token that its text spells: an identifier is a name and no keyword, and a string has no quote
inside. A decimal number is left out, its text need not be the one it was read from. -/
def Token.Spelled : Token → Prop
  | keyword _ | symbol _ | int _ => True
  | identifier name => isIdentifier name = true ∧ ∀ k : Keyword, k.text ≠ name
  | string text => '"' ∉ text.toList
  | float _ => False

theorem takeWhile_stop {p : Char → Bool} {more rest : List Char} {stop : Char}
    (hmore : ∀ c ∈ more, p c = true) (hstop : p stop = false) :
    (more ++ stop :: rest).takeWhile p = more := by
  rw [List.takeWhile_append_of_pos hmore, List.takeWhile_cons_of_neg (by simp [hstop]), List.append_nil]

theorem isIdentifier_iff {name : String} :
    isIdentifier name = true ↔
      ∃ c more, name.toList = c :: more ∧ isNameStart c = true ∧ ∀ d ∈ more, isNamePart d = true := by
  unfold isIdentifier
  cases name.toList with
  | nil => simp
  | cons c more => simp

theorem scan_digit {c : Char} (h : c.isDigit = true) (text : List Char) :
    scan c text = scanNumber c text := by
  have hwhite : isWhite c = false := by
    by_contra hwhite
    rw [not_isDigit_white (by simpa using hwhite)] at h
    cases h
  obtain ⟨hblank, hline⟩ : isBlank c = false ∧ (c == '\n') = false := by simpa [isWhite] using hwhite
  simp only [scan, hblank, hline, h, if_true, Bool.false_eq_true, if_false]

theorem scan_nameStart {c : Char} (h : isNameStart c = true) (text : List Char) :
    scan c text = scanName c text := by
  have hword : isNamePart c = true := by simp [isNamePart, h]
  have hwhite : isWhite c = false := by
    by_contra hwhite
    rw [not_isNamePart_white (by simpa using hwhite)] at hword
    cases hword
  have hdigit : c.isDigit = false := by
    rw [isNameStart, Bool.or_eq_true, beq_iff_eq] at h
    rcases h with hletter | rfl
    · exact not_isDigit_letter hletter
    · rfl
  obtain ⟨hblank, hline⟩ : isBlank c = false ∧ (c == '\n') = false := by simpa [isWhite] using hwhite
  simp only [scan, hblank, hline, hdigit, h, if_true, Bool.false_eq_true, if_false]

theorem keyword_isIdentifier (k : Keyword) : isIdentifier k.text = true := by
  cases k <;> rfl

theorem ofText?_text (k : Keyword) : Keyword.ofText? k.text = some k := by
  cases k <;> rfl

/-- A name before a white character is read as a whole. -/
theorem scan_identifier {name : String} (h : isIdentifier name = true) {w : Char}
    (hw : isWhite w = true) (rest : List Char) :
    ∃ c more, name.toList = c :: more ∧
      scan c (more ++ w :: rest) =
        (.token (((Keyword.ofText? name).map Token.keyword).getD (.identifier name)), more.length) := by
  obtain ⟨c, more, hname, hc, hmore⟩ := isIdentifier_iff.1 h
  refine ⟨c, more, hname, ?_⟩
  have htext : String.ofList (c :: more) = name := by rw [← hname, String.ofList_toList]
  rw [scan_nameStart hc, scanName, takeWhile_stop hmore (not_isNamePart_white hw), htext]
  cases Keyword.ofText? name with
  | none => rfl
  | some k => rfl

theorem toList_toString (n : Nat) : (toString n).toList = Nat.toDigits 10 n :=
  String.toList_ofList

/-- A whole number before a white character is read as itself. -/
theorem scan_int (value : UInt64) {w : Char} (hw : isWhite w = true) (rest : List Char) :
    ∃ c more, (toString value.toNat).toList = c :: more ∧
      scan c (more ++ w :: rest) = (.token (.int value), more.length) := by
  have hdigits : ∀ c ∈ Nat.toDigits 10 value.toNat, c.isDigit = true := fun _ h => isDigit_toDigits h
  have hvalue : wholeLexeme (Nat.toDigits 10 value.toNat) = .token (.int value) := by
    rw [wholeLexeme, readDigits_toDigits, if_pos value.toNat_lt, UInt64.ofNat_toNat]
  rw [toList_toString]
  cases hchars : Nat.toDigits 10 value.toNat with
  | nil => exact absurd hchars Nat.toDigits_ne_nil
  | cons c more =>
    rw [hchars] at hdigits hvalue
    refine ⟨c, more, rfl, ?_⟩
    have hmore : (more ++ w :: rest).takeWhile Char.isDigit = more :=
      takeWhile_stop (fun d hd => hdigits d (List.mem_cons_of_mem _ hd)) (not_isDigit_white hw)
    rw [scan_digit (hdigits c List.mem_cons_self), scanNumber]
    simp only [hmore, List.drop_left]
    rcases white_cases hw with rfl | rfl | rfl | rfl | rfl <;> exact congrArg (·, more.length) hvalue

theorem scan_string {text : String} (h : '"' ∉ text.toList) (rest : List Char) :
    scan '"' ((text.toList ++ ['"']) ++ rest) =
      (.token (.string text), (text.toList ++ ['"']).length) := by
  have hbody : (text.toList ++ '"' :: rest).takeWhile (· != '"') = text.toList :=
    takeWhile_stop (by grind) rfl
  have hscan : ∀ more, scan '"' more = scanString more := fun _ => rfl
  rw [hscan, List.append_assoc, List.singleton_append, scanString, hbody]
  simp

theorem scan_symbol (s : Symbol) {w : Char} (hw : isWhite w = true) (rest : List Char) :
    ∃ c more, s.text.toList = c :: more ∧
      scan c (more ++ w :: rest) = (.token (.symbol s), more.length) := by
  rcases white_cases hw with rfl | rfl | rfl | rfl | rfl
  all_goals cases s <;> exact ⟨_, _, rfl, rfl⟩

/-- The text of a token before a white character is read as that token. -/
theorem scan_text {t : Token} (h : t.Spelled) {w : Char} (hw : isWhite w = true) (rest : List Char) :
    ∃ c more, t.text.toList = c :: more ∧
      scan c (more ++ w :: rest) = (.token t, more.length) := by
  cases t with
  | keyword k =>
    obtain ⟨c, more, htext, hscan⟩ := scan_identifier (keyword_isIdentifier k) hw rest
    rw [ofText?_text k] at hscan
    exact ⟨c, more, htext, hscan⟩
  | symbol s => exact scan_symbol s hw rest
  | identifier name =>
    obtain ⟨hname, hfree⟩ := h
    obtain ⟨c, more, htext, hscan⟩ := scan_identifier hname hw rest
    have hkeyword : Keyword.ofText? name = none :=
      List.find?_eq_none.2 fun k _ => by simpa using hfree k
    rw [hkeyword] at hscan
    exact ⟨c, more, htext, hscan⟩
  | int value => exact scan_int value hw rest
  | float value => exact h.elim
  | string text =>
    refine ⟨'"', text.toList ++ ['"'], ?_, scan_string h (w :: rest)⟩
    simp [Token.text]

theorem tokensFrom_text {t : Token} (h : t.Spelled) (s : Separator) (line : Nat) (rest : List Char) :
    tokensFrom 0 line (t.text.toList ++ (s.text ++ rest)) =
      tokensFrom 0 (line + newlines s.text) rest >>= fun later => .ok (⟨t, line⟩ :: later) := by
  obtain ⟨c, more, htext, hscan⟩ := scan_text h s.isWhite (s.more.flatMap Filler.text ++ rest)
  rw [htext, ← tokensFrom_separator s line rest]
  exact tokensFrom_token hscan

/-! ## Lines -/

def Token.inner : Token → Nat
  | string text => newlines text.toList
  | _ => 0

def innerNewlines : List Token → Nat
  | [] => 0
  | t :: more => t.inner + innerNewlines more

/-- Only a string literal holds newlines. -/
theorem newlines_text {t : Token} (h : t.Spelled) : newlines t.text.toList = t.inner := by
  cases t with
  | keyword k => cases k <;> rfl
  | symbol s => cases s <;> rfl
  | identifier name =>
    obtain ⟨c, more, hname, hc, hmore⟩ := isIdentifier_iff.1 h.1
    have hfree : '\n' ∉ name.toList := by
      rw [hname, List.mem_cons]
      rintro (rfl | hmem)
      · cases hc
      · cases hmore '\n' hmem
    exact List.count_eq_zero.2 hfree
  | int value =>
    have hfree : '\n' ∉ (toString value.toNat).toList := by
      rw [toList_toString]
      intro hmem
      cases isDigit_toDigits hmem
    exact List.count_eq_zero.2 hfree
  | float value => exact h.elim
  | string text => simp [Token.text, Token.inner, newlines]

def spell : List (Token × Separator) → List Char
  | [] => []
  | (t, s) :: more => t.text.toList ++ (s.text ++ spell more)

/-- By induction on the tokens: each one is read up to its separator, which is then skipped. -/
theorem tokensFrom_spell {items : List (Token × Separator)} (h : ∀ item ∈ items, item.1.Spelled)
    (line : Nat) :
    ∃ located, tokensFrom 0 line (spell items) = .ok located ∧
      located.map (·.token) = items.map (·.1) ∧
      ∀ k l, located[k]? = some l →
        l.line + innerNewlines ((items.take k).map (·.1)) = line + newlines (spell (items.take k)) := by
  induction items generalizing line with
  | nil => exact ⟨[], rfl, rfl, by simp⟩
  | cons item items ih =>
    obtain ⟨t, s⟩ := item
    have ht : t.Spelled := h (t, s) List.mem_cons_self
    obtain ⟨later, hlater, htokens, hlines⟩ :=
      ih (fun item hitem => h item (List.mem_cons_of_mem _ hitem)) (line + newlines s.text)
    refine ⟨⟨t, line⟩ :: later, ?_, ?_, ?_⟩
    · rw [spell, tokensFrom_text ht, hlater, ok_bind]
    · rw [List.map_cons, List.map_cons, htokens]
    · intro k l hl
      cases k with
      | zero =>
        obtain rfl : (⟨t, line⟩ : Located) = l := by simpa using hl
        rfl
      | succ k =>
        have hline := hlines k l (by simpa using hl)
        have hinner := newlines_text ht
        simp only [List.take_succ_cons, List.map_cons, innerNewlines, spell, newlines_append]
        omega

/-- Tokens come back from their texts, whatever separates them, each on the line that the newlines
before it tell when those inside string literals are left out. -/
theorem tokens_follow_their_texts (first : Separator) {items : List (Token × Separator)}
    (h : ∀ item ∈ items, item.1.Spelled) :
    ∃ located, tokens (String.ofList (first.text ++ spell items)) = .ok located ∧
      located.map (·.token) = items.map (·.1) ∧
      ∀ k l, located[k]? = some l →
        l.line + innerNewlines ((items.take k).map (·.1)) =
          1 + newlines (first.text ++ spell (items.take k)) := by
  obtain ⟨located, hlocated, htokens, hlines⟩ := tokensFrom_spell h (1 + newlines first.text)
  refine ⟨located, ?_, htokens, fun k l hl => ?_⟩
  · rw [tokens, String.toList_ofList, tokensFrom_separator, hlocated]
  · rw [hlines k l hl, newlines_append, Nat.add_assoc]

/-- Tokens that would run together or into a comment without the white characters between them. -/
def crowdedItems : List (Token × Separator) :=
  [(.keyword .forKey, ⟨' ', rfl, [.blockComment ['*', '\n', '/', '/', '*'] (by decide)]⟩),
    (.identifier "form_1", ⟨'\n', rfl, [.lineComment ['/', '*', '"'] (by decide), .white '\t' rfl]⟩),
    (.string "a\n//\nb", ⟨'\r', rfl, []⟩),
    (.symbol .slash, ⟨'\x0c', rfl, []⟩),
    (.symbol .star, ⟨' ', rfl, []⟩),
    (.int 18446744073709551615, ⟨'\n', rfl, [.blockComment [] (by decide)]⟩),
    (.identifier "e5", ⟨' ', rfl, [.lineComment [] (by decide)]⟩)]

theorem tokens_follow_their_texts_crowdedItems :
    (∀ item ∈ crowdedItems, item.1.Spelled) ∧
    ∃ located,
      tokens (String.ofList ((⟨'\n', rfl, []⟩ : Separator).text ++ spell crowdedItems)) = .ok located ∧
      located.map (·.token) = crowdedItems.map (·.1) ∧
      ∀ k l, located[k]? = some l →
        l.line + innerNewlines ((crowdedItems.take k).map (·.1)) =
          1 + newlines ((⟨'\n', rfl, []⟩ : Separator).text ++ spell (crowdedItems.take k)) := by
  have hform : ∀ k : Keyword, k.text ≠ "form_1" := fun k => by cases k <;> decide
  have he5 : ∀ k : Keyword, k.text ≠ "e5" := fun k => by cases k <;> decide
  have h : ∀ item ∈ crowdedItems, item.1.Spelled := by
    simp only [crowdedItems, List.mem_cons, forall_eq_or_imp, Token.Spelled, List.not_mem_nil,
      false_imp_iff, implies_true, true_and, and_true]
    exact ⟨⟨rfl, hform⟩, by decide, rfl, he5⟩
  exact ⟨h, tokens_follow_their_texts _ h⟩

end CircuitCalls.Qasm

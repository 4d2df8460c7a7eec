import CircuitCalls.Json.Reader
import CircuitCalls.Json.Writer
import Mathlib.Data.List.Forall2
import Mathlib.Data.List.TakeWhile

/-!
# The tokens of written JSON

What the writer puts down is taken apart again: whole numbers, words, string literals, margins and
lists in brackets each give their own tokens. A string or a bracket ends by itself (`Delimited`); a
number or a word ends where a character stands that cannot be part of it (`Lexes`).
-/

namespace CircuitCalls

/-! ## Numbers -/

theorem readDigits_toDigits (n : Nat) : readDigits (Nat.toDigits 10 n) = n :=
  Nat.ofDigitChars_ten_toDigits

theorem isDigit_toDigits {n : Nat} {c : Char} (h : c ∈ Nat.toDigits 10 n) : c.isDigit = true :=
  Nat.isDigit_of_mem_toDigits (by decide) (by decide) h

/-- Only zero is written with a leading zero. -/
theorem head?_toDigits {n : Nat} (h : 0 < n) : (Nat.toDigits 10 n).head? ≠ some '0' := by
  induction n using Nat.strongRecOn with
  | ind n ih =>
    by_cases hn : n < 10
    · rw [Nat.toDigits_of_lt_base hn]
      have small : ∀ m < 10, 0 < m → [Nat.digitChar m].head? ≠ some '0' := by decide
      exact small n hn h
    · rw [Nat.toDigits_of_base_le (by decide) (by omega),
        List.head?_append, Option.or_of_isSome (by simp [Nat.toDigits_ne_nil])]
      exact ih (n / 10) (by omega) (by omega)

open Float.Model in
/-- Infinities and NaN are the doubles whose exponent field has all bits set. -/
theorem isFinite_iff_exponent (x : Float) :
    x.isFinite = true ↔ (x.toBits.toNat >>> 52) % 2048 ≠ 2047 := by
  let bits : BitVec Format.binary64.numBits := x.toBits.toBitVec
  have hfield : UnpackedFloat.unpackExponent bits = -1#11 ↔
      (x.toBits.toNat >>> 52) % 2048 = 2047 := by
    rw [← BitVec.toNat_inj]
    simp [bits, UnpackedFloat.unpackExponent, BitVec.extractLsb, BitVec.extractLsb']
  change (UnpackedFloat.unpack Format.binary64 bits).isFinite = true ↔ _
  rw [← not_iff_not, not_not, ← hfield]
  unfold UnpackedFloat.unpack
  dsimp only
  by_cases hexponent : UnpackedFloat.unpackExponent bits = -1#11
  · rw [if_pos hexponent]
    refine iff_of_true ?_ hexponent
    by_cases hmantissa : UnpackedFloat.unpackMantissa bits = 0#52
    · rw [if_pos hmantissa]
      exact Bool.false_ne_true
    · rw [if_neg hmantissa]
      exact Bool.false_ne_true
  · rw [if_neg hexponent]
    refine iff_of_false (not_not_intro ?_) hexponent
    by_cases hzero : UnpackedFloat.unpackExponent bits = 0#11
    · rw [if_pos hzero]
      by_cases hmantissa : UnpackedFloat.unpackMantissa bits = 0#52
      · rw [dif_pos hmantissa]
        rfl
      · rw [dif_neg hmantissa]
        rfl
    · rw [if_neg hzero]
      rfl

theorem isFinite_eq_false_iff (x : Float) :
    x.isFinite = false ↔ x.isNaN = true ∨ x.isInf = true := by
  change x.toModel.unpack.isFinite = false ↔
    x.toModel.unpack.isNaN = true ∨ x.toModel.unpack.isInf = true
  have hfalse : ¬ (false = true ∨ false = true) := by simp
  cases x.toModel.unpack with
  | notANumber => exact iff_of_true rfl (.inl rfl)
  | infinity _ => exact iff_of_true rfl (.inr rfl)
  | zero _ => exact iff_of_false Bool.noConfusion hfalse
  | finite _ _ _ _ => exact iff_of_false Bool.noConfusion hfalse

theorem ofFloat?_eq_none_iff (x : Float) : Binary.ofFloat? x = none ↔ x.isFinite = false := by
  rw [← Bool.not_eq_true, isFinite_iff_exponent, not_not, Binary.ofFloat?]
  split_ifs <;> simp_all

namespace Json

theorem write_of_not_finite {x : Float} (h : x.isFinite = false) :
    numberLayout.write x = "null" := by
  rw [Layout.write, (ofFloat?_eq_none_iff x).2 h]
  dsimp only
  split_ifs <;> rfl

/-- Decimal digits read as the whole number they write, if it fits in 64 bits. -/
theorem number?_digits {negative : Bool} {n : Nat} {m : Int} (h : wholeNumber negative n = .int m) :
    number? ((if negative then ['-'] else []) ++ Nat.toDigits 10 n) = some (.int m) := by
  have htake : (Nat.toDigits 10 n).takeWhile Char.isDigit = Nat.toDigits 10 n :=
    List.takeWhile_eq_self_iff.2 fun _ hc => isDigit_toDigits hc
  have hdrop : (Nat.toDigits 10 n).dropWhile Char.isDigit = [] :=
    List.dropWhile_eq_nil_iff.2 fun _ hc => isDigit_toDigits hc
  have hzero : ((Nat.toDigits 10 n).head? == some '0' && (Nat.toDigits 10 n).length != 1) = false := by
    rcases Nat.eq_zero_or_pos n with rfl | hn
    · rfl
    · simp [head?_toDigits hn]
  cases negative with
  | true =>
    simp [number?, htake, hdrop, hzero, readDigits_toDigits, h, Nat.toDigits_ne_nil]
  | false =>
    -- The sign is looked for in front of the digits: none of them is one.
    have hsign : ∀ rest, Nat.toDigits 10 n ≠ '-' :: rest := by
      intro rest hrest
      have hdash : '-' ∈ Nat.toDigits 10 n := by simp [hrest]
      exact absurd (isDigit_toDigits hdash) (by decide)
    unfold number?
    simp [htake, hdrop, hzero, readDigits_toDigits, h, Nat.toDigits_ne_nil]

/-- Whole numbers of 64 bits, with or without a sign, read back from their digits. -/
theorem number?_toString {n : Int} (hlow : Int64.minValue.toInt ≤ n) (hhigh : n < UInt64.size) :
    number? (toString n).toList = some (.int n) := by
  rw [Int.toString_eq_repr]
  cases n with
  | ofNat m =>
    have h : wholeNumber false m = .int m := if_pos (Int.ofNat_lt.1 hhigh)
    have := number?_digits h
    simpa [Int.repr, Nat.toList_repr] using this
  | negSucc m =>
    have hm : m + 1 ≤ 0x8000000000000000 := by
      have : Int64.minValue.toInt = -0x8000000000000000 := rfl
      omega
    have h : wholeNumber true (m + 1) = .int (Int.negSucc m) := by
      simp only [wholeNumber, if_true]
      rw [if_neg (by omega)]
      rfl
    have := number?_digits h
    simpa [Int.repr, Nat.toList_repr] using this

theorem isNumberChar_of_isDigit {c : Char} (h : c.isDigit = true) : isNumberChar c = true := by
  simp [isNumberChar, h]

theorem isNumberChar_of_exponent? {text : List Char} {e : Int} (h : exponent? text = some e) :
    ∀ c ∈ text, isNumberChar c = true := by
  have digits : ∀ {ds : List Char} {f : Int},
      (if ds.isEmpty || !ds.all Char.isDigit then none else some f) = some e →
        ∀ c ∈ ds, isNumberChar c = true := by
    intro ds f hds c hc
    split at hds
    · cases hds
    · next hall =>
      simp only [Bool.or_eq_true, Bool.not_eq_true', not_or, Bool.not_eq_false] at hall
      exact isNumberChar_of_isDigit (List.all_eq_true.1 hall.2 c hc)
  unfold exponent? at h
  split at h
  next sign =>
    split at sign <;> cases sign
    · exact List.forall_mem_cons.2 ⟨rfl, digits h⟩
    · exact List.forall_mem_cons.2 ⟨rfl, digits h⟩
    · exact digits h

theorem isNumberChar_of_digits {text : List Char}
    (h : ∀ c ∈ text.dropWhile Char.isDigit, isNumberChar c = true) :
    ∀ c ∈ text, isNumberChar c = true := by
  intro c hc
  rw [← List.takeWhile_append_dropWhile (p := Char.isDigit) (l := text)] at hc
  rcases List.mem_append.1 hc with hc | hc
  · exact isNumberChar_of_isDigit (List.mem_takeWhile_imp hc)
  · exact h c hc

theorem isNumberChar_of_tail? {text : List Char} {r : List Char × Int} (h : tail? text = some r) :
    ∀ c ∈ text, isNumberChar c = true := by
  unfold tail? at h
  split at h
  next fraction rest parted =>
    have hrest : ∀ c ∈ rest, isNumberChar c = true := by
      split at h
      · cases h
      · split at h
        · exact fun c hc => absurd hc List.not_mem_nil
        · split at h
          · next hmark =>
            obtain ⟨e, he, _⟩ := Option.map_eq_some_iff.1 h
            refine List.forall_mem_cons.2 ⟨?_, isNumberChar_of_exponent? he⟩
            rcases Bool.or_eq_true_iff.1 hmark with hc | hc
            · rw [eq_of_beq hc]
              rfl
            · rw [eq_of_beq hc]
              rfl
          · cases h
    split at parted <;> cases parted
    · exact List.forall_mem_cons.2 ⟨rfl, isNumberChar_of_digits hrest⟩
    · exact hrest

/-- A number starts with a digit or a sign, and is made of characters that may occur in one. -/
theorem start_of_number? {text : List Char} {token : Token} (h : number? text = some token) :
    ∃ c rest, text = c :: rest ∧ (c.isDigit || c == '-') = true ∧
      ∀ d ∈ rest, isNumberChar d = true := by
  unfold number? at h
  split at h
  next unsigned sign =>
    dsimp only at h
    split at h
    · cases h
    · next whole =>
      have chars : ∀ c ∈ unsigned, isNumberChar c = true := by
        apply isNumberChar_of_digits
        cases htail : tail? (unsigned.dropWhile Char.isDigit) with
        | some r => exact isNumberChar_of_tail? htail
        | none =>
          rw [htail] at h
          have hend : unsigned.dropWhile Char.isDigit = [] := by
            by_contra hne
            simp [hne] at h
          rw [hend]
          exact fun c hc => absurd hc List.not_mem_nil
      split at sign <;> cases sign
      · exact ⟨_, _, rfl, rfl, chars⟩
      · cases text with
        | nil => simp at whole
        | cons c rest =>
          refine ⟨c, rest, rfl, ?_, (List.forall_mem_cons.1 chars).2⟩
          by_contra hc
          simp_all [List.takeWhile_cons]

/-! ## Texts and their tokens -/

/-- A character that can be part of no number and no word. -/
def Apart (c : Char) : Prop := isNumberChar c = false ∧ c.isLower = false

instance (c : Char) : Decidable (Apart c) := inferInstanceAs (Decidable (_ ∧ _))

/-- The text gives the tokens, unless what follows runs on from it. -/
def Lexes (text : List Char) (tokens : List Token) : Prop :=
  ∀ rest, (∀ c ∈ rest.head?, Apart c) →
    tokensFrom? .between (text ++ rest) = (tokensFrom? .between rest).map (tokens ++ ·)

/-- The text gives the tokens, whatever follows. -/
def Delimited (text : List Char) (tokens : List Token) : Prop :=
  ∀ rest, tokensFrom? .between (text ++ rest) = (tokensFrom? .between rest).map (tokens ++ ·)

section

variable {a b : List Char} {as bs : List Token}

theorem Delimited.lexes (h : Delimited a as) : Lexes a as := fun rest _ => h rest

theorem Delimited.nil : Delimited [] [] := fun rest => by simp

theorem Delimited.append (ha : Delimited a as) (hb : Delimited b bs) :
    Delimited (a ++ b) (as ++ bs) := by
  intro rest
  rw [List.append_assoc, ha, hb, Option.map_map]
  simp [Function.comp_def]

theorem Delimited.append_lexes (ha : Delimited a as) (hb : Lexes b bs) : Lexes (a ++ b) (as ++ bs) := by
  intro rest hrest
  rw [List.append_assoc, ha, hb rest hrest, Option.map_map]
  simp [Function.comp_def]

theorem Lexes.append_delimited {c : Char} (ha : Lexes a as) (hb : Delimited (c :: b) bs)
    (hc : Apart c) : Delimited (a ++ c :: b) (as ++ bs) := by
  intro rest
  have hrest : ∀ d ∈ (c :: b ++ rest).head?, Apart d := by
    rintro _ ⟨rfl⟩
    exact hc
  rw [List.append_assoc, ha _ hrest, hb, Option.map_map]
  simp [Function.comp_def]

theorem tokensFrom?_cons {state next : Lexing} {c : Char} {tokens : List Token} {rest : List Char}
    (h : step? state c = some (next, tokens)) :
    tokensFrom? state (c :: rest) = (tokensFrom? next rest).map (tokens ++ ·) := by
  rw [tokensFrom?, h, Option.map_eq_bind]
  rfl

theorem tokensFrom?_advance {state : Lexing} (next : Lexing) {c : Char} {rest : List Char}
    (h : step? state c = some (next, [])) :
    tokensFrom? state (c :: rest) = tokensFrom? next rest := by
  rw [tokensFrom?_cons h]
  simp

theorem delimited_char {c : Char} {tokens : List Token} (h : start? c = some (.between, tokens)) :
    Delimited [c] tokens :=
  fun _ => tokensFrom?_cons h

end

/-! ## Numbers and words -/

/-- A state that grows by the characters inside a token, and closes it before any other. -/
structure Run (grow : List Char → Lexing) (inside : Char → Bool)
    (complete : List Char → Option Token) : Prop where
  step : ∀ read c, step? (grow read) c =
    if inside c then some (grow (c :: read), []) else closeBefore? (complete read.reverse) c
  finish : ∀ read, finish? (grow read) = (complete read.reverse).map ([·])

theorem run_number : Run .number isNumberChar number? := ⟨fun _ _ => rfl, fun _ => rfl⟩

theorem run_word : Run .word Char.isLower word? := ⟨fun _ _ => rfl, fun _ => rfl⟩

namespace Run

variable {grow : List Char → Lexing} {inside : Char → Bool} {complete : List Char → Option Token}
  {read text rest : List Char} {token : Token} {c : Char}

theorem tokensFrom?_append (run : Run grow inside complete) (htext : ∀ c ∈ text, inside c = true) :
    tokensFrom? (grow read) (text ++ rest) = tokensFrom? (grow (text.reverse ++ read)) rest := by
  induction text generalizing read with
  | nil => rfl
  | cons c text ih =>
    obtain ⟨hc, htext⟩ := List.forall_mem_cons.1 htext
    have hstep : step? (grow read) c = some (grow (c :: read), []) := by rw [run.step, if_pos hc]
    rw [List.cons_append, tokensFrom?_advance _ hstep, ih htext]
    simp

theorem tokensFrom?_close (run : Run grow inside complete)
    (htoken : complete read.reverse = some token) (hrest : ∀ c ∈ rest.head?, inside c = false) :
    tokensFrom? (grow read) rest = (tokensFrom? .between rest).map (token :: ·) := by
  cases rest with
  | nil => rw [tokensFrom?, run.finish, htoken]; rfl
  | cons c rest =>
    have hstep : step? (grow read) c = closeBefore? (some token) c := by
      rw [run.step, if_neg (by simp [hrest c rfl]), htoken]
    rw [tokensFrom?, tokensFrom?, hstep, step?, closeBefore?]
    cases start? c with
    | none => rfl
    | some started => cases h : tokensFrom? started.1 rest <;> simp [h]

theorem lexes (run : Run grow inside complete) (htoken : complete (c :: text) = some token)
    (hstart : start? c = some (grow [c], [])) (htext : ∀ d ∈ text, inside d = true)
    (hapart : ∀ d, Apart d → inside d = false) : Lexes (c :: text) [token] := by
  intro rest hrest
  have hstep : step? .between c = some (grow [c], []) := hstart
  rw [List.cons_append, tokensFrom?_advance _ hstep, run.tokensFrom?_append htext]
  exact run.tokensFrom?_close (by simpa using htoken) fun d hd => hapart d (hrest d hd)

end Run

theorem start?_number {c : Char} (h : (c.isDigit || c == '-') = true) :
    start? c = some (.number [c], []) := by
  unfold start?
  split <;> simp_all +decide

theorem lexes_number {text : List Char} {token : Token} (h : number? text = some token) :
    Lexes text [token] := by
  obtain ⟨c, digits, rfl, hc, hdigits⟩ := start_of_number? h
  exact run_number.lexes h (start?_number hc) hdigits fun _ hd => hd.1

theorem lexes_word {c : Char} {letters : List Char} {token : Token}
    (h : word? (c :: letters) = some token) (hstart : start? c = some (.word [c], []))
    (hletters : letters.all Char.isLower = true) : Lexes (c :: letters) [token] :=
  run_word.lexes h hstart (List.all_eq_true.1 hletters) fun _ hd => hd.2

theorem lexes_null : Lexes "null".toList [.null] := lexes_word rfl rfl rfl

theorem lexes_bool (b : Bool) : Lexes (if b then "true" else "false").toList [.bool b] := by
  cases b with
  | true => exact lexes_word rfl rfl rfl
  | false => exact lexes_word rfl rfl rfl

/-! ## Strings -/

/-- A control character is read back from its four hexadecimal digits. -/
theorem tokensFrom?_control {c : Char} (h : c.toNat < 32) (read rest : List Char) :
    tokensFrom? (.text read)
        ('\\' :: 'u' :: '0' :: '0' :: hexDigit (c.toNat / 16) :: hexDigit c.toNat :: rest) =
      tokensFrom? (.text (c :: read)) rest := by
  have digits : ∀ n < 32, hexValue? (hexDigit (n / 16)) = some (n / 16) ∧
      hexValue? (hexDigit n) = some (n % 16) := by decide
  obtain ⟨hhigh, hlow⟩ := digits c.toNat h
  have hvalue : 16 * (c.toNat / 16) + c.toNat % 16 = c.toNat := Nat.div_add_mod c.toNat 16
  have hleading : isLeading c.toNat = false := by simp [isLeading]; omega
  have htrailing : isTrailing c.toNat = false := by simp [isTrailing]; omega
  rw [tokensFrom?_advance (.escape read) rfl,
    tokensFrom?_advance (.unit read none 4 0) rfl,
    tokensFrom?_advance (.unit read none 3 0) rfl,
    tokensFrom?_advance (.unit read none 2 0) rfl,
    tokensFrom?_advance (.unit read none 1 (c.toNat / 16)) (by simp [step?, hhigh]),
    tokensFrom?_advance (.text (c :: read))]
  simp [step?, hlow, hvalue, unit?, hleading, htrailing, Char.ofNat_toNat]

/-- Every character of a string is read back, with or without an escape. -/
theorem tokensFrom?_escapeChar (c : Char) (read rest : List Char) :
    tokensFrom? (.text read) (escapeChar c ++ rest) = tokensFrom? (.text (c :: read)) rest := by
  have pair : ∀ mark, mark ≠ 'u' → unescape? mark = some c →
      tokensFrom? (.text read) (['\\', mark] ++ rest) = tokensFrom? (.text (c :: read)) rest := by
    intro mark hmark hc
    rw [List.cons_append, tokensFrom?_advance (.escape read) rfl, List.singleton_append,
      tokensFrom?_advance (.text (c :: read)) (by simp [step?, hmark, hc])]
  unfold escapeChar
  split_ifs with hquote hback hline hreturn htab hbell hfeed hcontrol
  · exact pair _ (by decide) (by simp [unescape?, hquote])
  · exact pair _ (by decide) (by simp [unescape?, hback])
  · exact pair _ (by decide) (by simp [unescape?, hline])
  · exact pair _ (by decide) (by simp [unescape?, hreturn])
  · exact pair _ (by decide) (by simp [unescape?, htab])
  · exact pair _ (by decide) (by simp [unescape?, hbell])
  · exact pair _ (by decide) (by simp [unescape?, hfeed])
  · exact tokensFrom?_control hcontrol read rest
  · exact tokensFrom?_advance _ (by simp [step?, hquote, hback, hcontrol])

theorem tokensFrom?_escaped (text read rest : List Char) :
    tokensFrom? (.text read) (text.flatMap escapeChar ++ rest) =
      tokensFrom? (.text (text.reverse ++ read)) rest := by
  induction text generalizing read with
  | nil => rfl
  | cons c text ih =>
    rw [List.flatMap_cons, List.append_assoc, tokensFrom?_escapeChar, ih]
    simp

theorem delimited_quote (s : String) : Delimited (quote s).toList [.str s] := by
  intro rest
  have hopen : step? .between '"' = some (.text [], []) := rfl
  have hclose : step? (.text s.toList.reverse) '"' = some (.between, [.str s]) := by simp [step?]
  have htext : (quote s).toList ++ rest = '"' :: (s.toList.flatMap escapeChar ++ '"' :: rest) := by
    simp [quote]
  rw [htext, tokensFrom?_advance _ hopen, tokensFrom?_escaped, List.append_nil, tokensFrom?_cons hclose]

/-! ## Lists in brackets -/

theorem toList_margin (level : Nat) :
    (margin level).toList = '\n' :: List.replicate (2 * level) ' ' := by
  simp [margin]

theorem delimited_margin (level : Nat) : Delimited (margin level).toList [] := by
  have blanks : ∀ n, Delimited (List.replicate n ' ') [] := by
    intro n
    induction n with
    | zero => exact Delimited.nil
    | succ n ih => exact (delimited_char (c := ' ') rfl).append ih
  rw [toList_margin]
  exact (delimited_char (c := '\n') rfl).append (blanks _)

theorem intercalate_cons {α : Type} (sep part : List α) (parts : List (List α)) :
    sep.intercalate (part :: parts) = part ++ parts.flatMap (sep ++ ·) := by
  induction parts generalizing part with
  | nil => simp
  | cons next parts ih =>
    rw [List.intercalate_cons_cons, ih, List.flatMap_cons, List.append_assoc, List.append_assoc]

/-- Texts between separators give their tokens with the separator's between them. -/
theorem lexes_intercalate {c : Char} {sep : List Char} {mark : Token}
    (hsep : Delimited (c :: sep) [mark]) (hc : Apart c) {parts : List (List Char)}
    {tokens : List (List Token)} (h : List.Forall₂ Lexes parts tokens) :
    Lexes ((c :: sep).intercalate parts) ([mark].intercalate tokens) := by
  induction h with
  | nil => exact Delimited.nil.lexes
  | cons hpart hparts ih =>
    cases hparts with
    | nil => simpa using hpart
    | cons _ _ =>
      rw [List.intercalate_cons_cons, List.intercalate_cons_cons]
      exact (hpart.append_delimited hsep hc).append_lexes ih

/-- Brackets around parts that give tokens give these tokens with commas between them, and nothing can run
into them. -/
theorem delimited_bracketed {level : Nat} (first last : Char) {opening closing : Token}
    (hopen : start? first = some (.between, [opening]))
    (hclose : start? last = some (.between, [closing])) {parts : List String}
    {tokens : List (List Token)} (h : List.Forall₂ (fun part ts => Lexes part.toList ts) parts tokens) :
    Delimited (bracketed level (String.singleton first) (String.singleton last) parts).toList
      (opening :: ([.comma].intercalate tokens ++ [closing])) := by
  have hfirst := delimited_char hopen
  have hlast := delimited_char hclose
  have hseparator : Delimited (',' :: (margin (level + 1)).toList) [.comma] :=
    (delimited_char (c := ',') rfl).append (delimited_margin (level + 1))
  have hparts : Lexes ((',' :: (margin (level + 1)).toList).intercalate (parts.map String.toList))
      ([.comma].intercalate tokens) :=
    lexes_intercalate hseparator (by decide) (List.forall₂_map_left_iff.2 h)
  have hmargin := delimited_margin level
  rw [toList_margin] at hmargin
  cases parts with
  | nil =>
    cases h
    simpa [bracketed] using hfirst.append hlast
  | cons part parts =>
    have hinner := (hfirst.append (delimited_margin (level + 1))).append_lexes hparts
    have hwhole := (hinner.append_delimited hmargin (by decide)).append hlast
    simpa [bracketed, String.toList_intercalate, toList_margin] using hwhole

end Json

end CircuitCalls

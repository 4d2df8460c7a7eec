import CircuitCalls.Proofs.Patterns
import CircuitCalls.Proofs.TokenText

/-!
# Lexical rules

The lexemes are given by a table of patterns (`Rule.pattern`), of which the longest match counts, and a
keyword before an identifier of the same text. The scanner compares characters instead of searching for
matches. It finds what the table says (`scan_longest_match`); in particular it closes a block comment at the
only place where the pattern of comments can end (`mem_leaves_blockComment`).
-/

namespace CircuitCalls.Qasm

open Pattern (word row optional takes_word takes_row takes_optional)

/-! ## Block comments -/

/-- What goes on after a star without closing a comment, up to the next row of stars. -/
def commentGroup : Pattern :=
  .seq (.one fun c => c != '/' && c != '*') (.seq (.many (· != '*')) (row (· == '*')))

/-- A block comment: `/*`, characters that are no star and a row of stars, then any number of groups, and a
slash in the end. -/
def blockCommentPattern : Pattern :=
  .seq (word ['/', '*']) (.seq (.many (· != '*')) (.seq (row (· == '*'))
    (.seq (.star commentGroup) (word ['/']))))

/-- Whether a text can stand inside a comment up to a star before its last slash; `star` tells whether the
character before the text is a star. -/
def staysOpen : Bool → List Char → Bool
  | star, [] => star
  | star, c :: rest => if c = '*' then staysOpen true rest else !(star && c == '/') && staysOpen false rest

theorem staysOpen_plain {text : List Char} (h : ∀ c ∈ text, (c != '*') = true) (rest : List Char) :
    staysOpen false (text ++ rest) = staysOpen false rest := by
  induction text with
  | nil => rfl
  | cons c text ih =>
    obtain ⟨hc, htext⟩ := List.forall_mem_cons.1 h
    have hne : c ≠ '*' := bne_iff_ne.1 hc
    simp [staysOpen, hne, ih htext]

theorem staysOpen_stars {stars : List Char} (hne : stars ≠ []) (h : ∀ c ∈ stars, (c == '*') = true)
    (star : Bool) (rest : List Char) : staysOpen star (stars ++ rest) = staysOpen true rest := by
  induction stars generalizing star with
  | nil => exact absurd rfl hne
  | cons c stars ih =>
    obtain ⟨hc, hstars⟩ := List.forall_mem_cons.1 h
    rw [List.cons_append, staysOpen, if_pos (beq_iff_eq.1 hc)]
    by_cases hnil : stars = []
    · rw [hnil, List.nil_append]
    · exact ih hnil hstars true

/-- A group of the pattern goes on after a star without closing the comment. -/
theorem staysOpen_groups {parts : List (List Char)}
    (h : ∀ part ∈ parts, commentGroup.Takes part) : staysOpen true parts.flatten = true := by
  induction parts with
  | nil => rfl
  | cons part parts ih =>
    obtain ⟨hpart, hparts⟩ := List.forall_mem_cons.1 h
    obtain ⟨_, _, ⟨c, hc, rfl⟩, ⟨plain, stars, hplain, hstars, rfl⟩, rfl⟩ := hpart
    obtain ⟨hne, hall⟩ := takes_row.1 hstars
    obtain ⟨hslash, hstar⟩ : c ≠ '/' ∧ c ≠ '*' := by simpa using hc
    rw [List.flatten_cons, List.append_assoc, List.append_assoc, List.singleton_append, staysOpen,
      if_neg hstar, staysOpen_plain hplain, staysOpen_stars hne hall, ih hparts]
    simp [hslash]

/-- A text inside a comment falls into the parts of the pattern. -/
theorem exists_groups {star : Bool} {text : List Char} (h : staysOpen star text = true) :
    ∃ (plain stars : List Char) (parts : List (List Char)), (∀ c ∈ plain, (c != '*') = true) ∧
      (∀ c ∈ stars, (c == '*') = true) ∧ (∀ part ∈ parts, commentGroup.Takes part) ∧
      text = plain ++ (stars ++ parts.flatten) ∧ (star = false → stars ≠ []) ∧ (star = true → plain = []) := by
  induction text generalizing star with
  | nil =>
    refine ⟨[], [], [], by simp, by simp, by simp, rfl, ?_, fun _ => rfl⟩
    rintro rfl
    cases h
  | cons c text ih =>
    by_cases hc : c = '*'
    · subst hc
      have hrest : staysOpen true text = true := by simpa [staysOpen] using h
      obtain ⟨plain, stars, parts, -, hstars, hparts, rfl, -, hnil⟩ := ih hrest
      refine ⟨[], '*' :: stars, parts, by simp, List.forall_mem_cons.2 ⟨rfl, hstars⟩, hparts, ?_, by simp,
        fun _ => rfl⟩
      rw [hnil rfl]
      rfl
    · obtain ⟨hslash, hrest⟩ : (star = false ∨ c ≠ '/') ∧ staysOpen false text = true := by
        simpa [staysOpen, hc] using h
      obtain ⟨plain, stars, parts, hplain, hstars, hparts, rfl, hne, -⟩ := ih hrest
      have hne := hne rfl
      cases star with
      | false =>
        exact ⟨c :: plain, stars, parts, List.forall_mem_cons.2 ⟨bne_iff_ne.2 hc, hplain⟩, hstars, hparts, rfl,
          fun _ => hne, by simp⟩
      | true =>
        -- The character opens a new group.
        refine ⟨[], [], (c :: (plain ++ stars)) :: parts, by simp, by simp,
          List.forall_mem_cons.2 ⟨?_, hparts⟩, by simp, by simp, fun _ => rfl⟩
        exact ⟨[c], plain ++ stars, ⟨c, by simpa [hc] using hslash, rfl⟩,
          ⟨plain, stars, hplain, takes_row.2 ⟨hne, hstars⟩, rfl⟩, rfl⟩

/-- The groups of the pattern are what keeps a comment open. -/
theorem takes_blockComment_iff_staysOpen {taken : List Char} :
    blockCommentPattern.Takes taken ↔
      ∃ text, staysOpen false text = true ∧ taken = '/' :: '*' :: (text ++ ['/']) := by
  constructor
  · rintro ⟨_, _, hopen, ⟨plain, _, hplain, ⟨stars, _, hstars, ⟨_, _, ⟨parts, hparts, rfl⟩, hclose, rfl⟩, rfl⟩, rfl⟩,
      rfl⟩
    obtain ⟨hne, hall⟩ := takes_row.1 hstars
    refine ⟨plain ++ (stars ++ parts.flatten), ?_, ?_⟩
    · rw [staysOpen_plain hplain, staysOpen_stars hne hall, staysOpen_groups hparts]
    · rw [takes_word.1 hopen, takes_word.1 hclose]
      simp
  · rintro ⟨text, htext, rfl⟩
    obtain ⟨plain, stars, parts, hplain, hstars, hparts, rfl, hne, -⟩ := exists_groups htext
    refine ⟨['/', '*'], plain ++ (stars ++ (parts.flatten ++ ['/'])), takes_word.2 rfl,
      ⟨plain, _, hplain, ⟨stars, _, takes_row.2 ⟨hne rfl, hstars⟩, ⟨_, ['/'], ⟨parts, hparts, rfl⟩,
        takes_word.2 rfl, rfl⟩, rfl⟩, rfl⟩, ?_⟩
    simp

/-- A comment stays open as long as there is no star before a slash. -/
theorem staysOpen_iff {star : Bool} {text : List Char} :
    staysOpen star text = true ↔ ¬ ['*', '/'] <:+: (if star then ['*'] else []) ++ text ∧
      ((if star then ['*'] else []) ++ text).getLast? = some '*' := by
  induction text generalizing star with
  | nil => cases star <;> simp [staysOpen, List.infix_cons_iff]
  | cons c text ih =>
    by_cases hc : c = '*'
    · subst hc
      rw [staysOpen, if_pos rfl, ih]
      cases star <;> simp [List.infix_cons_iff, List.getLast?_cons_cons]
    · have hlast : (c :: text).getLast? = some '*' ↔ text.getLast? = some '*' := by
        cases text with
        | nil => simp [hc]
        | cons d text => rw [List.getLast?_cons_cons]
      rw [staysOpen, if_neg hc, Bool.and_eq_true, ih]
      cases star with
      | false => simp [List.infix_cons_iff, hlast, Ne.symm hc]
      | true =>
        have hslash : ['*', '/'] <+: '*' :: c :: text ↔ c = '/' := by simp [eq_comm]
        have hstar : ¬ ['*', '/'] <+: c :: text := by simp [Ne.symm hc]
        simp [List.infix_cons_iff (a := '*'), hslash, List.infix_cons_iff (a := c), hstar, List.getLast?_cons_cons,
          hlast, and_assoc]

/-- The pattern of a block comment takes what goes up to the first end mark. -/
theorem takes_blockComment_iff {taken : List Char} :
    blockCommentPattern.Takes taken ↔
      ∃ body, ¬ ['*', '/'] <:+: body ∧ taken = '/' :: '*' :: (body ++ ['*', '/']) := by
  rw [takes_blockComment_iff_staysOpen]
  constructor
  · rintro ⟨text, htext, rfl⟩
    obtain ⟨hopen, hlast⟩ := staysOpen_iff.1 htext
    obtain ⟨body, hbody⟩ := List.getLast?_eq_some_iff.1 hlast
    have htext : text = body ++ ['*'] := hbody
    subst htext
    exact ⟨body, fun hmark => hopen (hmark.trans (List.infix_append' [] body ['*'])), by simp⟩
  · rintro ⟨body, hbody, rfl⟩
    refine ⟨body ++ ['*'], staysOpen_iff.2 ⟨?_, by simp⟩, by simp⟩
    intro hmark
    rcases List.infix_concat_iff.1 hmark with hsuffix | hinside
    · obtain ⟨front, hfront⟩ := hsuffix
      have hlast := congrArg List.getLast? hfront
      simp at hlast
    · exact hbody hinside

/-- The body of a comment goes up to the first end mark. -/
theorem commentBody?_eq_some_iff {text body : List Char} :
    commentBody? text = some body ↔ ¬ ['*', '/'] <:+: body ∧ ∃ rest, text = body ++ '*' :: '/' :: rest := by
  constructor
  · intro h
    fun_induction commentBody? text generalizing body with
    | case1 => cases h
    | case2 rest =>
      cases h
      exact ⟨by simp, rest, rfl⟩
    | case3 c text hend ih =>
      obtain ⟨inner, hinner, rfl⟩ := Option.map_eq_some_iff.1 h
      obtain ⟨hbody, rest, rfl⟩ := ih hinner
      refine ⟨fun hmark => ?_, rest, rfl⟩
      rcases List.infix_cons_iff.1 hmark with ⟨after, hfront⟩ | hinside
      · obtain ⟨rfl, rfl⟩ := List.cons.inj hfront
        exact hend _ rfl rfl
      · exact hbody hinside
  · rintro ⟨hbody, rest, rfl⟩
    exact commentBody?_append hbody rest

/-- The scanner finds the end of a comment where the pattern does, and there is no other place. -/
theorem mem_leaves_blockComment {text rest : List Char} :
    rest ∈ blockCommentPattern.leaves ('/' :: '*' :: text) ↔
      ∃ body, commentBody? text = some body ∧ text = body ++ '*' :: '/' :: rest := by
  rw [Pattern.mem_leaves]
  constructor
  · rintro ⟨_, htakes, htext⟩
    obtain ⟨body, hbody, rfl⟩ := takes_blockComment_iff.1 htakes
    have htext : text = body ++ '*' :: '/' :: rest := by simpa using htext
    exact ⟨body, commentBody?_eq_some_iff.2 ⟨hbody, rest, htext⟩, htext⟩
  · rintro ⟨body, hbody, rfl⟩
    obtain ⟨hmark, -⟩ := commentBody?_eq_some_iff.1 hbody
    exact ⟨_, takes_blockComment_iff.2 ⟨body, hmark, rfl⟩, by simp⟩

/-! ## The table -/

/-- The rules for lexemes. -/
inductive Rule where
  | blanks | newline | lineComment | blockComment
  | keyword (k : Keyword) | piSign | tauSign | symbol (s : Symbol)
  | decimal | exponential | whole | string | identifier

def exponentPattern : Pattern :=
  .seq (.one fun c => c == 'e' || c == 'E')
    (.seq (optional (.one fun c => c == '+' || c == '-')) (row Char.isDigit))

/-- The number that a text with a point or an exponent stands for. -/
def decimalValue (text : List Char) : Float :=
  let rest := text.dropWhile Char.isDigit
  let (fraction, rest) := match rest with
    | '.' :: rest => (rest.takeWhile Char.isDigit, rest.dropWhile Char.isDigit)
    | rest => ([], rest)
  readDecimal (text.takeWhile Char.isDigit) fraction ((exponentAt? rest).elim 0 (·.1))

namespace Rule

def pattern : Rule → Pattern
  | blanks => row isBlank
  | newline => word ['\n']
  | lineComment => .seq (word ['/', '/']) (.many (· != '\n'))
  | blockComment => blockCommentPattern
  | keyword k => word k.text.toList
  | piSign => word ['π']
  | tauSign => word ['τ']
  | symbol s => word s.text.toList
  | decimal =>
    .seq (row Char.isDigit) (.seq (word ['.']) (.seq (.many Char.isDigit) (optional exponentPattern)))
  | exponential => .seq (row Char.isDigit) exponentPattern
  | whole => row Char.isDigit
  | string => .seq (word ['"']) (.seq (.many (· != '"')) (word ['"']))
  | identifier => .seq (.one isNameStart) (.many isNamePart)

/-- What the text of a rule stands for. -/
def lexeme : Rule → List Char → Lexeme
  | blanks, _ | lineComment, _ => .skipped 0
  | newline, _ => .skipped 1
  | blockComment, taken => .skipped (taken.count '\n')
  | keyword k, _ => .token (.keyword k)
  | piSign, _ => .token (.keyword .pi)
  | tauSign, _ => .token (.keyword .tau)
  | symbol s, _ => .token (.symbol s)
  | decimal, taken | exponential, taken => .token (.float (decimalValue taken))
  | whole, taken => wholeLexeme taken
  | string, taken => .token (.string (String.ofList taken.tail.dropLast))
  | identifier, taken => .token (.identifier (String.ofList taken))

end Rule

/-! ### No rule takes more -/

theorem length_le_takeWhile {p : Char → Bool} {taken : List Char} (h : ∀ c ∈ taken, p c = true)
    (rest : List Char) :
    taken.length ≤ ((taken ++ rest).takeWhile p).length := by
  rw [List.takeWhile_append_of_pos h, List.length_append]
  omega

theorem drop_takeWhile (p : Char → Bool) (text : List Char) :
    text.drop (text.takeWhile p).length = text.dropWhile p := by
  induction text with
  | nil => rfl
  | cons c text ih => by_cases hc : p c = true <;> simp [hc, ih]

/-- A mark of an exponent, a sign or none, and digits. -/
structure IsExponent (mark : Char) (sign digits : List Char) : Prop where
  mark : (mark == 'e' || mark == 'E') = true
  sign : sign = [] ∨ sign = ['+'] ∨ sign = ['-']
  nonempty : digits ≠ []
  digits : ∀ c ∈ digits, c.isDigit = true

theorem takes_exponent_iff {taken : List Char} :
    exponentPattern.Takes taken ↔
      ∃ mark sign digits, IsExponent mark sign digits ∧ taken = mark :: (sign ++ digits) := by
  constructor
  · rintro ⟨_, _, ⟨mark, hmark, rfl⟩, ⟨sign, digits, hsign, hdigits, rfl⟩, rfl⟩
    obtain ⟨hne, hall⟩ := takes_row.1 hdigits
    refine ⟨mark, sign, digits, ⟨hmark, ?_, hne, hall⟩, rfl⟩
    rcases takes_optional.1 hsign with ⟨c, hc, rfl⟩ | rfl
    · rcases Bool.or_eq_true_iff.1 hc with hplus | hminus
      · exact .inr (.inl (by rw [beq_iff_eq.1 hplus]))
      · exact .inr (.inr (by rw [beq_iff_eq.1 hminus]))
    · exact .inl rfl
  · rintro ⟨mark, sign, digits, ⟨hmark, hsign, hne, hall⟩, rfl⟩
    refine ⟨[mark], sign ++ digits, ⟨mark, hmark, rfl⟩, ⟨sign, digits, takes_optional.2 ?_,
      takes_row.2 ⟨hne, hall⟩, rfl⟩, rfl⟩
    rcases hsign with rfl | rfl | rfl
    · exact .inr rfl
    · exact .inl ⟨'+', rfl, rfl⟩
    · exact .inl ⟨'-', rfl, rfl⟩

/-- The exponent at the start of a text has all digits that follow. -/
theorem exponentAt?_digit {mark d : Char} {sign : List Char} (hmark : (mark == 'e' || mark == 'E') = true)
    (hsign : sign = [] ∨ sign = ['+'] ∨ sign = ['-']) (hd : d.isDigit = true) (more : List Char) :
    exponentAt? (mark :: (sign ++ d :: more)) =
      some ((if sign = ['-'] then (-1 : Int) else 1) * readDigits (d :: more.takeWhile Char.isDigit),
        1 + sign.length + (more.takeWhile Char.isDigit).length + 1) := by
  have hplus : d ≠ '+' := by rintro rfl; cases hd
  have hminus : d ≠ '-' := by rintro rfl; cases hd
  rcases hsign with rfl | rfl | rfl
  · simp [exponentAt?, hmark, hd, hplus, hminus]
    omega
  · simp [exponentAt?, hmark, hd]
    omega
  · simp [exponentAt?, hmark, hd]
    omega

section Numbers

variable {first : Char} {text rest : List Char} {e : Int} {length : Nat}

theorem scanNumber_point (hpoint : text.dropWhile Char.isDigit = '.' :: rest) :
    scanNumber first text =
      (.token (.float (readDecimal (first :: text.takeWhile Char.isDigit) (rest.takeWhile Char.isDigit)
          ((exponentAt? (rest.dropWhile Char.isDigit)).elim 0 (·.1)))),
        (text.takeWhile Char.isDigit).length + 1 + (rest.takeWhile Char.isDigit).length +
          (exponentAt? (rest.dropWhile Char.isDigit)).elim 0 (·.2)) := by
  cases he : exponentAt? (rest.dropWhile Char.isDigit) with
  | none => simp [scanNumber, drop_takeWhile, hpoint, he]
  | some found => simp [scanNumber, drop_takeWhile, hpoint, he]

theorem scanNumber_exponent (hpoint : (text.dropWhile Char.isDigit).head? ≠ some '.')
    (hexponent : exponentAt? (text.dropWhile Char.isDigit) = some (e, length)) :
    scanNumber first text =
      (.token (.float (readDecimal (first :: text.takeWhile Char.isDigit) [] e)),
        (text.takeWhile Char.isDigit).length + length) := by
  unfold scanNumber
  dsimp only
  rw [drop_takeWhile]
  split
  · next heq => simp [heq] at hpoint
  · rw [hexponent]

theorem scanNumber_whole (hpoint : (text.dropWhile Char.isDigit).head? ≠ some '.')
    (hexponent : exponentAt? (text.dropWhile Char.isDigit) = none) :
    scanNumber first text = (wholeLexeme (first :: text.takeWhile Char.isDigit),
      (text.takeWhile Char.isDigit).length) := by
  unfold scanNumber
  dsimp only
  rw [drop_takeWhile]
  split
  · next heq => simp [heq] at hpoint
  · rw [hexponent]

/-- A number is a whole number, or has a point, an exponent or both. -/
theorem scanNumber_cases (text : List Char) :
    (∃ rest, text.dropWhile Char.isDigit = '.' :: rest) ∨ (text.dropWhile Char.isDigit).head? ≠ some '.' := by
  cases text.dropWhile Char.isDigit with
  | nil => exact .inr (by simp)
  | cons c rest =>
    by_cases hc : c = '.'
    · exact .inl ⟨rest, by rw [hc]⟩
    · exact .inr (by simpa using hc)

theorem length_digits_le_scanNumber (first : Char) (text : List Char) :
    (text.takeWhile Char.isDigit).length ≤ (scanNumber first text).2 := by
  rcases scanNumber_cases text with ⟨rest, hpoint⟩ | hpoint
  · rw [scanNumber_point hpoint]
    omega
  · cases he : exponentAt? (text.dropWhile Char.isDigit) with
    | none => rw [scanNumber_whole hpoint he]
    | some found =>
      rw [scanNumber_exponent hpoint he]
      omega

/-- Digits before something else are all digits that there are. -/
theorem takeWhile_dropWhile_stop {p : Char → Bool} {taken : List Char} (htaken : ∀ c ∈ taken, p c = true)
    (rest : List Char) (hrest : ∀ c ∈ rest.head?, p c = false) :
    (taken ++ rest).takeWhile p = taken ∧ (taken ++ rest).dropWhile p = rest := by
  rw [List.takeWhile_append_of_pos htaken, List.dropWhile_append_of_pos htaken]
  cases rest with
  | nil => simp
  | cons c rest => simp [hrest c rfl]

theorem digits_of_takes {taken : List Char} (h : (row Char.isDigit).Takes taken) :
    ∃ d ds, taken = d :: ds ∧ d.isDigit = true ∧ ∀ c ∈ ds, c.isDigit = true := by
  obtain ⟨hne, hall⟩ := takes_row.1 h
  obtain ⟨d, ds, rfl⟩ := List.exists_cons_of_ne_nil hne
  exact ⟨d, ds, rfl, List.forall_mem_cons.1 hall⟩

theorem exponentAt?_of_takes {taken : List Char} (h : exponentPattern.Takes taken) (rest : List Char) :
    ∃ e length, exponentAt? (taken ++ rest) = some (e, length) ∧ taken.length ≤ length := by
  obtain ⟨mark, sign, digits, ⟨hmark, hsign, hne, hall⟩, rfl⟩ := takes_exponent_iff.1 h
  obtain ⟨d, ds, rfl⟩ := List.exists_cons_of_ne_nil hne
  obtain ⟨hd, hds⟩ := List.forall_mem_cons.1 hall
  have hle := length_le_takeWhile hds rest
  have hat := exponentAt?_digit hmark hsign hd (ds ++ rest)
  refine ⟨_, _, by simpa using hat, ?_⟩
  simp only [List.length_cons, List.length_append] at hle ⊢
  omega

theorem head_of_takes_exponent {taken : List Char} (h : exponentPattern.Takes taken) (rest : List Char) :
    ∀ c ∈ (taken ++ rest).head?, c.isDigit = false ∧ c ≠ '.' := by
  obtain ⟨mark, sign, digits, hexponent, rfl⟩ := takes_exponent_iff.1 h
  rintro c ⟨⟩
  rcases Bool.or_eq_true_iff.1 hexponent.mark with hmark | hmark <;> rw [beq_iff_eq.1 hmark] <;> decide

/-- All digits behind the point and a complete exponent are read. -/
theorem length_decimal_le {taken rest : List Char} (h : Rule.decimal.pattern.Takes taken)
    (htext : first :: text = taken ++ rest) :
    first.isDigit = true ∧ taken.length ≤ (scanNumber first text).2 + 1 := by
  obtain ⟨_, _, hwhole, ⟨_, _, hpoint, ⟨fraction, tail, hfraction, htail, rfl⟩, rfl⟩, rfl⟩ := h
  obtain ⟨d, ds, rfl, hd, hds⟩ := digits_of_takes hwhole
  obtain rfl := takes_word.1 hpoint
  obtain ⟨rfl, rfl⟩ := List.cons.inj htext
  refine ⟨hd, ?_⟩
  obtain ⟨htake, hdrop⟩ := takeWhile_dropWhile_stop (p := Char.isDigit) hds
    ('.' :: (fraction ++ (tail ++ rest))) (by rintro c ⟨⟩; rfl)
  simp only [List.append_assoc, List.cons_append, List.nil_append, List.append_eq]
  rcases takes_optional.1 htail with hexponent | rfl
  · obtain ⟨hfull, hafter⟩ := takeWhile_dropWhile_stop (p := Char.isDigit) hfraction (tail ++ rest)
      fun c hc => (head_of_takes_exponent hexponent rest c hc).1
    obtain ⟨e, length, hat, hle⟩ := exponentAt?_of_takes hexponent rest
    rw [scanNumber_point hdrop, htake, hfull, hafter, hat]
    simp only [List.length_cons, List.length_append, Option.elim_some]
    omega
  · have hle := length_le_takeWhile hfraction ([] ++ rest)
    rw [scanNumber_point hdrop, htake]
    simp only [List.length_cons, List.length_append, List.length_nil]
    omega

theorem length_exponential_le {taken rest : List Char} (h : Rule.exponential.pattern.Takes taken)
    (htext : first :: text = taken ++ rest) :
    first.isDigit = true ∧ taken.length ≤ (scanNumber first text).2 + 1 := by
  obtain ⟨_, tail, hwhole, htail, rfl⟩ := h
  obtain ⟨d, ds, rfl, hd, hds⟩ := digits_of_takes hwhole
  obtain ⟨rfl, rfl⟩ := List.cons.inj htext
  refine ⟨hd, ?_⟩
  have hhead := head_of_takes_exponent htail rest
  obtain ⟨htake, hdrop⟩ := takeWhile_dropWhile_stop (p := Char.isDigit) hds (tail ++ rest)
    fun c hc => (hhead c hc).1
  obtain ⟨e, length, hat, hle⟩ := exponentAt?_of_takes htail rest
  have hpoint : ((ds ++ (tail ++ rest)).dropWhile Char.isDigit).head? ≠ some '.' := by
    rw [hdrop]
    exact fun hc => (hhead '.' hc).2 rfl
  simp only [List.append_assoc, List.append_eq]
  rw [scanNumber_exponent hpoint (hdrop ▸ hat), htake]
  simp only [List.length_cons, List.length_append]
  omega

theorem length_whole_le {taken rest : List Char} (h : Rule.whole.pattern.Takes taken)
    (htext : first :: text = taken ++ rest) :
    first.isDigit = true ∧ taken.length ≤ (scanNumber first text).2 + 1 := by
  obtain ⟨d, ds, rfl, hd, hds⟩ := digits_of_takes h
  obtain ⟨rfl, rfl⟩ := List.cons.inj htext
  have hle := length_le_takeWhile hds rest
  have hscan := length_digits_le_scanNumber first (ds ++ rest)
  exact ⟨hd, Nat.succ_le_succ (hle.trans hscan)⟩

end Numbers

theorem length_name_le {first : Char} {text taken rest : List Char} (h : Rule.identifier.pattern.Takes taken)
    (htext : first :: text = taken ++ rest) : taken.length ≤ (scan first text).2 + 1 := by
  obtain ⟨_, more, ⟨c, hc, rfl⟩, hmore, rfl⟩ := h
  obtain ⟨rfl, rfl⟩ := List.cons.inj htext
  have hle := length_le_takeWhile hmore rest
  have hlength : (scanName first (more ++ rest)).2 = ((more ++ rest).takeWhile isNamePart).length := by
    unfold scanName
    dsimp only
    split <;> rfl
  have hscan := scan_nameStart hc (more ++ rest)
  simp only [List.append_eq, List.nil_append, List.length_append, List.length_singleton, hscan, hlength]
  omega

/-- A symbol of two characters is not read as one. -/
theorem length_symbol_le (s : Symbol) {first : Char} {text rest : List Char}
    (htext : first :: text = s.text.toList ++ rest) : s.text.toList.length ≤ (scan first text).2 + 1 := by
  cases s <;> obtain ⟨rfl, rfl⟩ := List.cons.inj htext <;> first | exact Nat.le_add_left 1 _ | exact Nat.le_refl 2

/-- No rule takes more of a text than the scanner. -/
theorem length_le_scan (rule : Rule) {first : Char} {text taken rest : List Char}
    (h : rule.pattern.Takes taken) (htext : first :: text = taken ++ rest) :
    taken.length ≤ (scan first text).2 + 1 := by
  cases rule with
  | blanks =>
    obtain ⟨_, more, ⟨c, hc, rfl⟩, hmore, rfl⟩ := h
    obtain ⟨rfl, rfl⟩ : first = c ∧ text = more ++ rest := by simpa using htext
    have hle := length_le_takeWhile hmore rest
    rw [scan_blank hc, List.length_append, List.length_singleton]
    omega
  | newline =>
    rw [takes_word.1 h]
    exact Nat.le_add_left 1 _
  | lineComment =>
    obtain ⟨_, more, hopen, hmore, rfl⟩ := h
    obtain rfl := takes_word.1 hopen
    obtain ⟨rfl, rfl⟩ : first = '/' ∧ text = '/' :: (more ++ rest) := by simpa using htext
    have hle := length_le_takeWhile hmore rest
    have hscan : scan '/' ('/' :: (more ++ rest)) =
        (.skipped 0, ((more ++ rest).takeWhile (· != '\n')).length + 1) := rfl
    rw [hscan, List.length_append]
    exact Nat.add_le_add_left hle 2 |>.trans (Nat.le_of_eq (Nat.add_comm _ _))
  | blockComment =>
    obtain ⟨body, hbody, rfl⟩ := takes_blockComment_iff.1 h
    obtain ⟨rfl, rfl⟩ : first = '/' ∧ text = '*' :: (body ++ '*' :: '/' :: rest) := by simpa using htext
    have hscan : scan '/' ('*' :: (body ++ '*' :: '/' :: rest)) = scanComment (body ++ '*' :: '/' :: rest) := rfl
    rw [hscan, scanComment, commentBody?_append hbody]
    simp
  | keyword k =>
    obtain rfl := takes_word.1 h
    obtain ⟨c, more, hname, hc, hmore⟩ := isIdentifier_iff.1 (keyword_isIdentifier k)
    refine length_name_le ⟨[c], more, ⟨c, hc, rfl⟩, hmore, hname⟩ htext
  | piSign =>
    rw [takes_word.1 h]
    exact Nat.le_add_left 1 _
  | tauSign =>
    rw [takes_word.1 h]
    exact Nat.le_add_left 1 _
  | symbol s =>
    obtain rfl := takes_word.1 h
    exact length_symbol_le s htext
  | decimal =>
    obtain ⟨hdigit, hle⟩ := length_decimal_le h htext
    rwa [scan_digit hdigit]
  | exponential =>
    obtain ⟨hdigit, hle⟩ := length_exponential_le h htext
    rwa [scan_digit hdigit]
  | whole =>
    obtain ⟨hdigit, hle⟩ := length_whole_le h htext
    rwa [scan_digit hdigit]
  | string =>
    obtain ⟨_, _, hopen, ⟨body, _, hbody, hclose, rfl⟩, rfl⟩ := h
    obtain rfl := takes_word.1 hopen
    obtain rfl := takes_word.1 hclose
    obtain ⟨rfl, rfl⟩ : first = '"' ∧ text = body ++ '"' :: rest := by simpa using htext
    have hscan : scan '"' (body ++ '"' :: rest) = scanString (body ++ '"' :: rest) := rfl
    rw [hscan, scanString, takeWhile_stop hbody rfl]
    simp
  | identifier => exact length_name_le h htext

/-! ### The scanner follows a rule -/

/-- A rule by which the scanner reads: `more` goes to the lexeme after the first character, and an identifier
is no keyword. -/
structure Rule.Reads (rule : Rule) (first : Char) (more : List Char) (found : Lexeme × Nat) : Prop where
  takes : rule.pattern.Takes (first :: more)
  found : found = (rule.lexeme (first :: more), more.length)
  keyword : rule = .identifier → ∀ k : Keyword, k.text.toList ≠ first :: more

/-- The characters of a class at the start of a text belong to the class. -/
theorem forall_mem_takeWhile (p : Char → Bool) (text : List Char) : ∀ c ∈ text.takeWhile p, p c = true :=
  fun _ => List.mem_takeWhile_imp

theorem exists_cons_of_takeWhile_ne_nil {p : Char → Bool} {text : List Char} (h : text.takeWhile p ≠ []) :
    ∃ d more, text = d :: more ∧ p d = true := by
  cases text with
  | nil => exact absurd rfl h
  | cons d more =>
    refine ⟨d, more, rfl, ?_⟩
    by_contra hd
    exact h (List.takeWhile_cons_of_neg hd)

/-- An exponent is only found where it is complete: a mark, a sign or none, and a digit at least. -/
theorem exponentAt?_shape {text : List Char} {found : Int × Nat} (h : exponentAt? text = some found) :
    ∃ mark sign d more, text = mark :: (sign ++ d :: more) ∧ (mark == 'e' || mark == 'E') = true ∧
      (sign = [] ∨ sign = ['+'] ∨ sign = ['-']) ∧ d.isDigit = true := by
  cases text with
  | nil => cases h
  | cons mark rest =>
    have hmark : (mark == 'e' || mark == 'E') = true := by
      by_contra hmark
      simp [exponentAt?, hmark] at h
    cases rest with
    | nil => simp [exponentAt?, hmark] at h
    | cons c body =>
      by_cases hplus : c = '+'
      · subst hplus
        have hdigits : body.takeWhile Char.isDigit ≠ [] := fun hnil => by simp [exponentAt?, hmark, hnil] at h
        obtain ⟨d, more, rfl, hd⟩ := exists_cons_of_takeWhile_ne_nil hdigits
        exact ⟨mark, ['+'], d, more, rfl, hmark, .inr (.inl rfl), hd⟩
      · by_cases hminus : c = '-'
        · subst hminus
          have hdigits : body.takeWhile Char.isDigit ≠ [] := fun hnil => by simp [exponentAt?, hmark, hnil] at h
          obtain ⟨d, more, rfl, hd⟩ := exists_cons_of_takeWhile_ne_nil hdigits
          exact ⟨mark, ['-'], d, more, rfl, hmark, .inr (.inr rfl), hd⟩
        · have hdigits : (c :: body).takeWhile Char.isDigit ≠ [] := fun hnil => by
            simp [exponentAt?, hmark, hplus, hminus, hnil] at h
          obtain ⟨d, more, hbody, hd⟩ := exists_cons_of_takeWhile_ne_nil hdigits
          exact ⟨mark, [], d, more, congrArg (mark :: ·) hbody, hmark, .inl rfl, hd⟩

/-- What the scanner counts as an exponent is one by the pattern, and reads as the same number by itself. -/
theorem exponentAt?_eq_some {text : List Char} {e : Int} {length : Nat} (h : exponentAt? text = some (e, length)) :
    ∃ taken rest, exponentPattern.Takes taken ∧ text = taken ++ rest ∧ taken.length = length ∧
      exponentAt? taken = some (e, length) := by
  obtain ⟨mark, sign, d, more, rfl, hmark, hsign, hd⟩ : ∃ mark sign d more, text = mark :: (sign ++ d :: more) ∧
      (mark == 'e' || mark == 'E') = true ∧ (sign = [] ∨ sign = ['+'] ∨ sign = ['-']) ∧ d.isDigit = true := by
    exact exponentAt?_shape h
  have hall := forall_mem_takeWhile Char.isDigit more
  have hsame : (more.takeWhile Char.isDigit).takeWhile Char.isDigit = more.takeWhile Char.isDigit :=
    List.takeWhile_eq_self_iff.2 hall
  have hat := exponentAt?_digit hmark hsign hd more
  have htaken := exponentAt?_digit hmark hsign hd (more.takeWhile Char.isDigit)
  rw [hsame] at htaken
  rw [h, Option.some.injEq] at hat
  refine ⟨mark :: (sign ++ d :: more.takeWhile Char.isDigit), more.dropWhile Char.isDigit,
    takes_exponent_iff.2 ⟨mark, sign, _, ⟨hmark, hsign, by simp, List.forall_mem_cons.2 ⟨hd, hall⟩⟩, rfl⟩, ?_, ?_,
    hat ▸ htaken⟩
  · simp
  · simp [(Prod.mk.inj hat).2]
    omega

/-- The exponent at the start of a text, or nothing, can be cut off. -/
theorem exists_optional_exponent (text : List Char) :
    ∃ tail rest, exponentPattern.optional.Takes tail ∧ text = tail ++ rest ∧
      tail.length = (exponentAt? text).elim 0 (·.2) ∧
      (exponentAt? tail).elim 0 (·.1) = (exponentAt? text).elim 0 (·.1) := by
  cases he : exponentAt? text with
  | none => exact ⟨[], text, takes_optional.2 (.inr rfl), rfl, rfl, rfl⟩
  | some found =>
    obtain ⟨tail, rest, htail, htext, hlength, hat⟩ := exponentAt?_eq_some he
    exact ⟨tail, rest, takes_optional.2 (.inl htail), htext, hlength, by rw [hat]⟩

theorem decimalValue_point {whole fraction tail : List Char} (hwhole : ∀ c ∈ whole, c.isDigit = true)
    (hfraction : ∀ c ∈ fraction, c.isDigit = true) (htail : ∀ c ∈ tail.head?, c.isDigit = false) :
    decimalValue (whole ++ '.' :: (fraction ++ tail)) =
      readDecimal whole fraction ((exponentAt? tail).elim 0 (·.1)) := by
  obtain ⟨htake, hdrop⟩ := takeWhile_dropWhile_stop (p := Char.isDigit) hwhole
    ('.' :: (fraction ++ tail)) (by rintro c ⟨⟩; rfl)
  obtain ⟨hfull, hafter⟩ := takeWhile_dropWhile_stop (p := Char.isDigit) hfraction tail htail
  simp only [decimalValue, htake, hdrop, hfull, hafter]

theorem decimalValue_exponent {whole tail : List Char} (hwhole : ∀ c ∈ whole, c.isDigit = true)
    (htail : exponentPattern.Takes tail) :
    decimalValue (whole ++ tail) = readDecimal whole [] ((exponentAt? tail).elim 0 (·.1)) := by
  have hhead := head_of_takes_exponent htail []
  rw [List.append_nil] at hhead
  obtain ⟨htake, hdrop⟩ := takeWhile_dropWhile_stop (p := Char.isDigit) hwhole tail fun c hc => (hhead c hc).1
  unfold decimalValue
  dsimp only
  rw [htake, hdrop]
  split
  · exact absurd rfl (hhead '.' rfl).2
  · rfl

section Reads

variable {first : Char} {text : List Char}

theorem reads_blanks (h : isBlank first = true) :
    ∃ more rest, text = more ++ rest ∧ Rule.blanks.Reads first more (scan first text) := by
  refine ⟨_, _, (List.takeWhile_append_dropWhile (p := isBlank)).symm, ?_, scan_blank h text, by simp⟩
  exact takes_row.2 ⟨List.cons_ne_nil _ _, List.forall_mem_cons.2 ⟨h, forall_mem_takeWhile _ _⟩⟩

/-- A word is read to its end, and is a keyword if there is one of this spelling. -/
theorem reads_name (h : isNameStart first = true) :
    ∃ rule more rest, text = more ++ rest ∧ Rule.Reads rule first more (scan first text) := by
  have htext := (List.takeWhile_append_dropWhile (p := isNamePart) (l := text)).symm
  rw [scan_nameStart h, scanName]
  cases hk : Keyword.ofText? (String.ofList (first :: text.takeWhile isNamePart)) with
  | some k =>
    have hname : k.text = String.ofList (first :: text.takeWhile isNamePart) := by
      have hfound := List.find?_some (p := fun k : Keyword => k.text == _) hk
      exact beq_iff_eq.1 hfound
    refine ⟨.keyword k, _, _, htext, takes_word.2 ?_, rfl, by simp⟩
    rw [hname, String.toList_ofList]
  | none =>
    refine ⟨.identifier, _, _, htext, ⟨[first], _, ⟨first, h, rfl⟩, forall_mem_takeWhile _ _, rfl⟩, rfl, ?_⟩
    rintro - k hname
    have hsome := ofText?_text k
    rw [← String.ofList_toList (s := k.text), hname, hk] at hsome
    cases hsome

/-- A number is read by the rule for its form: with a point, with an exponent only, or with neither. -/
theorem reads_number (h : first.isDigit = true) :
    ∃ rule more rest, text = more ++ rest ∧ Rule.Reads rule first more (scan first text) := by
  have hmore := forall_mem_takeWhile Char.isDigit text
  have hwhole : ∀ c ∈ first :: text.takeWhile Char.isDigit, c.isDigit = true := List.forall_mem_cons.2 ⟨h, hmore⟩
  have htakes : (row Char.isDigit).Takes (first :: text.takeWhile Char.isDigit) :=
    takes_row.2 ⟨List.cons_ne_nil _ _, hwhole⟩
  have htext := (List.takeWhile_append_dropWhile (p := Char.isDigit) (l := text)).symm
  rw [scan_digit h]
  rcases scanNumber_cases text with ⟨rest, hpoint⟩ | hpoint
  · have hfraction := forall_mem_takeWhile Char.isDigit rest
    obtain ⟨tail, after, htail, hafter, hlength, hvalue⟩ :=
      exists_optional_exponent (rest.dropWhile Char.isDigit)
    have hhead : ∀ c ∈ tail.head?, c.isDigit = false := by
      rcases takes_optional.1 htail with hexponent | rfl
      · exact fun c hc => (head_of_takes_exponent hexponent [] c (by simpa using hc)).1
      · simp
    have hrest := (List.takeWhile_append_dropWhile (p := Char.isDigit) (l := rest)).symm
    rw [hafter] at hrest
    rw [hpoint, hrest] at htext
    refine ⟨.decimal, text.takeWhile Char.isDigit ++ '.' :: (rest.takeWhile Char.isDigit ++ tail), after, ?_,
      ⟨_, _, htakes, ⟨['.'], _, takes_word.2 rfl, ⟨_, _, hfraction, htail, rfl⟩, rfl⟩, rfl⟩, ?_, by simp⟩
    · simpa using htext
    · have hdecimal := decimalValue_point hwhole hfraction hhead
      rw [hvalue] at hdecimal
      rw [scanNumber_point hpoint, Rule.lexeme, ← List.cons_append, hdecimal, ← hlength]
      simp only [List.length_append, List.length_cons, Prod.mk.injEq, true_and]
      omega
  · cases he : exponentAt? (text.dropWhile Char.isDigit) with
    | none => exact ⟨.whole, _, _, htext, htakes, scanNumber_whole hpoint he, by simp⟩
    | some found =>
      obtain ⟨tail, after, htail, hafter, hlength, hat⟩ := exponentAt?_eq_some he
      have hdecimal := decimalValue_exponent hwhole htail
      rw [hat] at hdecimal
      rw [hafter, ← List.append_assoc] at htext
      refine ⟨.exponential, _, _, htext, ⟨_, _, htakes, htail, rfl⟩, ?_, by simp⟩
      rw [scanNumber_exponent hpoint he, Rule.lexeme, ← List.cons_append, hdecimal, List.length_append, hlength]
      rfl

/-- A string is read up to its closing quote, if there is one. -/
theorem reads_string (h : '"' ∈ text) :
    ∃ more rest, text = more ++ rest ∧ Rule.string.Reads '"' more (scan '"' text) := by
  obtain ⟨body, rest, hbody, rfl⟩ : ∃ body rest, (∀ c ∈ body, (c != '"') = true) ∧ text = body ++ '"' :: rest := by
    obtain ⟨body, rest, rfl, hbody⟩ := List.eq_append_cons_of_mem h
    exact ⟨body, rest, fun c hc => bne_iff_ne.2 fun heq => hbody (heq ▸ hc), rfl⟩
  have hscan : scan '"' (body ++ '"' :: rest) = scanString (body ++ '"' :: rest) := rfl
  refine ⟨body ++ ['"'], rest, by simp, ⟨['"'], _, takes_word.2 rfl, ⟨body, _, hbody, takes_word.2 rfl, rfl⟩, rfl⟩,
    ?_, by simp⟩
  rw [hscan, scanString, takeWhile_stop hbody rfl]
  simp [Rule.lexeme]

theorem reads_lineComment (text : List Char) :
    ∃ more rest, '/' :: text = more ++ rest ∧ Rule.lineComment.Reads '/' more (scan '/' ('/' :: text)) := by
  refine ⟨'/' :: text.takeWhile (· != '\n'), text.dropWhile (· != '\n'), ?_,
    ⟨['/', '/'], _, takes_word.2 rfl, forall_mem_takeWhile _ _, rfl⟩, rfl, by simp⟩
  rw [List.cons_append, List.takeWhile_append_dropWhile]

theorem reads_blockComment {body : List Char} (h : commentBody? text = some body) :
    ∃ more rest, '*' :: text = more ++ rest ∧ Rule.blockComment.Reads '/' more (scan '/' ('*' :: text)) := by
  obtain ⟨hbody, rest, rfl⟩ := commentBody?_eq_some_iff.1 h
  have hscan : scan '/' ('*' :: (body ++ '*' :: '/' :: rest)) = scanComment (body ++ '*' :: '/' :: rest) := rfl
  refine ⟨'*' :: (body ++ ['*', '/']), rest, by simp, takes_blockComment_iff.2 ⟨body, hbody, rfl⟩, ?_, by simp⟩
  rw [hscan, scanComment, h]
  simp [Rule.lexeme]

theorem text_of_pairSymbol? {c d : Char} {s : Symbol} (h : pairSymbol? c d = some s) : s.text.toList = [c, d] := by
  unfold pairSymbol? at h
  split at h <;> cases h <;> rfl

theorem text_of_singleSymbol? {c : Char} {s : Symbol} (h : singleSymbol? c = some s) : s.text.toList = [c] := by
  unfold singleSymbol? at h
  split at h <;> cases h <;> rfl

theorem reads_symbol (h : (singleSymbol? first).isSome = true) :
    ∃ rule more rest, text = more ++ rest ∧ Rule.Reads rule first more (scanSymbol first text) := by
  unfold scanSymbol
  cases hpair : text.head?.bind (pairSymbol? first) with
  | some s =>
    obtain ⟨d, hd, hs⟩ := Option.bind_eq_some_iff.1 hpair
    obtain ⟨rest, rfl⟩ := List.head?_eq_some_iff.1 hd
    exact ⟨.symbol s, [d], rest, rfl, takes_word.2 (text_of_pairSymbol? hs).symm, rfl, by simp⟩
  | none =>
    obtain ⟨s, hs⟩ := Option.isSome_iff_exists.1 h
    rw [hs]
    exact ⟨.symbol s, [], text, rfl, takes_word.2 (text_of_singleSymbol? hs).symm, rfl, by simp⟩

end Reads

/-! ### Where no rule applies -/

/-- The characters with which the texts of a rule start. -/
def Rule.starts : Rule → Char → Bool
  | blanks, c => isBlank c
  | newline, c => c == '\n'
  | lineComment, c | blockComment, c => c == '/'
  | keyword _, c | identifier, c => isNameStart c
  | piSign, c => c == 'π'
  | tauSign, c => c == 'τ'
  | symbol _, c => (singleSymbol? c).isSome
  | decimal, c | exponential, c | whole, c => c.isDigit
  | string, c => c == '"'

/-- No rule takes the empty text, and its first character already limits the rules that apply. -/
theorem Rule.starts_of_takes {rule : Rule} {taken : List Char} (h : rule.pattern.Takes taken) :
    ∃ c more, taken = c :: more ∧ rule.starts c = true := by
  cases rule with
  | blanks =>
    obtain ⟨_, more, ⟨c, hc, rfl⟩, -, rfl⟩ := h
    exact ⟨c, more, rfl, hc⟩
  | newline => exact ⟨_, _, takes_word.1 h, rfl⟩
  | lineComment =>
    obtain ⟨_, more, hopen, -, rfl⟩ := h
    exact ⟨_, _, by rw [takes_word.1 hopen]; rfl, rfl⟩
  | blockComment =>
    obtain ⟨body, -, rfl⟩ := takes_blockComment_iff.1 h
    exact ⟨_, _, rfl, rfl⟩
  | keyword k =>
    obtain ⟨c, more, hname, hc, -⟩ := isIdentifier_iff.1 (keyword_isIdentifier k)
    exact ⟨c, more, (takes_word.1 h).trans hname, hc⟩
  | piSign => exact ⟨_, _, takes_word.1 h, rfl⟩
  | tauSign => exact ⟨_, _, takes_word.1 h, rfl⟩
  | symbol s =>
    rw [takes_word.1 h]
    cases s <;> exact ⟨_, _, rfl, rfl⟩
  | decimal | exponential =>
    obtain ⟨_, more, hwhole, -, rfl⟩ := h
    obtain ⟨d, ds, rfl, hd, -⟩ := digits_of_takes hwhole
    exact ⟨d, ds ++ more, rfl, hd⟩
  | whole =>
    obtain ⟨d, ds, rfl, hd, -⟩ := digits_of_takes h
    exact ⟨d, ds, rfl, hd⟩
  | string =>
    obtain ⟨_, more, hopen, -, rfl⟩ := h
    exact ⟨_, _, by rw [takes_word.1 hopen]; rfl, rfl⟩
  | identifier =>
    obtain ⟨_, more, ⟨c, hc, rfl⟩, -, rfl⟩ := h
    exact ⟨c, more, rfl, hc⟩

/-- No rule takes anything off the start of a text. -/
def Unmatched (text : List Char) : Prop :=
  ∀ (rule : Rule) (taken rest : List Char), rule.pattern.Takes taken → text ≠ taken ++ rest

theorem unmatched_of_not_starts {first : Char} {text : List Char} (h : ∀ rule : Rule, ¬ rule.starts first = true) :
    Unmatched (first :: text) := by
  intro rule taken rest htakes htext
  obtain ⟨c, more, rfl, hstart⟩ := Rule.starts_of_takes htakes
  obtain ⟨rfl, -⟩ := List.cons.inj htext
  exact h rule hstart

theorem unmatched_quote {text : List Char} (h : '"' ∉ text) : Unmatched ('"' :: text) := by
  intro rule taken rest htakes htext
  obtain ⟨c, more, rfl, hstart⟩ := Rule.starts_of_takes htakes
  obtain ⟨rfl, rfl⟩ := List.cons.inj htext
  cases rule with
  | string =>
    obtain ⟨_, _, hopen, ⟨body, _, -, hclose, rfl⟩, heq⟩ := htakes
    obtain rfl := takes_word.1 hopen
    obtain rfl := takes_word.1 hclose
    obtain ⟨-, rfl⟩ := List.cons.inj heq
    exact h (by simp)
  | _ => cases hstart

/-! ### Longest matches -/

def OpenComment (text : List Char) : Prop :=
  ∃ body, text = '/' :: '*' :: body ∧ ¬ ['*', '/'] <:+: body

theorem not_infix_of_commentBody? {text : List Char} (h : commentBody? text = none) : ¬ ['*', '/'] <:+: text := by
  intro hmark
  fun_induction commentBody? text with
  | case1 => simp at hmark
  | case2 => cases h
  | case3 c text hend ih =>
    rcases List.infix_cons_iff.1 hmark with ⟨after, hfront⟩ | hinside
    · obtain ⟨rfl, rfl⟩ := List.cons.inj hfront
      exact hend _ rfl rfl
    · exact ih (Option.map_eq_none_iff.1 h) hinside

theorem scanSymbol_none {first : Char} {text : List Char} (h : ¬ (singleSymbol? first).isSome = true) :
    scanSymbol first text = (.invalid (String.singleton first), 0) := by
  have hpair : text.head?.bind (pairSymbol? first) = none := by
    refine Option.eq_none_iff_forall_ne_some.2 fun s hs => h ?_
    obtain ⟨d, -, hd⟩ := Option.bind_eq_some_iff.1 hs
    unfold pairSymbol? at hd
    split at hd <;> first | rfl | cases hd
  rw [scanSymbol, hpair, Option.not_isSome_iff_eq_none.1 h]

def OpensComment (text : List Char) : Prop := ∃ rest, text = '/' :: '/' :: rest ∨ text = '/' :: '*' :: rest

/-- What starts with none of the other characters is a symbol, or no lexeme at all. -/
theorem scan_other {first : Char} {text : List Char} (hblank : ¬ isBlank first = true) (hline : first ≠ '\n')
    (hdigit : ¬ first.isDigit = true) (hname : ¬ isNameStart first = true) (hpi : first ≠ 'π') (htau : first ≠ 'τ')
    (hquote : first ≠ '"') (hcomment : ¬ OpensComment (first :: text)) :
    scan first text = scanSymbol first text := by
  unfold scan
  rw [if_neg hblank, if_neg (by simpa using hline), if_neg hdigit, if_neg hname, if_neg (by simpa using hpi),
    if_neg (by simpa using htau), if_neg (by simpa using hquote)]
  split
  case h_1 rest => exact absurd ⟨rest, .inl rfl⟩ hcomment
  case h_2 rest => exact absurd ⟨rest, .inr rfl⟩ hcomment
  case h_3 => rfl

theorem scan_quote (text : List Char) :
    (∃ more rest, text = more ++ rest ∧ Rule.string.Reads '"' more (scan '"' text)) ∨
      ((∃ bad, (scan '"' text).1 = .invalid bad) ∧ Unmatched ('"' :: text)) := by
  by_cases hclosed : '"' ∈ text
  · exact .inl (reads_string hclosed)
  · have hbody : text.takeWhile (· != '"') = text :=
      List.takeWhile_eq_self_iff.2 fun c hc => bne_iff_ne.2 fun heq => hclosed (heq ▸ hc)
    have hscan : scan '"' text = scanString text := rfl
    rw [hscan, scanString, hbody, if_neg (Nat.lt_irrefl _)]
    exact .inr ⟨⟨_, rfl⟩, unmatched_quote hclosed⟩

/-- A slash before another one or before a star opens a comment; only the second kind has to be closed. -/
theorem scan_comment {first : Char} {text : List Char} (h : OpensComment (first :: text)) :
    (∃ rule more rest, text = more ++ rest ∧ Rule.Reads rule first more (scan first text)) ∨
      ((∃ bad, (scan first text).1 = .invalid bad) ∧ OpenComment (first :: text)) := by
  obtain ⟨rest, hline | hblock⟩ := h
  · obtain ⟨rfl, rfl⟩ := List.cons.inj hline
    exact .inl ⟨.lineComment, reads_lineComment rest⟩
  · obtain ⟨rfl, rfl⟩ := List.cons.inj hblock
    cases hbody : commentBody? rest with
    | some body => exact .inl ⟨.blockComment, reads_blockComment hbody⟩
    | none =>
      have hscan : scan '/' ('*' :: rest) = scanComment rest := rfl
      rw [hscan, scanComment, hbody]
      exact .inr ⟨⟨_, rfl⟩, rest, rfl, not_infix_of_commentBody? hbody⟩

/-- The scanner reads by a rule, unless none applies or a comment is open. -/
theorem scan_cases (first : Char) (text : List Char) :
    (∃ rule more rest, text = more ++ rest ∧ Rule.Reads rule first more (scan first text)) ∨
      ((∃ bad, (scan first text).1 = .invalid bad) ∧ (Unmatched (first :: text) ∨ OpenComment (first :: text))) := by
  by_cases hblank : isBlank first = true
  · exact .inl ⟨.blanks, reads_blanks hblank⟩
  by_cases hline : first = '\n'
  · subst hline
    exact .inl ⟨.newline, [], text, rfl, takes_word.2 rfl, rfl, by simp⟩
  by_cases hdigit : first.isDigit = true
  · exact .inl (reads_number hdigit)
  by_cases hname : isNameStart first = true
  · exact .inl (reads_name hname)
  by_cases hpi : first = 'π'
  · subst hpi
    exact .inl ⟨.piSign, [], text, rfl, takes_word.2 rfl, rfl, by simp⟩
  by_cases htau : first = 'τ'
  · subst htau
    exact .inl ⟨.tauSign, [], text, rfl, takes_word.2 rfl, rfl, by simp⟩
  by_cases hquote : first = '"'
  · subst hquote
    rcases scan_quote text with hread | ⟨hbad, hunmatched⟩
    · exact .inl ⟨.string, hread⟩
    · exact .inr ⟨hbad, .inl hunmatched⟩
  have hother : ¬ OpensComment (first :: text) → scan first text = scanSymbol first text :=
    scan_other hblank hline hdigit hname hpi htau hquote
  by_cases hsingle : (singleSymbol? first).isSome = true
  · by_cases hcomment : OpensComment (first :: text)
    case neg =>
      rw [hother hcomment]
      exact .inl (reads_symbol hsingle)
    rcases scan_comment hcomment with hread | ⟨hbad, hopen⟩
    · exact .inl hread
    · exact .inr ⟨hbad, .inr hopen⟩
  · have hcomment : ¬ OpensComment (first :: text) := by
      rintro ⟨rest, hopen⟩
      rcases hopen with ⟨⟨⟩⟩ | ⟨⟨⟩⟩ <;> exact hsingle rfl
    rw [hother hcomment, scanSymbol_none hsingle]
    refine .inr ⟨⟨_, rfl⟩, .inl (unmatched_of_not_starts fun rule hstart => ?_)⟩
    cases rule with
    | blanks => exact hblank hstart
    | newline => exact hline (beq_iff_eq.1 hstart)
    | lineComment | blockComment =>
      obtain rfl := beq_iff_eq.1 hstart
      exact hsingle rfl
    | keyword | identifier => exact hname hstart
    | piSign => exact hpi (beq_iff_eq.1 hstart)
    | tauSign => exact htau (beq_iff_eq.1 hstart)
    | symbol => exact hsingle hstart
    | decimal | exponential | whole => exact hdigit hstart
    | string => exact hquote (beq_iff_eq.1 hstart)

/-- The lexeme at the start of a text is the longest one that a rule takes, and a keyword rather than an
identifier. There is none where no rule takes anything and where a comment is not closed, although a slash
by itself is a symbol. -/
theorem scan_longest_match (first : Char) (text : List Char) :
    (∃ rule more rest, text = more ++ rest ∧ Rule.Reads rule first more (scan first text) ∧
        ∀ (other : Rule) (taken rest : List Char), other.pattern.Takes taken → first :: text = taken ++ rest →
          taken.length ≤ (first :: more).length) ∨
      ((∃ bad, (scan first text).1 = .invalid bad) ∧ (Unmatched (first :: text) ∨ OpenComment (first :: text))) := by
  rcases scan_cases first text with ⟨rule, more, rest, htext, hreads⟩ | hinvalid
  · refine .inl ⟨rule, more, rest, htext, hreads, fun other taken rest htakes heq => ?_⟩
    have hle := length_le_scan other htakes heq
    rwa [hreads.found] at hle
  · exact .inr hinvalid

end CircuitCalls.Qasm

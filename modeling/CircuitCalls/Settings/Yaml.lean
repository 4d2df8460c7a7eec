import CircuitCalls.Number.Reader
import CircuitCalls.Settings
import CircuitCalls.Text.Pieces

/-!
# Settings files

A settings file is written in the plain part of YAML: a mapping with one entry on each line, or one
mapping or list in brackets, with comments. Scalars are plain or quoted. What a plain scalar means
depends on what is wanted of it: any scalar is a text, and only a plain one is a number. Files beyond that
part, with anchors, tags, scalars over several lines or several documents, are refused here; a reader of all
of YAML can take the place of `Settings.decode?` wherever files are read.
-/

namespace CircuitCalls

/-- A document of the plain part of YAML. -/
inductive Yaml where
  | scalar (plain : Bool) (text : String)
  | list (items : List Yaml)
  | mapping (fields : List (String × Yaml))
  /-- Something below a key that is not looked into. -/
  | nested

namespace Yaml

/-! ## Scalars -/

def isBlank (c : Char) : Bool := c == ' ' || c == '\t'

def isSpace (c : Char) : Bool := isBlank c || c == '\n'

/-- Whether nothing but a comment is left. -/
def isDone (text : List Char) : Bool :=
  match text.dropWhile isSpace with
  | [] => true
  | c :: _ => c == '#' && (text.head?.map isSpace).getD false

def hexNumber? (digits : List Char) : Option Nat :=
  digits.foldlM (fun n c =>
    if c.isDigit then some (16 * n + digitValue c)
    else if 'a' ≤ c ∧ c ≤ 'f' then some (16 * n + (c.toNat - 'a'.toNat + 10))
    else if 'A' ≤ c ∧ c ≤ 'F' then some (16 * n + (c.toNat - 'A'.toNat + 10))
    else none) 0

/-- How many hexadecimal digits an escape has. -/
def escapeWidth? : Char → Option Nat
  | 'x' => some 2
  | 'u' => some 4
  | 'U' => some 8
  | _ => none

/-- The character of an escape without digits. -/
def escaped? : Char → Option Char
  | '0' => some '\x00'
  | 'a' => some '\x07'
  | 'b' => some '\x08'
  | 't' => some '\t'
  | '\t' => some '\t'
  | 'n' => some '\n'
  | 'v' => some '\x0b'
  | 'f' => some '\x0c'
  | 'r' => some '\r'
  | 'e' => some '\x1b'
  | ' ' => some ' '
  | '"' => some '"'
  | '/' => some '/'
  | '\\' => some '\\'
  | 'N' => some '\u0085'
  | '_' => some '\u00a0'
  | 'L' => some '\u2028'
  | 'P' => some '\u2029'
  | _ => none

/-- The character of a number, unless it is a surrogate or too large. -/
def charOf? (n : Nat) : Option Char := if n.isValidChar then some (Char.ofNat n) else none

/-- What a text in double quotes stands for, and the text after the closing quote; the first `skip`
characters belong to an escape that has been read. -/
def doubleQuoted? : Nat → List Char → Option (List Char × List Char)
  | _, [] => none
  | skip + 1, _ :: rest => doubleQuoted? skip rest
  | 0, '"' :: rest => some ([], rest)
  | 0, '\\' :: rest => do
    let mark ← rest.head?
    let (c, width) ← match escapeWidth? mark with
      | some width => do
        let digits := (rest.drop 1).take width
        if digits.length < width then none
        let n ← hexNumber? digits
        let c ← charOf? n
        some (c, width + 1)
      | none => (escaped? mark).map fun c => (c, 1)
    let (text, after) ← doubleQuoted? width rest
    some (c :: text, after)
  | 0, c :: rest => do
    if c == '\n' then none
    let (text, after) ← doubleQuoted? 0 rest
    some (c :: text, after)

/-- What a text in single quotes stands for, and the text after the closing quote. -/
def singleQuoted? : List Char → Option (List Char × List Char)
  | [] => none
  | '\'' :: '\'' :: rest => do
    let (text, after) ← singleQuoted? rest
    some ('\'' :: text, after)
  | '\'' :: rest => some ([], rest)
  | c :: rest => do
    if c == '\n' then none
    let (text, after) ← singleQuoted? rest
    some (c :: text, after)

def isBracketMark (c : Char) : Bool := c == ',' || c == '[' || c == ']' || c == '\x7b' || c == '\x7d'

/-- Whether a plain scalar ends before `text`. -/
def plainEnds (inBrackets : Bool) : List Char → Bool
  | [] => true
  | '\n' :: _ => true
  | ':' :: rest =>
    match rest with
    | [] => true
    | c :: _ => isSpace c || (inBrackets && isBracketMark c)
  | c :: rest => (isBlank c && rest.head? == some '#') || (inBrackets && isBracketMark c)

/-- The characters of a plain scalar, with blanks at the end, and the text after it. -/
def plainSpan (inBrackets : Bool) : List Char → List Char × List Char
  | [] => ([], [])
  | c :: rest =>
    if plainEnds inBrackets (c :: rest) then ([], c :: rest)
    else
      let (text, after) := plainSpan inBrackets rest
      (c :: text, after)

/-- Whether a plain scalar may start like this. -/
def plainStarts (text : List Char) : Bool :=
  match text with
  | [] => false
  | c :: rest =>
    if c == '-' || c == '?' || c == ':' then
      match rest with
      | [] => false
      | next :: _ => !isSpace next
    else !isBracketMark c && !"#&*!|>%@\x60".toList.contains c

/-- The scalar at the start of a text, and the text after it. -/
def scalarAt? (inBrackets : Bool) (text : List Char) : Option (Yaml × List Char) :=
  match text with
  | '"' :: rest => (doubleQuoted? 0 rest).map fun (s, after) => (.scalar false (String.ofList s), after)
  | '\'' :: rest => (singleQuoted? rest).map fun (s, after) => (.scalar false (String.ofList s), after)
  | _ =>
    if plainStarts text then
      let (s, after) := plainSpan inBrackets text
      some (.scalar true (String.ofList (dropEnd isBlank s)), after)
    else none

/-! ## Brackets -/

def keyText? : Yaml → Option String
  | scalar _ text => some text
  | _ => none

mutual

/-- The value at the start of a text inside brackets, and the text after it. -/
def bracketValue? : Nat → List Char → Option (Yaml × List Char)
  | 0, _ => none
  | budget + 1, text =>
    match text.dropWhile isSpace with
    | '\x7b' :: rest => do
      let (fields, after) ← bracketFields? budget rest
      some (.mapping fields, after)
    | '[' :: rest => do
      let (items, after) ← bracketItems? budget rest
      some (.list items, after)
    | text => scalarAt? true text

def bracketFields? : Nat → List Char → Option (List (String × Yaml) × List Char)
  | 0, _ => none
  | budget + 1, text =>
    match text.dropWhile isSpace with
    | '\x7d' :: rest => some ([], rest)
    | text => do
      let (key, after) ← scalarAt? true text
      let key ← keyText? key
      let (value, after) ← match after.dropWhile isSpace with
        | ':' :: rest =>
          match rest.dropWhile isSpace with
          | ',' :: _ => some (scalar true "", rest)
          | '\x7d' :: _ => some (scalar true "", rest)
          | _ => bracketValue? budget rest
        | _ => some (scalar true "", after)
      match after.dropWhile isSpace with
      | ',' :: rest => do
        let (fields, after) ← bracketFields? budget rest
        some ((key, value) :: fields, after)
      | '\x7d' :: rest => some ([(key, value)], rest)
      | _ => none

def bracketItems? : Nat → List Char → Option (List Yaml × List Char)
  | 0, _ => none
  | budget + 1, text =>
    match text.dropWhile isSpace with
    | ']' :: rest => some ([], rest)
    | text => do
      let (item, after) ← bracketValue? budget text
      match after.dropWhile isSpace with
      | ',' :: rest => do
        let (items, after) ← bracketItems? budget rest
        some (item :: items, after)
      | ']' :: rest => some ([item], rest)
      | _ => none

end

/-- A value in brackets with nothing after it. Each step of reading takes a character. -/
def bracketed? (text : List Char) : Option Yaml := do
  let (value, after) ← bracketValue? (text.length + 1) text
  if isDone after then some value else none

/-! ## Lines -/

/-- A line by its indentation and the rest of its text. -/
structure Indented where
  indent : Nat
  text : List Char

/-- The lines that are not blank and not only a comment. -/
def significantLines (text : List Char) : List Indented :=
  (pieces '\n' text).filterMap fun line =>
    let line := dropEnd (fun c => isBlank c || c == '\r') line
    let body := line.dropWhile (· == ' ')
    match body with
    | [] => none
    | '#' :: _ => none
    | _ => some ⟨line.length - body.length, body⟩

/-- What stands on a line after a key or a dash. -/
def inlineValue? (text : List Char) : Option Yaml :=
  let text := text.dropWhile isBlank
  match text with
  | [] => some (.scalar true "")
  | '#' :: _ => some (.scalar true "")
  | '\x7b' :: _ => bracketed? text
  | '[' :: _ => bracketed? text
  | _ => do
    let (value, after) ← scalarAt? false text
    if isDone after then some value else none

def entry? (text : List Char) : Option (String × Yaml) := do
  let (key, after) ← scalarAt? false text
  let key ← keyText? key
  match after.dropWhile isBlank with
  | ':' :: rest =>
    if (rest.head?.map isBlank).getD true then do
      let value ← inlineValue? rest
      some (key, value)
    else none
  | _ => none

/-- The entries of a mapping at an indentation. Lines further in belong to an entry without a value of
its own. -/
def entries? (indent : Nat) : List Indented → Option (List (String × Yaml))
  | [] => some []
  | line :: rest =>
    if line.indent < indent then none
    else if indent < line.indent then entries? indent rest
    else do
      let (key, value) ← entry? line.text
      let deeper := (rest.head?.map fun next => decide (indent < next.indent)).getD false
      let value ← match deeper, value with
        | false, value => some value
        | true, .scalar true "" => some nested
        | true, _ => none
      let fields ← entries? indent rest
      some ((key, value) :: fields)

/-- The items of a list with one item on each line. -/
def dashedItems? (indent : Nat) : List Indented → Option (List Yaml)
  | [] => some []
  | line :: rest =>
    match line.text with
    | '-' :: text =>
      if line.indent = indent ∧ (text.head?.map isBlank).getD true then do
        let item ← inlineValue? text
        let items ← dashedItems? indent rest
        some (item :: items)
      else none
    | _ => none

/-- Whether a line is the mark `mark` of a document, with at most a comment after it. -/
def isMark (mark : List Char) (line : Indented) : Bool :=
  line.indent == 0 && mark.isPrefixOf line.text && isDone (line.text.drop mark.length)

/-- The lines of a document without the marks of its start and its end. -/
def betweenMarks (lines : List Indented) : List Indented :=
  let lines := match lines with
    | first :: rest => if isMark ['-', '-', '-'] first then rest else lines
    | [] => []
  match lines.getLast? with
  | some last => if isMark ['.', '.', '.'] last then lines.dropLast else lines
  | none => []

/-- The document of a text, which may start with a byte-order mark. A document without content is an empty
mapping. -/
def parse? (text : String) : Option Yaml :=
  let chars := text.toList
  let chars := if chars.head? = some '\uFEFF' then chars.tail else chars
  let lines := betweenMarks (significantLines chars)
  match lines with
  | [] => some (.mapping [])
  | first :: _ =>
    match first.text with
    | '\x7b' :: _ => bracketed? (['\n'].intercalate (lines.map (·.text)))
    | '[' :: _ => bracketed? (['\n'].intercalate (lines.map (·.text)))
    | ['-'] => (dashedItems? first.indent lines).map list
    | '-' :: ' ' :: _ => (dashedItems? first.indent lines).map list
    | _ => (entries? first.indent lines).map mapping

/-! ## Values -/

def asText? : Yaml → Option String
  | scalar _ text => some text
  | _ => none

/-- The digits of a whole number in a base, all of them and at least one. -/
def basedNumber? (base : Nat) (digits : List Char) : Option Nat :=
  if digits.isEmpty then none
  else do
    let values ← digits.mapM fun c => (hexNumber? [c]).filter (· < base)
    some (values.foldl (fun n d => n * base + d) 0)

/-- A whole number: decimal without leading zeros, or in base 16, 8 or 2 after `0x`, `0o` or `0b`. -/
def wholeNumber? (text : List Char) : Option Nat :=
  let digits := match text with
    | '+' :: rest => rest
    | _ => text
  match digits with
  | '0' :: 'x' :: rest => basedNumber? 16 rest
  | '0' :: 'o' :: rest => basedNumber? 8 rest
  | '0' :: 'b' :: rest => basedNumber? 2 rest
  | '0' :: _ :: _ => none
  | _ => basedNumber? 10 digits

/-- A plain scalar as a count of machine size. -/
def asCount? : Yaml → Option Nat
  | scalar true text => (wholeNumber? text.toList).filter (· < UInt64.size)
  | _ => none

/-- The value of a known field, or a refusal if it occurs twice. -/
def lookup? (name : String) (fields : List (String × Yaml)) : Option (Option Yaml) :=
  match fields.filter (·.1 == name) with
  | [] => some none
  | [(_, value)] => some (some value)
  | _ => none

/-- The fields of a record in the order of `names`, absent ones as `none`. -/
def fields? (names : List String) : Yaml → Option (List (Option Yaml))
  | mapping fields => names.mapM (lookup? · fields)
  | list items =>
    if items.length ≤ names.length then
      some (items.map some ++ List.replicate (names.length - items.length) none)
    else none
  | _ => none

def withDefault? {α : Type} (default : α) (read : Yaml → Option α) : Option Yaml → Option α
  | none => some default
  | some y => read y

end Yaml

/-- The settings of a document, with the usual choice for each missing field. -/
def Settings.ofYaml? (y : Yaml) : Option Settings :=
  match y.fields? ["discovery", "indent_width", "default_loop_var", "simulator"] with
  | some [discovery, indentWidth, defaultLoopVar, simulator] => do
    let usual : Settings := {}
    let discovery ←
      Yaml.withDefault? usual.discovery (fun y => y.asText?.bind Discovery.ofName?) discovery
    let indentWidth ← Yaml.withDefault? usual.indentWidth Yaml.asCount? indentWidth
    let defaultLoopVar ← Yaml.withDefault? usual.defaultLoopVar Yaml.asText? defaultLoopVar
    let simulator ← Yaml.withDefault? usual.simulator Yaml.asText? simulator
    some { discovery, indentWidth, defaultLoopVar, simulator }
  | _ => none

/-- The settings in the text of a file. -/
def Settings.decode? (source : String) : Option Settings := (Yaml.parse? source).bind ofYaml?

end CircuitCalls

import CircuitCalls.Number.Reader
import CircuitCalls.Numbering

/-!
# Command lines

`Request.ofArguments` reads the arguments of the program. Options may stand anywhere after the command,
in the long form `--name value` or `--name=value`, or in the short form `-n value`, `-nvalue` or
`-n=value`; short flags can be joined. An argument that starts with a dash is never a value of the
option before it, a lone dash apart, and after `--` nothing is an option.
-/

namespace CircuitCalls

inductive OutputFormat where
  | text
  | json
deriving DecidableEq, Repr

/-- An option that takes a value. -/
inductive OptionName where
  | output | outDir | format | config | discovery | indent | loopVar | simulator
deriving DecidableEq, Repr

/-- Where outputs go: to standard output, into one file, or into a directory with a file for each input. -/
inductive Destination where
  | standardOutput
  | file (path : String)
  | directory (path : String)
deriving DecidableEq, Repr

/-- What to compile, and how. -/
structure EmitRequest where
  inputs : List String
  destination : Destination
  format : OutputFormat
  config : Option String
  discovery : Option Discovery
  indentWidth : Option Nat
  loopVar : Option String
  simulator : Option String

/-- What the program is asked to do. -/
inductive Request where
  | emit (request : EmitRequest)
  | inspect (input : String) (discovery : Discovery)
  | about
  | versionNumber
  | help

inductive UsageError where
  | missingCommand
  | unknownCommand (name : String)
  | unexpectedArgument (argument : String)
  | missingValue (option : OptionName)
  | invalidValue (option : OptionName) (value : String)
  | repeated (option : OptionName)
  | conflict (first second : OptionName)
  | missingInput
  | emptyInput

namespace OptionName

def long : OptionName → String
  | output => "output"
  | outDir => "out-dir"
  | format => "format"
  | config => "config"
  | discovery => "discovery"
  | indent => "indent"
  | loopVar => "loop-var"
  | simulator => "simulator"

def short? : OptionName → Option Char
  | output => some 'o'
  | format => some 'f'
  | config => some 'c'
  | _ => none

def all : List OptionName := [output, outDir, format, config, discovery, indent, loopVar, simulator]

end OptionName

def UsageError.message : UsageError → String
  | missingCommand => "a command is required: emit, inspect or version"
  | unknownCommand name => s!"unknown command '{name}'"
  | unexpectedArgument argument => s!"unexpected argument '{argument}'"
  | missingValue option => s!"a value is required for '--{option.long}'"
  | invalidValue option value => s!"invalid value '{value}' for '--{option.long}'"
  | repeated option => s!"'--{option.long}' cannot be used multiple times"
  | conflict first second => s!"'--{first.long}' cannot be used with '--{second.long}'"
  | missingInput => "an input file is required"
  | emptyInput => "an input file needs a name"

/-! ## Arguments one by one -/

inductive ArgumentForm where
  /-- Everything that follows is an operand. -/
  | escape
  | long (name : String) (value : Option String)
  | short (letters : List Char)
  | operand

def ArgumentForm.of (argument : String) : ArgumentForm :=
  match argument.toList with
  | ['-', '-'] => escape
  | '-' :: '-' :: body =>
    let name := body.takeWhile (· != '=')
    match body.drop name.length with
    | _ :: value => long (String.ofList name) (some (String.ofList value))
    | [] => long (String.ofList name) none
  | '-' :: c :: letters => short (c :: letters)
  | _ => operand

/-- What an argument says. -/
inductive Item where
  | option (name : OptionName) (value : String)
  | operand (text : String)
  | help

/-- The letters of short options: what they say, and the option that still lacks its value. -/
def shortItems (options : List OptionName) : List Char → Except UsageError (List Item × Option OptionName)
  | [] => .ok ([], none)
  | 'v' :: rest => shortItems options rest
  | 'h' :: _ => .ok ([.help], none)
  | c :: rest =>
    match options.find? (·.short? == some c) with
    | none => .error (.unexpectedArgument (String.ofList ['-', c]))
    | some name =>
      match rest with
      | [] => .ok ([], some name)
      | '=' :: value => .ok ([.option name (String.ofList value)], none)
      | value => .ok ([.option name (String.ofList value)], none)

/-- A long option: what it says, and whether it still lacks its value. -/
def longItems (options : List OptionName) (name : String) (value : Option String) :
    Except UsageError (List Item × Option OptionName) :=
  match options.find? (·.long == name), value with
  | some name, some value => .ok ([.option name value], none)
  | some name, none => .ok ([], some name)
  | none, none =>
    if name = "verbose" then .ok ([], none)
    else if name = "help" then .ok ([.help], none)
    else .error (.unexpectedArgument ("--" ++ name))
  | none, some _ => .error (.unexpectedArgument ("--" ++ name))

/-- What arguments say, where the option `pending` waits for its value. -/
def itemsFrom (options : List OptionName) (pending : Option OptionName) :
    List String → Except UsageError (List Item)
  | [] =>
    match pending with
    | some name => .error (.missingValue name)
    | none => .ok []
  | argument :: rest =>
    match ArgumentForm.of argument, pending with
    | .operand, some name => do
      let items ← itemsFrom options none rest
      return .option name argument :: items
    | .operand, none => do
      let items ← itemsFrom options none rest
      return .operand argument :: items
    | _, some name => .error (.missingValue name)
    | .escape, none => .ok (rest.map .operand)
    | .long name value, none => do
      let (first, pending) ← longItems options name value
      let items ← itemsFrom options pending rest
      return first ++ items
    | .short letters, none => do
      let (first, pending) ← shortItems options letters
      let items ← itemsFrom options pending rest
      return first ++ items

/-! ## Values -/

def operandsOf (items : List Item) : List String :=
  items.filterMap fun
    | .operand text => some text
    | _ => none

/-- The value of an option that may be given once. -/
def valueOf? (name : OptionName) (items : List Item) : Except UsageError (Option String) :=
  let values := items.filterMap fun
    | .option other value => if other = name then some value else none
    | _ => none
  match values with
  | [] => .ok none
  | [value] => .ok (some value)
  | _ => .error (.repeated name)

/-- The value of an option read by `read`. -/
def parsedValue? {α : Type} (name : OptionName) (read : String → Option α) (items : List Item) :
    Except UsageError (Option α) := do
  match ← valueOf? name items with
  | none => return none
  | some value =>
    match read value with
    | some a => return some a
    | none => throw (.invalidValue name value)

/-- A path, which is never empty. -/
def readPath? (text : String) : Option String := if text = "" then none else some text

def OutputFormat.ofName? (name : String) : Option OutputFormat :=
  if name = "text" then some text else if name = "json" then some json else none

/-- A count of machine size in decimal digits, with a plus sign or not. -/
def readCount? (text : String) : Option Nat :=
  let digits := match text.toList with
    | '+' :: rest => rest
    | chars => chars
  if !digits.isEmpty && digits.all Char.isDigit then (some (readDigits digits)).filter (· < UInt64.size)
  else none

/-- The name of a strategy, in any case. -/
def readDiscovery? (text : String) : Option Discovery := (Discovery.ofText text).toOption

/-! ## Requests -/

def asksHelp (items : List Item) : Bool :=
  items.any fun
    | .help => true
    | _ => false

namespace Request

/-- The destination of a command line, which can name a file or a directory but not both. -/
def destinationOf (output outDir : Option String) : Except UsageError Destination :=
  match output, outDir with
  | none, none => .ok .standardOutput
  | some path, none => .ok (.file path)
  | none, some path => .ok (.directory path)
  | some _, some _ => .error (.conflict .output .outDir)

/-- The request to compile. -/
def emitOf (items : List Item) : Except UsageError Request := do
  let output ← parsedValue? .output readPath? items
  let outDir ← parsedValue? .outDir readPath? items
  let format ← parsedValue? .format OutputFormat.ofName? items
  let config ← parsedValue? .config readPath? items
  let discovery ← parsedValue? .discovery readDiscovery? items
  let indentWidth ← parsedValue? .indent readCount? items
  let loopVar ← valueOf? .loopVar items
  let simulator ← valueOf? .simulator items
  let inputs := operandsOf items
  if inputs.isEmpty then
    throw .missingInput
  if inputs.contains "" then
    throw .emptyInput
  let destination ← destinationOf output outDir
  return .emit
    { inputs, destination, format := format.getD .text, config, discovery, indentWidth, loopVar,
      simulator }

def inspectOf (items : List Item) : Except UsageError Request := do
  let discovery ← parsedValue? .discovery readDiscovery? items
  match operandsOf items with
  | [] => throw .missingInput
  | [""] => throw .emptyInput
  | [input] => return .inspect input (discovery.getD .declared)
  | _ :: extra :: _ => throw (.unexpectedArgument extra)

def aboutOf (items : List Item) : Except UsageError Request :=
  match operandsOf items with
  | [] => .ok .about
  | extra :: _ => .error (.unexpectedArgument extra)

/-- The request of a command and the arguments after it. -/
def ofCommand (command : String) (arguments : List String) : Except UsageError Request := do
  let (options, build) ← match command with
    | "emit" => pure (OptionName.all, emitOf)
    | "inspect" => pure ([OptionName.discovery], inspectOf)
    | "version" => pure ([], aboutOf)
    | _ => throw (.unknownCommand command)
  let items ← itemsFrom options none arguments
  if asksHelp items then return .help else build items

/-- What the joined flags before a command ask for at once, if they do. -/
def ofFlags : List Char → Except UsageError (Option Request)
  | [] => .ok none
  | 'v' :: rest => ofFlags rest
  | 'V' :: _ => .ok (some .versionNumber)
  | 'h' :: _ => .ok (some .help)
  | c :: _ => .error (.unexpectedArgument (String.ofList ['-', c]))

/-- The request of a command line. -/
def ofArguments : List String → Except UsageError Request
  | [] => .error .missingCommand
  | argument :: rest =>
    match ArgumentForm.of argument with
    | .long name none =>
      if name = "verbose" then ofArguments rest
      else if name = "version" then .ok .versionNumber
      else if name = "help" then .ok .help
      else .error (.unexpectedArgument argument)
    | .long _ (some _) => .error (.unexpectedArgument argument)
    | .escape => .error (.unexpectedArgument argument)
    | .short letters => do
      match ← ofFlags letters with
      | some request => return request
      | none => ofArguments rest
    | .operand => if argument = "help" then .ok .help else ofCommand argument rest

end Request

end CircuitCalls

import CircuitCalls.Command.Inspection

/-!
# The program

The host of the program is the system that it runs on.
-/

namespace CircuitCalls

/-- The fault of an error number of the system, which may come with a minus sign. -/
def faultOfCode (code : UInt32) (details : String) : FileFault :=
  let code := if code < 0x80000000 then code else 0 - code
  match code with
  | 2 => .notFound
  | 17 => .alreadyExists
  | 20 => .notADirectory
  | 21 => .isADirectory
  | 40 => .tooManyLinks
  | _ => .other s!"{details} (os error {code})"

/-- The fault behind an error of the system. -/
def faultOf : IO.Error → FileFault
  | .noFileOrDirectory _ code details => faultOfCode code details
  | .alreadyExists _ code details => faultOfCode code details
  | .inappropriateType _ code details => faultOfCode code details
  | .permissionDenied _ code details => faultOfCode code details
  | .invalidArgument _ code details => faultOfCode code details
  | .otherError code details => faultOfCode code details
  | e => .other (toString e)

/-- An action of the system that may be refused. -/
def tried {α : Type} (action : IO α) : ExceptT CommandError IO (Except FileFault α) := do
  match ← action.toBaseIO with
  | .ok a => return .ok a
  | .error e => return .error (faultOf e)

def textOf (path : String) : IO (Except FileFault String) := do
  let bytes ← IO.FS.readBinFile path
  match String.fromUTF8? bytes with
  | some text => return .ok text
  | none => return .error .notText

def systemHost : Host (ExceptT CommandError IO) where
  has path := do
    let here ← (IO.currentDir : IO _)
    (here / path).pathExists
  read path := do return (← tried (textOf path)) >>= id
  makeDirectory path := tried (IO.FS.createDirAll path)
  write path content := tried (IO.FS.writeFile path content)
  print text := (IO.print text : IO Unit)
  report text := (IO.eprint text : IO Unit)

def failWith (code : UInt32) (message : String) : IO UInt32 := do
  IO.eprintln s!"Error: {message}"
  return code

/-- Carries out the request of a command line and gives the exit code. -/
def execute (arguments : List String) : IO UInt32 := do
  match Request.ofArguments arguments with
  | .error e => failWith 2 e.message
  | .ok request =>
    match ← (request.execute systemHost Settings.decode?).run with
    | .error e => failWith 1 e.message
    | .ok () => return 0

end CircuitCalls

def main (arguments : List String) : IO UInt32 := CircuitCalls.execute arguments

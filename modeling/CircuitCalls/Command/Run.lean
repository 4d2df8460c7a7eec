import CircuitCalls.Command.Inspection

/-!
# Running a command on a file tree

`run` is the whole program: from arguments and files to what is printed, the exit code and the files
afterwards. A wrong command line has the code 2, any other failure the code 1. The host is a file tree with
two streams, and every operation of a command is a step on them.
-/

namespace CircuitCalls

/-- The state of a session: the files, and what has been printed so far. -/
structure World where
  tree : FileTree
  stdout : String
  stderr : String

/-- A computation on a world, which may fail. A failure leaves the world as it is then. -/
abbrev Session := EStateM CommandError World

namespace Session

/-- A world as a host. -/
def host : Host Session where
  has path := fun w => .ok (w.tree.has path) w
  read path := fun w => .ok (w.tree.read path) w
  makeDirectory path := fun w =>
    let (result, tree) := w.tree.makeDirectory path
    .ok result { w with tree }
  write path content := fun w =>
    match w.tree.write path content with
    | .ok tree => .ok (.ok ()) { w with tree }
    | .error fault => .ok (.error fault) w
  print text := fun w => .ok () { w with stdout := w.stdout ++ text }
  report text := fun w => .ok () { w with stderr := w.stderr ++ text }

end Session

/-- What a run leaves behind. -/
structure Outcome where
  code : Nat
  stdout : String
  stderr : String
  tree : FileTree

def errorLine (message : String) : String := "Error: " ++ message ++ "\n"

def Outcome.ofResult : EStateM.Result CommandError World Unit → Outcome
  | .ok _ w => ⟨0, w.stdout, w.stderr, w.tree⟩
  | .error e w => ⟨1, w.stdout, w.stderr ++ errorLine e.message, w.tree⟩

/-- The program, with settings files understood as given. -/
def runWith (decode : SettingsDecoder) (arguments : List String) (t : FileTree) : Outcome :=
  match Request.ofArguments arguments with
  | .error e => ⟨2, "", errorLine e.message, t⟩
  | .ok request => .ofResult (request.execute Session.host decode ⟨t, "", ""⟩)

def run (arguments : List String) (t : FileTree) : Outcome := runWith Settings.decode? arguments t

end CircuitCalls

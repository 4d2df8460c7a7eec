import CircuitCalls.Circuit.Json
import CircuitCalls.Command.Files
import CircuitCalls.Emission
import CircuitCalls.Qasm.Elaboration

/-!
# The host of a command

A command reads files, writes files and prints. It does so by the operations of a `Host`, in a monad of
its own, and it may fail with a `CommandError` at any step; what has been done before stays done.
-/

namespace CircuitCalls

/-- Why a command fails. -/
inductive CommandError where
  | severalInputsForOutput
  | unreadableConfig (path : String) (fault : FileFault)
  | invalidConfig (path : String)
  | fileNotFound (path : String)
  | unreadableFile (path : String) (fault : FileFault)
  | invalidCircuit (path : String) (error : ReadError)
  | invalidSource (path : String) (error : Qasm.Error)
  | notCompiled (path : String) (error : EmitError)
  | noFileName (path : String)
  | sharedTarget (path : String)
  | directoryNotMade (path : String) (fault : FileFault)
  | fileNotWritten (path : String) (fault : FileFault)

def ReadError.message : ReadError → String
  | notACircuit => "not a circuit"
  | invalid e => e.message

def CommandError.message : CommandError → String
  | severalInputsForOutput => "--output takes a single input; use --out-dir for several"
  | unreadableConfig path fault => s!"Failed to read config: {path}: {fault.message}"
  | invalidConfig path => s!"Invalid config file: {path}"
  | fileNotFound path => s!"File not found: {path}"
  | unreadableFile path fault => s!"Failed to read file: {path}: {fault.message}"
  | invalidCircuit path e => s!"Invalid circuit JSON in {path}: {e.message}"
  | invalidSource path e => s!"Parse error in {path}: {e.message}"
  | notCompiled path e => s!"Failed to compile {path}: {e.message}"
  | noFileName path => s!"Input has no file name: {path}"
  | sharedTarget path => s!"Two inputs would both write {path}; rename one of them"
  | directoryNotMade path fault => s!"Failed to create directory: {path}: {fault.message}"
  | fileNotWritten path fault => s!"Failed to write file: {path}: {fault.message}"

/-- The operations that only look at files. -/
structure Sources (m : Type → Type) where
  /-- Whether a path leads to something. -/
  has : String → m Bool
  /-- The text in a file. -/
  read : String → m (Except FileFault String)

/-- Everything that a command can do. -/
structure Host (m : Type → Type) extends Sources m where
  /-- Makes a directory and those around it. -/
  makeDirectory : String → m (Except FileFault Unit)
  /-- Writes a text to a file. -/
  write : String → String → m (Except FileFault Unit)
  /-- Adds to standard output. -/
  print : String → m Unit
  /-- Adds to the error stream. -/
  report : String → m Unit

abbrev Contents := Sources (Except CommandError)

def FileTree.sources (t : FileTree) : Contents where
  has path := .ok (t.has path)
  read path := .ok (t.read path)

end CircuitCalls

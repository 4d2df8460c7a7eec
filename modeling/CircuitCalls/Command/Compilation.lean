import CircuitCalls.Call.Json
import CircuitCalls.Call.Text
import CircuitCalls.Command.Arguments
import CircuitCalls.Command.Host
import CircuitCalls.Settings.Yaml

/-!
# Compiling files

`EmitRequest.execute` does what a request to compile asks for, step by step. It checks the request, reads
the settings and compiles all inputs before it writes or prints anything; the names of the outputs are
found before the first directory is made.
-/

namespace CircuitCalls

variable {m : Type → Type} [Monad m] [MonadExcept CommandError m]

/-! ## Loading and compiling -/

/-- The circuit of a file, in JSON if its name ends so and otherwise in OpenQASM, as `load_circuit` reads
it. -/
def loadCircuit (sources : Sources m) (path : String) : m Circuit := do
  unless ← sources.has path do
    throw (.fileNotFound path)
  match ← sources.read path with
  | .error fault => throw (.unreadableFile path fault)
  | .ok source =>
    if (fileExtension? path).map lowercase = some "json" then
      match Circuit.read source with
      | .ok c => return c
      | .error e => throw (.invalidCircuit path e)
    else
      match Qasm.readCircuit source with
      | .ok c => return c
      | .error e => throw (.invalidSource path e)

/-- How the text of a settings file is understood. -/
abbrev SettingsDecoder := String → Option Settings

/-- The settings of a file, or the usual ones without a file (`load_config`). -/
def loadSettings (sources : Sources m) (decode : SettingsDecoder) : Option String → m Settings
  | none => return {}
  | some path => do
    match ← sources.read path with
    | .error fault => throw (.unreadableConfig path fault)
    | .ok source =>
      match decode source with
      | some settings => return settings
      | none => throw (.invalidConfig path)

/-- The settings with the choices of the command line on top (`resolve_config`). -/
def EmitRequest.settings (r : EmitRequest) (file : Settings) : Settings :=
  { discovery := r.discovery.getD file.discovery
    indentWidth := r.indentWidth.getD file.indentWidth
    defaultLoopVar := r.loopVar.getD file.defaultLoopVar
    simulator := r.simulator.getD file.simulator }

def OutputFormat.render (settings : Settings) (p : Program) : OutputFormat → String
  | text => p.text settings
  | json => p.write ++ "\n"

/-- The end of the names of files in this format (`extension`). -/
def OutputFormat.fileEnding : OutputFormat → String
  | text => "sim"
  | json => "json"

/-- The output for one input (`compile_file`). -/
def compileFile (sources : Sources m) (settings : Settings) (format : OutputFormat) (path : String) :
    m String := do
  let circuit ← loadCircuit sources path
  match circuit.emit settings with
  | .ok p => return format.render settings p
  | .error e => throw (.notCompiled path e)

/-- The result of a task that may fail. -/
def attempt {α : Type} (task : m α) : m (Except CommandError α) :=
  tryCatch (do return .ok (← task)) fun e => return .error e

/-- The results of tasks by the place of each task, whatever the order in which they finished. The
first task that failed decides the error. -/
def gather {ε α : Type} (finished : List (Nat × Except ε α)) : Except ε (List α) :=
  (finished.mergeSort fun a b => a.1 ≤ b.1).mapM (·.2)

/-- The outputs for all inputs, in the order of the inputs. Every input is tried, also after one that does
not compile. -/
def compileAll (sources : Sources m) (settings : Settings) (format : OutputFormat) (paths : List String) :
    m (List String) := do
  let finished ← paths.zipIdx.mapM fun (path, place) => do
    return (place, ← attempt (compileFile sources settings format path))
  ofExcept (gather finished)

/-! ## Targets -/

def targetOf (directory : String) (format : OutputFormat) (input : String) : Except CommandError String :=
  match fileStem? input with
  | some stem => .ok (joinPath directory (stem ++ "." ++ format.fileEnding))
  | none => .error (.noFileName input)

/-- The files for inputs in a directory, which have to be distinct from each other and from `taken`
(`output_paths`). -/
def targetsOf (directory : String) (format : OutputFormat) (taken : List String) :
    List String → Except CommandError (List String)
  | [] => .ok []
  | input :: rest => do
    let target ← targetOf directory format input
    if target ∈ taken then
      throw (.sharedTarget target)
    let targets ← targetsOf directory format (target :: taken) rest
    return target :: targets

/-! ## The command -/

/-- Writes an output and tells so (`write_output`). -/
def writeOutput (host : Host m) (path content : String) : m Unit := do
  match ← host.write path content with
  | .error fault => throw (.fileNotWritten path fault)
  | .ok () => host.report s!"✓ Wrote {path}\n"

namespace EmitRequest

/-- A single file holds the output of a single input. -/
def checkInputs (r : EmitRequest) : Except CommandError Unit :=
  match r.destination with
  | .file _ => if 1 < r.inputs.length then .error .severalInputsForOutput else .ok ()
  | _ => .ok ()

def outputs (sources : Sources m) (decode : SettingsDecoder) (r : EmitRequest) : m (List String) := do
  ofExcept r.checkInputs
  let file ← loadSettings sources decode r.config
  compileAll sources (r.settings file) r.format r.inputs

/-- Brings outputs to where they are wanted. Several outputs on standard output stand below the names of
their inputs. -/
def deliver (host : Host m) (r : EmitRequest) (rendered : List String) : m Unit := do
  match r.destination with
  | .file path => writeOutput host path (String.join rendered)
  | .directory directory =>
    let targets ← ofExcept (targetsOf directory r.format [] r.inputs)
    match ← host.makeDirectory directory with
    | .error fault => throw (.directoryNotMade directory fault)
    | .ok () => (targets.zip rendered).forM fun (target, content) => writeOutput host target content
  | .standardOutput =>
    match rendered with
    | [single] => host.print single
    | _ => (r.inputs.zip rendered).forM fun (input, content) => do
      host.print ("// " ++ input ++ "\n")
      host.print content

/-- Carries a request out, as `execute` of the command `emit` does. -/
def execute (host : Host m) (decode : SettingsDecoder) (r : EmitRequest) : m Unit := do
  let rendered ← r.outputs host.toSources decode
  r.deliver host rendered

end EmitRequest

end CircuitCalls

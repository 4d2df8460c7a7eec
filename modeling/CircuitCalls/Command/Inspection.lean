import CircuitCalls.Command.Compilation

/-!
# Other commands

A circuit can be shown with its registers and the numbers of its bits; and the program tells about itself.
-/

namespace CircuitCalls

def rightAligned (n : Nat) : String :=
  let digits := toString n
  String.ofList (List.replicate (4 - digits.length) ' ') ++ digits

def numberLines {kind : BitKind} (n : Numbering kind) : List String :=
  n.bits.zipIdx.map fun (b, i) => s!"  {rightAligned i} -> {b.text}"

/-- The numbers of bits after an empty line and a heading. -/
def numberTable {kind : BitKind} (word : String) (discovery : Discovery) (n : Numbering kind) : List String :=
  "" :: s!"{word} numbering ({discovery.name}, {n.size} total):" :: numberLines n

/-- What is shown of a circuit. -/
structure Inspection where
  name : String
  operations : Nat
  qregs : List (Register .quantum)
  cregs : List (Register .classical)
  discovery : Discovery
  qubits : Numbering .quantum
  clbits : Numbering .classical

/-- What is shown of a circuit under a strategy. -/
def Circuit.inspection (c : Circuit) (discovery : Discovery) : Inspection :=
  let n := c.numbering discovery
  ⟨c.name, c.operationCount, c.qregs, c.cregs, discovery, n.qubits, n.clbits⟩

/-- The lines on the circuit and its registers. -/
def Inspection.opening (i : Inspection) : List String :=
  [s!"Circuit {i.name} ({i.operations} operations at top level)", "", "Registers:"] ++
    (i.qregs.map fun r => s!"  qubit[{r.size.toNat}] {r.name}") ++
    (i.cregs.map fun r => s!"  bit[{r.size.toNat}]   {r.name}")

def Inspection.lines (i : Inspection) : List String :=
  i.opening ++ numberTable "Qubit" i.discovery i.qubits ++ numberTable "Clbit" i.discovery i.clbits

def Inspection.text (i : Inspection) : String := String.join (i.lines.map (· ++ "\n"))

def aboutText : String :=
  String.join
    ["Simcall v0.4.0 - quantum circuit to simulator call compiler\n",
      "\n",
      "Components:\n",
      "  simcall-ir       Circuit tree representation\n",
      "  simcall-qasm3    OpenQASM 3 front-end\n",
      "  simcall-codegen  Simulator call emission\n",
      "  simcall-cli      Command-line interface\n",
      "\n",
      "License: Apache-2.0\n"]

def helpText : String :=
  String.join
    ["Usage: simcall [-v] <COMMAND>\n",
      "\n",
      "Commands:\n",
      "  emit INPUTS...   Compile circuits into simulator call text\n",
      "  inspect INPUT    Show the registers and bit numbering of a circuit\n",
      "  version          Show version information\n"]

/-- Carries a request out by the `execute` of its command. -/
def Request.execute {m : Type → Type} [Monad m] [MonadExcept CommandError m] (host : Host m)
    (decode : SettingsDecoder) : Request → m Unit
  | emit r => r.execute host decode
  | inspect input discovery => do
    let c ← loadCircuit host.toSources input
    host.print (c.inspection discovery).text
  | about => host.print aboutText
  | versionNumber => host.print "simcall 0.4.0\n"
  | help => host.print helpText

end CircuitCalls

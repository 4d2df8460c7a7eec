import CircuitCalls.Json.Value
import CircuitCalls.Json.Token

/-!
# Reading JSON

The reader takes one token at a time and keeps the arrays and objects that are still open on a
stack. No more than 127 of them may be open at once.
-/

namespace CircuitCalls

namespace Json

/-- An open array or object. What it holds so far is kept in reverse; an object also keeps the key
whose value is being read. -/
inductive Frame where
  | array (items : List Json)
  | object (fields : List (String × Json)) (key : Option String)

/-- What may come next. -/
inductive Expecting where
  /-- A value. -/
  | value
  /-- A value, or the end of the array that has just been opened. -/
  | valueOrClose
  /-- The key of a field. -/
  | key
  /-- The key of a field, or the end of the object that has just been opened. -/
  | keyOrClose
  /-- The colon after a key. -/
  | colon
  /-- What follows a complete value. -/
  | after (value : Json)

/-- The most arrays and objects that may be open at once. -/
def maxDepth : Nat := 127

/-- Opens an array or object, unless too many are open already. -/
def open? (frame : Frame) (next : Expecting) (stack : List Frame) : Option (Expecting × List Frame) :=
  if stack.length < maxDepth then some (next, frame :: stack) else none

def startValue? (stack : List Frame) : Token → Option (Expecting × List Frame)
  | .null => some (.after .null, stack)
  | .bool b => some (.after (.bool b), stack)
  | .int n => some (.after (.int n), stack)
  | .float x => some (.after (.float x), stack)
  | .str s => some (.after (.str s), stack)
  | .openArray => open? (.array []) .valueOrClose stack
  | .openObject => open? (.object [] none) .keyOrClose stack
  | _ => none

def continue? (value : Json) : List Frame → Token → Option (Expecting × List Frame)
  | .array items :: stack, .comma => some (.value, .array (value :: items) :: stack)
  | .array items :: stack, .closeArray => some (.after (.arr (value :: items).reverse), stack)
  | .object fields (some key) :: stack, .comma => some (.key, .object ((key, value) :: fields) none :: stack)
  | .object fields (some key) :: stack, .closeObject =>
    some (.after (.obj ((key, value) :: fields).reverse), stack)
  | _, _ => none

def startKey? : List Frame → Token → Option (Expecting × List Frame)
  | .object fields _ :: stack, .str key => some (.colon, .object fields (some key) :: stack)
  | _, _ => none

def read? : Expecting → List Frame → Token → Option (Expecting × List Frame)
  | .value, stack, token => startValue? stack token
  | .valueOrClose, .array _ :: stack, .closeArray => some (.after (.arr []), stack)
  | .valueOrClose, stack, token => startValue? stack token
  | .key, stack, token => startKey? stack token
  | .keyOrClose, .object _ _ :: stack, .closeObject => some (.after (.obj []), stack)
  | .keyOrClose, stack, token => startKey? stack token
  | .colon, stack, .colon => some (.value, stack)
  | .colon, _, _ => none
  | .after value, stack, token => continue? value stack token

/-- Reads the rest of a text in which `stack` is open. -/
def readFrom? : Expecting → List Frame → List Token → Option Json
  | .after value, [], [] => some value
  | _, _, [] => none
  | expecting, stack, token :: rest => do
    let (expecting, stack) ← read? expecting stack token
    readFrom? expecting stack rest

/-- The value that a JSON text writes. -/
def parse? (text : String) : Option Json := do
  let tokens ← tokens? text
  readFrom? .value [] tokens

end Json

end CircuitCalls

import CircuitCalls.Table
import CircuitCalls.Text.Pieces

/-!
# Paths and files

`FileTree` is a picture of a file system. A file has a content, which need not be text, and stands under
one name or under several. Other names are those of directories and symbolic links. A path is followed
name by name, from the root if it starts with a slash and from the working directory otherwise, and on
through every link on its way. Reading, writing and making directories fail for the reasons that an
operating system has; where it refuses access for reasons of its own is part of the picture.
-/

namespace CircuitCalls

/-! ## Paths -/

/-- The names in a path. A slash at an end gives an empty name there. -/
def pathNames (path : String) : List String := (pieces '/' path.toList).map String.ofList

/-- Whether a name leads nowhere else. -/
def staysPut (name : String) : Bool := name == "" || name == "."

/-- The last name of a path, if it names a file. -/
def fileName? (path : String) : Option String := do
  let last ← ((pathNames path).filter (!staysPut ·)).getLast?
  if last = ".." then none else some last

/-- A file name as its stem and its extension. A dot at the start belongs to the stem. -/
def splitName (name : String) : String × Option String :=
  let backwards := name.toList.reverse
  let extension := backwards.takeWhile (· != '.')
  match backwards.drop extension.length with
  | '.' :: c :: stem => (String.ofList (c :: stem).reverse, some (String.ofList extension.reverse))
  | _ => (name, none)

/-- The file name of a path without its extension. -/
def fileStem? (path : String) : Option String := (fileName? path).map fun name => (splitName name).1

def fileExtension? (path : String) : Option String := (fileName? path).bind fun name => (splitName name).2

/-- A name inside a directory. -/
def joinPath (directory name : String) : String :=
  if directory.toList.getLast?.getD '/' = '/' then directory ++ name else directory ++ "/" ++ name

/-! ## Files -/

/-- Why the file system refuses. -/
inductive FileFault where
  | notFound
  | alreadyExists
  | notADirectory
  | isADirectory
  | tooManyLinks
  | notText
  | other (cause : String)
deriving DecidableEq, Repr

def FileFault.message : FileFault → String
  | notFound => "No such file or directory (os error 2)"
  | alreadyExists => "File exists (os error 17)"
  | notADirectory => "Not a directory (os error 20)"
  | isADirectory => "Is a directory (os error 21)"
  | tooManyLinks => "Too many levels of symbolic links (os error 40)"
  | notText => "stream did not contain valid UTF-8"
  | other cause => cause

/-- What is in a file: a text, or bytes that are none. -/
inductive Content where
  | text (text : String)
  | binary (bytes : List UInt8)
deriving DecidableEq

/-- What a name stands for. Names with the same number stand for the same file. -/
inductive Entry where
  | file (id : Nat)
  | directory
  | link (target : String)
deriving DecidableEq

/-- What is done at a place. -/
inductive Access where
  | search
  | read
  | write

/-- Entries by their names from the root, the contents of files, where the system refuses access for
reasons of its own, and the directory where relative paths start. -/
structure FileTree where
  entries : Table (List String) Entry
  contents : Table Nat Content
  refuses : List String → Access → Option FileFault
  workingDirectory : List String

namespace FileTree

/-- A tree of texts at relative paths, with its root as the working directory. -/
def ofFiles (files : List (String × String)) : FileTree where
  entries := ⟨files.zipIdx.map fun file => (pathNames file.1.1, .file file.2)⟩
  contents := ⟨files.zipIdx.map fun file => (file.2, .text file.1.2)⟩
  refuses _ _ := none
  workingDirectory := []

def fileAt? (t : FileTree) (place : List String) : Option Nat :=
  match t.entries.get? place with
  | some (.file id) => some id
  | _ => none

def link? (t : FileTree) (place : List String) : Option String :=
  match t.entries.get? place with
  | some (.link target) => some target
  | _ => none

/-- The content of the file at a place. -/
def file? (t : FileTree) (place : List String) : Option Content :=
  (t.fileAt? place).map fun id => (t.contents.get? id).getD (.text "")

/-- Whether there is a directory at a place. All places around an entry are directories. -/
def isDirectory (t : FileTree) (place : List String) : Bool :=
  place.isEmpty || t.entries.entries.any fun (other, entry) =>
    place.isPrefixOf other && (place != other || entry == .directory)

/-! ## Following paths -/

/-- How many symbolic links may be followed on the way of one path. -/
def linkLimit : Nat := 40

/-- The place where a path starts that is met at a place. -/
def startFrom (place : List String) (path : String) : List String :=
  if path.toList.head? = some '/' then [] else place

def enter (t : FileTree) (place : List String) (name : String) : Except FileFault (List String) :=
  if t.isDirectory place then
    match t.refuses place .search with
    | some fault => .error fault
    | none =>
      if staysPut name then .ok place
      else if name = ".." then .ok place.dropLast
      else .ok (place ++ [name])
  else if (t.fileAt? place).isSome then .error .notADirectory
  else .error .notFound

/-- Goes from a place to a name in it, and on from there if the name is a symbolic link. The number of
links that may still be followed goes along; it is never more than `depth`. -/
def step (t : FileTree) (depth : Nat) (state : List String × Nat) (name : String) :
    Except FileFault (List String × Nat) := do
  let next ← t.enter state.1 name
  match t.link? next with
  | none => return (next, state.2)
  | some target =>
    match depth, state.2 with
    | depth + 1, links + 1 => (pathNames target).foldlM (t.step depth) (startFrom state.1 target, links)
    | _, _ => throw .tooManyLinks

def follow (t : FileTree) (place names : List String) : Except FileFault (List String × Nat) :=
  names.foldlM (t.step linkLimit) (place, linkLimit)

/-- The place that a path leads to, which no link stands at. -/
def locate (t : FileTree) (path : String) : Except FileFault (List String) :=
  if path = "" then .error .notFound
  else (t.follow (startFrom t.workingDirectory path) (pathNames path)).map (·.1)

/-! ## Reading and writing -/

/-- Whether a path leads to something. -/
def has (t : FileTree) (path : String) : Bool :=
  match t.locate path with
  | .ok place => t.isDirectory place || (t.fileAt? place).isSome
  | .error _ => false

def read (t : FileTree) (path : String) : Except FileFault String := do
  let place ← t.locate path
  match t.file? place with
  | none => if t.isDirectory place then throw .isADirectory else throw .notFound
  | some content =>
    match t.refuses place .read, content with
    | some fault, _ => throw fault
    | none, .text text => return text
    | none, .binary _ => throw .notText

def freshFile (t : FileTree) : Nat :=
  t.entries.entries.foldr (fun entry bound => match entry.2 with
    | .file id => max (id + 1) bound
    | _ => bound) 0

/-- Sets the content of the file at a place, and makes a file there if there is none. -/
def put (t : FileTree) (place : List String) (content : Content) : FileTree :=
  match t.fileAt? place with
  | some id => { t with contents := t.contents.insert id content }
  | none =>
    { t with
      entries := t.entries.insert place (.file t.freshFile)
      contents := t.contents.insert t.freshFile content }

/-- Writes a text to a file, which need not exist before. -/
def write (t : FileTree) (path text : String) : Except FileFault FileTree := do
  let names := pathNames path
  if names.getLast? = some "" then
    let (place, _) ← t.follow (startFrom t.workingDirectory path) names.dropLast
    if (t.fileAt? place).isSome then throw .notADirectory else throw .isADirectory
  let place ← t.locate path
  if t.isDirectory place then throw .isADirectory
  match t.refuses place .write with
  | some fault => throw fault
  | none => return t.put place (.text text)

/-- Makes the directories `names` from `place` on, each in the one before it, unless they exist. If one of
them cannot be made, those before it stay. -/
def makeFrom (t : FileTree) (place : List String) : List String → Except FileFault Unit × FileTree
  | [] => (.ok (), t)
  | name :: rest =>
    match t.enter place name with
    | .error fault => (.error fault, t)
    | .ok next =>
      if !t.isDirectory next && (t.entries.get? next).isNone then
        match t.refuses next .write with
        | some fault => (.error fault, t)
        | none => makeFrom { t with entries := t.entries.insert next .directory } next rest
      else
        match t.step linkLimit (place, linkLimit) name with
        | .ok (target, _) =>
          if t.isDirectory target then makeFrom t target rest
          else if rest.isEmpty || (t.fileAt? target).isNone then (.error .alreadyExists, t)
          else (.error .notADirectory, t)
        | .error fault =>
          if rest.isEmpty || fault == .notFound then (.error .alreadyExists, t) else (.error fault, t)

/-- Makes a directory and those around it, unless they exist. -/
def makeDirectory (t : FileTree) (path : String) : Except FileFault Unit × FileTree :=
  t.makeFrom (startFrom t.workingDirectory path) ((pathNames path).filter (!staysPut ·))

/-- The texts that are new or have changed since `before`. -/
def changedSince (t before : FileTree) : List (String × String) :=
  t.entries.entries.filterMap fun (place, _) =>
    match t.file? place with
    | some (.text text) =>
      if before.file? place = some (.text text) then none else some ("/".intercalate place, text)
    | _ => none

end FileTree

end CircuitCalls

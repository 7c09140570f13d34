/-!
# Files

A tree of directories in which a run reads and writes files.  A path is followed
component by component from the root or from the current directory; every
component but the last has to name a directory, and so has the last one if a slash
follows it.  What lies above the current directory is taken to be nothing but
directories.
-/

namespace Scripting

/-- Why a file cannot be used. -/
inductive FileProblem where
  | missing
  | isDirectory
  | notDirectory
  | nameTooLong
  | nameHoldsNul
  | notText
  deriving DecidableEq, Inhabited

/-- The wording of a problem. -/
def FileProblem.message : FileProblem → String
  | missing => "No such file or directory (os error 2)"
  | isDirectory => "Is a directory (os error 21)"
  | notDirectory => "Not a directory (os error 20)"
  | nameTooLong => "File name too long (os error 36)"
  | nameHoldsNul => "file name contained an unexpected NUL byte"
  | notText => "stream did not contain valid UTF-8"

/-- Where following a path begins. -/
inductive Anchor where
  | root
  /-- So many levels above the current directory. -/
  | above (levels : Nat)
  deriving DecidableEq, Inhabited

/-- A place in the tree: the names to follow from an anchor. -/
structure Place where
  anchor : Anchor
  names : List String
  deriving DecidableEq, Inhabited

namespace Place

/-- The current directory. -/
def current : Place := ⟨.above 0, []⟩

/-- The directory that holds this place. -/
def parent (place : Place) : Place :=
  match place.names, place.anchor with
  | [], .root => place
  | [], .above levels => ⟨.above (levels + 1), []⟩
  | names, anchor => ⟨anchor, names.dropLast⟩

/-- What a directory holds under a name. -/
def enter (place : Place) (name : String) : Place :=
  ⟨place.anchor, place.names ++ [name]⟩

/-- The place to which one component of a path leads: a dot stays, and two dots lead to
the directory above. -/
def step (place : Place) (name : String) : Place :=
  if name = "." then place
  else if name = ".." then place.parent
  else place.enter name

end Place

/-- What stands at a place. -/
inductive Entry where
  | file (content : ByteArray)
  | directory
  deriving Inhabited

/-- The tree, as the list of what stands in it. -/
structure Files where
  entries : List (Place × Entry)
  deriving Inhabited

namespace Path

/-- The names in a path. -/
def components (path : String) : List String :=
  ((path.splitOn "/").filter (· ≠ ""))

/-- Whether a path begins at the root. -/
def isAbsolute (path : String) : Bool :=
  path.toList.head? == some '/'

/-- Whether a path ends with a slash. -/
def endsWithSlash (path : String) : Bool :=
  path.toList.getLast? == some '/'

/-- A path followed from a directory that is itself given as a path. -/
def join (directory path : String) : String :=
  if isAbsolute path || directory.isEmpty then path
  else if endsWithSlash directory then directory ++ path
  else directory ++ "/" ++ path

/-- The place where following a path begins. -/
def start (path : String) : Place :=
  if isAbsolute path then ⟨.root, []⟩ else Place.current

/-- The greatest number of bytes in a path. -/
def longestPath : Nat := 4095

/-- The greatest number of bytes in one name. -/
def longestName : Nat := 255

/-- A path that can be followed at all. -/
def checked (path : String) : Except FileProblem Unit :=
  if path.toList.contains '\x00' then .error .nameHoldsNul
  else if path.isEmpty then .error .missing
  else if longestPath < path.utf8ByteSize then .error .nameTooLong
  else .ok ()

end Path

namespace Files

/-- A tree without files. -/
def empty : Files := ⟨[]⟩

/-- What stands at a place. -/
def get? (files : Files) (place : Place) : Option Entry :=
  if place.names.isEmpty then some .directory
  else (files.entries.find? (·.1 = place)).map (·.2)

/-- Puts something at a place, instead of what stood there. -/
def put (files : Files) (place : Place) (entry : Entry) : Files :=
  ⟨(place, entry) :: files.entries.filter (·.1 ≠ place)⟩

/-- That a directory stands at a place. -/
def expectDirectory (files : Files) (place : Place) : Except FileProblem Unit :=
  match files.get? place with
  | none => .error .missing
  | some (.file _) => .error .notDirectory
  | some .directory => .ok ()

/-- Follows one component from a place, which has to be a directory. -/
def follow (files : Files) (place : Place) (name : String) : Except FileProblem Place := do
  files.expectDirectory place
  if Path.longestName < name.utf8ByteSize then throw .nameTooLong
  return place.step name

/-- The place to which components lead; something has to stand at all but the
last. -/
def followAll (files : Files) (place : Place) (names : List String) : Except FileProblem Place :=
  names.foldlM files.follow place

/-- What stands where a path leads. -/
def find (files : Files) (path : String) : Except FileProblem Entry := do
  Path.checked path
  let place ← files.followAll (Path.start path) (Path.components path)
  match files.get? place with
  | none => throw .missing
  | some .directory => return .directory
  | some (.file content) =>
      if Path.endsWithSlash path then throw .notDirectory else return .file content

/-- Whether a path leads to a file. -/
def isFile (files : Files) (path : String) : Bool :=
  match files.find path with
  | .ok (.file _) => true
  | _ => false

/-- The text in the file to which a path leads. -/
def read (files : Files) (path : String) : Except FileProblem String := do
  match ← files.find path with
  | .directory => throw .isDirectory
  | .file content =>
      match String.fromUTF8? content with
      | none => throw .notText
      | some text => return text

/-- The place of the file that a path names, whether or not there is one already. A path
that can only name a directory is refused before its last component is looked at. -/
def target (files : Files) (path : String) : Except FileProblem Place := do
  Path.checked path
  match (Path.components path).getLast? with
  | none => throw .isDirectory
  | some name =>
      let directory ← files.followAll (Path.start path) (Path.components path).dropLast
      files.expectDirectory directory
      if name = "." ∨ name = ".." ∨ Path.endsWithSlash path then throw .isDirectory
      let place ← files.follow directory name
      match files.get? place with
      | some .directory => throw .isDirectory
      | _ => return place

/-- The tree after a text has been written to the file that a path names. -/
def write (files : Files) (path : String) (text : String) : Except FileProblem Files := do
  let place ← files.target path
  return files.put place (.file text.toUTF8)

/-- Walks along directories, adding those that are missing; gives the place reached. -/
def withDirectories (files : Files) (place : Place) : List String → Files × Place
  | [] => (files, place)
  | name :: names =>
      let next := place.step name
      match files.get? next with
      | none => (files.put next .directory).withDirectories next names
      | some _ => files.withDirectories next names

/-- Adds what stands at the end of a path, and the directories on the way to it. -/
def install (files : Files) (path : String) (entry : Entry) : Files :=
  let names := Path.components path
  let (files, directory) := files.withDirectories (Path.start path) names.dropLast
  match names.getLast? with
  | none => files
  | some name => files.put (directory.step name) entry

end Files
end Scripting

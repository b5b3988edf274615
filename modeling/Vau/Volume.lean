/-! Files and folders, and what reading at a path finds among them. -/

set_option autoImplicit false

namespace Vau

inductive FileFault where
  | missing
  | denied
  | notDirectory
  | directory
  | nameTooLong
  | notText
  deriving DecidableEq, Repr

def FileFault.message : FileFault → String
  | missing =>
    "Os \x7b code: 2, kind: NotFound, message: \"No such file or directory\" \x7d"
  | denied => "Os \x7b code: 13, kind: PermissionDenied, message: \"Permission denied\" \x7d"
  | notDirectory => "Os \x7b code: 20, kind: NotADirectory, message: \"Not a directory\" \x7d"
  | directory => "Os \x7b code: 21, kind: IsADirectory, message: \"Is a directory\" \x7d"
  | nameTooLong => "Os \x7b code: 36, kind: InvalidFilename, message: \"File name too long\" \x7d"
  | notText =>
    "Error \x7b kind: InvalidData, message: \"stream did not contain valid UTF-8\" \x7d"

abbrev Location := List String

/-- Where one name of a path leads. The root is its own parent. -/
def Location.follow (location : Location) (name : String) : Location :=
  if name = "" ∨ name = "." then location
  else if name = ".." then location.dropLast
  else location ++ [name]

structure Volume where
  files : List (Location × String)
  folders : List Location
  working : Location

namespace Volume

/-- In bytes. -/
def longestName : Nat := 255

/-- In bytes. -/
def longestPath : Nat := 4095

/-- Whatever lies on the way to a file or a folder is a folder. -/
def isFolder (v : Volume) (location : Location) : Bool :=
  location.isPrefixOf v.working || v.folders.any location.isPrefixOf ||
    v.files.any fun file => location.isPrefixOf file.1.dropLast

def has (v : Volume) (location : Location) : Bool :=
  v.isFolder location || (v.files.lookup location).isSome

def start (v : Volume) (path : String) : Location :=
  if path.startsWith "/" then [] else v.working

/-- Every name is looked up in a folder, also the empty one at the end of a path such as `a/`. -/
def walk (v : Volume) (location : Location) : List String → Except FileFault Location
  | [] => .ok location
  | name :: rest =>
    if !v.isFolder location then .error .notDirectory
    else if longestName < name.utf8ByteSize then .error .nameTooLong
    else if !v.has (location.follow name) then .error .missing
    else v.walk (location.follow name) rest

def locate (v : Volume) (path : String) : Except FileFault Location :=
  if path = "" then .error .missing
  else if longestPath < path.utf8ByteSize then .error .nameTooLong
  else v.walk (v.start path) (path.splitOn "/")

def read (v : Volume) (path : String) : Except FileFault String := do
  let location ← v.locate path
  match v.files.lookup location with
  | some text => .ok text
  | none => .error .directory

def write (v : Volume) (path text : String) : Volume :=
  { v with files := ((path.splitOn "/").foldl Location.follow (v.start path), text) :: v.files }

end Volume

end Vau

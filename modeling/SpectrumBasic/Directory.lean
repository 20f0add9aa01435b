import SpectrumBasic.Bytes
import SpectrumBasic.Text.Quoted

/-!
# Directories

The files a tool can reach, as a value: a `Directory` maps locations to contents, and a location is
the list of names that leads from the working directory to a file; one outside it starts with
`..`, or with `/` for the top of the disk. Paths are walked name by name, so a path through
something that is no folder fails as it does on a disk.

`Directory.read` and `Directory.write` are all the tools need; `Directory.changes` tells which
files became different.
-/

namespace SpectrumBasic

/-! ## Paths -/

namespace Path

/-- The names of a path between its slashes, empty ones included. -/
def names (path : String) : List String :=
  (Text.pieces (· = '/') path.toList).map String.ofList

/-- The slashes a path starts with that matter: two are not the same as one, more are. -/
def root (path : String) : String :=
  match (path.toList.takeWhile (· = '/')).length with
  | 0 => ""
  | 2 => "//"
  | _ => "/"

def hasNull (path : String) : Bool := path.toList.contains '\x00'

/-- The path without the names that lead nowhere; names that lead upwards stay. -/
def normalize (path : String) : String :=
  let kept := (names path).filter fun name => name != "" && name != "."
  let joined := root path ++ "/".intercalate kept
  if joined.isEmpty then "." else joined

end Path

/-! ## Directories -/

/-- The files within reach of a tool. -/
structure Directory where
  files : List (List String × Bytes) := []
  /-- The folders, those that only hold files apart. -/
  folders : List (List String) := []
  deriving DecidableEq, Repr

/-- Why a file cannot be opened. -/
inductive FileProblem where
  | missing
  | isFolder
  | notFolder
  | nameTooLong
  deriving DecidableEq, Repr

/-- A path that cannot be opened. -/
structure FileFault where
  problem : FileProblem
  path : String
  deriving DecidableEq, Repr

namespace FileProblem

/-- The number of a problem. -/
def number : FileProblem → Nat
  | missing => 2
  | isFolder => 21
  | notFolder => 20
  | nameTooLong => 36

/-- A problem in words. -/
def description : FileProblem → String
  | missing => "No such file or directory"
  | isFolder => "Is a directory"
  | notFolder => "Not a directory"
  | nameTooLong => "File name too long"

end FileProblem

def FileFault.message (fault : FileFault) : String :=
  let shown := String.ofList (Text.quoted fault.path.toList)
  s!"[Errno {fault.problem.number}] {fault.problem.description}: {shown}"

namespace Directory

def contents? (dir : Directory) (place : List String) : Option Bytes := dir.files.lookup place

/-- Whether a place is a folder: the working directory, one outside it, a listed one or one that
something lies in. -/
def isFolder (dir : Directory) (place : List String) : Bool :=
  place.all (· == "..") || place == ["/"]
    || dir.folders.any (place.isPrefixOf ·)
    || dir.files.any fun (file, _) => place.isPrefixOf file && place != file

/-- The place a name leads to. -/
def enter (place : List String) (name : String) : List String :=
  if name == "" || name == "." then place
  else if name == ".." then
    if place == ["/"] then place
    else if place.all (· == "..") then place ++ [".."]
    else place.dropLast
  else place ++ [name]

def nameLimit : Nat := 255

def pathLimit : Nat := 4095

/-- The place that names lead to from a place. Every place on the way has to be a folder, and a name
is looked at only once its folder is there. -/
def walk (dir : Directory) (place : List String) : List String → Except FileProblem (List String)
  | [] => .ok place
  | name :: rest =>
    if dir.isFolder place then
      if name.utf8ByteSize ≤ nameLimit then walk dir (enter place name) rest
      else .error .nameTooLong
    else if (dir.contents? place).isSome then .error .notFolder
    else .error .missing

/-- The place a path leads to from the working directory. -/
def locate (dir : Directory) (path : String) : Except FileProblem (List String) :=
  if path.isEmpty then .error .missing
  else if pathLimit < path.utf8ByteSize then .error .nameTooLong
  else walk dir (if path.toList.head? = some '/' then ["/"] else []) (Path.names path)

/-- Whether a path leads to a folder. -/
def namesFolder (dir : Directory) (path : String) : Bool :=
  match dir.locate path with
  | .ok place => dir.isFolder place
  | .error _ => false

/-- The contents of the file that a path leads to. -/
def read (dir : Directory) (path : String) : Except FileFault Bytes :=
  match dir.locate path with
  | .error problem => .error ⟨problem, path⟩
  | .ok place =>
    if dir.isFolder place then .error ⟨.isFolder, path⟩
    else match dir.contents? place with
      | some bytes => .ok bytes
      | none => .error ⟨.missing, path⟩

def put (dir : Directory) (place : List String) (bytes : Bytes) : Directory :=
  { dir with files := (place, bytes) :: dir.files.filter fun (file, _) => file != place }

/-- The directory after the file that a path leads to was given contents, whether it was there
before or not. -/
def write (dir : Directory) (path : String) (bytes : Bytes) : Except FileFault Directory :=
  match dir.locate path with
  | .error problem => .error ⟨problem, path⟩
  | .ok place =>
    if dir.isFolder place then .error ⟨.isFolder, path⟩ else .ok (dir.put place bytes)

/-- The files that are new or have new contents. -/
def changes (before after : Directory) : List (List String × Bytes) :=
  after.files.filter fun (file, bytes) => before.contents? file != some bytes

/-- Whether a place lies within the working directory. -/
def isInside (place : List String) : Bool :=
  place.head? != some ".." && place.head? != some "/"

/-- A path that leads to a place. -/
def pathTo : List String → String
  | "/" :: names => "/" ++ "/".intercalate names
  | names => "/".intercalate names

end Directory

end SpectrumBasic

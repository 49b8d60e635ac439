import AtsEndpoint.Tool.Outcome

/-!
# Directories

A directory holds files under their names and nothing else. A path is taken
apart at its slashes and followed from the directory: a dot or an empty part
stays where it is, and nothing leads on from a file. Paths and their parts are
limited in length.
-/

namespace AtsEndpoint.Tool

/-- Files under their names. -/
structure Directory where
  /-- The files, the last written first. -/
  files : List (String × ByteArray) := []

namespace Directory

/-- The contents of the file of a name. -/
def get? (directory : Directory) (name : String) : Option ByteArray :=
  directory.files.lookup name

/-- Write a file, in place of one that has the name. -/
def put (directory : Directory) (name : String) (contents : ByteArray) : Directory :=
  ⟨(name, contents) :: directory.files.filter fun file => file.1 ≠ name⟩

/-- The directory in which files are written one after another. -/
def ofFiles (files : List (String × ByteArray)) : Directory :=
  files.foldl (fun directory file => directory.put file.1 file.2) {}

@[simp] theorem get?_put_self (directory : Directory) (name : String) (contents : ByteArray) :
    (directory.put name contents).get? name = some contents := by
  simp [get?, put]

/-- Where a path leads. -/
inductive Place
  /-- The directory. -/
  | here
  /-- A directory outside, of which nothing is known. -/
  | outside
  /-- A file of the directory. -/
  | file (contents : ByteArray)

/-- The number of bytes that a path stays below. -/
def pathLimit : Nat := 4096

/-- The largest number of bytes of one part of a path. -/
def partLimit : Nat := 255

/-- Look a name up in a place that is not a file. -/
def entry (directory : Directory) (place : Place) (name : String) : Except ReadProblem Place :=
  if partLimit < name.utf8ByteSize then .error .nameTooLong
  else
    match place, directory.get? name with
    | .here, some contents => .ok (.file contents)
    | _, _ => .error .notFound

/-- Follow one part of a path. -/
def follow (directory : Directory) (place : Place) (part : String) :
    Except ReadProblem Place :=
  match place with
  | .file _ => .error .notDirectory
  | .here | .outside =>
    if part = "" ∨ part = "." then .ok place
    else if part = ".." then .ok .outside
    else directory.entry place part

/-- The parts of a path, and whether it begins at the root. -/
def parts (path : String) : Bool × List String :=
  match path.splitOn "/" with
  | "" :: rest@(_ :: _) => (true, rest)
  | parts => (false, parts)

/-- Read the file that a path leads to. -/
def read (directory : Directory) (path : String) : Except ReadProblem ByteArray :=
  if path = "" then .error .notFound
  else if pathLimit ≤ path.utf8ByteSize then .error .nameTooLong
  else
    let (rooted, parts) := parts path
    match parts.foldlM directory.follow (if rooted then .outside else .here) with
    | .error problem => .error problem
    | .ok (.file contents) => .ok contents
    | .ok _ => .error .isDirectory

end Directory

end AtsEndpoint.Tool

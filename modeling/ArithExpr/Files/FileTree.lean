import ArithExpr.Files.ReadFault

/-! A tree of directories and files as a value, and the text found under a path in it. A path is
walked from left to right, and the first step that cannot be taken is the fault. -/

namespace ArithExpr

structure FileTree where
  /-- Directories, each as the names on the way to it. The directories above it are there too. -/
  directories : List (List String)
  /-- Files with their bytes. The directories above them are there too. -/
  files : List (List String × ByteArray)

namespace FileTree

/-- Where a walk stands. -/
inductive Place where
  | directory (names : List String)
  /-- A directory above the root of the tree, of which nothing more is known. -/
  | outside
  | file (content : ByteArray)

/-- The longest name, in bytes, that an entry of a directory can have. -/
def nameLimit : Nat := 255

/-- Paths have fewer bytes than this. -/
def pathLimit : Nat := 4096

def components (path : String) : List String := (path.toList.splitOn '/').map String.ofList

def isDirectory (t : FileTree) (names : List String) : Bool :=
  names.isEmpty || t.directories.any names.isPrefixOf || t.files.any (names.isPrefixOf ·.1)

def entry (t : FileTree) (names : List String) : Except ReadFault Place :=
  match t.files.find? (·.1 = names) with
  | some (_, content) => .ok (.file content)
  | none => if t.isDirectory names then .ok (.directory names) else .error .missing

/-- One step of a walk. An empty name and a dot stay where they are, which only a directory allows. -/
def enter (t : FileTree) (place : Place) (name : String) : Except ReadFault Place :=
  match place with
  | .file _ => .error .notDirectory
  | .outside =>
    if name = "" ∨ name = "." ∨ name = ".." then .ok .outside
    else if nameLimit < name.utf8ByteSize then .error .nameTooLong
    else .error .missing
  | .directory names =>
    if name = "" ∨ name = "." then .ok place
    else if name = ".." then .ok (if names = [] then .outside else .directory names.dropLast)
    else if nameLimit < name.utf8ByteSize then .error .nameTooLong
    else t.entry (names ++ [name])

/-- A path that begins with a slash starts above the tree, any other at its root. -/
def start (path : String) : Place :=
  if path.toList.head? = some '/' then .outside else .directory []

def read (t : FileTree) (path : String) : Except ReadFault String :=
  if '\x00' ∈ path.toList then .error .nulInPath
  else if path = "" then .error .missing
  else if pathLimit ≤ path.utf8ByteSize then .error .nameTooLong
  else
    match (components path).foldlM t.enter (start path) with
    | .error fault => .error fault
    | .ok (.file content) =>
      match String.fromUTF8? content with
      | some text => .ok text
      | none => .error .notUtf8
    | .ok _ => .error .isDirectory

end FileTree

end ArithExpr

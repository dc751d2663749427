import TieredCache.Text.Repair

/-!
# Property files

A run names its property files by paths.  `Files` says what each path leads to.
For files held in memory, `FileTree.read` finds that out by walking the names
of the path one after another, from the root or from a working directory.
-/

namespace TieredCache.CommandLine

/-! ## Failures -/

inductive FileError where
  | missing
  | denied
  | notDirectory
  | isDirectory
  | nameTooLong
  | notText
  | other (reason : String)
  deriving DecidableEq, Repr

def FileError.message : FileError → String
  | .missing => "No such file or directory (os error 2)"
  | .denied => "Permission denied (os error 13)"
  | .notDirectory => "Not a directory (os error 20)"
  | .isDirectory => "Is a directory (os error 21)"
  | .nameTooLong => "File name too long (os error 36)"
  | .notText => "stream did not contain valid UTF-8"
  | .other reason => reason

abbrev Files := String → Except FileError String

def decodeFile (content : Bytes) : Except FileError String :=
  match Text.ofUtf8? content with
  | some text => .ok text
  | none => .error .notText

/-! ## Paths -/

def pathNames : List Char → List (List Char)
  | [] => [[]]
  | c :: rest =>
      if c = '/' then [] :: pathNames rest
      else
        match pathNames rest with
        | [] => [[c]]
        | name :: names => (c :: name) :: names

def longestName : Nat := 255

def longestPath : Nat := 4095

/-! ## Trees -/

abbrev Place := List String

def Place.ofNames (names : List (List Char)) : Place := names.map String.ofList

/-- Files by their places, and the directory from which paths are walked that
do not begin with a slash. -/
structure FileTree where
  files : List (Place × Bytes)
  home : Place

inductive Entry where
  | file (content : Bytes)
  | directory
  deriving DecidableEq, Repr

namespace FileTree

/-- The directories are the places above a file, and the working directory with
those above it. -/
def isDirectory (tree : FileTree) (place : Place) : Bool :=
  place.isPrefixOf tree.home ||
    tree.files.any fun (file, _) => place.isPrefixOf file

def entry? (tree : FileTree) (place : Place) : Option Entry :=
  match tree.files.lookup place with
  | some content => some (.file content)
  | none => if tree.isDirectory place then some .directory else none

/-- The place that one name leads to.  Only a directory leads on, by an empty
name or a dot to itself and by two dots to the place above it. -/
def step (tree : FileTree) (place : Place) (name : String) :
    Except FileError Place :=
  match tree.entry? place with
  | none => .error .missing
  | some (.file _) => .error .notDirectory
  | some .directory =>
      if name = "" ∨ name = "." then .ok place
      else if name = ".." then .ok place.dropLast
      else if longestName < name.utf8ByteSize then .error .nameTooLong
      else
        let below := place ++ [name]
        if (tree.entry? below).isSome then .ok below else .error .missing

def walk (tree : FileTree) (place : Place) :
    Place → Except FileError Place
  | [] => .ok place
  | name :: rest =>
      match tree.step place name with
      | .error e => .error e
      | .ok next => tree.walk next rest

def start (tree : FileTree) : List Char → Place
  | '/' :: _ => []
  | _ => tree.home

def find (tree : FileTree) (path : String) : Except FileError Bytes :=
  if longestPath < path.utf8ByteSize then .error .nameTooLong
  else
    let names := Place.ofNames (pathNames path.toList)
    match tree.walk (tree.start path.toList) names with
    | .error e => .error e
    | .ok place =>
        match tree.entry? place with
        | none => .error .missing
        | some .directory => .error .isDirectory
        | some (.file content) => .ok content

def read (tree : FileTree) : Files := fun path =>
  match tree.find path with
  | .error e => .error e
  | .ok content => decodeFile content

end FileTree

end TieredCache.CommandLine

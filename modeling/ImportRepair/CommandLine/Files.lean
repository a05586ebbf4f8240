import ImportRepair.ModulePath

/-!
# Files

A run reads and writes files through a `FileAccess`, which may be that of the operating system or
that of a `FileTree` held in memory.

## Implementation notes

A path is followed name by name from the root of the tree. Every name but the last has to be that
of a directory, and so has the last one when a slash or a dot comes after it. Names and paths have
the greatest lengths that file systems commonly allow.
-/

namespace ImportRepair.CommandLine

/-- How files are read and written. -/
structure FileAccess (m : Type → Type) where
  /-- The text of a file, if it can be read. -/
  read : String → m (Option String)
  /-- Whether there is a file or a directory. -/
  exists? : String → m Bool
  /-- Write the text of a file; the answer tells whether that was possible. -/
  write : String → String → m Bool

/-- Files under a directory, each with the names that lead to it. -/
structure FileTree where
  files : List (List String × String) := []
  deriving DecidableEq, Repr

namespace FileTree

/-- The names in a path, with slashes between them. -/
def pathNames (path : String) : List String := (slashParts path.toList).map String.ofList

/-- The text of the file that names lead to. -/
def text? (t : FileTree) (names : List String) : Option String := t.files.lookup names

/-- Holds for the directory of the tree and for those that files stand in. -/
def isDirectory (t : FileTree) (names : List String) : Bool :=
  names.isEmpty || t.files.any fun f => names.isPrefixOf f.1 && f.1 != names

/-- Follow names from a place in the tree; directories above the tree are not known. -/
def follow (t : FileTree) : List String → List String → Option (List String)
  | place, [] => some place
  | place, name :: names =>
    if t.isDirectory place then
      if name = "" ∨ name = "." then t.follow place names
      else if name = ".." then
        if place = [] then none else t.follow place.dropLast names
      else t.follow (place ++ [name]) names
    else none

/-- The greatest number of bytes in a name. -/
def maxNameSize : Nat := 255

/-- The greatest number of bytes in a path. -/
def maxPathSize : Nat := 4095

/-- Holds for the paths that are neither empty nor too long and begin in the directory of the
tree. -/
def isPath (path : String) : Bool :=
  path != "" && path.toList.head? != some '/' && path.utf8ByteSize ≤ maxPathSize &&
    (pathNames path).all fun name => name.utf8ByteSize ≤ maxNameSize

/-- The place in the tree that a path names. -/
def locate (t : FileTree) (path : String) : Option (List String) :=
  if isPath path then t.follow [] (pathNames path) else none

/-- The text of a file, if the path names one. -/
def read (t : FileTree) (path : String) : Option String := (t.locate path).bind t.text?

/-- Holds when a path names a file or a directory. -/
def has (t : FileTree) (path : String) : Bool :=
  match t.locate path with
  | some place => t.isDirectory place || (t.text? place).isSome
  | none => false

/-- Put a text into a place. -/
def put (place : List String) (text : String) :
    List (List String × String) → List (List String × String)
  | [] => [(place, text)]
  | f :: fs => if f.1 = place then (place, text) :: fs else f :: put place text fs

/-- The tree after a file was written, if the path may name a file. -/
def write (t : FileTree) (path text : String) : Option FileTree :=
  match t.locate path with
  | some place => if t.isDirectory place then none else some ⟨put place text t.files⟩
  | none => none

/-- The tree of files with the given paths. -/
def ofList (files : List (String × String)) : FileTree :=
  ⟨files.map fun f => ((pathNames f.1).filter fun n => n != "" && n != ".", f.2)⟩

/-- The files directly under the directory of a tree that are not the same in another tree. -/
def changedSince (t before : FileTree) : List (String × String) :=
  t.files.filterMap fun f =>
    match f.1 with
    | [name] => if before.text? f.1 = some f.2 then none else some (name, f.2)
    | _ => none

/-- Access to a tree that is kept as a state. -/
def access : FileAccess (StateM FileTree) where
  read path := do return (← get).read path
  exists? path := do return (← get).has path
  write path text := do
    match (← get).write path text with
    | some t => set t; return true
    | none => return false

end FileTree

end ImportRepair.CommandLine

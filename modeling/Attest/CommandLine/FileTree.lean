import Attest.CommandLine.Path

/-! # File trees

    A `FileTree` is a disk held in memory.  A place is given by the names that lead
    to it from the root; what is there is an `Entry`.

    `follow` takes the steps of a path.  Every step is taken in a directory, so a
    path through something else fails there, even when it would come back. -/

namespace Attest.CommandLine

/-- The names that lead to a place from the root. -/
abbrev Place := List String

/-- What is at a place. -/
inductive Entry
  | directory
  | file (bytes : Bytes)
  /-- A device that reads as empty and keeps nothing of what is written to it. -/
  | sink
  deriving DecidableEq, Repr

/-- The entries of a disk, and the place where paths start that do not start at
    the root. -/
structure FileTree where
  working : Place
  entries : List (Place × Entry)
  deriving DecidableEq, Repr

namespace FileTree

/-- What is at a place, if anything. -/
def entry? (tree : FileTree) (place : Place) : Option Entry :=
  tree.entries.lookup place

/-- The tree with an entry put at a place. -/
def put (tree : FileTree) (place : Place) (entry : Entry) : FileTree :=
  { tree with entries := (place, entry) :: tree.entries.filter fun known => known.1 ≠ place }

/-- The directories that are found at the root of a system. -/
def rootNames : List String :=
  ["bin", "boot", "dev", "etc", "home", "lib", "media", "mnt", "opt", "proc", "root", "run",
    "sbin", "srv", "sys", "tmp", "usr", "var"]

/-- A tree whose working directory is new and empty.  It has the empty name, which
    no path spells: it is reached from inside only. -/
def fresh : FileTree where
  working := ["tmp", ""]
  entries :=
    (["tmp", ""], .directory) :: (["dev", "null"], .sink) :: ([], .directory) ::
      rootNames.map fun name => ([name], .directory)

/-- The place where a path starts. -/
def start (tree : FileTree) (path : Path) : Place :=
  if path.fromRoot then [] else tree.working

/-- Takes steps from a place. -/
def follow (tree : FileTree) (place : Place) : List Path.Step → Except DiskFault Place
  | [] => .ok place
  | step :: rest =>
      match tree.entry? place, step with
      | none, _ => .error .notFound
      | some .directory, .stay => tree.follow place rest
      | some .directory, .up => tree.follow place.dropLast rest
      | some .directory, .enter name =>
          if Path.maxNameSize < name.utf8ByteSize then .error .nameTooLong
          else tree.follow (place ++ [name]) rest
      | some _, _ => .error .notADirectory

/-- What a path leads to.  After a slash at its end that has to be a directory. -/
def find (tree : FileTree) (text : String) : Except DiskFault Entry := do
  let path ← Path.ofText text
  let place ← tree.follow (tree.start path)
    (if path.slash then path.steps ++ [.stay] else path.steps)
  match tree.entry? place with
  | some entry => pure entry
  | none => throw .notFound

/-- The contents of a file. -/
def read (tree : FileTree) (text : String) : Except DiskFault Bytes := do
  match ← tree.find text with
  | .directory => throw .isADirectory
  | .file bytes => pure bytes
  | .sink => pure []

/-- The contents of a file as a source.  A directory can be opened, but every read
    from it fails. -/
def openSource (tree : FileTree) (text : String) : Except DiskFault Source := do
  match ← tree.find text with
  | .directory => pure (.ofBytes [] (some DiskFault.isADirectory.message))
  | .file bytes => pure (.ofBytes bytes none)
  | .sink => pure (.ofBytes [] none)

/-- The tree with the contents of a file replaced, or with a new file in a
    directory.  A path that ends in a slash names no file, whatever its last step
    leads to: that step is not taken. -/
def write (tree : FileTree) (text : String) (bytes : Bytes) : Except DiskFault FileTree := do
  let path ← Path.ofText text
  if path.slash then
    let _ ← tree.follow (tree.start path) (path.steps.dropLast ++ [.stay])
    throw .isADirectory
  else
    let place ← tree.follow (tree.start path) path.steps
    match tree.entry? place with
    | some .directory => throw .isADirectory
    | some .sink => pure tree
    | _ => pure (tree.put place (.file bytes))

/-- Takes a step, and makes a directory where there is nothing. -/
def stepMaking (tree : FileTree) (place : Place) : Path.Step → FileTree × Place
  | .stay => (tree, place)
  | .up => (tree, place.dropLast)
  | .enter name =>
      let place := place ++ [name]
      (if (tree.entry? place).isSome then tree else tree.put place .directory, place)

/-- The tree with a file that is known to belong there, in the directories that its
    path passes through. -/
def install (tree : FileTree) (text : String) (bytes : Bytes) : FileTree :=
  match Path.ofText text with
  | .error _ => tree
  | .ok path =>
      let (tree, place) := path.steps.dropLast.foldl
        (fun (tree, place) step => tree.stepMaking place step) (tree, tree.start path)
      match path.steps.getLast? with
      | some (.enter name) => tree.put (place ++ [name]) (.file bytes)
      | _ => tree

/-- The tree as a disk. -/
def disk : Disk (StateM FileTree) where
  read path := do pure ((← get).read path)
  openSource path := do pure ((← get).openSource path)
  write path bytes := do
    match (← get).write path bytes with
    | .ok tree => do
        set tree
        pure (.ok ())
    | .error fault => pure (.error fault)

end FileTree

end Attest.CommandLine

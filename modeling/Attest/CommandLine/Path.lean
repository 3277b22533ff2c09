import Attest.CommandLine.Disk

/-! # Paths

    A path starts at the root when its text begins with a slash, else at the
    working directory, and takes a step for each component.  Several slashes in a
    row are one.  A slash at the end claims that the path leads to a directory.

    Texts and names have a greatest length, counted in bytes: a text that is longer
    leads nowhere, and a longer name cannot be looked up. -/

namespace Attest.CommandLine

/-- One step of a path. -/
inductive Path.Step
  /-- To the directory where the step is taken. -/
  | stay
  /-- To the directory around it.  The root is around itself. -/
  | up
  /-- To what has a name in it. -/
  | enter (name : String)
  deriving DecidableEq, Repr

/-- The step that a component stands for. -/
def Path.Step.ofComponent : List Char → Path.Step
  | ['.'] => .stay
  | ['.', '.'] => .up
  | name => .enter (String.ofList name)

/-- Where to start and which way to go. -/
structure Path where
  fromRoot : Bool
  steps : List Path.Step
  /-- Whether the text ends in a slash. -/
  slash : Bool
  deriving DecidableEq, Repr

namespace Path

/-- The most bytes in the text of a path. -/
def maxSize : Nat := 4095

/-- The most bytes in a name. -/
def maxNameSize : Nat := 255

/-- The path that a text spells. -/
def ofText (text : String) : Except DiskFault Path :=
  if text = "" then .error .notFound
  else if maxSize < text.utf8ByteSize then .error .nameTooLong
  else
    let components := text.toList.splitOn '/'
    .ok {
      fromRoot := decide (components.head? = some [])
      steps := (components.filter (· ≠ [])).map Step.ofComponent
      slash := decide (components.getLast? = some []) }

/-- The name at the end of a path, whether or not it is claimed to be that of a
    directory. -/
def name? (path : Path) : Option String :=
  match (path.steps.filter (· ≠ .stay)).getLast? with
  | some (.enter name) => some name
  | _ => none

/-- What follows the last dot of the name, unless nothing is before that dot. -/
def extension? (path : Path) : Option String :=
  path.name?.bind fun name =>
    let after := name.toList.reverse.takeWhile (· ≠ '.')
    if after.length + 1 < name.length then some (String.ofList after.reverse) else none

end Path

end Attest.CommandLine

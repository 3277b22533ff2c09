/-! # Reports

    What the program leaves behind: an exit code and two texts.  A failure names
    its causes, each deeper than the one before.  One cause stands by itself;
    several are numbered.  The lines of a cause after the first are indented below
    it. -/

namespace Attest.CommandLine

/-- What the program leaves behind. -/
structure Report where
  exit : Nat
  stdout : String
  stderr : String
  deriving DecidableEq, Repr

/-- Why a command failed. -/
structure Failure where
  message : String
  causes : List String
  deriving DecidableEq, Repr

namespace Failure

/-- A text whose further lines are indented. -/
def indentLines (indent : Nat) (text : String) : List Char :=
  text.toList.flatMap fun c => if c = '\n' then '\n' :: List.replicate indent ' ' else [c]

/-- A cause that stands by itself. -/
def singleCause (cause : String) : List Char :=
  List.replicate 4 ' ' ++ indentLines 4 cause

/-- A cause with its number, which is set flush right. -/
def numberedCause (number : Nat) (cause : String) : List Char :=
  let digits := Nat.toDigits 10 number
  List.replicate (5 - digits.length) ' ' ++ digits ++ ':' :: ' ' :: indentLines 7 cause

/-- The text of a failure. -/
def text (failure : Failure) : String :=
  let causes := match failure.causes with
    | [] => []
    | [cause] => [singleCause cause]
    | causes => causes.mapIdx numberedCause
  let heading := if causes = [] then "\n" else "\n\nCaused by:\n"
  "Error: " ++ failure.message ++ heading
    ++ String.join (causes.map fun cause => String.ofList cause ++ "\n")

/-- The failure as the cause of another one. -/
def inside (failure : Failure) (message : String) : Failure :=
  ⟨message, failure.message :: failure.causes⟩

end Failure

end Attest.CommandLine

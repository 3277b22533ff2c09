import Attest.Source

/-! # Disks

    The commands see files through a `Disk`: reading a file, opening one as a
    source, writing one. -/

namespace Attest.CommandLine

/-- Why an operation on a file fails. -/
inductive DiskFault
  | notFound
  | notADirectory
  | isADirectory
  | nameTooLong
  /-- Any other reason, in its own wording. -/
  | other (text : String)
  deriving DecidableEq, Repr

/-- The wording of a failure. -/
def DiskFault.message : DiskFault → String
  | .notFound => "No such file or directory (os error 2)"
  | .notADirectory => "Not a directory (os error 20)"
  | .isADirectory => "Is a directory (os error 21)"
  | .nameTooLong => "File name too long (os error 36)"
  | .other text => text

/-- Access to files by path. -/
structure Disk (m : Type → Type) where
  read : String → m (Except DiskFault Bytes)
  openSource : String → m (Except DiskFault Source)
  write : String → Bytes → m (Except DiskFault Unit)

end Attest.CommandLine

import Attest.CommandLine.Perform

/-! # The program

    Commands on the files of the machine that the program runs on. -/

namespace Attest.CommandLine

/-- A failure of the system on a file, with its number. -/
def systemFault : IO.Error → DiskFault
  | .alreadyExists _ code details | .interrupted _ code details
  | .invalidArgument _ code details | .noFileOrDirectory _ code details
  | .noSuchThing _ code details | .permissionDenied _ code details
  | .resourceExhausted _ code details | .inappropriateType _ code details
  | .otherError code details | .resourceBusy code details
  | .resourceVanished code details | .unsupportedOperation code details
  | .hardwareFault code details | .unsatisfiedConstraints code details
  | .illegalOperation code details | .protocolError code details
  | .timeExpired code details => .other s!"{details} (os error {code})"
  | failure => .other (toString failure)

/-- The result of an action on files. -/
def attempt {α : Type} (action : IO α) : IO (Except DiskFault α) := do
  try
    let result ← action
    pure (.ok result)
  catch failure => pure (.error (systemFault failure))

/-- The files of the system.  What can be opened but not read is a source that
    fails. -/
def systemDisk : Disk IO where
  read path := attempt do
    let handle ← IO.FS.Handle.mk path .read
    let bytes ← handle.readBinToEnd
    pure bytes.data.toList
  openSource path := attempt do
    let handle ← IO.FS.Handle.mk path .read
    try
      let bytes ← handle.readBinToEnd
      pure (.ofBytes bytes.data.toList none)
    catch failure => pure (.ofBytes [] (some (systemFault failure).message))
  write path bytes := attempt do
    let handle ← IO.FS.Handle.mk path .write
    handle.write ⟨bytes.toArray⟩
    handle.flush

end Attest.CommandLine

/-- Runs the command that the arguments ask for. -/
def main (arguments : List String) : IO UInt32 := do
  let report ← Attest.CommandLine.report Attest.CommandLine.systemDisk arguments
  IO.print report.stdout
  IO.eprint report.stderr
  pure (UInt32.ofNat report.exit)

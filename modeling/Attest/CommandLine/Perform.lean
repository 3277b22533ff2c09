import Attest.CommandLine.Arguments
import Attest.CommandLine.Path
import Attest.CommandLine.Report
import Attest.Program.Listing
import Attest.Program.Packed
import Attest.Program.Text
import Attest.Verdict

/-! # Performing a command

    A command reads what it needs in a fixed order (the program, the settings, the
    source, the expected result) and fails at the first problem.  What it prints is
    printed only when it succeeds. -/

namespace Attest

/-- The deeper causes of a fault. -/
def Fault.causes : Fault → List String
  | .io message => [message]
  | .decode flaw => [flaw.message]
  | _ => []

namespace CommandLine

variable {m : Type → Type} [Monad m]

/-- A computation with files that may fail. -/
abbrev Task (m : Type → Type) := ExceptT Failure m

/-- A fault of a program as a failure. -/
def failureOf (fault : Fault) : Failure :=
  ⟨fault.message, fault.causes⟩

/-- Whether a path names program text, which its extension says. -/
def namesText (path : String) : Bool :=
  match Path.ofText path with
  | .ok path => path.extension? = some "json"
  | .error _ => false

/-- Turns the failure of a file operation into one that names the path. -/
def onPath {α : Type} (action path : String) (outcome : m (Except DiskFault α)) : Task m α :=
  ExceptT.mk do
    let outcome ← outcome
    pure (outcome.mapError fun fault => ⟨s!"cannot {action} '{path}'", [fault.message]⟩)

/-- Reads a file as bytes. -/
def readBytes (disk : Disk m) (path : String) : Task m Bytes :=
  onPath "read" path (disk.read path)

/-- Reads a file as text. -/
def readText (disk : Disk m) (path : String) : Task m String := do
  let bytes ← readBytes disk path
  match Bytes.toText? bytes with
  | some text => pure text
  | none => throw ⟨s!"cannot read '{path}'", ["stream did not contain valid UTF-8"]⟩

/-- Loads a program from text or from its packed form, as the path says. -/
def loadProgram (disk : Disk m) (path : String) : Task m Program := do
  let outcome ←
    if namesText path then do
      let text ← readText disk path
      pure (Program.ofText text)
    else do
      let bytes ← readBytes disk path
      pure (Program.unpack bytes)
  match outcome with
  | .ok program => pure program
  | .error fault => throw ((failureOf fault).inside s!"in '{path}'")

/-- Loads settings; without a path they are the default. -/
def loadSettings (disk : Disk m) : Option String → Task m Settings
  | none => pure {}
  | some path => do
      let text ← readText disk path
      match Settings.ofText? text with
      | some settings => pure settings
      | none => throw ⟨"invalid configuration", []⟩

/-- Opens the source; without a path it is empty. -/
def openSource (disk : Disk m) : Option String → Task m Source
  | none => pure (.ofBytes [] none)
  | some path => onPath "open" path (disk.openSource path)

/-- The blank characters of Unicode. -/
def isBlank (c : Char) : Bool :=
  let code := c.toNat
  (9 ≤ code && code ≤ 13) || code == 0x20 || code == 0x85 || code == 0xA0 || code == 0x1680 ||
    (0x2000 ≤ code && code ≤ 0x200A) || code == 0x2028 || code == 0x2029 || code == 0x202F ||
    code == 0x205F || code == 0x3000

/-- A text without the blanks at its ends. -/
def trim (text : String) : String :=
  String.ofList ((text.toList.dropWhile isBlank).reverse.dropWhile isBlank).reverse

/-- The expected result that a text spells. -/
def readExpected (text : String) : Except Failure Bytes :=
  (Hex.decode (trim text)).mapError fun flaw =>
    ⟨"--expect must be a hex string", [flaw.message]⟩

/-- What a verdict prints, or why it is a failure. -/
def conclude : Verdict → Except Failure String
  | .holds => .ok "proof holds\n"
  | .mismatch computed => .error ⟨"proof does not hold: computed " ++ Hex.encode computed, []⟩
  | .aborted fault => .error ⟨"proof does not hold: " ++ fault.message, []⟩
  | .malformed fault => .error ⟨"proof is malformed: " ++ fault.message, []⟩
  | .failed fault => .error ⟨"proof could not be checked: " ++ fault.message, []⟩

/-- Performs a command and gives what it prints. -/
def perform (disk : Disk m) : Command → Task m String
  | .run proof input config unrestricted expected => do
      let program ← loadProgram disk proof
      let loaded ← loadSettings disk config
      let settings :=
        if unrestricted then { loaded with allowUnboundedReads := true } else loaded
      let source ← openSource disk input
      match expected with
      | some text => do
          let expected ← liftExcept (readExpected text)
          liftExcept (conclude (program.verify settings source expected))
      | none => do
          let bytes ← liftExcept ((program.run settings source).mapError failureOf)
          pure (Hex.encode bytes ++ "\n")
  | .disasm proof => do
      let program ← loadProgram disk proof
      pure program.listing
  | .pack proof out => do
      let program ← loadProgram disk proof
      let bytes ← liftExcept (program.pack.mapError failureOf)
      onPath "write" out (disk.write out bytes)
      pure ""
  | .unpack packed => do
      let bytes ← readBytes disk packed
      let program ← liftExcept ((Program.unpack bytes).mapError failureOf)
      pure (program.toJson.indented ++ "\n")
where
  /-- An outcome that needs no files. -/
  liftExcept {α : Type} (outcome : Except Failure α) : Task m α :=
    ExceptT.mk (pure outcome)

/-- How the program is used. -/
def usage : String :=
  String.join ([
    "Run and inspect proof programs",
    "",
    "Usage:",
    "  run <PROOF> [--input <FILE>] [--config <FILE>] [--unrestricted] [--expect <HEX>]",
    "  disasm <PROOF>",
    "  pack <PROOF> <OUT>",
    "  unpack <PACKED>"].map fun line => line ++ "\n")

/-- The report on the words after the program's name. -/
def report (disk : Disk m) (arguments : List String) : m Report :=
  match Command.ofArguments arguments with
  | .error .help => pure ⟨0, usage, ""⟩
  | .error (.misuse misuse) => pure ⟨2, "", "error: " ++ misuse.message ++ "\n\n" ++ usage⟩
  | .ok command => do
      match ← (perform disk command).run with
      | .ok printed => pure ⟨0, printed, ""⟩
      | .error failure => pure ⟨1, "", failure.text⟩

end CommandLine

end Attest

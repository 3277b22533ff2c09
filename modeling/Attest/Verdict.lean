import Attest.Machine.Run

/-! # Verdicts

    A program proves something by reproducing an expected byte string from a
    source.  The verdict tells apart a different result, a composition that
    failed, a broken program, and everything else that kept the check from being
    made. -/

namespace Attest

/-- The outcome of checking a program against an expected result. -/
inductive Verdict
  | holds
  | mismatch (computed : Bytes)
  | aborted (fault : Fault)
  | malformed (fault : Fault)
  | failed (fault : Fault)
  deriving DecidableEq, Repr

namespace Verdict

/-- The verdict on the outcome of a run. -/
def ofOutcome (expected : Bytes) : Except Fault Bytes → Verdict
  | .ok computed => if computed = expected then .holds else .mismatch computed
  | .error fault =>
      if fault.isAbort then .aborted fault
      else if fault.isMalformed then .malformed fault
      else .failed fault

/-- Whether the proof holds. -/
def isHolds : Verdict → Bool
  | .holds => true
  | _ => false

end Verdict

/-- Runs a program over a source and compares the result with the expected one. -/
def Program.verify (settings : Settings) (program : Program) (source : Source)
    (expected : Bytes) : Verdict :=
  .ofOutcome expected (program.run settings source)

end Attest

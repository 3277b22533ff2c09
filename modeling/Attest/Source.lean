import Attest.Bytes

/-! # Byte sources

    A source is read forward only.  It ends normally, or it fails once its data
    are used up.  A read that the remaining data satisfy succeeds; one that goes
    beyond them is short on a source that ends and fails on one that fails.  A
    failed read takes the remaining data with it: they are not returned later and
    do not count as consumed. -/

namespace Attest

/-- What is left of a byte source. -/
structure Source where
  /-- The bytes that have not been taken. -/
  remaining : Bytes
  /-- What the source reports after its data, unless it ends normally. -/
  failure : Option String
  /-- How many bytes successful reads have returned. -/
  consumed : Nat
  deriving DecidableEq, Repr

namespace Source

/-- A source that has not been read. -/
def ofBytes (bytes : Bytes) (failure : Option String) : Source :=
  ⟨bytes, failure, 0⟩

/-- Takes everything that is left. -/
def readRest (source : Source) : Except String Bytes × Source :=
  match source.failure with
  | some message => (.error message, { source with remaining := [] })
  | none =>
      (.ok source.remaining,
        { source with
          remaining := []
          consumed := source.consumed + source.remaining.length })

/-- Takes up to the given number of bytes. -/
def readUpTo (source : Source) (count : Nat) : Except String Bytes × Source :=
  if source.remaining.length < count then source.readRest
  else
    (.ok (source.remaining.take count),
      { source with
        remaining := source.remaining.drop count
        consumed := source.consumed + count })

/-- Copies everything that is left to the end of a sink; gives the number of bytes
    and the sink. -/
def copyRest (source : Source) (sink : Bytes) : Except String (Nat × Bytes) × Source :=
  let (outcome, rest) := source.readRest
  (outcome.map fun bytes => (bytes.length, sink ++ bytes), rest)

/-- Whether nothing is left.  Takes nothing. -/
def isExhausted (source : Source) : Except String Bool :=
  match source.remaining, source.failure with
  | [], some message => .error message
  | remaining, _ => .ok remaining.isEmpty

end Source

end Attest

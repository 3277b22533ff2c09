import Attest.Json.Draft
import Attest.Json.Printer

/-! # Settings

    What a run is allowed to do.  Settings are read from JSON text: an object with
    some of the fields, or a list of the first few fields in their order.  Fields
    that are missing have their default; a field that occurs twice is refused;
    members of other names are not looked at, beyond being well-formed JSON. -/

namespace Attest

/-- The byte order of digests. -/
inductive DigestOrder
  | natural
  | reversed
  deriving DecidableEq, Repr

/-- What a run is allowed to do. -/
structure Settings where
  /-- Whether the whole rest of the source may be held in memory. -/
  allowUnboundedReads : Bool := false
  /-- How deeply calls may nest, up to `Settings.deepestCall`. -/
  maxCallDepth : Nat := 256
  /-- How many instructions may be started, if that is limited. -/
  maxSteps : Option Nat := none
  /-- The length of the longest buffer that an instruction may leave. -/
  maxBufferLength : Nat := 64 * 1024 * 1024
  digestOrder : DigestOrder := .natural
  deriving DecidableEq, Repr

namespace Settings

/-- No settings let calls nest deeper than this. -/
def deepestCall : Nat := 512

/-- How deeply calls may nest under these settings. -/
def callDepthLimit (settings : Settings) : Nat :=
  min settings.maxCallDepth deepestCall

/-- A field of the settings. -/
inductive Field
  | allowUnboundedReads
  | maxCallDepth
  | maxSteps
  | maxBufferLength
  | digestOrder
  deriving DecidableEq, Repr

/-- The fields in their order. -/
def Field.all : List Field :=
  [.allowUnboundedReads, .maxCallDepth, .maxSteps, .maxBufferLength, .digestOrder]

/-- The name of a field in text. -/
def Field.key : Field → String
  | allowUnboundedReads => "allow_unbounded_reads"
  | maxCallDepth => "max_call_depth"
  | maxSteps => "max_steps"
  | maxBufferLength => "max_buffer_len"
  | digestOrder => "digest_order"

/-- The field with a name. -/
def Field.ofKey? (key : String) : Option Field :=
  Field.all.find? fun field => field.key = key

/-- The name of a digest order in text. -/
def orderName : DigestOrder → String
  | .natural => "natural"
  | .reversed => "reversed"

/-- The digest order with a name. -/
def orderOfName? (name : String) : Option DigestOrder :=
  [DigestOrder.natural, .reversed].find? fun order => orderName order = name

/-- A natural number of 64 bits. -/
def word? : Json.Draft → Option Nat
  | .number numeral => do
      let value ← numeral.integer?
      if 0 ≤ value then some value.toNat else none
  | _ => none

/-- Sets a field to what its text says. -/
def setField (settings : Settings) : Field → Json.Draft → Option Settings
  | .allowUnboundedReads, .bool value => some { settings with allowUnboundedReads := value }
  | .maxCallDepth, draft => do
      let depth ← word? draft
      pure { settings with maxCallDepth := depth }
  | .maxSteps, .null => some { settings with maxSteps := none }
  | .maxSteps, draft => do
      let steps ← word? draft
      pure { settings with maxSteps := some steps }
  | .maxBufferLength, draft => do
      let length ← word? draft
      pure { settings with maxBufferLength := length }
  | .digestOrder, .string (some name) => do
      let order ← orderOfName? name
      pure { settings with digestOrder := order }
  | .digestOrder, .object [(some name, .null)] => do
      let order ← orderOfName? name
      pure { settings with digestOrder := order }
  | _, _ => none

/-- Sets the fields that the members of an object name; the fields already set
    may not occur again. -/
def setMembers (settings : Settings) (known : List Field) :
    List (Option String × Json.Draft) → Option Settings
  | [] => some settings
  | (key, draft) :: rest => do
      let key ← key
      match Field.ofKey? key with
      | none => setMembers settings known rest
      | some field =>
          if field ∈ known then none
          else do
            let settings ← setField settings field draft
            setMembers settings (field :: known) rest

/-- Sets the first of some fields to the items of a list, one each. -/
def setItems (settings : Settings) : List Field → List Json.Draft → Option Settings
  | _, [] => some settings
  | [], _ :: _ => none
  | field :: fields, draft :: rest => do
      let settings ← setField settings field draft
      setItems settings fields rest

/-- The settings that a draft describes. -/
def ofDraft? : Json.Draft → Option Settings
  | .object members => setMembers {} [] members
  | .array items => setItems {} Field.all items
  | _ => none

/-- The settings that a text describes. -/
def ofText? (text : String) : Option Settings := do
  let tokens ← Json.tokens? text
  let draft ← Json.Draft.ofTokens? none tokens
  ofDraft? draft

/-- The value of a field as text. -/
def fieldJson (settings : Settings) : Field → Json
  | .allowUnboundedReads => .bool settings.allowUnboundedReads
  | .maxCallDepth => .integer settings.maxCallDepth
  | .maxSteps =>
      match settings.maxSteps with
      | some steps => .integer steps
      | none => .null
  | .maxBufferLength => .integer settings.maxBufferLength
  | .digestOrder => .string (orderName settings.digestOrder)

/-- The settings as text, with every field. -/
def toJson (settings : Settings) : Json :=
  .object (Field.all.map fun field => (field.key, settings.fieldJson field))

end Settings

end Attest

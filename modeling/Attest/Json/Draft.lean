import Attest.Json.Token

/-! # The shape of a JSON text

    Tokens are assembled into a draft: the tree of the text, whose strings and
    numbers have not been given a value yet.  The assembly holds the brackets
    that are open and what may come next, and takes one token at a time.  A limit
    on the number of open brackets is optional. -/

namespace Attest.Json

/-- The tree of a JSON text. -/
inductive Draft
  | null
  | bool (value : Bool)
  | number (numeral : Numeral)
  | string (text : Option String)
  | array (items : List Draft)
  | object (members : List (Option String × Draft))

namespace Draft

/-- An open bracket with what it holds so far, latest first. -/
inductive Bracket
  | array (items : List Draft)
  | object (members : List (Option String × Draft))
  /-- An object whose next member has its key and waits for its value. -/
  | member (members : List (Option String × Draft)) (key : Option String)

/-- What may come next. -/
inductive Turn
  | value
  | firstItem
  | firstKey
  | key
  | colon (key : Option String)
  | separator
  | done (draft : Draft)

/-- A partly assembled text: the open brackets, innermost first, and the turn. -/
structure Assembly where
  opened : List Bracket
  turn : Turn

namespace Assembly

/-- The assembly of an empty text. -/
def start : Assembly := ⟨[], .value⟩

/-- Hands a finished value to the innermost open bracket. -/
def deliver (draft : Draft) : List Bracket → Assembly
  | [] => ⟨[], .done draft⟩
  | .array items :: outer => ⟨.array (draft :: items) :: outer, .separator⟩
  | .object members :: outer => ⟨.object members :: outer, .separator⟩
  | .member members key :: outer => ⟨.object ((key, draft) :: members) :: outer, .separator⟩

/-- Opens a bracket, unless as many as the limit allows are open. -/
def enter (limit : Option Nat) (bracket : Bracket) (turn : Turn) (opened : List Bracket) :
    Option Assembly :=
  match limit with
  | some most => if opened.length < most then some ⟨bracket :: opened, turn⟩ else none
  | none => some ⟨bracket :: opened, turn⟩

/-- Takes a token where a value may begin. -/
def beginValue (limit : Option Nat) (opened : List Bracket) : Token → Option Assembly
  | .null => some (deliver .null opened)
  | .bool value => some (deliver (.bool value) opened)
  | .number numeral => some (deliver (.number numeral) opened)
  | .string text => some (deliver (.string text) opened)
  | .beginArray => enter limit (.array []) .firstItem opened
  | .beginObject => enter limit (.object []) .firstKey opened
  | _ => none

/-- Takes one token. -/
def take (limit : Option Nat) (assembly : Assembly) (token : Token) : Option Assembly :=
  match assembly.turn, token, assembly.opened with
  | .firstItem, .endArray, .array items :: outer => some (deliver (.array items.reverse) outer)
  | .separator, .endArray, .array items :: outer => some (deliver (.array items.reverse) outer)
  | .firstKey, .endObject, .object members :: outer =>
      some (deliver (.object members.reverse) outer)
  | .separator, .endObject, .object members :: outer =>
      some (deliver (.object members.reverse) outer)
  | .separator, .comma, .array items :: outer => some ⟨.array items :: outer, .value⟩
  | .separator, .comma, .object members :: outer => some ⟨.object members :: outer, .key⟩
  | .firstKey, .string key, opened => some ⟨opened, .colon key⟩
  | .key, .string key, opened => some ⟨opened, .colon key⟩
  | .colon key, .colon, .object members :: outer => some ⟨.member members key :: outer, .value⟩
  | .value, token, opened => beginValue limit opened token
  | .firstItem, token, opened => beginValue limit opened token
  | _, _, _ => none

end Assembly

/-- The draft that the tokens make up, if they are one value. -/
def ofTokens? (limit : Option Nat) (tokens : List Token) : Option Draft := do
  let assembly ← tokens.foldlM (Assembly.take limit) Assembly.start
  match assembly.turn with
  | .done draft => some draft
  | _ => none

end Draft

/-! ## Values -/

mutual

/-- The value of a draft, if all its strings and numbers have one. -/
def ofDraft? : Draft → Option Json
  | .null => some .null
  | .bool value => some (.bool value)
  | .number numeral => numeral.value?
  | .string text => text.map .string
  | .array items => (ofItems? items).map .array
  | .object members => (ofMembers? [] members).map .object

/-- The values of array items. -/
def ofItems? : List Draft → Option (List Json)
  | [] => some []
  | item :: rest => do
      let value ← ofDraft? item
      let values ← ofItems? rest
      pure (value :: values)

/-- The members of an object added to those already read. -/
def ofMembers? (known : List (String × Json)) :
    List (Option String × Draft) → Option (List (String × Json))
  | [] => some known
  | (key, draft) :: rest => do
      let key ← key
      let value ← ofDraft? draft
      ofMembers? (setMember key value known) rest

end

/-- How many brackets of a program text may be open at once. -/
def mostOpen : Nat := 127

/-- The value of a JSON text. -/
def read? (text : String) : Option Json := do
  let tokens ← tokens? text
  let draft ← Draft.ofTokens? (some mostOpen) tokens
  ofDraft? draft

end Attest.Json

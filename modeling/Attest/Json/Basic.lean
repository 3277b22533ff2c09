import Attest.Double

/-! # JSON values

    The value of a JSON text.  A number is an integer of at most 64 bits or a
    double.  The members of an object read from text are sorted by key, and each
    key occurs once; an object written by a program keeps the order it is given. -/

namespace Attest

/-- A JSON value. -/
inductive Json
  | null
  | bool (value : Bool)
  | integer (value : Int)
  | double (value : Double)
  | string (text : String)
  | array (items : List Json)
  | object (members : List (String × Json))

namespace Json

/-- Sets a member in a list sorted by key; of two members with one key the later
    one stays. -/
def setMember (key : String) (value : Json) : List (String × Json) → List (String × Json)
  | [] => [(key, value)]
  | (other, old) :: rest =>
      if key = other then (key, value) :: rest
      else if key < other then (key, value) :: (other, old) :: rest
      else (other, old) :: setMember key value rest

end Json

end Attest

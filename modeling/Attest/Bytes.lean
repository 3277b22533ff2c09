/-! # Byte strings

    A byte string is a list of octets, so that programs over byte strings are
    structural recursions.  The bridge to text is UTF-8: `ofText` and `toText?`
    are inverse to each other wherever `toText?` is defined. -/

namespace Attest

/-- A byte string. -/
abbrev Bytes := List UInt8

namespace Bytes

/-- The UTF-8 bytes of a text. -/
def ofText (text : String) : Bytes :=
  text.toByteArray.data.toList

/-- The text that the bytes spell in UTF-8, if they do. -/
def toText? (bytes : Bytes) : Option String :=
  String.fromUTF8? ⟨bytes.toArray⟩

/-- Every text is read back from its bytes. -/
@[simp] theorem toText?_ofText (text : String) : toText? (ofText text) = some text := by
  have h : (⟨text.toByteArray.data.toList.toArray⟩ : ByteArray) = text.toByteArray := by simp
  unfold toText? ofText
  rw [h]
  simp only [String.fromUTF8?, dif_pos text.isValidUTF8]
  rfl

/-- A text that the bytes spell has exactly these bytes. -/
theorem ofText_of_toText? {bytes : Bytes} {text : String} (h : toText? bytes = some text) :
    ofText text = bytes := by
  unfold toText? String.fromUTF8? at h
  split at h
  · cases h
    simp [ofText, String.fromUTF8]
  · cases h

/-- Distinct texts have distinct bytes. -/
theorem ofText_inj {a b : String} (h : ofText a = ofText b) : a = b := by
  have ha := toText?_ofText a
  rw [h, toText?_ofText] at ha
  exact (Option.some.inj ha).symm

end Bytes

end Attest

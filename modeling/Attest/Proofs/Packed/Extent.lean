import Attest.Proofs.Packed.Disassembling
import Attest.Proofs.Packed.Taking
import Attest.Proofs.Program.Validity

/-! # The extent of packed bytes

    Readers take a front of the bytes that does not depend on what follows, and the items
    take all of them.  Packed bytes therefore say themselves where they end: cutting them
    or adding to them anywhere is noticed, and which of the two it was
    (`unpack_delimited`).

    What the readers have taken is what is written for the items, with numbers padded, and
    the items are those that the block is flattened to again.  So a program that has been
    unpacked can be packed, and nothing that unpacks to it is shorter than its packed form,
    or as long and not the same (`pack_shortest`). -/

namespace Attest

namespace Program

open Packed (Takes readItems decodeBlock_eq takes_of_decodeBlock)

/-- **PACKED BYTES SAY WHERE THEY END**: bytes that unpack to a program do so neither with
    some missing at the end nor with some added there.  What is missing is noticed when
    the input ends, what is added is counted; no such bytes begin others. -/
theorem unpack_delimited {bytes : Bytes} {program : Program} (h : unpack bytes = .ok program) :
    (∀ front, front <+: bytes → front ≠ bytes → ∃ fault, unpack front = .error fault ∧
      fault = .decode .endOfInput ∧
        fault.message = "invalid encoded program: Hit the end of buffer, expected more data") ∧
    (∀ more, more ≠ [] → ∃ fault, unpack (bytes ++ more) = .error fault ∧
      fault = .ofDefect (.trailingBytes more.length) ∧
        fault.message =
          s!"malformed program: {more.length} trailing bytes after encoded program") ∧
    ∀ others other, unpack others = .ok other → bytes <+: others → others = bytes := by
  obtain ⟨block, hdecode, -⟩ := bind_eq_ok.mp h
  obtain ⟨items, htakes⟩ := takes_of_decodeBlock hdecode
  have hmore : ∀ more, more ≠ [] →
      unpack (bytes ++ more) = .error (.ofDefect (.trailingBytes more.length)) := by
    intro more hmore
    rw [unpack, decodeBlock_eq, htakes.reads more]
    dsimp only
    rw [if_neg hmore]
    rfl
  refine ⟨?_, ?_, ?_⟩
  · rintro front ⟨missing, rfl⟩ hne
    have hmissing : missing ≠ [] := by
      rintro rfl
      exact hne (List.append_nil front).symm
    refine ⟨_, ?_, rfl, rfl⟩
    rw [unpack, decodeBlock_eq, htakes.short front missing hmissing rfl]
    rfl
  · exact fun more hne => ⟨_, hmore more hne, rfl, rfl⟩
  · rintro _ other hother ⟨more, rfl⟩
    by_cases hnone : more = []
    · rw [hnone, List.append_nil]
    · exact nomatch (hmore more hnone).symm.trans hother

/-- The packed form of a body with an operand in it: no byte of it can be left out at the
    end, and one more is too many. -/
theorem unpack_delimited_reversing :
    ∃ program, unpack [0x82, 0x00, 0x08, 0x01, 0x66, 0x01, 0x05, 0x04, 0x01] = .ok program ∧
      (∃ fault, unpack [0x82, 0x00, 0x08, 0x01, 0x66, 0x01, 0x05, 0x04] = .error fault ∧
        fault = .decode .endOfInput) ∧
      ∃ fault, unpack ([0x82, 0x00, 0x08, 0x01, 0x66, 0x01, 0x05, 0x04, 0x01] ++ [0x02]) =
        .error fault ∧ fault = .ofDefect (.trailingBytes 1) := by
  have h : ∃ program,
      unpack [0x82, 0x00, 0x08, 0x01, 0x66, 0x01, 0x05, 0x04, 0x01] = .ok program := ⟨_, rfl⟩
  obtain ⟨program, hprogram⟩ := h
  obtain ⟨hshort, hmore, -⟩ := unpack_delimited hprogram
  obtain ⟨fault, hfault, hend, -⟩ := hshort [0x82, 0x00, 0x08, 0x01, 0x66, 0x01, 0x05, 0x04]
    ⟨[0x01], rfl⟩ (by decide)
  obtain ⟨fault', hfault', htrailing, -⟩ := hmore [0x02] (by decide)
  exact ⟨program, hprogram, ⟨fault, hfault, hend⟩, fault', hfault', htrailing⟩

/-- **THE PACKED FORM IS THE ONLY SHORTEST ONE**: a program that bytes unpack to can be
    packed, its packed form unpacks to it like them, is no longer than they are, and is
    they if it is as long. -/
theorem pack_shortest {bytes : Bytes} {program : Program} (h : unpack bytes = .ok program) :
    ∃ packed, program.pack = .ok packed ∧ unpack packed = .ok program ∧
      packed.length ≤ bytes.length ∧ (packed.length = bytes.length → packed = bytes) := by
  obtain ⟨block, hdecode, hblock⟩ := bind_eq_ok.mp h
  obtain ⟨items, hmatches, hassemble⟩ := Packed.matches_of_decodeBlock hdecode
  have hinstructions : program.instructions = block := ofInstructions_eq_ok.mp hblock
  have hpack : program.pack = .ok (Packed.encodeItems items) := by
    rw [pack, hinstructions]
    exact bind_eq_ok.mpr ⟨items, Packed.flattenBlock_of_assemble hassemble, rfl⟩
  have hunpack : unpack (Packed.encodeItems items) = .ok program := by
    have hread := hmatches.rereads []
    rw [List.append_nil] at hread
    refine bind_eq_ok.mpr ⟨block, ?_, hblock⟩
    rw [decodeBlock_eq, hread]
    exact hassemble
  have hshort := hmatches.shortens
  exact ⟨_, hpack, hunpack, hshort.length_le, hshort.eq_of_length⟩

/-- A program that is one definition. -/
def defining : Program :=
  ⟨[.define "f" [.step (.set (.argument 1))]], ⟨[("f", [.step (.set (.argument 1))])]⟩, rfl⟩

/-- Nine bytes in which the number of instructions is padded: the packed form is the eight
    bytes without the padding, and so is neither longer than they are nor as long. -/
theorem pack_shortest_padded :
    unpack [0x82, 0x00, 0x08, 0x01, 0x66, 0x01, 0x05, 0x04, 0x01] = .ok defining ∧
      ∃ packed, defining.pack = .ok packed ∧ unpack packed = .ok defining ∧
        packed = [0x02, 0x08, 0x01, 0x66, 0x01, 0x05, 0x04, 0x01] ∧ packed.length < 9 := by
  have hpadded :
      unpack [0x82, 0x00, 0x08, 0x01, 0x66, 0x01, 0x05, 0x04, 0x01] = .ok defining := rfl
  obtain ⟨packed, hpacked, hunpack, hle, hsame⟩ := pack_shortest hpadded
  have hpack : defining.pack = .ok [0x02, 0x08, 0x01, 0x66, 0x01, 0x05, 0x04, 0x01] := by
    decide +kernel
  have hshort := Except.ok.inj (hpacked.symm.trans hpack)
  -- as long they would be the padded bytes
  have hne : packed.length ≠ 9 := by
    intro hlength
    exact absurd (hshort.symm.trans (hsame hlength)) (by decide)
  exact ⟨hpadded, packed, hpacked, hunpack, hshort, Nat.lt_of_le_of_ne hle hne⟩

end Program

end Attest

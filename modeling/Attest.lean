import Attest.Bytes
import Attest.CommandLine.Arguments
import Attest.CommandLine.Disk
import Attest.CommandLine.FileTree
import Attest.CommandLine.Path
import Attest.CommandLine.Perform
import Attest.CommandLine.Report
import Attest.Decimal
import Attest.Double
import Attest.Fault
import Attest.Hex
import Attest.Instruction
import Attest.Json.Basic
import Attest.Json.Draft
import Attest.Json.Numeral
import Attest.Json.Printer
import Attest.Json.Token
import Attest.Machine.Basic
import Attest.Machine.Run
import Attest.Main
import Attest.Memory
import Attest.Operand
import Attest.Packed.Item
import Attest.Packed.Nesting
import Attest.Packed.Varint
import Attest.Program.Basic
import Attest.Program.Definitions
import Attest.Program.Listing
import Attest.Program.Packed
import Attest.Program.Text
import Attest.Proofs.Json.Reading
import Attest.Proofs.Json.Scanning
import Attest.Proofs.Machine.Agreement
import Attest.Proofs.Machine.Boundary
import Attest.Proofs.Machine.Breach
import Attest.Proofs.Machine.Buffering
import Attest.Proofs.Machine.CallChain
import Attest.Proofs.Machine.Confinement
import Attest.Proofs.Machine.Congruence
import Attest.Proofs.Machine.Counting
import Attest.Proofs.Machine.Depth
import Attest.Proofs.Machine.DigestOrder
import Attest.Proofs.Machine.Faults
import Attest.Proofs.Machine.Inlining
import Attest.Proofs.Machine.Interruption
import Attest.Proofs.Machine.Joining
import Attest.Proofs.Machine.Keeping
import Attest.Proofs.Machine.Outcome
import Attest.Proofs.Machine.Permission
import Attest.Proofs.Machine.Rearranging
import Attest.Proofs.Machine.Retention
import Attest.Proofs.Machine.Simulation
import Attest.Proofs.Machine.Slots
import Attest.Proofs.Machine.StepLimit
import Attest.Proofs.Machine.Streaming
import Attest.Proofs.Machine.Tracking
import Attest.Proofs.Operand
import Attest.Proofs.Packed.Assembling
import Attest.Proofs.Packed.Disassembling
import Attest.Proofs.Packed.Extent
import Attest.Proofs.Packed.Inversion
import Attest.Proofs.Packed.Reading
import Attest.Proofs.Packed.Taking
import Attest.Proofs.Program.Exchange
import Attest.Proofs.Program.Expansion
import Attest.Proofs.Program.FirstFault
import Attest.Proofs.Program.Grammar
import Attest.Proofs.Program.Listing
import Attest.Proofs.Program.Lossless
import Attest.Proofs.Program.Offence
import Attest.Proofs.Program.Packed
import Attest.Proofs.Program.Refusal
import Attest.Proofs.Program.Registering
import Attest.Proofs.Program.Rereading
import Attest.Proofs.Program.Scope
import Attest.Proofs.Program.Text
import Attest.Proofs.Program.Validity
import Attest.Proofs.Sequence
import Attest.Proofs.Source
import Attest.Proofs.Template
import Attest.Proofs.Token
import Attest.Settings
import Attest.Sha256
import Attest.Source
import Attest.Template
import Attest.Verdict

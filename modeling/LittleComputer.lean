import LittleComputer.Assembly
import LittleComputer.Bits
import LittleComputer.Dictionary
import LittleComputer.Event
import LittleComputer.Image
import LittleComputer.Instruction.Basic
import LittleComputer.Instruction.Coding
import LittleComputer.Instruction.Record
import LittleComputer.Interchange
import LittleComputer.Json.Basic
import LittleComputer.Json.Codec
import LittleComputer.Json.Parser
import LittleComputer.Json.Printer
import LittleComputer.Json.Shape
import LittleComputer.Listing
import LittleComputer.Machine
import LittleComputer.Main
import LittleComputer.Proofs.AddressText
import LittleComputer.Proofs.Assembly.Acceptance
import LittleComputer.Proofs.Assembly.Alteration
import LittleComputer.Proofs.Assembly.Layout
import LittleComputer.Proofs.Assembly.Loosening
import LittleComputer.Proofs.Assembly.Relocation
import LittleComputer.Proofs.Assembly.Renaming
import LittleComputer.Proofs.Assembly.Reordering
import LittleComputer.Proofs.Assembly.Report
import LittleComputer.Proofs.Assembly.Success
import LittleComputer.Proofs.Bits.Binary
import LittleComputer.Proofs.Bits.Fields
import LittleComputer.Proofs.Bits.Packing
import LittleComputer.Proofs.Bits.Ranges
import LittleComputer.Proofs.Bits.Truncation
import LittleComputer.Proofs.DecodeCache
import LittleComputer.Proofs.ImageFile
import LittleComputer.Proofs.Instruction.Arithmetic
import LittleComputer.Proofs.Instruction.Canonical
import LittleComputer.Proofs.Instruction.Encoding
import LittleComputer.Proofs.Instruction.Grammar
import LittleComputer.Proofs.Instruction.Operands
import LittleComputer.Proofs.Instruction.RoundTrip
import LittleComputer.Proofs.Instruction.Symbolic
import LittleComputer.Proofs.Instruction.Warnings
import LittleComputer.Proofs.Interchange
import LittleComputer.Proofs.Json.Codec
import LittleComputer.Proofs.Json.Text
import LittleComputer.Proofs.Listing
import LittleComputer.Proofs.ListingText
import LittleComputer.Proofs.Memory
import LittleComputer.Proofs.Reassembly
import LittleComputer.Proofs.Symbols
import LittleComputer.Proofs.Text.ByteOrder
import LittleComputer.Proofs.Text.Numeral
import LittleComputer.Proofs.Tool.Assembling
import LittleComputer.Proofs.Tool.Files
import LittleComputer.Proofs.Tool.Listing
import LittleComputer.Text
import LittleComputer.Tool.Command
import LittleComputer.Tool.Files
import LittleComputer.Tool.Run

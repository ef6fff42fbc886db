import TinyCpu.Main
import TinyCpu.Proofs.Assembly.Correct
import TinyCpu.Proofs.Isa.Ambiguity
import TinyCpu.Proofs.Microcode.ControlWord
import TinyCpu.Proofs.Disk.Places
import TinyCpu.Proofs.Disk.Save
import TinyCpu.Proofs.Image.Dense
import TinyCpu.Proofs.Text.Numeral
import TinyCpu.Proofs.Image.MemoryText
import TinyCpu.Proofs.Assembly.Case
import TinyCpu.Proofs.Isa.Printed
import TinyCpu.Proofs.Isa.Decode
import TinyCpu.Proofs.Assembly.Reassembly
import TinyCpu.Proofs.Microcode.Rom
import TinyCpu.Proofs.Microcode.Outputs
import TinyCpu.Proofs.Text.Lines
import TinyCpu.Proofs.Assembly.Concatenation
import TinyCpu.Proofs.Assembly.Errors
import TinyCpu.Proofs.Disk.Siblings
import TinyCpu.Proofs.Command.Run
import TinyCpu.Proofs.Command.Input
import TinyCpu.Proofs.Text.Literal
import TinyCpu.Proofs.Assembly.Value
import TinyCpu.Proofs.Isa.Case
import TinyCpu.Proofs.Isa.Grammar
import TinyCpu.Proofs.Microcode.Address
import TinyCpu.Proofs.Microcode.Format
import TinyCpu.Proofs.Microcode.Order
import TinyCpu.Proofs.Assembly.Reference
import TinyCpu.Proofs.Assembly.Restyle
import TinyCpu.Proofs.Assembly.NewLabel
import TinyCpu.Proofs.Assembly.Counter
import TinyCpu.Proofs.Microcode.Listing
import TinyCpu.Proofs.Json.Reading
import TinyCpu.Proofs.Microcode.RoundTrip

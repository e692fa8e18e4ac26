import DspAsm.Code.Condition
import DspAsm.Code.Operation
import DspAsm.Code.Register
import DspAsm.Code.Table
import DspAsm.Command.Basic
import DspAsm.Command.Binary
import DspAsm.Command.Parse
import DspAsm.Command.Phrase
import DspAsm.CommandLine.Arguments
import DspAsm.CommandLine.Basic
import DspAsm.Fault
import DspAsm.Instruction.Assembly
import DspAsm.Instruction.Basic
import DspAsm.Interchange.Command
import DspAsm.Interchange.Program
import DspAsm.Json.Basic
import DspAsm.Json.Printer
import DspAsm.Json.Reader
import DspAsm.Json.Shape
import DspAsm.Layout
import DspAsm.Listing
import DspAsm.Main
import DspAsm.Mnemonic
import DspAsm.Program.Basic
import DspAsm.Program.Image
import DspAsm.Program.Source
import DspAsm.Proofs.Code.Lookup
import DspAsm.Proofs.Command.Binary
import DspAsm.Proofs.Command.Dispatch
import DspAsm.Proofs.Command.Immediate
import DspAsm.Proofs.Command.Legal
import DspAsm.Proofs.Command.Parse
import DspAsm.Proofs.Command.Phrase
import DspAsm.Proofs.CommandLine.Ending
import DspAsm.Proofs.Instruction.Assembly
import DspAsm.Proofs.Instruction.Binary
import DspAsm.Proofs.Instruction.Combination
import DspAsm.Proofs.Instruction.Extension
import DspAsm.Proofs.Instruction.Fault
import DspAsm.Proofs.Instruction.Rearrangement
import DspAsm.Proofs.Instruction.Text
import DspAsm.Proofs.Listing.Alignment
import DspAsm.Proofs.Listing.ReadBack
import DspAsm.Proofs.Listing.RoundTrip
import DspAsm.Proofs.Listing.Row
import DspAsm.Proofs.Listing.Stem
import DspAsm.Proofs.Outcome
import DspAsm.Proofs.Phrase.Division
import DspAsm.Proofs.Phrase.Grouping
import DspAsm.Proofs.Program.Diagnosis
import DspAsm.Proofs.Program.Image
import DspAsm.Proofs.Program.ImageFormat
import DspAsm.Proofs.Program.Reference
import DspAsm.Proofs.Program.Relayout
import DspAsm.Proofs.Program.Source
import DspAsm.Proofs.Program.Survey
import DspAsm.Proofs.Symbol.Registration
import DspAsm.Proofs.Symbol.Scope
import DspAsm.Proofs.Symbol.Table
import DspAsm.Proofs.Text.Case
import DspAsm.Proofs.Text.Line
import DspAsm.Proofs.Text.Literal
import DspAsm.Proofs.Text.Name
import DspAsm.Proofs.Text.Numeral
import DspAsm.Proofs.Text.Token
import DspAsm.Proofs.Word.Field
import DspAsm.Proofs.Word.Stream
import DspAsm.Symbol.Registration
import DspAsm.Symbol.Scope
import DspAsm.Symbol.Table
import DspAsm.Text.Blank
import DspAsm.Text.Numeral
import DspAsm.Text.Split
import DspAsm.Text.Token
import DspAsm.Word.Bits
import DspAsm.Word.Field

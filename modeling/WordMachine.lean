import WordMachine.Word
import WordMachine.Text.Pieces
import WordMachine.Text.Blank
import WordMachine.Text.Numeral
import WordMachine.Text.Glyph
import WordMachine.Text.Unprintable
import WordMachine.Text.Quoted
import WordMachine.Operand
import WordMachine.Opcode
import WordMachine.Instruction
import WordMachine.Room
import WordMachine.Listing
import WordMachine.Fault
import WordMachine.Memory
import WordMachine.Core
import WordMachine.Action
import WordMachine.Trace
import WordMachine.Machine.Basic
import WordMachine.Machine.Step
import WordMachine.Machine.Effect
import WordMachine.Machine.Run
import WordMachine.Event
import WordMachine.Debugger.Basic
import WordMachine.Debugger.Report
import WordMachine.Debugger.Command
import WordMachine.Toml.Decimal
import WordMachine.Toml.Value
import WordMachine.Toml.Reader
import WordMachine.Toml.Document
import WordMachine.Settings
import WordMachine.Toml.Settings
import WordMachine.Console
import WordMachine.Program.File
import WordMachine.Program.Basic
import WordMachine.Program.Run
import WordMachine.Program.Disassemble
import WordMachine.Main
import WordMachine.Proofs.Operand
import WordMachine.Proofs.Plan
import WordMachine.Proofs.Step
import WordMachine.Proofs.Effects
import WordMachine.Proofs.Loading
import WordMachine.Proofs.FaultCondition
import WordMachine.Proofs.InstructionTable
import WordMachine.Proofs.Run
import WordMachine.Proofs.StickyFault
import WordMachine.Proofs.Session
import WordMachine.Proofs.Schedule
import WordMachine.Proofs.Arithmetic
import WordMachine.Proofs.CallReturn
import WordMachine.Proofs.NarrowWords
import WordMachine.Proofs.Operation
import WordMachine.Proofs.Course
import WordMachine.Proofs.OutputOrder
import WordMachine.Proofs.InputOrder
import WordMachine.Proofs.Modes
import WordMachine.Proofs.Carried
import WordMachine.Proofs.Tracing
import WordMachine.Proofs.TraceRing
import WordMachine.Proofs.History
import WordMachine.Proofs.InstructionPointer
import WordMachine.Proofs.InstructionLimit
import WordMachine.Proofs.Dialogue
import WordMachine.Proofs.Conversation
import WordMachine.Proofs.Continuing
import WordMachine.Proofs.Numeral
import WordMachine.Proofs.Tiling
import WordMachine.Proofs.Legibility
import WordMachine.Proofs.RawColumn
import WordMachine.Proofs.SingleLines
import WordMachine.Proofs.Encoding
import WordMachine.Proofs.LoadedLength
import WordMachine.Proofs.LineInput
import WordMachine.Proofs.NumeralGrammar
import WordMachine.Proofs.Spelling
import WordMachine.Proofs.Locality
import WordMachine.Proofs.Breakpoints
import WordMachine.Proofs.NumberReaders

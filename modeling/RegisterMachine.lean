import RegisterMachine.Assembly.Diagnostic
import RegisterMachine.Assembly.Literal
import RegisterMachine.Assembly.Source
import RegisterMachine.Assembly.Token
import RegisterMachine.Binary64.Basic
import RegisterMachine.Binary64.Shortest
import RegisterMachine.Binary64.Text
import RegisterMachine.Bytes.Codec
import RegisterMachine.Collector.Attempts
import RegisterMachine.Collector.Frame
import RegisterMachine.Collector.Memory
import RegisterMachine.Error
import RegisterMachine.Fault
import RegisterMachine.Foreign.Script
import RegisterMachine.Foreign.Stock
import RegisterMachine.Foreign.Table
import RegisterMachine.Foreign.Text
import RegisterMachine.Heap.Allocation
import RegisterMachine.Heap.Arena
import RegisterMachine.Heap.Marking
import RegisterMachine.Isa.Instruction
import RegisterMachine.Isa.Opcode
import RegisterMachine.Isa.Operand
import RegisterMachine.Isa.Operation
import RegisterMachine.Log
import RegisterMachine.Machine.Arithmetic
import RegisterMachine.Machine.Basic
import RegisterMachine.Machine.Config
import RegisterMachine.Machine.Handlers
import RegisterMachine.Machine.Run
import RegisterMachine.Machine.Step
import RegisterMachine.Main
import RegisterMachine.Program.Basic
import RegisterMachine.Program.Constant
import RegisterMachine.Program.Image
import RegisterMachine.Program.Listing
import RegisterMachine.Program.Validation
import RegisterMachine.Proofs.Addresses
import RegisterMachine.Proofs.ArenaCapacity
import RegisterMachine.Proofs.ArenaHistory
import RegisterMachine.Proofs.ArenaSound
import RegisterMachine.Proofs.BareHeap
import RegisterMachine.Proofs.CalleeIsolation
import RegisterMachine.Proofs.CheckedAccess
import RegisterMachine.Proofs.CleanCuts
import RegisterMachine.Proofs.Codecs
import RegisterMachine.Proofs.Computations
import RegisterMachine.Proofs.Confinement
import RegisterMachine.Proofs.DoubleText
import RegisterMachine.Proofs.FrameAttempts
import RegisterMachine.Proofs.FrameClosing
import RegisterMachine.Proofs.FrameSizes
import RegisterMachine.Proofs.FrameStack
import RegisterMachine.Proofs.FreshStarts
import RegisterMachine.Proofs.HandlerSteps
import RegisterMachine.Proofs.HeapCounts
import RegisterMachine.Proofs.HeapTexts
import RegisterMachine.Proofs.HostCalls
import RegisterMachine.Proofs.HostTables
import RegisterMachine.Proofs.Images
import RegisterMachine.Proofs.InstructionLines
import RegisterMachine.Proofs.Labels
import RegisterMachine.Proofs.LargerLimits
import RegisterMachine.Proofs.Layout
import RegisterMachine.Proofs.Lifetimes
import RegisterMachine.Proofs.LineDefects
import RegisterMachine.Proofs.LineScans
import RegisterMachine.Proofs.Listings
import RegisterMachine.Proofs.LocatedOperands
import RegisterMachine.Proofs.LongArithmetic
import RegisterMachine.Proofs.LongResults
import RegisterMachine.Proofs.MachineBounds
import RegisterMachine.Proofs.MachineOwnership
import RegisterMachine.Proofs.MachineSizes
import RegisterMachine.Proofs.MachineSteps
import RegisterMachine.Proofs.MarkingPasses
import RegisterMachine.Proofs.MemoryActions
import RegisterMachine.Proofs.MemoryRuns
import RegisterMachine.Proofs.MemoryTurns
import RegisterMachine.Proofs.Mnemonics
import RegisterMachine.Proofs.Numerals
import RegisterMachine.Proofs.Opcodes
import RegisterMachine.Proofs.Ownership
import RegisterMachine.Proofs.PoolLimits
import RegisterMachine.Proofs.Reachability
import RegisterMachine.Proofs.RenamedHeaps
import RegisterMachine.Proofs.RenamedRuns
import RegisterMachine.Proofs.Renamings
import RegisterMachine.Proofs.Rounding
import RegisterMachine.Proofs.Runs
import RegisterMachine.Proofs.Scopes
import RegisterMachine.Proofs.SlotStates
import RegisterMachine.Proofs.SourceDefects
import RegisterMachine.Proofs.SourceWords
import RegisterMachine.Proofs.SpareSlots
import RegisterMachine.Proofs.Stores
import RegisterMachine.Proofs.Strays
import RegisterMachine.Proofs.StreamDefects
import RegisterMachine.Proofs.Sweep
import RegisterMachine.Proofs.SymbolicListings
import RegisterMachine.Proofs.TracedGraphs
import RegisterMachine.Proofs.Truncation
import RegisterMachine.Proofs.ValidStreams
import RegisterMachine.Registers
import RegisterMachine.Shell.Compiler
import RegisterMachine.Shell.Files
import RegisterMachine.Shell.Outcome
import RegisterMachine.Shell.Path
import RegisterMachine.Shell.Runner
import RegisterMachine.Shell.Storage
import RegisterMachine.Text.Numeral
import RegisterMachine.Value

import ByteMachine.Main
import ByteMachine.Proofs.Assembly.Correctness
import ByteMachine.Proofs.Debugger.Breakpoints
import ByteMachine.Proofs.Listing.Current
import ByteMachine.Proofs.Listing.RoundTrip
import ByteMachine.Proofs.Machine.Faults
import ByteMachine.Screen.View
import ByteMachine.Proofs.Machine.Budget
import ByteMachine.Proofs.Output
import ByteMachine.Proofs.Json.Token
import ByteMachine.Proofs.Machine.Printing
import ByteMachine.Proofs.Json.RoundTrip
import ByteMachine.Proofs.Snapshot
import ByteMachine.Proofs.MemorySafety
import ByteMachine.Proofs.Machine.Lifecycle
import ByteMachine.Proofs.Machine.Jumps
import ByteMachine.Proofs.Machine.Unread
import ByteMachine.Proofs.Machine.Stack
import ByteMachine.Proofs.Drivers
import ByteMachine.Proofs.CommandLine.Program
import ByteMachine.Proofs.CommandLine.Run
import ByteMachine.Proofs.CommandLine.Files
import ByteMachine.Proofs.CommandLine.Interchange
import ByteMachine.Proofs.Session
import ByteMachine.Proofs.Image.Grammar
import ByteMachine.Proofs.CommandLine.Failures
import ByteMachine.Proofs.Configuration
import ByteMachine.Proofs.Assembly.Mistakes
import ByteMachine.Proofs.Machine.LastInFirstOut
import ByteMachine.Proofs.Machine.StraightLine
import ByteMachine.Proofs.Debugger.Reset
import ByteMachine.Proofs.Assembly.Relocation
import ByteMachine.Proofs.Assembly.SmallLetters
import ByteMachine.Proofs.Assembly.Numerals
import ByteMachine.Proofs.Assembly.References
import ByteMachine.Proofs.Assembly.Tokens
import ByteMachine.Proofs.Listing.Lossless
import ByteMachine.Proofs.Debugger.Listing
import ByteMachine.Proofs.Memory
import ByteMachine.Proofs.CommandLine.Overwriting
import ByteMachine.Proofs.Instruction
import ByteMachine.Proofs.Machine.Addresses
import ByteMachine.Proofs.Output.DecimalText
import ByteMachine.Proofs.Screen.Panel
import ByteMachine.Proofs.Screen.Memory

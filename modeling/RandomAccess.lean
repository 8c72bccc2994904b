import RandomAccess.Growth.Fit
import RandomAccess.Main
import RandomAccess.Proofs.Except
import RandomAccess.Proofs.Program.WellFormed
import RandomAccess.Proofs.Machine.Abstract
import RandomAccess.Proofs.Machine.Effect
import RandomAccess.Proofs.Machine.Outcome
import RandomAccess.Proofs.Machine.Call
import RandomAccess.Proofs.Machine.Atomicity
import RandomAccess.Proofs.Machine.Refinement
import RandomAccess.Proofs.Source.Grammar
import RandomAccess.Proofs.Source.Parsing
import RandomAccess.Proofs.Source.Derivation
import RandomAccess.Proofs.Source.Line
import RandomAccess.Proofs.Numeral
import RandomAccess.Proofs.Program.Loading
import RandomAccess.Proofs.Program.RoundTrip
import RandomAccess.Proofs.Program.Soundness
import RandomAccess.Proofs.Machine.Control
import RandomAccess.Proofs.Machine.SoundRun
import RandomAccess.Proofs.Machine.Reporting
import RandomAccess.Proofs.Machine.Rounds
import RandomAccess.Proofs.Machine.Unseen
import RandomAccess.Proofs.Machine.Limit
import RandomAccess.Proofs.Machine.Stepping
import RandomAccess.Proofs.Machine.Consumption
import RandomAccess.Proofs.Machine.Tracing
import RandomAccess.Proofs.Machine.Output
import RandomAccess.Proofs.Machine.Replay
import RandomAccess.Proofs.Machine.Refusal
import RandomAccess.Proofs.Machine.Statistics
import RandomAccess.Proofs.Source.Case
import RandomAccess.Proofs.Source.Layout
import RandomAccess.Proofs.Program.Layout
import RandomAccess.Proofs.Machine.Lockstep
import RandomAccess.Proofs.Registers.Recall
import RandomAccess.Proofs.Samples.Sum
import RandomAccess.Proofs.Samples.Reverse
import RandomAccess.Proofs.Samples.Factorial
import RandomAccess.Proofs.Session.Message
import RandomAccess.Proofs.Machine.Delivery
import RandomAccess.Proofs.Session.Delivery
import RandomAccess.Proofs.Tape.Reading
import RandomAccess.Proofs.Text.Words
import RandomAccess.Proofs.Tape.RoundTrip
import RandomAccess.Proofs.Growth.Elimination
import RandomAccess.Proofs.Growth.Interpolation
import RandomAccess.Proofs.Machine.Division
import RandomAccess.Proofs.Registers.Storage
import RandomAccess.Proofs.Growth.Tolerance

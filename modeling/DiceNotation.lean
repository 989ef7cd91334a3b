import DiceNotation.Main
import DiceNotation.Reading
import DiceNotation.Context.Step
import DiceNotation.Roller.Tape
import DiceNotation.Proofs.Scan
import DiceNotation.Proofs.Substitution
import DiceNotation.Proofs.Evaluation
import DiceNotation.Proofs.Agreement
import DiceNotation.Proofs.Processing
import DiceNotation.Proofs.Recording
import DiceNotation.Proofs.Runs
import DiceNotation.Proofs.Budget
import DiceNotation.Proofs.Longest
import DiceNotation.Proofs.Reading
import DiceNotation.Proofs.RoundTrip
import DiceNotation.Proofs.Boundaries
import DiceNotation.Proofs.Barriers
import DiceNotation.Proofs.Composition
import DiceNotation.Proofs.Curtailing
import DiceNotation.Proofs.Exhaustion
import DiceNotation.Proofs.History
import DiceNotation.Proofs.Coupling
import DiceNotation.Proofs.Completion
import DiceNotation.Proofs.Pooling
import DiceNotation.Proofs.Lines
import DiceNotation.Proofs.Blocks
import DiceNotation.Proofs.Range
import DiceNotation.Proofs.Overflow
import DiceNotation.Proofs.Thresholds
import DiceNotation.Proofs.Gaps
import DiceNotation.Proofs.Segments
import DiceNotation.Proofs.Breakdown
import DiceNotation.Proofs.Markup
import DiceNotation.Proofs.Ledger
import DiceNotation.Proofs.Rescanning
import DiceNotation.Proofs.Fairness
import DiceNotation.Proofs.LineEndings
import DiceNotation.Proofs.Unfinished
import DiceNotation.Proofs.Tiling
import DiceNotation.Proofs.Settings
import DiceNotation.Proofs.Attempts
import DiceNotation.Proofs.Spending

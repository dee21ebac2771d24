import VerifierTrace.Log.Dependencies
import VerifierTrace.Machine.Fingerprint
import VerifierTrace.Proofs.Log.LastWriter
import VerifierTrace.Proofs.Log.Feeding
import VerifierTrace.Proofs.Log.UseDefWalk
import VerifierTrace.Proofs.Log.Spread
import VerifierTrace.Proofs.Log.Chatter
import VerifierTrace.Proofs.Log.AppendOnly
import VerifierTrace.Proofs.Log.NearestState
import VerifierTrace.Proofs.Log.Stream
import VerifierTrace.Proofs.Machine.BalancedCall
import VerifierTrace.Proofs.Machine.Renaming
import VerifierTrace.Proofs.Machine.CallStack
import VerifierTrace.Proofs.Machine.SlotEffect
import VerifierTrace.Proofs.Grammar.Target
import VerifierTrace.Proofs.Grammar.Source
import VerifierTrace.Proofs.Grammar.Modifier
import VerifierTrace.Proofs.Grammar.Assignment
import VerifierTrace.Proofs.Grammar.Line
import VerifierTrace.Proofs.Grammar.AssignmentLine
import VerifierTrace.Proofs.Grammar.Condition
import VerifierTrace.Proofs.Grammar.Jump
import VerifierTrace.Proofs.Grammar.JumpLine
import VerifierTrace.Proofs.Grammar.Comment
import VerifierTrace.Proofs.Grammar.FactKey
import VerifierTrace.Proofs.Grammar.FactRow
import VerifierTrace.Proofs.Text.Octets
import VerifierTrace.Proofs.Text.Reader
import VerifierTrace.Proofs.Text.Matchers
import VerifierTrace.Proofs.Grammar.OperandReader
import VerifierTrace.Proofs.Grammar.LineReader
import VerifierTrace.Proofs.Grammar.Spans
import VerifierTrace.Proofs.Grammar.Places
import VerifierTrace.Proofs.Machine.Rendering
import VerifierTrace.Proofs.Machine.FingerprintInput
import VerifierTrace.Proofs.Grammar.ViablePrefix
import VerifierTrace.Proofs.Machine.CallLine
import VerifierTrace.Proofs.Machine.OtherFrame
import VerifierTrace.Proofs.Grammar.Literal
import VerifierTrace.Proofs.Instruction.BranchTarget
import VerifierTrace.Proofs.Log.Recount
import VerifierTrace.Proofs.Grammar.SlotName
import VerifierTrace.Proofs.Grammar.Shift
import VerifierTrace.Proofs.Grammar.Indentation
import VerifierTrace.Proofs.Text.Cursor
import VerifierTrace.Proofs.Grammar.OperandMatching

import StackCode.Main
import StackCode.Proofs.Operands
import StackCode.Proofs.LexicalScoping
import StackCode.Proofs.PatternExecution
import StackCode.Proofs.Inheritance
import StackCode.Proofs.MemberDefinitions
import StackCode.Proofs.IvarAccesses
import StackCode.Proofs.ClosedScopes
import StackCode.Proofs.SharedConstants
import StackCode.Proofs.MixinTables
import StackCode.Proofs.RoundTrip
import StackCode.Proofs.IllegalDeclarations
import StackCode.Proofs.PlainTables
import StackCode.Proofs.IdleBodies
import StackCode.Proofs.Surroundings
import StackCode.Proofs.CanonicalNames
import StackCode.Proofs.CaptureCode
import StackCode.Proofs.ReopenedScopes
import StackCode.Proofs.LineRuns

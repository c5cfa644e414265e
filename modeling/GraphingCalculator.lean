import GraphingCalculator.Service.Basic
import GraphingCalculator.Proofs.Token.Concatenation
import GraphingCalculator.Proofs.Grammar.Tower
import GraphingCalculator.Proofs.Grammar.Product
import GraphingCalculator.Proofs.Grammar.Restoration
import GraphingCalculator.Proofs.Printing.Source
import GraphingCalculator.Proofs.Expr.Bindings
import GraphingCalculator.Proofs.Calculator.History
import GraphingCalculator.Proofs.Dictation.Sentences
import GraphingCalculator.Proofs.Dictation.Spacing
import GraphingCalculator.Proofs.Dictation.Typed
import GraphingCalculator.Proofs.Sweep.Axis
import GraphingCalculator.Proofs.Sweep.Slices
import GraphingCalculator.Proofs.Sweep.Failures
import GraphingCalculator.Proofs.Service.Replies

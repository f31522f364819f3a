import UnitScript.Main
import UnitScript.Tree.Alike
import UnitScript.Proofs.Grammar.RoundTrip
import UnitScript.Proofs.Calls.Depth
import UnitScript.Proofs.Calls.Blind
import UnitScript.Proofs.Context.Laws
import UnitScript.Proofs.Units.Canonical
import UnitScript.Proofs.Units.Dimension
import UnitScript.Proofs.Places.Layout
import UnitScript.Proofs.Places.Splitting
import UnitScript.Proofs.Faults.Provenance
import UnitScript.Proofs.Token.Relexing
import UnitScript.Proofs.Token.LongestMatch
import UnitScript.Proofs.Machine.Contents
import UnitScript.Proofs.Machine.Kinds
import UnitScript.Proofs.Control.Signals
import UnitScript.Proofs.Calls.Termination
import UnitScript.Proofs.Calls.Limit
import UnitScript.Proofs.Grammar.Completion
import UnitScript.Proofs.Grammar.Height
import UnitScript.Proofs.Places.Extents
import UnitScript.Proofs.CommandLine
import UnitScript.Proofs.Units.Algebra
import UnitScript.Proofs.Value.Dispatch
import UnitScript.Proofs.Calls.Protocol
import UnitScript.Proofs.Parser.Progress
import UnitScript.Proofs.Value.Integers
import UnitScript.Proofs.Token.Rejection
import UnitScript.Proofs.Units.Text
import UnitScript.Proofs.Units.Literals
import UnitScript.Proofs.Value.Products
import UnitScript.Proofs.Grammar.Literals
import UnitScript.Proofs.Rewriting.Runs

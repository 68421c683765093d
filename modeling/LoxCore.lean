import LoxCore.Main
import LoxCore.Proofs.CommandLine.SavedRun
import LoxCore.Proofs.Grammar.Acceptance
import LoxCore.Proofs.Grammar.Flatten
import LoxCore.Proofs.Session.Pieces
import LoxCore.Proofs.Node.Effect
import LoxCore.Proofs.Node.Tidied
import LoxCore.Proofs.Session.Detail
import LoxCore.Proofs.Session.Names
import LoxCore.Proofs.CommandLine.Errors
import LoxCore.Proofs.Grammar.Recovery
import LoxCore.Proofs.Token.Restart
import LoxCore.Proofs.Token.Spacing
import LoxCore.Proofs.CommandLine.Loading
import LoxCore.Proofs.Source.Printed
import LoxCore.Proofs.Node.Postorder
import LoxCore.Proofs.Node.Sorted
import LoxCore.Proofs.Session.Frame
import LoxCore.Proofs.Session.Groups
import LoxCore.Proofs.Session.Unsupported
import LoxCore.Proofs.Grammar.Sketch
import LoxCore.Proofs.Double.Order
import LoxCore.Proofs.Value.Comparison
import LoxCore.Proofs.CommandLine.TreeModes
import LoxCore.Proofs.Grammar.Kept
import LoxCore.Proofs.Node.FirstLine
import LoxCore.Proofs.Session.Log

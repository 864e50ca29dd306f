import Stencil.File.Tree
import Stencil.Main
import Stencil.Proofs.Render.Provided
import Stencil.Settings.Basic
import Stencil.Proofs.Expr.Fault
import Stencil.Proofs.Render.Effect
import Stencil.Proofs.Render.Frames
import Stencil.Proofs.Render.Reached
import Stencil.Proofs.Render.Rebound
import Stencil.Proofs.Render.Reference
import Stencil.Proofs.Render.Simulation
import Stencil.Proofs.Render.Agreement
import Stencil.Proofs.Render.Equivalence
import Stencil.Proofs.Render.Output
import Stencil.Proofs.Render.Recovery
import Stencil.Proofs.Render.Replay
import Stencil.Proofs.Render.Unmentioned
import Stencil.Proofs.Node.Grammar
import Stencil.Proofs.Node.Spelling
import Stencil.Proofs.Node.Derivation
import Stencil.Proofs.Node.Building
import Stencil.Proofs.Node.Following
import Stencil.Proofs.Node.Nesting
import Stencil.Proofs.Token.Spacing
import Stencil.Proofs.Expr.Grammar
import Stencil.Proofs.Expr.Whole
import Stencil.Proofs.Expr.Filters
import Stencil.Proofs.Expr.Soundness
import Stencil.Proofs.Expr.Completeness
import Stencil.Proofs.Expr.Canonical
import Stencil.Proofs.Expr.RoundTrip
import Stencil.Proofs.Expr.Placement
import Stencil.Proofs.Expr.Recognition
import Stencil.Proofs.Expr.Pipeline
import Stencil.Proofs.Filter
import Stencil.Proofs.Node.Tiling
import Stencil.Proofs.Node.Options
import Stencil.Proofs.Value.Preorder
import Stencil.Proofs.Value.Numbers
import Stencil.Proofs.Render.Origin
import Stencil.Proofs.Render.Termination
import Stencil.Proofs.Render.Stripped
import Stencil.Proofs.Loader.Directory
import Stencil.Proofs.Command.Check
import Stencil.Proofs.Settings.Layers
import Stencil.Proofs.Expr.Precedence
import Stencil.Proofs.Token.Laid
import Stencil.Proofs.Render.Exact
import Stencil.Proofs.Node.Places
import Stencil.Proofs.Node.Selector
import Stencil.Proofs.Node.Arguments
import Stencil.Proofs.Render.Stored
import Stencil.Proofs.Render.Untagged
import Stencil.Proofs.Node.Runs
import Stencil.Proofs.Text.Lines
import Stencil.Proofs.Node.LineEnds
import Stencil.Proofs.Render.Inlined
import Stencil.Proofs.Expr.Opened
import Stencil.Proofs.Expr.Bracket
import Stencil.Proofs.Expr.ElementsOnly
import Stencil.Proofs.Value.Reread
import Stencil.Proofs.Node.Appended



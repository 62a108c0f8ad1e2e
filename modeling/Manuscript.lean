import Manuscript.Compile
import Manuscript.Settings.Store
import Manuscript.Proofs.Stage.Screen
import Manuscript.Proofs.Program.InRange
import Manuscript.Proofs.Stage.Walk
import Manuscript.Proofs.Stage.Join
import Manuscript.Proofs.Flow.Cutting
import Manuscript.Proofs.Flow.Trace
import Manuscript.Proofs.Flow.WellFormed
import Manuscript.Proofs.Text.Boundary
import Manuscript.Proofs.Line.Cuts
import Manuscript.Proofs.Assembly.Built
import Manuscript.Proofs.Stage.InRange
import Manuscript.Proofs.Flow.InRange
import Manuscript.Proofs.Script.Total
import Manuscript.Proofs.Total
import Manuscript.Proofs.Text.Lower
import Manuscript.Proofs.Identifier
import Manuscript.Proofs.Program.Sprite
import Manuscript.Proofs.Script.Written
import Manuscript.Proofs.Script.Names
import Manuscript.Proofs.Script.Labels
import Manuscript.Proofs.Script.Run
import Manuscript.Proofs.Script.Follow
import Manuscript.Proofs.Stage.Collected
import Manuscript.Proofs.Stage.Declared
import Manuscript.Proofs.Assembly.Sound
import Manuscript.Proofs.Script.Images
import Manuscript.Proofs.Script.ImageNames
import Manuscript.Proofs.Command.Derivation
import Manuscript.Proofs.Command.Grammar
import Manuscript.Proofs.Text.Trim
import Manuscript.Proofs.Line.CommandLine
import Manuscript.Proofs.Line.Spoken
import Manuscript.Proofs.Script.Literal
import Manuscript.Proofs.Script.Outline
import Manuscript.Proofs.Script.Confined
import Manuscript.Proofs.Stage.Story
import Manuscript.Proofs.Line.Named
import Manuscript.Proofs.Assembly.Emitted
import Manuscript.Proofs.Assembly.Opened
import Manuscript.Proofs.Text.Plain
import Manuscript.Proofs.Flow.Unstyled
import Manuscript.Proofs.Stage.Unstyled
import Manuscript.Proofs.Assembly.Unstyled
import Manuscript.Proofs.SameText
import Manuscript.Proofs.Line.Names
import Manuscript.Proofs.Assembly.Cast
import Manuscript.Proofs.Assembly.Named
import Manuscript.Proofs.Assembly.Resolved
import Manuscript.Proofs.Assembly.Unlocated
import Manuscript.Proofs.Assembly.Anywhere
import Manuscript.Proofs.Json.Written
import Manuscript.Proofs.Document.RoundTrip
import Manuscript.Proofs.Stage.Patch
import Manuscript.Proofs.Stage.Trail
import Manuscript.Proofs.Stage.Reported
import Manuscript.Proofs.Stage.Edges
import Manuscript.Proofs.Stage.Economy
import Manuscript.Proofs.Stage.Scenes
import Manuscript.Proofs.Flow.Fates
import Manuscript.Proofs.Program.Additions
import Manuscript.Proofs.Program.DefaultPath
import Manuscript.Proofs.Program.Choice
import Manuscript.Proofs.Document.Styled
import Manuscript.Proofs.Script.Escape
import Manuscript.Proofs.Command.Tokens
import Manuscript.Proofs.Line.Media
import Manuscript.Proofs.Script.Markup
import Manuscript.Proofs.Script.Spaces
import Manuscript.Proofs.Program.Attribution
import Manuscript.Proofs.Command.Kept
import Manuscript.Proofs.Assembly.Attached
import Manuscript.Proofs.Line.Fields
import Manuscript.Proofs.Naming
import Manuscript.Proofs.Flow.Predecessors
import Manuscript.Proofs.Text.Replace
import Manuscript.Proofs.Diagnostic

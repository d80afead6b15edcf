import Tabletop.Highlight
import Tabletop.Main
import Tabletop.Proofs.Overflow
import Tabletop.Proofs.Placement
import Tabletop.Proofs.ReadFailure
import Tabletop.Proofs.Replay
import Tabletop.Proofs.Resolution
import Tabletop.Proofs.ExitCode
import Tabletop.Proofs.Restoration
import Tabletop.Proofs.Script
import Tabletop.Theme
import Tabletop.Proofs.Erasure
import Tabletop.Proofs.Reckoning
import Tabletop.Proofs.Composition
import Tabletop.Proofs.OneLine
import Tabletop.Proofs.Accounting
import Tabletop.Proofs.Exit
import Tabletop.Proofs.Conversation
import Tabletop.Proofs.Segments
import Tabletop.Proofs.Forgetting
import Tabletop.Proofs.Padding
import Tabletop.Proofs.Settings
import Tabletop.Proofs.Startup
import Tabletop.Proofs.Exactness
import Tabletop.Proofs.Symmetry
import Tabletop.Proofs.FirstFault
import Tabletop.Proofs.Coordinate
import Tabletop.Proofs.Highlighting
import Tabletop.Proofs.StepTable
import Tabletop.Proofs.WrittenBounds
import Tabletop.Proofs.Widening
import Tabletop.Proofs.Distance
import Tabletop.Proofs.WayBack
import Tabletop.Proofs.Edge

import Linework.Canvas.Description
import Linework.Canvas.Script
import Linework.Proofs.Canvas.Anchor
import Linework.Proofs.Canvas.Anew
import Linework.Proofs.Canvas.Astray
import Linework.Proofs.Canvas.Elements
import Linework.Proofs.Canvas.Handed
import Linework.Proofs.Canvas.Lenient
import Linework.Proofs.Canvas.Ovals
import Linework.Proofs.Canvas.PathFaults
import Linework.Proofs.Canvas.Radians
import Linework.Proofs.Canvas.Relative
import Linework.Proofs.Canvas.Repeats
import Linework.Proofs.Canvas.Rounding
import Linework.Proofs.Canvas.Sliced
import Linework.Proofs.Canvas.Smooth
import Linework.Proofs.Canvas.Styling
import Linework.Proofs.Outline.Formatting
import Linework.Proofs.Outline.Separation
import Linework.Proofs.Plane.Retrace
import Linework.Proofs.Plane.RoundTrip
import Linework.Proofs.Sheet.Brackets
import Linework.Proofs.Sheet.Faults
import Linework.Proofs.Sheet.Flattened
import Linework.Proofs.Sheet.Opening
import Linework.Proofs.Sheet.Placement
import Linework.Proofs.Sheet.Redraw
import Linework.Proofs.Sheet.Refusal
import Linework.Proofs.Sheet.Replay
import Linework.Proofs.Sheet.Restore
import Linework.Proofs.Sheet.Stages
import Linework.Proofs.Style.Components
import Linework.Proofs.Style.Merging
import Linework.Sheet.Desk

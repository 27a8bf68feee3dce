import Linework.Canvas.Basic
import Linework.Surface.Recording

/-!
# Canvases in one line

A canvas over a recording is shown by its surface and its pen.
-/

set_option autoImplicit false

namespace Linework.Canvas

def describe (c : Canvas (Recording Float) Float) : String :=
  "PathCanvas(" ++ c.surface.describe ++ ", " ++ c.pen.describe ++ ")"

end Linework.Canvas

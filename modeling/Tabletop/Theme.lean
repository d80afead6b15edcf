import Tabletop.Highlight

/-!
How the pieces of a highlighted line look.
-/

namespace Tabletop

structure Colour where
  red : UInt8
  green : UInt8
  blue : UInt8
  deriving DecidableEq

namespace Colour

def surface : Colour := ⟨108, 112, 134⟩
def rose : Colour := ⟨243, 139, 168⟩
def leaf : Colour := ⟨166, 227, 161⟩
def cream : Colour := ⟨249, 226, 175⟩
def blueberry : Colour := ⟨137, 180, 250⟩
def mauve : Colour := ⟨203, 166, 247⟩
def peach : Colour := ⟨250, 179, 135⟩
def teal : Colour := ⟨148, 226, 213⟩
def sky : Colour := ⟨137, 220, 235⟩

end Colour

/-- The look of a piece; without a colour it has the terminal's own. -/
structure Style where
  colour : Option Colour := none
  bold : Bool := false
  underline : Bool := false
  deriving DecidableEq

/-- The style of each role. -/
def Role.style : Role → Style
  | place => { colour := some .leaf, bold := true }
  | movement => { colour := some .sky, bold := true }
  | turn => { colour := some .teal, bold := true }
  | report => { colour := some .cream, bold := true }
  | console => { colour := some .mauve, bold := true }
  | coordinate => { colour := some .peach }
  | heading => { colour := some .blueberry }
  | separator => { colour := some .surface }
  | invalid => { colour := some .rose, underline := true }
  | space => {}

end Tabletop

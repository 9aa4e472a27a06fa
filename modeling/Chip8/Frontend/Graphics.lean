import Chip8.Fault
import Chip8.Layout
import Chip8.Picture.Basic

/-! What a front end draws on, and what it draws with. Any graphics will do that have these
operations: all that is known of them is what they answer. -/

namespace Chip8

inductive Surface
  | memory (p : Picture)
  | window (title : String) (p : Picture)
  | closed

namespace Surface

def picture? : Surface → Option Picture
  | memory p => some p
  | window _ p => some p
  | closed => none

def withPicture : Surface → Picture → Surface
  | memory _, p => memory p
  | window title _, p => window title p
  | closed, _ => closed

end Surface

structure Graphics where
  color : Ink → Except Fault Color
  surface {m n : Nat} : Grid m n Color → Except Fault Surface
  scale : Surface → Int × Int → Except Fault Surface
  window : String → Int × Int → Except Fault Surface
  blit : Surface → Surface → Nat × Nat → Except Fault Surface
  -- Shows what has been drawn on a surface. If it is a window, the picture is what it shows.
  flip : Surface → Except Fault (Option Picture)
  quit : Surface → Surface

def Layout.displaySize (scale : Int) : Int × Int := (displayWidth * scale, displayHeight * scale)

def Graphics.render (g : Graphics) (d : Display) (scale : Int) (fg bg : Ink) :
    Except Fault Surface := do
  let on ← g.color fg
  let off ← g.color bg
  let s ← g.surface (d.grid.transpose.select on off)
  g.scale s (Layout.displaySize scale)

end Chip8

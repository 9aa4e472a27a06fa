import Chip8.Frontend.Graphics
import Chip8.Width

/-! Graphics that draw in memory. Sides are numbers of 32 bits, and there are limits to what a
picture and a window may take. -/

namespace Chip8

namespace Ink

def level (n : Int) : Except Fault UInt8 :=
  if fits64 n then
    match byte? n with
    | none => .error (.badLevel n)
    | some b => .ok b
  else .error .hugeNumber

def color (i : Ink) : Except Fault Color := do
  let r ← level i.red
  let g ← level i.green
  let b ← level i.blue
  return ⟨r, g, b⟩

end Ink

namespace Stock

def sides (size : Int × Int) : Except Fault (Int × Int) :=
  if fits64 size.1 && fits64 size.2 then .ok (low32 size.1, low32 size.2)
  else .error .hugePicture

def pitch (width : Nat) : Nat := 4 * width

def fits (width height : Nat) : Bool :=
  pitch width < 0x80000000 ∧ pitch width * height < 0x80000000

def scale (s : Surface) (size : Int × Int) : Except Fault Surface := do
  let (w, h) ← sides size
  if w < 0 ∨ h < 0 then .error .negativePicture
  else if fits w.toNat h.toNat then
    match s.picture? with
    | none => .error .closedWindow
    | some p => .ok (.memory (p.stretch (w.toNat / p.width) (h.toNat / p.height)))
  else .error .outOfMemory

def desktop : Nat × Nat := (1024, 768)

def windowLimit : Nat := 16384

def window (title : String) (size : Int × Int) : Except Fault Surface := do
  let (w, h) ← sides size
  if w < 0 ∨ h < 0 then .error .negativeWindow
  else if w = 0 ∧ h = 0 then .ok (.window title (.black desktop.1 desktop.2))
  else if windowLimit < w ∨ windowLimit < h then .error .hugeWindow
  else .ok (.window title (.black w.toNat h.toNat))

def blit (t s : Surface) (place : Nat × Nat) : Except Fault Surface :=
  match t.picture?, s.picture? with
  | some q, some p => .ok (t.withPicture (p.blit q place.1 place.2))
  | _, _ => .error .closedWindow

def shown : Surface → Option Picture
  | .window _ p => some p
  | _ => none

def quit : Surface → Surface
  | .window .. => .closed
  | s => s

end Stock

def Graphics.stock : Graphics where
  color := Ink.color
  surface a := .ok (.memory (.ofGrid a))
  scale := Stock.scale
  window := Stock.window
  blit := Stock.blit
  flip s := .ok (Stock.shown s)
  quit := Stock.quit

end Chip8

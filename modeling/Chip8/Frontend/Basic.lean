import Chip8.Console.Command
import Chip8.Frontend.Graphics
import Chip8.Frontend.Keyboard

/-! The front end of a console: keyboard, frames and screen. -/

namespace Chip8

structure Showing where
  ticks : Nat := 0
  flips : Nat := 0
  window : Option Picture := none

structure Frontend where
  console : Console
  cycles : Nat
  scale : Int
  foreground : Ink
  screen : Option Surface := none
  running : Bool := true
  pressed : Option Int := none

namespace Frontend

def defaultClock : Int := 500
def defaultScale : Int := 12

def frameRate : Int := 60

def caption : String := "CHIP-8"

def cyclesPerFrame (clock : Int) : Nat := max 1 (clock / frameRate).toNat

def ofConsole (c : Console) (clock : Int) (scale : Int) (fg : Ink) (screen : Option Surface) :
    Frontend :=
  { console := c, cycles := cyclesPerFrame clock, scale := scale, foreground := fg,
    screen := screen }

def handle (h : Frontend) : Event → Frontend
  | .quit => { h with running := false }
  | .keyDown name =>
    if name = Keyboard.escape then { h with running := false }
    else
      match Keyboard.key? name with
      | some k => { h with console := h.console.press k.val, pressed := some k.val }
      | none => h
  | .keyUp name =>
    match Keyboard.key? name with
    | some k => { h with console := h.console.release k.val }
    | none => h
  | .other => h

def cycle (h : Frontend) : Nat → Outcome Frontend Bool
  | 0 => (.ok false, h)
  | n + 1 =>
    if h.console.machine.waiting then
      match h.pressed with
      | none => (.ok false, h)
      | some k =>
        match h.console.step (some k) with
        | (.error f, c) => (.error f, { h with console := c })
        | (.ok _, c) => { h with console := c, pressed := none }.cycle n
    else
      match h.console.step none with
      | (.error f, c) => (.error f, { h with console := c })
      | (.ok .halted, c) => (.ok true, { h with console := c })
      | (.ok _, c) => { h with console := c }.cycle n

/-- One frame: its instructions, then one tick of the timers unless the program has halted. A key
that no program was waiting for is forgotten. -/
def update (h : Frontend) : Outcome Frontend Unit :=
  match h.cycle h.cycles with
  | (.error f, h) => (.error f, h)
  | (.ok true, h) => (.ok (), { h with running := false, console := h.console.note .finished })
  | (.ok false, h) => (.ok (), { h with pressed := none, console := h.console.tick })

def frame (h : Frontend) (events : List Event) : Outcome Frontend Unit :=
  (events.foldl handle h).update

def paint (g : Graphics) (h : Frontend) (s : Showing) : Outcome (Frontend × Showing) Unit :=
  match h.screen with
  | none => (.ok (), h, s)
  | some t =>
    match g.render h.console.machine.display h.scale h.foreground Color.night.ink with
    | .error f => (.error f, h, s)
    | .ok p =>
      match g.blit t p (0, 0) with
      | .error f => (.error f, h, s)
      | .ok t =>
        match g.flip t with
        | .error f => (.error f, { h with screen := some t }, s)
        | .ok w =>
          (.ok (), { h with screen := some t }, { s with flips := s.flips + 1, window := w })

end Frontend

end Chip8

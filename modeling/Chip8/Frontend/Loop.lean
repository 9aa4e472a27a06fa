import Chip8.Frontend.Basic

/-! The main loop. Frames of events come from a list; when it is used up the user quits. Of the clock
only the ticks are counted. -/

namespace Chip8.Frontend

def openWindow (g : Graphics) (h : Frontend) : Except Fault Frontend :=
  match h.screen with
  | none => (g.window caption (Layout.displaySize h.scale)).map fun s => { h with screen := some s }
  | some _ => .ok h

def quit (g : Graphics) (h : Frontend) : Frontend := { h with screen := h.screen.map g.quit }

def turn (g : Graphics) (h : Frontend) (events : List Event) (s : Showing) :
    Outcome (Frontend × Showing) Unit :=
  match h.frame events with
  | (.error f, h) => (.error f, h, s)
  | (.ok (), h) =>
    match h.paint g s with
    | (.error f, h, s) => (.error f, h, s)
    | (.ok (), h, s) => (.ok (), h, { s with ticks := s.ticks + 1 })

def turns (g : Graphics) (h : Frontend) (s : Showing) :
    List (List Event) → Outcome (Frontend × Showing) Unit
  | [] => (.ok (), h, s)
  | events :: rest =>
    if h.running then
      match h.turn g events s with
      | (.error f, h, s) => (.error f, h, s)
      | (.ok (), h, s) => h.turns g s rest
    else (.ok (), h, s)

def play (g : Graphics) (h : Frontend) (frames : List (List Event)) :
    Outcome (Frontend × Showing) Unit :=
  match h.openWindow g with
  | .error f => (.error f, h, {})
  | .ok h =>
    let (r, h, s) := h.turns g {} (frames ++ [[.quit]])
    -- The graphics are left even after a fault.
    (r, h.quit g, s)

end Chip8.Frontend

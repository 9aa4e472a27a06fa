import Chip8.Layout

/-! Keyboard events, and the keyboard as a hexadecimal keypad. -/

namespace Chip8

inductive Event
  | quit
  | keyDown (key : String)
  | keyUp (key : String)
  | other
deriving DecidableEq, Repr

def Event.ofString (s : String) : Event :=
  match s.toList with
  | '+' :: key => keyDown (String.ofList key)
  | '-' :: key => keyUp (String.ofList key)
  | _ => if s = "QUIT" then quit else other

namespace Keyboard

def layout : List (String × Key) :=
  [("1", .ofInt 0x1), ("2", .ofInt 0x2), ("3", .ofInt 0x3), ("4", .ofInt 0xC),
   ("q", .ofInt 0x4), ("w", .ofInt 0x5), ("e", .ofInt 0x6), ("r", .ofInt 0xD),
   ("a", .ofInt 0x7), ("s", .ofInt 0x8), ("d", .ofInt 0x9), ("f", .ofInt 0xE),
   ("z", .ofInt 0xA), ("x", .ofInt 0x0), ("c", .ofInt 0xB), ("v", .ofInt 0xF)]

def key? (name : String) : Option Key := layout.lookup name

def escape : String := "ESCAPE"

end Keyboard

end Chip8

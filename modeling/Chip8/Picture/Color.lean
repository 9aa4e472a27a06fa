/-! Colours of pixels, and inks: colours as they are asked for. -/

namespace Chip8

structure Color where
  red : UInt8
  green : UInt8
  blue : UInt8
deriving DecidableEq, Repr

structure Ink where
  red : Int
  green : Int
  blue : Int
deriving DecidableEq, Repr

namespace Color

def black : Color := ⟨0, 0, 0⟩
def night : Color := ⟨15, 15, 25⟩
def phosphor : Color := ⟨0, 255, 128⟩

def ink (c : Color) : Ink := ⟨c.red.toNat, c.green.toNat, c.blue.toNat⟩

end Color

end Chip8

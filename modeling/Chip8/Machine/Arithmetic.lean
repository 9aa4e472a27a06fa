import Chip8.Machine.Basic

/-! The instructions that combine two registers. The ones with a flag write it to `VF` last, so it
wins over the result when the result goes to `VF` as well. -/

namespace Chip8

namespace Arithmetic

def add (a b : UInt8) : UInt8 × Bool := (a + b, 255 < a.toNat + b.toNat)

def sub (a b : UInt8) : UInt8 × Bool := (a - b, b < a)

def subFrom (a b : UInt8) : UInt8 × Bool := sub b a

def shiftRight (a _ : UInt8) : UInt8 × Bool := (a >>> 1, a % 2 = 1)

def shiftLeft (a _ : UInt8) : UInt8 × Bool := (a <<< 1, 128 ≤ a)

def decimal (b : UInt8) : List UInt8 := [b / 100, b / 10 % 10, b % 10]

end Arithmetic

namespace Machine

def combine (m : Machine) (x y : Register) (f : UInt8 → UInt8 → UInt8) : Machine :=
  m.setV x (f (m.v x) (m.v y))

def combineFlag (m : Machine) (x y : Register) (f : UInt8 → UInt8 → UInt8 × Bool) : Machine :=
  let r := f (m.v x) (m.v y)
  (m.setV x r.1).setV Layout.flagRegister (if r.2 then 1 else 0)

end Machine

end Chip8

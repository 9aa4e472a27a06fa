import Chip8.Text.Hex

/-! What can go wrong, and the text that says so. -/

namespace Chip8

inductive Fault
  | programTooLarge (size limit : Nat)
  | stackOverflow (pc : Int) (capacity : Nat)
  | badFetch (address : Int)
  | halted
  | badCapacity (capacity : Int)
  | wordOutOfRange (word : Int)
  | notByte
  | badIndex
  | hugeIndex
  | noKey
  | badLevel (level : Int)
  | hugeNumber
  | negativePicture
  | negativeWindow
  | hugeWindow
  | hugePicture
  | outOfMemory
  | closedWindow
deriving DecidableEq, Repr

namespace Fault

def message : Fault → String
  | programTooLarge size limit =>
    "Program is " ++ toString size ++ " bytes, at most " ++ toString limit ++ " fit in memory"
  | stackOverflow pc capacity =>
    "Stack overflow calling from $" ++ Text.hex 3 pc ++ " (capacity " ++ toString capacity ++ ")"
  | badFetch address => "Illegal instruction fetch at $" ++ Text.hex 4 address
  | halted => "Tried to continue executing a terminated machine"
  | badCapacity capacity => "stack capacity must be positive, got " ++ toString capacity
  | wordOutOfRange word => "instruction word out of range: " ++ toString word
  | notByte => "byte must be in range(0, 256)"
  | badIndex => "bytearray index out of range"
  | hugeIndex => "cannot fit 'int' into an index-sized integer"
  | noKey => "unsupported operand type(s) for &: 'NoneType' and 'int'"
  | badLevel level => "Python integer " ++ toString level ++ " out of bounds for uint8"
  | hugeNumber => "Python int too large to convert to C long"
  | negativePicture => "Cannot scale to negative size"
  | negativeWindow => "Cannot set negative sized display mode"
  | hugeWindow => "Window is too large."
  | hugePicture => "size must be two numbers"
  | outOfMemory => "Out of memory"
  | closedWindow => "display Surface quit"

def isMachineFault : Fault → Bool
  | programTooLarge .. | stackOverflow .. | badFetch .. | halted => true
  | _ => false

end Fault

/-- An operation that fails leaves its state behind all the same. -/
abbrev Outcome (σ α : Type) := Except Fault α × σ

end Chip8

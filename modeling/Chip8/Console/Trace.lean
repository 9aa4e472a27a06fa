import Chip8.Instruction.Basic

/-! What the console and its front end report while they run. -/

namespace Chip8

inductive Level
  | debug | info | error
deriving DecidableEq, Repr

namespace Level

def name : Level → String
  | debug => "DEBUG"
  | info => "INFO"
  | error => "ERROR"

end Level

inductive Record
  | executing (address : Nat) (i : Instruction)
  | leaving
  | ignoring (word : UInt16)
  | awaiting (x : Register)
  | stored (k : Key) (register : Int)
  | finished
  | failed (f : Fault)
deriving DecidableEq, Repr

namespace Record

def level : Record → Level
  | finished => .info
  | failed _ => .error
  | _ => .debug

def message : Record → String
  | executing a i => "PC=$" ++ Text.hex 3 a ++ " " ++ i.text
  | leaving => "Return with empty stack, terminating"
  | ignoring w => "Ignoring opcode $" ++ Text.hex 4 w.toNat
  | awaiting x => "Waiting for key into V" ++ Text.hex 1 x.val
  | stored k r => "Key " ++ Text.hex 1 k.val ++ " stored in V" ++ Text.hex 1 r ++ ", resuming"
  | finished => "Program finished"
  | failed f => "Machine fault: " ++ f.message

end Record

end Chip8

import Chip8.Layout

/-! The kinds of instructions: 35 patterns of four hexadecimal digits, and whatever matches none. -/

namespace Chip8

inductive Opcode
  | clear | ret | sys | jump | call
  | skipEqByte | skipNeByte | skipEqReg
  | loadByte | addByte
  | copy | or | and | xor | add | sub | shiftRight | subFrom | shiftLeft
  | skipNeReg | loadIndex | jumpOffset | random | draw
  | skipDown | skipUp
  | readDelay | awaitKey | setDelay | setSound
  | addIndex | glyph | decimal | save | restore
  | unknown
deriving DecidableEq, Repr

namespace Opcode

/-- Digits stand for themselves; `n`, `k`, `x` and `y` for any digit. -/
def pattern : Opcode → String
  | clear => "00E0" | ret => "00EE" | sys => "0nnn" | jump => "1nnn" | call => "2nnn"
  | skipEqByte => "3xkk" | skipNeByte => "4xkk" | skipEqReg => "5xy0"
  | loadByte => "6xkk" | addByte => "7xkk"
  | copy => "8xy0" | or => "8xy1" | and => "8xy2" | xor => "8xy3" | add => "8xy4"
  | sub => "8xy5" | shiftRight => "8xy6" | subFrom => "8xy7" | shiftLeft => "8xyE"
  | skipNeReg => "9xy0" | loadIndex => "Annn" | jumpOffset => "Bnnn" | random => "Cxkk"
  | draw => "Dxyn" | skipDown => "Ex9E" | skipUp => "ExA1"
  | readDelay => "Fx07" | awaitKey => "Fx0A" | setDelay => "Fx15" | setSound => "Fx18"
  | addIndex => "Fx1E" | glyph => "Fx29" | decimal => "Fx33" | save => "Fx55" | restore => "Fx65"
  | unknown => "????"

def mnemonic : Opcode → String
  | clear => "CLS" | ret => "RET" | sys => "SYS" | jump => "JP" | call => "CALL"
  | skipEqByte => "SE_BYTE" | skipNeByte => "SNE_BYTE" | skipEqReg => "SE_REG"
  | loadByte => "LD_BYTE" | addByte => "ADD_BYTE"
  | copy => "LD_REG" | or => "OR" | and => "AND" | xor => "XOR" | add => "ADD_REG"
  | sub => "SUB" | shiftRight => "SHR" | subFrom => "SUBN" | shiftLeft => "SHL"
  | skipNeReg => "SNE_REG" | loadIndex => "LD_I" | jumpOffset => "JP_V0" | random => "RND"
  | draw => "DRW" | skipDown => "SKP" | skipUp => "SKNP"
  | readDelay => "LD_VX_DT" | awaitKey => "LD_VX_K" | setDelay => "LD_DT_VX"
  | setSound => "LD_ST_VX" | addIndex => "ADD_I" | glyph => "LD_F" | decimal => "LD_B"
  | save => "LD_MEM_VX" | restore => "LD_VX_MEM" | unknown => "UNKNOWN"

def digit (w : Int) (k : Nat) : Fin 16 := ⟨(w >>> (4 * k) % 16).toNat, toNat_emod_lt _⟩

/-- Digits above the fourth are ignored, except that `00E0` and `00EE` are compared as whole
numbers. -/
def ofWord (w : Int) : Opcode :=
  match digit w 3, digit w 1, digit w 0 with
  | 0x0, _, _ => if w = 0x00E0 then clear else if w = 0x00EE then ret else sys
  | 0x1, _, _ => jump
  | 0x2, _, _ => call
  | 0x3, _, _ => skipEqByte
  | 0x4, _, _ => skipNeByte
  | 0x5, _, 0x0 => skipEqReg
  | 0x6, _, _ => loadByte
  | 0x7, _, _ => addByte
  | 0x8, _, 0x0 => copy
  | 0x8, _, 0x1 => or
  | 0x8, _, 0x2 => and
  | 0x8, _, 0x3 => xor
  | 0x8, _, 0x4 => add
  | 0x8, _, 0x5 => sub
  | 0x8, _, 0x6 => shiftRight
  | 0x8, _, 0x7 => subFrom
  | 0x8, _, 0xE => shiftLeft
  | 0x9, _, 0x0 => skipNeReg
  | 0xA, _, _ => loadIndex
  | 0xB, _, _ => jumpOffset
  | 0xC, _, _ => random
  | 0xD, _, _ => draw
  | 0xE, 0x9, 0xE => skipDown
  | 0xE, 0xA, 0x1 => skipUp
  | 0xF, 0x0, 0x7 => readDelay
  | 0xF, 0x0, 0xA => awaitKey
  | 0xF, 0x1, 0x5 => setDelay
  | 0xF, 0x1, 0x8 => setSound
  | 0xF, 0x1, 0xE => addIndex
  | 0xF, 0x2, 0x9 => glyph
  | 0xF, 0x3, 0x3 => decimal
  | 0xF, 0x5, 0x5 => save
  | 0xF, 0x6, 0x5 => restore
  | _, _, _ => unknown

end Opcode

end Chip8

import Chip8.Fault
import Chip8.Instruction.Opcode
import Chip8.Layout

/-! Instruction words and the operands in them. -/

namespace Chip8

structure Instruction where
  word : UInt16
  op : Opcode
  x : Register
  y : Register
  n : Fin 16
  kk : UInt8
  nnn : Address
deriving DecidableEq, Repr

namespace Instruction

def ofWord (w : UInt16) : Instruction where
  word := w
  op := Opcode.ofWord w.toNat
  x := Opcode.digit w.toNat 2
  y := Opcode.digit w.toNat 1
  n := Opcode.digit w.toNat 0
  kk := w.toUInt8
  nnn := Address.wrap w.toNat

def decode (w : Int) : Except Fault Instruction :=
  if 0 ≤ w ∧ w.toNat < 65536 then .ok (ofWord (UInt16.ofNat w.toNat))
  else .error (.wordOutOfRange w)

def text (i : Instruction) : String :=
  "$" ++ Text.hex 4 i.word.toNat ++ " " ++ i.op.mnemonic

theorem decode_eq_error_iff {w : Int} {f : Fault} :
    decode w = .error f ↔ ¬ (0 ≤ w ∧ w ≤ 0xFFFF) ∧ f = .wordOutOfRange w := by
  unfold decode
  split <;> simp [eq_comm] <;> omega

theorem decode_word {w : Nat} (h : w ≤ 0xFFFF) : decode w = .ok (ofWord (UInt16.ofNat w)) := by
  rw [decode, if_pos (by omega), Int.toNat_natCast]

theorem decode_range {w : Int} {i : Instruction} (h : decode w = .ok i) :
    0 ≤ w ∧ w ≤ 0xFFFF := by
  unfold decode at h
  split at h
  · omega
  · cases h

theorem op_of_decode {w : Int} {i : Instruction} (h : decode w = .ok i) :
    i.op = Opcode.ofWord w := by
  unfold decode at h
  split at h
  · cases h
    have hw : ((UInt16.ofNat w.toNat).toNat : Int) = w := by
      rw [UInt16.toNat_ofNat_of_lt' (by simp; omega)]
      omega
    simp only [ofWord, hw]
  · cases h

end Instruction

end Chip8

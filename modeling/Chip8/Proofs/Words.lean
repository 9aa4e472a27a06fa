import Chip8.Proofs.Cycle
import Chip8.Proofs.Patterns

/-! Words put together from their digits and executed one after another, and the machine after those
that move the index or add to a register. -/

namespace Chip8

namespace Instruction

def code (a x y n : Fin 16) : Nat := 0x1000 * a + 0x100 * x + 0x10 * y + n

def ofDigits (a x y n : Fin 16) : Instruction := .ofWord (UInt16.ofNat (code a x y n))

variable (a x y n : Fin 16)

theorem code_le : code a x y n ≤ 0xFFFF := by
  unfold code
  omega

theorem toNat_code : (UInt16.ofNat (code a x y n)).toNat = code a x y n :=
  UInt16.toNat_ofNat_of_lt' (Nat.lt_succ_of_le (code_le a x y n))

theorem decode_digits : decode (code a x y n) = .ok (ofDigits a x y n) :=
  decode_word (code_le a x y n)

theorem digit_code : Opcode.digit (code a x y n) 3 = a ∧ Opcode.digit (code a x y n) 2 = x ∧
    Opcode.digit (code a x y n) 1 = y ∧ Opcode.digit (code a x y n) 0 = n := by
  simp only [Fin.ext_iff, Opcode.digit_natCast, code]
  omega

example : code 0xD 0x1 0x2 0x5 = 0xD125 := rfl

@[simp] theorem x_ofDigits : (ofDigits a x y n).x = x := by
  rw [ofDigits, ofWord, toNat_code]
  exact (digit_code a x y n).2.1

@[simp] theorem y_ofDigits : (ofDigits a x y n).y = y := by
  rw [ofDigits, ofWord, toNat_code]
  exact (digit_code a x y n).2.2.1

@[simp] theorem n_ofDigits : (ofDigits a x y n).n = n := by
  rw [ofDigits, ofWord, toNat_code]
  exact (digit_code a x y n).2.2.2

@[simp] theorem toNat_kk_ofDigits : (ofDigits a x y n).kk.toNat = 16 * y + n := by
  have h := kk_ofWord (UInt16.ofNat (code a x y n))
  rw [← ofDigits] at h
  simpa using h

theorem op_ofDigits : (ofDigits a x y n).op = Opcode.ofWord (code a x y n) := by
  rw [ofDigits, ofWord, toNat_code]

theorem op_draw : (ofDigits 0xD x y n).op = .draw := by
  simp only [op_ofDigits, Opcode.ofWord, digit_code]

theorem op_addByte : (ofDigits 0x7 x y n).op = .addByte := by
  simp only [op_ofDigits, Opcode.ofWord, digit_code]

theorem op_addIndex : (ofDigits 0xF x 0x1 0xE).op = .addIndex := by
  simp only [op_ofDigits, Opcode.ofWord, digit_code]

theorem op_decimal : (ofDigits 0xF x 0x3 0x3).op = .decimal := by
  simp only [op_ofDigits, Opcode.ofWord, digit_code]

theorem op_save : (ofDigits 0xF x 0x5 0x5).op = .save := by
  simp only [op_ofDigits, Opcode.ofWord, digit_code]

theorem op_restore : (ofDigits 0xF x 0x6 0x5).op = .restore := by
  simp only [op_ofDigits, Opcode.ofWord, digit_code]

end Instruction

namespace Console

open Instruction

def executeAll (c : Console) : List Int → Outcome Console Unit
  | [] => (.ok (), c)
  | w :: ws =>
    match c.execute w with
    | (.error f, d) => (.error f, d)
    | (.ok (), d) => d.executeAll ws

variable {c d : Console} {w : Int} {ws : List Int} {i : Instruction}

theorem executeAll_cons (h : c.execute w = (.ok (), d)) :
    c.executeAll (w :: ws) = d.executeAll ws := by
  rw [executeAll, h]

/-- What the machine is after an instruction that does not fail. -/
theorem execute_machine {m : Machine} (hd : decode w = .ok i)
    (hp : ((c.announce i).perform i).map machine = .ok m) :
    ∃ d, c.execute w = (.ok (), d) ∧ d.machine = m := by
  rw [execute_decoded hd]
  cases h : (c.announce i).perform i with
  | error f => simp [h, Except.map] at hp
  | ok d =>
    rw [h] at hp
    exact ⟨d, rfl, Except.ok.inj hp⟩

theorem execute_loadIndex (c : Console) (a : Address) :
    ∃ d, c.execute (0xA000 + a.val) = (.ok (), d) ∧
      d.machine = { c.machine with index := a.val } := by
  have hd : decode (0xA000 + a.val : Nat) = .ok (.ofWord (UInt16.ofNat (0xA000 + a.val))) :=
    decode_word (by omega)
  have hw : (UInt16.ofNat (0xA000 + a.val)).toNat = 0xA000 + a.val :=
    UInt16.toNat_ofNat_of_lt' (by have := a.isLt; rw [UInt16.size]; omega)
  have hop : (ofWord (UInt16.ofNat (0xA000 + a.val))).op = .loadIndex := by
    have h3 : Opcode.digit (0xA000 + a.val : Nat) 3 = 0xA := by
      simp only [Fin.ext_iff, Opcode.digit_natCast]
      omega
    rw [ofWord, hw, Opcode.ofWord, h3]
    rfl
  have hnnn : (ofWord (UInt16.ofNat (0xA000 + a.val))).nnn = a := by
    rw [ofWord, hw]
    apply Fin.ext
    simp only [Address.wrap]
    omega
  refine execute_machine (by exact_mod_cast hd) ?_
  simp only [perform, hop, hnnn]
  rfl

theorem execute_addByte (c : Console) (x y n : Fin 16) :
    ∃ d, c.execute (code 0x7 x y n) = (.ok (), d) ∧
      d.machine = c.machine.setV x (c.machine.v x + (ofDigits 0x7 x y n).kk) := by
  refine execute_machine (decode_digits ..) ?_
  simp only [perform, op_addByte, x_ofDigits]
  rfl

theorem execute_addIndex (c : Console) (x : Register) :
    ∃ d, c.execute (code 0xF x 0x1 0xE) = (.ok (), d) ∧ d.machine = { c.machine with
      index := (Address.wrap (c.machine.index + (c.machine.v x).toNat)).val } := by
  refine execute_machine (decode_digits ..) ?_
  simp only [perform, op_addIndex, x_ofDigits]
  rfl

end Console

end Chip8

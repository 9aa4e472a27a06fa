import Chip8.Proofs.Drawing
import Chip8.Proofs.Words

/-! A draw pixel by pixel: the pixels that its sprite covers turn over, and the flag tells whether
one of them was on. -/

namespace Chip8

open Instruction

namespace Machine

def Covers (m : Machine) (i : Int) (x y : Register) (n : Nat) (p : Fin 32) (q : Fin 64) : Prop :=
  ∃ r < n, ∃ k < 8, p.val = ((m.v y).toNat + r) % 32 ∧ q.val = ((m.v x).toNat + k) % 64 ∧
    (m.memory.read ((i + r) % 4096)).toNat.testBit (7 - k) = true

instance (m : Machine) (i : Int) (x y : Register) (n : Nat) (p : Fin 32) (q : Fin 64) :
    Decidable (m.Covers i x y n p q) :=
  inferInstanceAs (Decidable (∃ r < n, _))

def sprite (m : Machine) (i : Int) (x y : Register) (n : Nat) : Display :=
  .stamp ⟨(m.v x).toNat % 64, Nat.mod_lt _ (by decide)⟩
    ⟨(m.v y).toNat % 32, Nat.mod_lt _ (by decide)⟩ (m.memory.readBlock i n)

def draw (m : Machine) (x y : Register) (n : Nat) : Machine :=
  let s := m.sprite m.index x y n
  ({ m with display := m.display.xor s }).setV Layout.flagRegister
    (if m.display.overlaps s then 1 else 0)

variable {m : Machine} {i : Int} {x y j : Register} {p : Fin 32} {q : Fin 64}

theorem covers_iff_moment (n : Fin 16) :
    (Moment.mk { m with index := i } (ofDigits 0xD x y n)).Covers p q ↔ m.Covers i x y n p q := by
  have hread (r : Nat) : m.memory.read (i + r) = m.memory.read ((i + r) % 4096) :=
    (m.memory.read_emod _).symm
  simp only [Moment.Covers, Covers, op_draw, x_ofDigits, y_ofDigits, n_ofDigits, true_and, hread]
  rfl

theorem pixel_sprite (n : Fin 16) :
    (m.sprite i x y n).pixel p q = decide (m.Covers i x y n p q) := by
  have h := Moment.pixel_stamp_eq_covers (p := p) (q := q)
    (m := ⟨{ m with index := i }, ofDigits 0xD x y n⟩) (op_draw x y n)
  simp only [x_ofDigits, y_ofDigits, n_ofDigits, covers_iff_moment] at h
  exact h

theorem display_draw (n : Nat) :
    (m.draw x y n).display = m.display.xor (m.sprite m.index x y n) := rfl

theorem flag_draw (n : Nat) :
    (m.draw x y n).v 0xF = if m.display.overlaps (m.sprite m.index x y n) then 1 else 0 := by
  rw [draw, v_setV]
  rfl

theorem v_draw (hj : j ≠ 0xF) (n : Nat) : (m.draw x y n).v j = m.v j := by
  have hf : Layout.flagRegister ≠ j := hj.symm
  rw [draw, v_setV, if_neg hf]
  rfl

end Machine

namespace Console

variable {x y : Register}

theorem execute_draw (c : Console) (x y : Register) (n : Fin 16) :
    ∃ d, c.execute (code 0xD x y n) = (.ok (), d) ∧ d.machine = c.machine.draw x y n := by
  refine execute_machine (decode_digits ..) ?_
  simp only [perform, op_draw, x_ofDigits, y_ofDigits, n_ofDigits]
  rfl

/-- A draw turns over the pixels that its sprite covers where the registers and the index point to,
and sets the flag if one of them was on. Nothing else changes. -/
theorem draw_turns_covered (c : Console) (x y : Register) (n : Fin 16) :
    ∃ d, c.execute (code 0xD x y n) = (.ok (), d) ∧
      (∀ p q, d.machine.display.pixel p q =
        (c.machine.display.pixel p q ^^ decide (c.machine.Covers c.machine.index x y n p q))) ∧
      d.machine.v 0xF =
        (if ∃ p q, c.machine.display.pixel p q = true ∧ d.machine.display.pixel p q = false
          then 1 else 0) ∧
      (n = 0 → d.machine.v 0xF = 0) ∧
      (∀ j, j ≠ 0xF → d.machine.v j = c.machine.v j) ∧
      d.machine = { c.machine with
        display := d.machine.display, registers := d.machine.registers } := by
  obtain ⟨d, hd, hm⟩ := c.execute_draw x y n
  have hp (p : Fin 32) (q : Fin 64) : d.machine.display.pixel p q =
      (c.machine.display.pixel p q ^^ decide (c.machine.Covers c.machine.index x y n p q)) := by
    rw [hm, Machine.display_draw, Display.pixel_xor, Machine.pixel_sprite]
  have hf : d.machine.v 0xF =
      if ∃ p q, c.machine.display.pixel p q = true ∧ d.machine.display.pixel p q = false
        then 1 else 0 := by
    rw [hm, Machine.flag_draw, ← hm]
    refine if_congr ?_ rfl rfl
    rw [Display.overlaps_iff]
    refine exists_congr fun p => exists_congr fun q => and_congr_right fun hon => ?_
    rw [hp, Machine.pixel_sprite, hon]
    simp
  refine ⟨d, hd, hp, hf, ?_, ?_, ?_⟩
  · rintro rfl
    rw [hf, if_neg]
    rintro ⟨p, q, hon, hoff⟩
    rw [hp, hon, Bool.true_xor, Bool.not_eq_false', decide_eq_true_eq] at hoff
    obtain ⟨r, hr, -⟩ := hoff
    exact absurd hr (Nat.not_lt_zero r)
  · intro j hj
    rw [hm, Machine.v_draw hj]
  · rw [hm]
    rfl

end Console

end Chip8

import Chip8.Proofs.Footprint
import Chip8.Proofs.Words

/-! The instructions that combine two registers, as arithmetic on the numbers in them. Both operands
are read before anything is stored, and the flag is stored after the result. -/

namespace Chip8

open Instruction

namespace Arithmetic

def outcome (a b : Nat) (n : Fin 16) : Option (Int × Option Bool) :=
  match n with
  | 0x0 => some (b, none)
  | 0x1 => some ((a ||| b : Nat), none)
  | 0x2 => some ((a &&& b : Nat), none)
  | 0x3 => some ((a ^^^ b : Nat), none)
  | 0x4 => some ((a + b) % 256, some (255 < a + b))
  | 0x5 => some ((a - b) % 256, some (b < a))
  | 0x6 => some (a / 2, some (a % 2 = 1))
  | 0x7 => some ((b - a) % 256, some (a < b))
  | 0xE => some (2 * a % 256, some (128 ≤ a))
  | _ => none

variable (a b : UInt8)

theorem add_fst : ((add a b).1.toNat : Int) = (a.toNat + b.toNat) % 256 := by
  rw [add, UInt8.toNat_add]
  norm_cast

theorem sub_fst : ((sub a b).1.toNat : Int) = (a.toNat - b.toNat) % 256 := by
  have := b.toNat_lt
  rw [sub, UInt8.toNat_sub]
  omega

theorem shiftRight_fst : ((shiftRight a b).1.toNat : Int) = a.toNat / 2 := by
  rw [shiftRight, UInt8.toNat_shiftRight]
  norm_cast

theorem shiftLeft_fst : ((shiftLeft a b).1.toNat : Int) = 2 * a.toNat % 256 := by
  rw [shiftLeft, UInt8.toNat_shiftLeft, Nat.shiftLeft_eq, Nat.mul_comm]
  norm_cast

theorem sub_snd : (sub a b).2 = decide (b.toNat < a.toNat) := by
  simp only [sub, UInt8.lt_iff_toNat_lt]

theorem shiftRight_snd : (shiftRight a b).2 = decide (a.toNat % 2 = 1) := by
  simp only [shiftRight, ← UInt8.toNat_inj]
  rfl

theorem outcome_range {a b : UInt8} {n : Fin 16} {r : Int} {f : Option Bool}
    (h : outcome a.toNat b.toNat n = some (r, f)) : 0 ≤ r ∧ r ≤ 255 := by
  have ha := a.toNat_lt
  have hb := b.toNat_lt
  have hor := (a ||| b).toNat_lt
  have hand := (a &&& b).toNat_lt
  have hxor := (a ^^^ b).toNat_lt
  rw [UInt8.toNat_or] at hor
  rw [UInt8.toNat_and] at hand
  rw [UInt8.toNat_xor] at hxor
  unfold outcome at h
  split at h <;> cases h <;> omega

theorem shiftLeft_snd : (shiftLeft a b).2 = decide (128 ≤ a.toNat) := by
  simp only [shiftLeft, UInt8.le_iff_toNat_le]
  rfl

end Arithmetic

namespace Machine

/-- What `u` has in its registers if it comes from `m` by storing the result `r` in `Vx` and then the
flag `f` in `VF`. Nothing else differs. -/
structure Stored (m u : Machine) (x : Register) (r : Int) (f : Option Bool) : Prop where
  flag (b : Bool) : f = some b → (u.v 0xF).toNat = b.toNat
  result : f = none ∨ x ≠ 0xF → (u.v x).toNat = r
  other (j : Register) : j ≠ x → f = none ∨ j ≠ 0xF → u.v j = m.v j
  rest : u = { m with registers := u.registers }

variable {m : Machine} {x y : Register} {r : Int} {b : Bool}

theorem stored_combine {g : UInt8 → UInt8 → UInt8} (hr : ((g (m.v x) (m.v y)).toNat : Int) = r) :
    m.Stored (m.combine x y g) x r none where
  flag b hb := nomatch hb
  result _ := by rw [combine, v_setV, if_pos rfl, hr]
  other j hj _ := by rw [combine, v_setV, if_neg hj.symm]
  rest := rfl

theorem stored_combineFlag {g : UInt8 → UInt8 → UInt8 × Bool}
    (hr : ((g (m.v x) (m.v y)).1.toNat : Int) = r) (hb : (g (m.v x) (m.v y)).2 = b) :
    m.Stored (m.combineFlag x y g) x r (some b) where
  flag b' hb' := by
    have hf : Layout.flagRegister = 0xF := rfl
    rw [combineFlag, v_setV, if_pos hf, hb, Option.some.inj hb']
    cases b' <;> rfl
  result hx := by
    have hf : Layout.flagRegister ≠ x := (hx.resolve_left nofun).symm
    rw [combineFlag, v_setV, if_neg hf, v_setV, if_pos rfl, hr]
  other j hj hf := by
    have hf : Layout.flagRegister ≠ j := (hf.resolve_left nofun).symm
    rw [combineFlag, v_setV, if_neg hf, v_setV, if_neg hj.symm]
  rest := rfl

end Machine

namespace Console

variable {c : Console} {x y n : Fin 16} {op : Opcode}

theorem execute_combine {g : UInt8 → UInt8 → UInt8}
    (hp : ∀ d : Console, d.perform (ofDigits 0x8 x y n) =
      .ok (d.withMachine (d.machine.combine x y g))) {r : Int}
    (hr : ((g (c.machine.v x) (c.machine.v y)).toNat : Int) = r) :
    ∃ d, c.execute (code 0x8 x y n) = (.ok (), d) ∧ c.machine.Stored d.machine x r none := by
  obtain ⟨d, hd, hm⟩ := execute_machine (c := c) (m := c.machine.combine x y g)
    (decode_digits 0x8 x y n) (by rw [hp]; rfl)
  exact ⟨d, hd, hm ▸ Machine.stored_combine hr⟩

theorem execute_combineFlag {g : UInt8 → UInt8 → UInt8 × Bool}
    (hp : ∀ d : Console, d.perform (ofDigits 0x8 x y n) =
      .ok (d.withMachine (d.machine.combineFlag x y g))) {r : Int} {b : Bool}
    (hr : ((g (c.machine.v x) (c.machine.v y)).1.toNat : Int) = r)
    (hb : (g (c.machine.v x) (c.machine.v y)).2 = b) :
    ∃ d, c.execute (code 0x8 x y n) = (.ok (), d) ∧ c.machine.Stored d.machine x r (some b) := by
  obtain ⟨d, hd, hm⟩ := execute_machine (c := c) (m := c.machine.combineFlag x y g)
    (decode_digits 0x8 x y n) (by rw [hp]; rfl)
  exact ⟨d, hd, hm ▸ Machine.stored_combineFlag hr hb⟩

theorem execute_outcome (c : Console) (x y : Register) {n : Fin 16} {r : Int} {f : Option Bool}
    (h : Arithmetic.outcome (c.machine.v x).toNat (c.machine.v y).toNat n = some (r, f)) :
    ∃ d, c.execute (code 0x8 x y n) = (.ok (), d) ∧ c.machine.Stored d.machine x r f := by
  have hop (n : Fin 16) : (ofDigits 0x8 x y n).op = Opcode.ofWord (code 0x8 x y n) := op_ofDigits ..
  simp only [Opcode.ofWord, digit_code] at hop
  unfold Arithmetic.outcome at h
  split at h <;> cases h
  case' h_1 => refine execute_combine (g := fun _ b => b) (fun d => ?_) rfl
  case' h_2 => refine execute_combine (g := (· ||| ·)) (fun d => ?_) (by rw [UInt8.toNat_or])
  case' h_3 => refine execute_combine (g := (· &&& ·)) (fun d => ?_) (by rw [UInt8.toNat_and])
  case' h_4 => refine execute_combine (g := (· ^^^ ·)) (fun d => ?_) (by rw [UInt8.toNat_xor])
  case' h_5 => refine execute_combineFlag (fun d => ?_) (Arithmetic.add_fst _ _) rfl
  case' h_6 => refine execute_combineFlag (fun d => ?_) (Arithmetic.sub_fst _ _) (Arithmetic.sub_snd _ _)
  case' h_7 =>
    refine execute_combineFlag (fun d => ?_) (Arithmetic.shiftRight_fst _ _)
      (Arithmetic.shiftRight_snd _ _)
  case' h_8 =>
    refine execute_combineFlag (g := Arithmetic.subFrom) (fun d => ?_) (Arithmetic.sub_fst _ _)
      (Arithmetic.sub_snd _ _)
  case' h_9 =>
    refine execute_combineFlag (fun d => ?_) (Arithmetic.shiftLeft_fst _ _)
      (Arithmetic.shiftLeft_snd _ _)
  all_goals simp only [perform, hop, x_ofDigits, y_ofDigits]

/-- An instruction that combines two registers stores a byte computed from what both held before, be
they the same or be one of them `VF`, and after it a flag if there is one. -/
theorem combination_stores_outcome (c : Console) (x y : Register) {n : Fin 16} {r : Int}
    {f : Option Bool}
    (h : Arithmetic.outcome (c.machine.v x).toNat (c.machine.v y).toNat n = some (r, f)) :
    ∃ d, c.execute (code 0x8 x y n) = (.ok (), d) ∧ (0 ≤ r ∧ r ≤ 255) ∧
      c.machine.Stored d.machine x r f := by
  obtain ⟨d, hd, hs⟩ := execute_outcome c x y h
  exact ⟨d, hd, Arithmetic.outcome_range h, hs⟩

def brimming : Console where
  machine := { registers := ⟨#v[0, 0, 0, 0, 0, 0, 0, 0, 0, 0, 0, 0, 0, 0, 0, 200]⟩ }
  random := .stream (fun n => n) 0

/-- Doubled in place, `VF` keeps the carry and not the sum. -/
theorem combination_stores_outcome_brimming :
    Arithmetic.outcome (brimming.machine.v 0xF).toNat (brimming.machine.v 0xF).toNat 0x4 =
        some (144, some true) ∧
      ∃ d, brimming.execute (code 0x8 0xF 0xF 0x4) = (.ok (), d) ∧
        (d.machine.v 0xF).toNat = 1 ∧ d.machine.v 0x0 = 0 := by
  have h : Arithmetic.outcome (brimming.machine.v 0xF).toNat (brimming.machine.v 0xF).toNat 0x4 =
      some (144, some true) := rfl
  obtain ⟨d, hd, -, hs⟩ := combination_stores_outcome brimming 0xF 0xF h
  exact ⟨h, d, hd, hs.flag true rfl, hs.other 0x0 (by decide) (.inr (by decide))⟩

end Console

end Chip8

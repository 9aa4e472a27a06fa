import Chip8.Proofs.Transfer

/-! The decimal digits of a register: three bytes of memory that spell its value, and that can be
restored into registers like any others. -/

namespace Chip8

open Instruction

theorem Arithmetic.decimal_spells (b : UInt8) :
    ∃ d₀ d₁ d₂ : UInt8, decimal b = [d₀, d₁, d₂] ∧
      (d₀.toNat ≤ 9 ∧ d₁.toNat ≤ 9 ∧ d₂.toNat ≤ 9) ∧
      100 * d₀.toNat + 10 * d₁.toNat + d₂.toNat = b.toNat := by
  have hb := b.toNat_lt
  have h₀ : (b / 100).toNat = b.toNat / 100 := UInt8.toNat_div ..
  have h₁ : (b / 10 % 10).toNat = b.toNat / 10 % 10 := by rw [UInt8.toNat_mod, UInt8.toNat_div]; rfl
  have h₂ : (b % 10).toNat = b.toNat % 10 := UInt8.toNat_mod ..
  refine ⟨b / 100, b / 10 % 10, b % 10, rfl, ?_, ?_⟩
  · omega
  · omega

namespace Machine

def spell (m : Machine) (x : Register) : Machine :=
  { m with memory := m.memory.writeBlock m.index (Arithmetic.decimal (m.v x)) }

variable {m : Machine} {x : Register} {t : Address} {l : List UInt8}

theorem read_spell (hl : Arithmetic.decimal (m.v x) = l) {k : Nat} (hk : k < l.length) :
    (m.spell x).memory.read (m.index + k) = l[k] := by
  subst hl
  exact Memory.read_writeBlock_add (by simp [Arithmetic.decimal]) hk

theorem read_spell_of_ne (ht : ∀ k : Nat, k ≤ 2 → t ≠ Address.wrap (m.index + k)) :
    (m.spell x).memory.read t.val = m.memory.read t.val :=
  Memory.read_writeBlock_of_ne (by simp [Arithmetic.decimal]) fun k hk => ht k (Nat.le_of_lt_succ hk)

/-- The digits as they are restored. The register that has been spelled may be overwritten by one of
them. -/
theorem v_restore_spell (hl : Arithmetic.decimal (m.v x) = l) {k : Register} (hk : k ≤ 2)
    (hlt : k.val < l.length) : ((m.spell x).restore 2).v k = l[k.val] := by
  rw [v_restore, if_pos hk]
  exact read_spell hl hlt

theorem v_restore_spell_of_lt {k : Register} (hk : 2 < k) :
    ((m.spell x).restore 2).v k = m.v k := by
  rw [v_restore, if_neg (Fin.not_le.2 hk)]
  rfl

end Machine

namespace Console

theorem execute_spell (c : Console) (x : Register) :
    c.execute (code 0xF x 0x3 0x3) =
      (.ok (), (c.announce (ofDigits 0xF x 0x3 0x3)).withMachine (c.machine.spell x)) := by
  rw [execute_decoded (decode_digits ..)]
  simp only [perform, op_decimal, x_ofDigits]
  rfl

/-- The digits of a register go to the three bytes from the index on, wherever it points to, and
nothing else changes. Restored to `V0` to `V2`, they still tell what the register held. -/
theorem digits_read_back (c : Console) (x : Register) :
    ∃ d, ∃ d₀ d₁ d₂ : Nat, c.execute (code 0xF x 0x3 0x3) = (.ok (), d) ∧
      (d₀ ≤ 9 ∧ d₁ ≤ 9 ∧ d₂ ≤ 9) ∧ 100 * d₀ + 10 * d₁ + d₂ = (c.machine.v x).toNat ∧
      (d.machine.memory.read (c.machine.index % 4096)).toNat = d₀ ∧
      (d.machine.memory.read ((c.machine.index + 1) % 4096)).toNat = d₁ ∧
      (d.machine.memory.read ((c.machine.index + 2) % 4096)).toNat = d₂ ∧
      (∀ t : Address, (∀ k : Nat, k ≤ 2 → (t.val : Int) ≠ (c.machine.index + k) % 4096) →
        d.machine.memory.read t.val = c.machine.memory.read t.val) ∧
      d = { c with
        machine := { c.machine with memory := d.machine.memory }, trace := d.trace } ∧
      ∃ e, d.execute (code 0xF 0x2 0x6 0x5) = (.ok (), e) ∧
        ((e.machine.v 0).toNat = d₀ ∧ (e.machine.v 1).toNat = d₁ ∧ (e.machine.v 2).toNat = d₂) ∧
        100 * (e.machine.v 0).toNat + 10 * (e.machine.v 1).toNat + (e.machine.v 2).toNat =
          (c.machine.v x).toNat ∧
        e.machine.index = c.machine.index ∧
        (∀ k, 2 < k → e.machine.v k = c.machine.v k) ∧
        e.machine = { d.machine with registers := e.machine.registers } := by
  obtain ⟨d₀, d₁, d₂, hd, hle, hsum⟩ := Arithmetic.decimal_spells (c.machine.v x)
  have hread {k : Nat} (hk : k < 3) :
      (c.machine.spell x).memory.read ((c.machine.index + k) % 4096) = [d₀, d₁, d₂][k] := by
    rw [Memory.read_emod]
    exact Machine.read_spell hd hk
  have h₀ := hread (k := 0) (by decide)
  rw [Int.natCast_zero, Int.add_zero] at h₀
  refine ⟨_, d₀.toNat, d₁.toNat, d₂.toNat, c.execute_spell x, hle, hsum, congrArg UInt8.toNat h₀,
    congrArg UInt8.toNat (hread (k := 1) (by decide)),
    congrArg UInt8.toNat (hread (k := 2) (by decide)), fun t ht => ?_, rfl, ?_⟩
  · refine Machine.read_spell_of_ne fun k hk he => ht k hk ?_
    rw [he, Address.val_wrap]
  · obtain ⟨e, he, hm⟩ := execute_restore
      ((c.announce (ofDigits 0xF x 0x3 0x3)).withMachine (c.machine.spell x)) 2
    have hm : e.machine = (c.machine.spell x).restore 2 := hm
    have hv₀ : e.machine.v 0 = d₀ := hm ▸ Machine.v_restore_spell hd (by decide) (by simp)
    have hv₁ : e.machine.v 1 = d₁ := hm ▸ Machine.v_restore_spell hd (by decide) (by simp)
    have hv₂ : e.machine.v 2 = d₂ := hm ▸ Machine.v_restore_spell hd (by decide) (by simp)
    refine ⟨e, he, ⟨by rw [hv₀], by rw [hv₁], by rw [hv₂]⟩, ?_, ?_, fun k hk => ?_, ?_⟩
    · rw [hv₀, hv₁, hv₂, hsum]
    · rw [hm, Machine.index_restore]
      rfl
    · rw [hm, Machine.v_restore_spell_of_lt hk]
    · rw [hm]
      rfl

end Console

end Chip8

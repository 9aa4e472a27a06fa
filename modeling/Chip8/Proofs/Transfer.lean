import Chip8.Proofs.Footprint
import Chip8.Proofs.Words

/-! Registers saved to memory and restored from it. A block is moved by way of the registers, which
take it in as a whole before it is written anywhere. -/

namespace Chip8

open Instruction

namespace Memory

variable {m : Memory} {i : Int} {l : List UInt8} {t : Address}

theorem read_writeBlock_add (hl : l.length ≤ 4096) {k : Nat} (hk : k < l.length) :
    (m.writeBlock i l).read (i + k) = l[k] := by
  have h0 : ((i + k - i) % 4096).toNat = k := by omega
  rw [read_writeBlock _ _ _ hl, h0, List.getElem?_eq_getElem hk, Option.getD_some]

theorem read_writeBlock_of_ne (hl : l.length ≤ 4096)
    (ht : ∀ k : Nat, k < l.length → t ≠ Address.wrap (i + k)) :
    (m.writeBlock i l).read t.val = m.read t.val := by
  by_contra hne
  obtain ⟨k, hk, he⟩ := exists_of_read_writeBlock_ne hl hne
  exact ht k hk he

end Memory

namespace Machine

def save (m : Machine) (x : Register) : Machine :=
  { m with memory := m.memory.writeBlock m.index (m.registers.upTo x) }

def restore (m : Machine) (x : Register) : Machine :=
  { m with registers := m.registers.fill x fun k => m.memory.read (m.index + k) }

def move (m : Machine) (x : Register) (i j : Int) : Machine :=
  { ({ m with index := i } : Machine).restore x with index := j }.save x

variable {m u : Machine} {x k : Register} {i j : Int} {t : Address}

theorem v_restore : (m.restore x).v k = if k ≤ x then m.memory.read (m.index + k.val) else m.v k := by
  simp only [v, restore, Registers.get_fill]

theorem index_restore : (m.restore x).index = m.index := by
  dsimp only [restore]

theorem read_save_of_le (hk : k ≤ x) : (m.save x).memory.read (m.index + k.val) = m.v k := by
  have hl := m.registers.length_upTo x
  have hx : k.val ≤ x.val := hk
  have hg := m.registers.getElem?_upTo x k.val
  rw [dif_pos hx, List.getElem?_eq_some_iff] at hg
  obtain ⟨hlt, hg⟩ := hg
  rw [save, Memory.read_writeBlock_add (by omega) hlt, hg]
  rfl

theorem read_save_of_ne (ht : ∀ k ≤ x, t ≠ Address.wrap (m.index + k.val)) :
    (m.save x).memory.read t.val = m.memory.read t.val := by
  have hl := m.registers.length_upTo x
  refine Memory.read_writeBlock_of_ne (by omega) fun k hk => ?_
  exact ht ⟨k, by omega⟩ (Nat.le_of_lt_succ (hl ▸ hk))

/-- What has been saved is there to be restored, whatever the registers hold in between. -/
theorem v_restore_save (hm : u.memory = (m.save x).memory) (hi : u.index = m.index) :
    (u.restore x).v k = if k ≤ x then m.v k else u.v k := by
  rw [v_restore]
  by_cases hk : k ≤ x
  · rw [if_pos hk, if_pos hk, hm, hi, read_save_of_le hk]
  · rw [if_neg hk, if_neg hk]

theorem v_move : (m.move x i j).v k = if k ≤ x then m.memory.read (i + k.val) else m.v k :=
  v_restore

theorem read_move_of_le (hk : k ≤ x) :
    (m.move x i j).memory.read (j + k.val) = m.memory.read (i + k.val) := by
  have hv : (m.move x i j).memory.read (j + k.val) = (m.move x i j).v k := read_save_of_le hk
  rw [hv, v_move, if_pos hk]

theorem read_move_of_ne (ht : ∀ k ≤ x, t ≠ Address.wrap (j + k.val)) :
    (m.move x i j).memory.read t.val = m.memory.read t.val := by
  rw [move, read_save_of_ne ht]
  dsimp only [restore]

theorem move_rest : m.move x i j = { m with
    memory := (m.move x i j).memory, registers := (m.move x i j).registers, index := j } := by
  dsimp only [move, save, restore]

theorem memory_move_self : (m.move x i i).memory = m.memory := by
  apply Memory.ext_read
  intro t
  by_cases ht : ∀ k ≤ x, t ≠ Address.wrap (i + k.val)
  · exact read_move_of_ne ht
  · push Not at ht
    obtain ⟨k, hk, rfl⟩ := ht
    rw [Memory.read_wrap, Memory.read_wrap, read_move_of_le hk]

end Machine

namespace Console

theorem execute_save (c : Console) (x : Register) :
    ∃ d, c.execute (code 0xF x 0x5 0x5) = (.ok (), d) ∧ d.machine = c.machine.save x := by
  refine execute_machine (decode_digits ..) ?_
  simp only [perform, op_save, x_ofDigits]
  rfl

theorem execute_restore (c : Console) (x : Register) :
    ∃ d, c.execute (code 0xF x 0x6 0x5) = (.ok (), d) ∧ d.machine = c.machine.restore x := by
  refine execute_machine (decode_digits ..) ?_
  simp only [perform, op_restore, x_ofDigits]
  rfl

theorem executeAll_move (c : Console) (x : Register) (a b : Address) :
    ∃ d, c.executeAll [0xA000 + a.val, code 0xF x 0x6 0x5, 0xA000 + b.val, code 0xF x 0x5 0x5] =
        (.ok (), d) ∧ d.machine = c.machine.move x a.val b.val := by
  obtain ⟨c₁, h₁, hm₁⟩ := c.execute_loadIndex a
  obtain ⟨c₂, h₂, hm₂⟩ := c₁.execute_restore x
  obtain ⟨c₃, h₃, hm₃⟩ := c₂.execute_loadIndex b
  obtain ⟨c₄, h₄, hm₄⟩ := c₃.execute_save x
  refine ⟨c₄, ?_, ?_⟩
  · rw [executeAll_cons h₁, executeAll_cons h₂, executeAll_cons h₃, executeAll_cons h₄, executeAll]
  · rw [hm₄, hm₃, hm₂, hm₁]
    rfl

/-- A block is moved by restoring it into the registers and saving it elsewhere, also where the two
places overlap or run over the end of memory. And what has been saved can be restored. -/
theorem blocks_move (c : Console) (x : Register) :
    (∀ a b : Address, ∃ d, c.executeAll [0xA000 + a.val, code 0xF x 0x6 0x5, 0xA000 + b.val,
          code 0xF x 0x5 0x5] = (.ok (), d) ∧
      (∀ k ≤ x, d.machine.memory.read ((b.val + k.val) % 4096) =
        c.machine.memory.read ((a.val + k.val) % 4096)) ∧
      (∀ t : Address, (∀ k ≤ x, (t.val : Int) ≠ (b.val + k.val) % 4096) →
        d.machine.memory.read t.val = c.machine.memory.read t.val) ∧
      (a = b → d.machine.memory = c.machine.memory) ∧
      (∀ k, d.machine.v k =
        if k ≤ x then c.machine.memory.read ((a.val + k.val) % 4096) else c.machine.v k) ∧
      d.machine = { c.machine with
        memory := d.machine.memory, registers := d.machine.registers, index := b.val }) ∧
    ∃ d, c.execute (code 0xF x 0x5 0x5) = (.ok (), d) ∧
      ∀ (e : Console) (r : Registers), e.machine = { d.machine with registers := r } →
        ∃ g, e.execute (code 0xF x 0x6 0x5) = (.ok (), g) ∧
          (∀ k, g.machine.v k = if k ≤ x then c.machine.v k else r.get k) ∧
          g.machine.index = c.machine.index ∧
          g.machine = { d.machine with registers := g.machine.registers } := by
  refine ⟨fun a b => ?_, ?_⟩
  · obtain ⟨d, hd, hm⟩ := c.executeAll_move x a b
    refine ⟨d, hd, fun k hk => ?_, fun t ht => ?_, ?_, fun k => ?_, ?_⟩
    · rw [Memory.read_emod, Memory.read_emod, hm, Machine.read_move_of_le hk]
    · rw [hm]
      refine Machine.read_move_of_ne fun k hk he => ht k hk ?_
      rw [he, Address.val_wrap]
    · rintro rfl
      rw [hm, Machine.memory_move_self]
    · rw [hm, Machine.v_move, Memory.read_emod]
    · rw [hm]
      exact Machine.move_rest
  · obtain ⟨d, hd, hm⟩ := c.execute_save x
    refine ⟨d, hd, fun e r he => ?_⟩
    obtain ⟨g, hg, hgm⟩ := e.execute_restore x
    have hem : e.machine.memory = (c.machine.save x).memory := by rw [he, hm]
    have hei : e.machine.index = c.machine.index := by rw [he, hm]; rfl
    refine ⟨g, hg, fun k => ?_, ?_, ?_⟩
    · rw [hgm, Machine.v_restore_save hem hei, he]
      rfl
    · rw [hgm, Machine.index_restore, hei]
    · rw [hgm, Machine.restore, he]

end Console

end Chip8

import Chip8.Proofs.Cycle

/-! The footprint of every instruction: the parts of a console that it can change, and how far. -/

namespace Chip8

namespace Opcode

def targets : List Opcode :=
  [loadByte, addByte, copy, or, and, xor, add, sub, shiftRight, subFrom, shiftLeft, random,
   readDelay]

def flagged : List Opcode := [add, sub, shiftRight, subFrom, shiftLeft, draw]

end Opcode

theorem Memory.exists_of_read_writeBlock_ne {m : Memory} {i : Int} {l : List UInt8} {a : Address}
    (hl : l.length ≤ 4096) (h : (m.writeBlock i l).read a.val ≠ m.read a.val) :
    ∃ k < l.length, a = Address.wrap (i + k) := by
  rw [read_writeBlock m i a.val hl] at h
  refine ⟨((a.val - i) % 4096).toNat, ?_, ?_⟩
  · refine Decidable.by_contra fun hk => h ?_
    rw [List.getElem?_eq_none (Nat.not_lt.1 hk), Option.getD_none]
  · have := a.isLt
    apply Fin.ext
    simp only [Address.wrap]
    omega

theorem Registers.length_upTo (r : Registers) (x : Register) : (r.upTo x).length = x.val + 1 := by
  have := x.isLt
  simp only [upTo, List.length_map, List.length_take, List.length_finRange]
  omega

theorem Registers.le_of_get_fill_ne {r : Registers} {x j : Register} {f : Nat → UInt8}
    (h : (r.fill x f).get j ≠ r.get j) : j ≤ x := by
  rw [get_fill] at h
  split at h
  case isTrue hj => exact hj
  case isFalse => exact absurd rfl h

theorem RandomSource.drawn_next (s : RandomSource) : s.next.2.drawn = s.drawn + 1 := by
  cases s <;> rfl

namespace Machine

variable {m : Machine} {x y j : Register}

theorem v_setV (b : UInt8) : (m.setV x b).v j = if x = j then b else m.v j :=
  m.registers.get_set x j b

theorem eq_of_v_setV_ne {b : UInt8} (h : (m.setV x b).v j ≠ m.v j) : j = x := by
  rw [v_setV] at h
  split at h
  case isTrue hx => exact hx.symm
  case isFalse => exact absurd rfl h

theorem eq_of_v_combineFlag_ne {f : UInt8 → UInt8 → UInt8 × Bool}
    (h : (m.combineFlag x y f).v j ≠ m.v j) : j = x ∨ j = 0xF := by
  by_cases hj : ((m.setV x (f (m.v x) (m.v y)).1).v j) = m.v j
  · rw [← hj] at h
    exact .inr (eq_of_v_setV_ne h)
  · exact .inl (eq_of_v_setV_ne hj)

theorem skipIf_eq (m : Machine) (b : Bool) :
    m.skipIf b = { m with pc := m.pc + if b then 2 else 0 } := by
  cases b
  · simp [skipIf]
  · rfl

end Machine

namespace Console

structure Footprint (c : Console) (i : Instruction) (d : Console) : Prop where
  memory (a : Address) : d.machine.memory.read a.val ≠ c.machine.memory.read a.val →
    (i.op = .decimal ∧ ∃ k : Nat, k ≤ 2 ∧ a = Address.wrap (c.machine.index + k)) ∨
    (i.op = .save ∧ ∃ k : Nat, k ≤ i.x.val ∧ a = Address.wrap (c.machine.index + k))
  display : d.machine.display ≠ c.machine.display → i.op = .clear ∨ i.op = .draw
  stack : d.machine.stack ≠ c.machine.stack → i.op = .call ∨ i.op = .ret
  index : d.machine.index ≠ c.machine.index →
    i.op = .loadIndex ∨ i.op = .addIndex ∨ i.op = .glyph
  delay : d.machine.delay ≠ c.machine.delay → i.op = .setDelay
  sound : d.machine.sound ≠ c.machine.sound → i.op = .setSound
  waiting : d.machine.waiting ≠ c.machine.waiting → i.op = .awaitKey
  keyRegister : d.machine.keyRegister ≠ c.machine.keyRegister → i.op = .awaitKey
  halted : d.machine.halted ≠ c.machine.halted → i.op = .ret ∧ c.machine.stack = []
  random : d.random = if i.op = .random then c.random.next.2 else c.random
  register (j : Register) : d.machine.v j ≠ c.machine.v j →
    (j = i.x ∧ i.op ∈ Opcode.targets) ∨ (j = 0xF ∧ i.op ∈ Opcode.flagged) ∨
    (j ≤ i.x ∧ i.op = .restore)
  pc : d.machine.pc ≠ c.machine.pc →
    i.op = .jump ∨ i.op = .call ∨ i.op = .jumpOffset ∨ (i.op = .ret ∧ c.machine.stack ≠ []) ∨
    (i.op ∈ Opcode.skips ∧ d.machine.pc = c.machine.pc + 2)
  drawn : d.drawn ≠ c.drawn → i.op = .clear ∨ i.op = .draw
  frames : d.frames ≠ c.frames → i.op = .clear ∨ i.op = .draw
  keypad : d.keypad = c.keypad
  capacity : d.machine.capacity = c.machine.capacity
  reader : d.reader = c.reader
  watcher : d.watcher ≠ c.watcher → i.op = .skipDown ∨ i.op = .skipUp
  ignored : i.op = .sys ∨ i.op = .unknown → ∃ t, d = { c with trace := t }

variable {c d : Console} {i : Instruction}

theorem perform_memory (h : c.perform i = .ok d) (a : Address)
    (ha : d.machine.memory.read a.val ≠ c.machine.memory.read a.val) :
    (i.op = .decimal ∧ ∃ k : Nat, k ≤ 2 ∧ a = Address.wrap (c.machine.index + k)) ∨
    (i.op = .save ∧ ∃ k : Nat, k ≤ i.x.val ∧ a = Address.wrap (c.machine.index + k)) := by
  cases perform_change h with
  | skip b =>
    rw [Machine.skipIf_eq] at ha
    exact absurd rfl ha
  | memory t hop =>
    -- the change does not say what has been written
    rcases hop with hop | hop
    · simp only [perform, hop, Except.ok.injEq] at h
      rw [← h] at ha
      obtain ⟨k, hk, rfl⟩ := Memory.exists_of_read_writeBlock_ne (by simp [Arithmetic.decimal]) ha
      refine .inl ⟨hop, k, ?_, rfl⟩
      exact Nat.le_of_lt_succ hk
    · simp only [perform, hop, Except.ok.injEq] at h
      rw [← h] at ha
      have hl := c.machine.registers.length_upTo i.x
      obtain ⟨k, hk, rfl⟩ := Memory.exists_of_read_writeBlock_ne (by omega) ha
      exact .inr ⟨hop, k, by omega, rfl⟩
  | _ => exact absurd rfl ha

theorem perform_register (h : c.perform i = .ok d) (j : Register)
    (hj : d.machine.v j ≠ c.machine.v j) :
    (j = i.x ∧ i.op ∈ Opcode.targets) ∨ (j = 0xF ∧ i.op ∈ Opcode.flagged) ∨
    (j ≤ i.x ∧ i.op = .restore) := by
  cases perform_change h with
  | skip b =>
    rw [Machine.skipIf_eq] at hj
    exact absurd rfl hj
  | random b hop => exact .inl ⟨Machine.eq_of_v_setV_ne hj, by simp [hop, Opcode.targets]⟩
  | draw s b hop =>
    exact .inr (.inl ⟨Machine.eq_of_v_setV_ne hj, by simp [hop, Opcode.flagged]⟩)
  | load r hl =>
    -- nor does it say which registers have been loaded
    unfold perform at h
    cases hop : i.op <;> simp only [hop, Except.ok.injEq] at h hl ⊢
    case loadByte | addByte | copy | or | and | xor =>
      rw [← h] at hj
      exact .inl ⟨Machine.eq_of_v_setV_ne hj, by decide⟩
    case add | sub | shiftRight | subFrom | shiftLeft =>
      rw [← h] at hj
      rcases Machine.eq_of_v_combineFlag_ne hj with hx | hf
      · exact .inl ⟨hx, by decide⟩
      · exact .inr (.inl ⟨hf, by decide⟩)
    case readDelay =>
      rw [Registers.store_register] at h
      cases hb : byte? c.machine.delay with
      | none => simp [hb, Except.map] at h
      | some b =>
        simp only [hb, Except.map, Except.ok.injEq] at h
        rw [← h] at hj
        exact .inl ⟨Machine.eq_of_v_setV_ne hj, by decide⟩
    case restore =>
      rw [← h] at hj
      have hr : (c.machine.registers.fill i.x fun k =>
        c.machine.memory.read (c.machine.index + k)).get j ≠ c.machine.registers.get j := hj
      exact .inr (.inr ⟨Registers.le_of_get_fill_ne hr, trivial⟩)
    all_goals exact absurd hl (by decide)
  | _ => exact absurd rfl hj

theorem perform_footprint (h : c.perform i = .ok d) : Footprint c i d where
  memory := perform_memory h
  display hne := by
    cases perform_change h with
    | clear hop => exact .inl hop
    | draw _ _ hop => exact .inr hop
    | skip b => cases b <;> exact absurd rfl hne
    | _ => exact absurd rfl hne
  stack hne := by
    cases perform_change h with
    | call _ hop => exact .inl hop
    | ret _ _ hop => exact .inr hop
    | skip b => cases b <;> exact absurd rfl hne
    | _ => exact absurd rfl hne
  index hne := by
    cases perform_change h with
    | index _ hop => exact hop
    | skip b => cases b <;> exact absurd rfl hne
    | _ => exact absurd rfl hne
  delay hne := by
    cases perform_change h with
    | delay _ hop => exact hop
    | skip b => cases b <;> exact absurd rfl hne
    | _ => exact absurd rfl hne
  sound hne := by
    cases perform_change h with
    | sound _ hop => exact hop
    | skip b => cases b <;> exact absurd rfl hne
    | _ => exact absurd rfl hne
  waiting hne := by
    cases perform_change h with
    | await hop => exact hop
    | skip b => cases b <;> exact absurd rfl hne
    | _ => exact absurd rfl hne
  keyRegister hne := by
    cases perform_change h with
    | await hop => exact hop
    | skip b => cases b <;> exact absurd rfl hne
    | _ => exact absurd rfl hne
  halted hne := by
    cases perform_change h with
    | leave hop hs => exact ⟨hop, hs⟩
    | skip b => cases b <;> exact absurd rfl hne
    | _ => exact absurd rfl hne
  random := by
    split
    case isTrue hop =>
      simp only [perform, hop, Except.ok.injEq] at h
      rw [← h]
      rfl
    case isFalse hop =>
      cases perform_change h with
      | random _ hr => exact absurd hr hop
      | _ => rfl
  register := perform_register h
  pc hne := by
    cases perform_change h with
    | leave | clear | ignore | load | random | draw | await | delay | sound | index | memory =>
      exact absurd rfl hne
    | jump _ hop =>
      rcases hop with hop | hop
      · exact .inl hop
      · exact .inr (.inr (.inl hop))
    | call _ hop => exact .inr (.inl hop)
    | ret a rest hop hs => exact .inr (.inr (.inr (.inl ⟨hop, by simp [hs]⟩)))
    | skip b _ hop =>
      cases b with
      | false => exact absurd rfl hne
      | true => exact .inr (.inr (.inr (.inr ⟨hop, rfl⟩)))
  drawn hne := by
    cases perform_change h with
    | clear hop => exact .inl hop
    | draw _ _ hop => exact .inr hop
    | _ => exact absurd rfl hne
  frames hne := by
    cases perform_change h with
    | clear hop => exact .inl hop
    | draw _ _ hop => exact .inr hop
    | _ => exact absurd rfl hne
  keypad := by cases perform_change h <;> rfl
  capacity := (perform_change h).capacity
  reader := (perform_change h).reader
  watcher hne := by
    cases perform_change h with
    | skip b w hop =>
      simp only [Opcode.skips, List.mem_cons, List.not_mem_nil, or_false] at hop
      rcases hop with hop | hop | hop | hop | hop
      case inr.inr.inr.inr => exact hop
      all_goals
        simp only [perform, hop, Except.ok.injEq] at h
        rw [← h] at hne
        exact absurd rfl hne
    | _ => exact absurd rfl hne
  ignored hop := by
    rcases hop with hop | hop
    · simp only [perform, hop, Except.ok.injEq] at h
      exact ⟨_, h.symm⟩
    · simp only [perform, hop, Except.ok.injEq] at h
      exact ⟨_, h.symm⟩

/-- An instruction that is executed without a fault changes nothing beyond its footprint. -/
theorem execute_footprint {w : Int} (h : c.execute w = (.ok (), d)) :
    ∃ i, Instruction.decode w = .ok i ∧ Footprint c i d ∧
      d.random.drawn = c.random.drawn + if i.op = .random then 1 else 0 := by
  cases hd : Instruction.decode w with
  | error f => simp [execute, hd] at h
  | ok i =>
    rw [execute_decoded hd] at h
    cases hp : (c.announce i).perform i with
    | error f => simp [hp] at h
    | ok e =>
      simp only [hp, Prod.mk.injEq, true_and] at h
      subst h
      have hf := perform_footprint hp
      refine ⟨i, rfl, { hf with }, ?_⟩
      rw [hf.random]
      split
      · exact RandomSource.drawn_next c.random
      · rfl

def sampling : Console where
  machine := { keyRegister := 7, stack := [5, -1], delay := 999 }
  random := .stream (fun n => 3 - n) 4

/-- A number is drawn although the mask leaves nothing of it. -/
theorem execute_footprint_unmasked :
    ∃ d, sampling.execute 0xC100 = (.ok (), d) ∧ d.random.drawn = 5 ∧
      d.machine.stack = [5, -1] := by
  obtain ⟨i, hd, hf, hn⟩ := execute_footprint (c := sampling) (w := 0xC100) rfl
  have hop : i.op = .random := (Instruction.op_of_decode hd).trans (by decide)
  refine ⟨_, rfl, ?_, ?_⟩
  · rw [hn, if_pos hop]
    rfl
  · refine Decidable.by_contra fun hs => ?_
    rcases hf.stack hs with h | h <;> exact absurd (hop.symm.trans h) nofun

end Console

end Chip8

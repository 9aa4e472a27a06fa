import Chip8.Proofs.Failure

/-! The ranges that a console keeps to from power-on, whatever is done to it, and the faults that
are left for its steps. -/

namespace Chip8

structure Machine.Bounded (m : Machine) : Prop where
  index : 0 ≤ m.index ∧ m.index ≤ 0xFFF
  delay : 0 ≤ m.delay ∧ m.delay ≤ 255
  sound : 0 ≤ m.sound ∧ m.sound ≤ 255
  stack : m.stack.length ≤ m.capacity
  keyRegister : 0 ≤ m.keyRegister ∧ m.keyRegister ≤ 0xF
  pc : 0 ≤ m.pc
  returns : ∀ a ∈ m.stack, 0 ≤ a

/-- Past the end of memory the program counter gets by one fetch and one skip at most, a return
address by one fetch. -/
structure Machine.OnTrack (m : Machine) : Prop where
  pc : m.pc ≤ 0x1002
  returns : ∀ a ∈ m.stack, 2 ≤ a ∧ a ≤ 0x1000

structure Machine.Storable (m : Machine) : Prop where
  delay : 0 ≤ m.delay ∧ m.delay ≤ 255
  keyRegister : 0 ≤ m.keyRegister ∧ m.keyRegister ≤ 0xF

theorem Machine.Bounded.storable {m : Machine} (h : m.Bounded) : m.Storable := { h with }

theorem Machine.countDown_byte {t : Int} (ht : 0 ≤ t ∧ t ≤ 255) :
    0 ≤ countDown t ∧ countDown t ≤ 255 := by
  rw [countDown]
  split <;> omega

theorem Machine.Bounded.tick {m : Machine} (h : m.Bounded) : m.tick.Bounded :=
  { h with delay := countDown_byte h.delay, sound := countDown_byte h.sound }

theorem Machine.Bounded.advance {m : Machine} (h : m.Bounded) :
    Machine.Bounded { m with pc := m.pc + 2 } := by
  have hpc := h.pc
  exact { h with pc := by dsimp only; omega }

namespace Console

variable {c d : Console} {i : Instruction}

theorem bounded_change (hb : c.machine.Bounded) (h : Change c i d) : d.machine.Bounded := by
  cases h with
  | clear | leave | ignore | load | random | draw | memory => exact { hb with }
  | ret a rest _ hs =>
    have hr := hb.returns
    have hl := hb.stack
    rw [hs] at hr hl
    exact { hb with
      stack := Nat.le_of_succ_le hl
      pc := hr a List.mem_cons_self
      returns := fun b hb => hr b (List.mem_cons_of_mem a hb) }
  | jump a => exact { hb with pc := by simp only [withMachine]; omega }
  | call a _ hl =>
    refine { hb with stack := hl, pc := by simp only [withMachine]; omega, returns := ?_ }
    intro b hm
    cases hm with
    | head => exact hb.pc
    | tail _ hm => exact hb.returns b hm
  | skip b =>
    have hpc := hb.pc
    cases b with
    | false => exact { hb with }
    | true => exact { hb with pc := by simp only [Machine.skipIf, if_true]; omega }
  | await => exact { hb with keyRegister := by simp only [withMachine, note]; omega }
  | delay b =>
    have := b.toNat_lt
    exact { hb with delay := by simp only [withMachine]; omega }
  | sound b =>
    have := b.toNat_lt
    exact { hb with sound := by simp only [withMachine]; omega }
  | index a => exact { hb with index := by simp only [withMachine]; omega }

theorem bounded_invariant : Invariant fun c => c.machine.Bounded :=
  .ofMachine (P := Machine.Bounded) (fun _ hb => hb.advance) bounded_change
    (fun _ _ hb => { hb with }) fun _ hb => hb.tick

/-- An instruction that has just been fetched starts at an address, and all but skips leave the
program counter at one or where the fetch has put it. -/
theorem onTrack_change (hpc : 2 ≤ c.machine.pc ∧ c.machine.pc ≤ 0x1000)
    (hr : ∀ a ∈ c.machine.stack, 2 ≤ a ∧ a ≤ 0x1000) (h : Change c i d) : d.machine.OnTrack := by
  have hp : c.machine.pc ≤ 0x1002 := by omega
  cases h with
  | clear | leave | ignore | load | random | draw | memory | await | delay | sound | index =>
    exact ⟨hp, hr⟩
  | ret a rest _ hs =>
    rw [hs] at hr
    have ha := hr a List.mem_cons_self
    exact ⟨by simp only [withMachine]; omega, fun b hb => hr b (List.mem_cons_of_mem a hb)⟩
  | jump a => exact ⟨by simp only [withMachine]; omega, hr⟩
  | call a =>
    refine ⟨by simp only [withMachine]; omega, ?_⟩
    intro b hm
    cases hm with
    | head => exact hpc
    | tail _ hm => exact hr b hm
  | skip b =>
    cases b with
    | false => exact ⟨hp, hr⟩
    | true => exact ⟨by simp only [Machine.skipIf, if_true]; omega, hr⟩

theorem onTrack_stepInvariant : StepInvariant fun c => c.machine.OnTrack where
  fetch {c _ _} ho _ hw := by
    have hr := c.machine.readWord_range _ hw
    exact { ho with pc := by simp only [advance, announce, note, withMachine]; omega }
  perform {c _ _ i} ho _ hw h := by
    have hr := c.machine.readWord_range _ hw
    refine onTrack_change (c := c.advance.announce i) ?_ ho.returns h
    simp only [advance, announce, note, withMachine]
    omega
  store ho h := by
    obtain ⟨-, s, rfl⟩ := storeKey_ok h
    exact { ho with }
  read {c} ho := by
    rw [machine_readKey]
    exact ho

/-- Only words that are executed from outside can skip from where no fetch has led. -/
theorem onTrack_invariant : InternalInvariant fun c => c.machine.OnTrack where
  step key ho := onTrack_stepInvariant.step ho key
  tick ho := { ho with }
  press _ ho := ho
  release _ ho := ho
  seen ho := ho

theorem capacity_invariant (n : Nat) : Invariant fun c => c.machine.capacity = n :=
  .ofMachine (P := fun m => m.capacity = n) (fun _ h => h)
    (fun h hc => hc.capacity.trans h) (fun _ _ h => h) fun _ h => h

theorem Answered.readKey (ha : c.Answered) : c.readKey.2.Answered := by
  intro r hr n
  cases hc : c.reader with
  | none => simp [Console.readKey, hc] at hr
  | some s =>
    simp only [Console.readKey, hc, KeyReader.next, Option.some.injEq] at hr
    subst hr
    exact ha s hc n

theorem answered_invariant : Invariant Answered where
  advance ha := ha
  announce _ ha := ha
  change ha h := fun r hr => ha r (h.reader ▸ hr)
  store ha h := by
    obtain ⟨-, s, rfl⟩ := storeKey_ok h
    exact ha
  read ha := ha.readKey
  tick ha := ha
  press _ ha := ha
  release _ ha := ha
  seen ha := ha

theorem step_error_of_storable {key : Option Int} {f : Fault} (hs : c.machine.Storable)
    (ha : c.Answered) (h : (c.step key).1 = .error f) :
    f = .halted ∧ c.machine.halted = true ∨ (∃ pc n, f = .stackOverflow pc n) ∨
      ∃ a, f = .badFetch a := by
  obtain ⟨x, hx⟩ := exists_register hs.keyRegister
  have hf := step_error x hx ha h
  generalize (c.step key).2 = d at hf
  cases hf with
  | halted hh => exact .inl ⟨rfl, hh⟩
  | badFetch => exact .inr (.inr ⟨_, rfl⟩)
  | refused w _ t _ hw hr =>
    have hrange := c.machine.readWord_range _ hw
    cases hr with
    | range hn => omega
    | full => exact .inr (.inl ⟨_, _, rfl⟩)
    | timer _ _ hd => exact absurd hs.delay hd

/-- Within the bounds a delay always fits into a register, and a key register is a register. -/
theorem step_error_of_bounded {key : Option Int} {f : Fault} (hb : c.machine.Bounded)
    (ha : c.Answered) (h : (c.step key).1 = .error f) :
    f = .halted ∨ (∃ pc n, f = .stackOverflow pc n) ∨ ∃ a, f = .badFetch a :=
  (step_error_of_storable hb.storable ha h).imp_left And.left

theorem boot_ok (s : Setup) (hp : s.program.length ≤ Layout.programLimit) (hc : 1 ≤ s.capacity) :
    ∃ c t, boot s = .ok c ∧ c.machine = { memory := t, capacity := s.capacity.toNat } ∧
      c.reader = s.reader := by
  rw [boot, Machine.ofProgram, if_neg (by omega), if_neg (by omega)]
  cases s.listening <;> exact ⟨_, _, rfl, rfl, rfl⟩

theorem start_bounded (t : Memory) (n : Nat) : Machine.Bounded { memory := t, capacity := n } where
  index := by simp
  delay := by simp
  sound := by simp
  stack := Nat.zero_le n
  keyRegister := by simp
  pc := by simp [Layout.programStart]
  returns := by simp

theorem start_onTrack (t : Memory) (n : Nat) : Machine.OnTrack { memory := t, capacity := n } where
  pc := by simp [Layout.programStart]
  returns := by simp

/-- Whatever is done to a console that has been switched on, it keeps to its bounds, and its steps
fail for three reasons only. -/
theorem reachable_bounded (s : Setup) (hp : s.program.length ≤ 3584) (hc : 1 ≤ s.capacity)
    (ha : ∀ r, s.reader = some r → ∀ n, (r.answer n).isSome = true) (ds : List Command) :
    ∃ c, boot s = .ok c ∧
      (c.after ds).machine.memory.toList.length = 4096 ∧
      (c.after ds).machine.registers.toList.length = 16 ∧
      (c.after ds).machine.Bounded ∧
      (c.after ds).machine.capacity = s.capacity ∧
      ((∀ w, .execute w ∉ ds) → (c.after ds).machine.OnTrack) ∧
      ∀ key f, ((c.after ds).step key).1 = .error f →
        f = .halted ∨ (∃ pc n, f = .stackOverflow pc n) ∨ ∃ a, f = .badFetch a := by
  obtain ⟨c, t, hboot, hm, hr⟩ := boot_ok s hp hc
  have hb : c.machine.Bounded := hm ▸ start_bounded t _
  have ho : c.machine.OnTrack := hm ▸ start_onTrack t _
  have hn : c.machine.capacity = s.capacity.toNat := by rw [hm]
  have hca : c.Answered := by
    intro r hs
    exact ha r (hr ▸ hs)
  have hb' := bounded_invariant.after hb ds
  have hn' := (capacity_invariant _).after hn ds
  refine ⟨c, hboot, Vector.length_toList, Vector.length_toList, hb', by omega, onTrack_invariant.after ho ds, ?_⟩
  intro key f
  exact step_error_of_bounded hb' (answered_invariant.after hca ds)

def answering : Setup where
  program := [0xF3, 0x0A, 0x23, 0x00]
  capacity := 1
  random := .stream (fun n => -n) 0
  reader := some { answer := fun n => some (n + 300) }

theorem reachable_bounded_answering :
    answering.program.length ≤ 3584 ∧ 1 ≤ answering.capacity ∧
      (∀ r, answering.reader = some r → ∀ n, (r.answer n).isSome = true) ∧
      ∃ c, boot answering = .ok c ∧
        (c.after [.run 3, .execute 0xF31E, .step none]).machine.Bounded := by
  have hp : answering.program.length ≤ 3584 := by decide
  have hc : 1 ≤ answering.capacity := by decide
  have ha : ∀ r, answering.reader = some r → ∀ n, (r.answer n).isSome = true := by
    rintro r ⟨⟩ n
    rfl
  obtain ⟨c, hboot, -, -, hb, -⟩ :=
    reachable_bounded answering hp hc ha [.run 3, .execute 0xF31E, .step none]
  exact ⟨hp, hc, ha, c, hboot, hb⟩

end Console

end Chip8

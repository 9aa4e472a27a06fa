import Chip8.Console.Effect

/-! The changes that single instructions make to a console, and the two instructions that can fail. -/

namespace Chip8

namespace Opcode

def skips : List Opcode := [skipEqByte, skipNeByte, skipEqReg, skipNeReg, skipDown, skipUp]

def loads : List Opcode :=
  [loadByte, addByte, copy, or, and, xor, add, sub, shiftRight, subFrom, shiftLeft, readDelay,
   restore]

end Opcode

namespace Console

inductive Change (c : Console) (i : Instruction) : Console → Prop
  | clear : i.op = .clear → Change c i (c.withMachine c.machine.clear).present
  | leave : i.op = .ret → c.machine.stack = [] →
      Change c i ((c.withMachine { c.machine with halted := true }).note .leaving)
  | ret (a : Int) (rest : List Int) : i.op = .ret → c.machine.stack = a :: rest →
      Change c i (c.withMachine { c.machine with stack := rest, pc := a })
  | ignore : i.op = .sys ∨ i.op = .unknown → Change c i (c.note (.ignoring i.word))
  | jump (a : Address) : i.op = .jump ∨ i.op = .jumpOffset →
      Change c i (c.withMachine { c.machine with pc := a.val })
  | call (a : Address) : i.op = .call → c.machine.stack.length < c.machine.capacity →
      Change c i (c.withMachine { c.machine with
        stack := c.machine.pc :: c.machine.stack, pc := a.val })
  | skip (b : Bool) (w : Option KeyWatcher) : i.op ∈ Opcode.skips →
      Change c i { c with machine := c.machine.skipIf b, watcher := w }
  | load (r : Registers) : i.op ∈ Opcode.loads →
      Change c i (c.withMachine { c.machine with registers := r })
  | random (b : UInt8) : i.op = .random →
      Change c i { c with random := c.random.next.2, machine := c.machine.setV i.x b }
  | draw (s : Display) (b : UInt8) : i.op = .draw →
      Change c i (c.withMachine ({ c.machine with
        display := c.machine.display.xor s }.setV Layout.flagRegister b)).present
  | await : i.op = .awaitKey →
      Change c i ((c.withMachine { c.machine with
        waiting := true, keyRegister := i.x.val }).note (.awaiting i.x))
  | delay (b : UInt8) : i.op = .setDelay →
      Change c i (c.withMachine { c.machine with delay := b.toNat })
  | sound (b : UInt8) : i.op = .setSound →
      Change c i (c.withMachine { c.machine with sound := b.toNat })
  | index (a : Address) : i.op = .loadIndex ∨ i.op = .addIndex ∨ i.op = .glyph →
      Change c i (c.withMachine { c.machine with index := a.val })
  | memory (t : Memory) : i.op = .decimal ∨ i.op = .save →
      Change c i (c.withMachine { c.machine with memory := t })

variable {c d : Console} {i : Instruction}

theorem skipOnKey_eq (c : Console) (x : Register) (down : Bool) :
    ∃ b w, c.skipOnKey x down = { c with machine := c.machine.skipIf b, watcher := w } := by
  let r := c.isKeyDown (Key.ofInt (c.machine.v x).toNat)
  refine ⟨r.1 == down, r.2.watcher, ?_⟩
  rw [skipOnKey, isKeyDown_snd]
  rfl

theorem perform_change (h : c.perform i = .ok d) : Change c i d := by
  unfold perform at h
  cases hop : i.op <;> simp only [hop] at h
  case clear =>
    cases h
    exact .clear hop
  case ret =>
    cases hs : c.machine.stack with
    | nil =>
      have hp : c.machine.pop? = none := by simp [Machine.pop?, hs]
      simp only [hp] at h
      cases h
      exact .leave hop hs
    | cons a rest =>
      simp only [Machine.pop?, hs] at h
      cases h
      exact .ret a rest hop hs
  case sys | unknown =>
    cases h
    exact .ignore (by simp [hop])
  case jump | jumpOffset =>
    cases h
    exact .jump _ (by simp [hop])
  case call =>
    rw [Machine.push_eq] at h
    split at h
    case isTrue hl =>
      cases h
      exact .call _ hop hl
    case isFalse => cases h
  case skipEqByte | skipNeByte | skipEqReg | skipNeReg =>
    cases h
    exact .skip _ _ (by simp [hop, Opcode.skips])
  case skipDown | skipUp =>
    obtain ⟨b, w, hk⟩ := c.skipOnKey_eq i.x _
    rw [hk] at h
    cases h
    exact .skip b w (by simp [hop, Opcode.skips])
  case readDelay =>
    rw [Registers.store_register] at h
    cases hb : byte? c.machine.delay with
    | none => simp [hb, Except.map] at h
    | some b =>
      simp only [hb, Except.map] at h
      cases h
      exact .load _ (by simp [hop, Opcode.loads])
  case random =>
    cases h
    exact .random _ hop
  case draw =>
    cases h
    exact .draw _ _ hop
  case awaitKey =>
    cases h
    exact .await hop
  case setDelay =>
    cases h
    exact .delay _ hop
  case setSound =>
    cases h
    exact .sound _ hop
  case loadIndex | addIndex =>
    cases h
    exact .index _ (by simp [hop])
  case glyph =>
    -- the last glyph starts at 75
    have hg : Layout.fontStart + (c.machine.v i.x).toNat % 16 * Font.glyphSize < 4096 := by
      simp only [Layout.fontStart, Font.glyphSize]
      omega
    cases h
    exact .index ⟨_, hg⟩ (by simp [hop])
  case decimal | save =>
    cases h
    exact .memory _ (by simp [hop])
  all_goals
    cases h
    exact .load _ (by simp [hop, Opcode.loads])

theorem Change.keyRegister (h : Change c i d) (x : Register) (hx : c.machine.keyRegister = x.val) :
    ∃ y : Register, d.machine.keyRegister = y.val := by
  cases h with
  | await => exact ⟨i.x, rfl⟩
  | skip b => exact ⟨x, by cases b <;> exact hx⟩
  | _ => exact ⟨x, hx⟩

theorem Change.reader (h : Change c i d) : d.reader = c.reader := by
  cases h <;> rfl

theorem Change.capacity (h : Change c i d) : d.machine.capacity = c.machine.capacity := by
  cases h with
  | skip b => cases b <;> rfl
  | _ => rfl

/-- An instruction reports an exit, an ignored word or a wait, and nothing else. -/
theorem Change.countP {p : Record → Bool} (h : Change c i d)
    (hp : p .leaving = false ∧ p (.ignoring i.word) = false ∧ p (.awaiting i.x) = false) :
    d.trace.countP p = c.trace.countP p := by
  obtain ⟨hl, hi, ha⟩ := hp
  cases h with
  | leave => exact List.countP_cons_of_neg (by simp [hl])
  | ignore => exact List.countP_cons_of_neg (by simp [hi])
  | await => exact List.countP_cons_of_neg (by simp [ha])
  | _ => rfl

theorem perform_eq_error_iff {f : Fault} : c.perform i = .error f ↔
    (i.op = .call ∧ c.machine.capacity ≤ c.machine.stack.length ∧
      f = .stackOverflow (c.machine.pc - 2) c.machine.capacity) ∨
    (i.op = .readDelay ∧ ¬ (0 ≤ c.machine.delay ∧ c.machine.delay ≤ 255) ∧ f = .notByte) := by
  unfold perform
  cases hop : i.op
  case call =>
    simp only [Machine.push_eq, true_and, reduceCtorEq, false_and, or_false]
    by_cases hs : c.machine.stack.length < c.machine.capacity
    · simp [hs, Except.map, Nat.not_le.2 hs]
    · simp [hs, Except.map, Nat.not_lt.1 hs, eq_comm]
  case readDelay =>
    simp only [Registers.store_register, true_and, reduceCtorEq, false_and, false_or]
    cases hb : byte? c.machine.delay with
    | none => simp [Except.map, byte?_eq_none_iff.1 hb, eq_comm]
    | some b =>
      have hn : byte? c.machine.delay ≠ none := by simp [hb]
      simp [Except.map, mt byte?_eq_none_iff.2 hn]
  case ret =>
    simp only [reduceCtorEq, false_and, or_false, iff_false]
    cases c.machine.pop? <;> exact fun h => nomatch h
  all_goals simp only [reduceCtorEq, false_and, or_false]

/-! Instructions take no notice of a reader; only the end of a step does. -/

def withReader (c : Console) (r : Option KeyReader) : Console := { c with reader := r }

theorem skipOnKey_withReader (c : Console) (r : Option KeyReader) (x : Register) (down : Bool) :
    (c.withReader r).skipOnKey x down = (c.skipOnKey x down).withReader r := by
  unfold skipOnKey isKeyDown
  cases h : c.watcher <;> simp [withReader, withMachine, h]

theorem perform_withReader (c : Console) (r : Option KeyReader) (i : Instruction) :
    (c.withReader r).perform i = (c.perform i).map (·.withReader r) := by
  unfold perform
  cases i.op
  case call =>
    simp only [Machine.push_eq]
    by_cases hs : c.machine.stack.length < c.machine.capacity <;>
      simp [withReader, withMachine, hs, Except.map]
  case ret =>
    cases h : c.machine.pop? <;> simp [withReader, h] <;> rfl
  case readDelay =>
    simp only [Registers.store_register]
    cases h : byte? c.machine.delay <;> simp [withReader, withMachine, h, Except.map]
  case skipDown | skipUp =>
    simp only [skipOnKey_withReader]
    rfl
  all_goals rfl

end Console

end Chip8

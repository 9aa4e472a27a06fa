import Chip8.Proofs.Footprint

/-! The margin of a console: the parts of it that few instructions look at. Consoles that differ on
their margins only do the same, as long as an instruction finds the same on both. -/

namespace Chip8

structure Margin where
  capacity : Nat
  delay : Int
  sound : Int
  keypad : Keypad
  frames : Option (List Display)
  drawn : Bool
  trace : List Record

/-- All that is ever written on a margin, by instructions or by a driver. -/
inductive Mark
  | note (r : Record)
  | present (d : Display)
  | delay (t : Int)
  | sound (t : Int)
  | tick
  | press (k : Int)
  | release (k : Int)
  | seen

def Margin.put (m : Margin) : Mark → Margin
  | .note r => { m with trace := r :: m.trace }
  | .present d => { m with frames := m.frames.map (d :: ·), drawn := true }
  | .delay t => { m with delay := t }
  | .sound t => { m with sound := t }
  | .tick => { m with delay := Machine.countDown m.delay, sound := Machine.countDown m.sound }
  | .press k => { m with keypad := m.keypad.press k }
  | .release k => { m with keypad := m.keypad.release k }
  | .seen => { m with drawn := false }

def Mark.By (i : Instruction) : Mark → Prop
  | .note _ => True
  | .present _ => i.op = .clear ∨ i.op = .draw
  | .delay _ => i.op = .setDelay
  | .sound _ => i.op = .setSound
  | .tick | .press _ | .release _ | .seen => False

def Mark.Keeps (k : Mark) (M : Margin → Margin → Prop) : Prop :=
  ∀ m n, M m n → M (m.put k) (n.put k)

namespace Console

def margin (c : Console) : Margin where
  capacity := c.machine.capacity
  delay := c.machine.delay
  sound := c.machine.sound
  keypad := c.keypad
  frames := c.frames
  drawn := c.drawn
  trace := c.trace

def withMargin (c : Console) (m : Margin) : Console :=
  { c with
    machine := { c.machine with capacity := m.capacity, delay := m.delay, sound := m.sound }
    keypad := m.keypad
    frames := m.frames
    drawn := m.drawn
    trace := m.trace }

structure Finds (c : Console) (i : Instruction) (m : Margin) : Prop where
  capacity : i.op = .call → c.machine.stack.length < c.machine.capacity ∧
    c.machine.stack.length < m.capacity ∨ m.capacity = c.machine.capacity
  delay : i.op = .readDelay → m.delay = c.machine.delay
  keypad : i.op = .skipDown ∨ i.op = .skipUp →
    m.keypad.isDown (Key.ofInt (c.machine.v i.x).toNat) =
      c.keypad.isDown (Key.ofInt (c.machine.v i.x).toNat)

def Alike (M : Margin → Margin → Prop) (c d : Console) : Prop :=
  ∃ m, M c.margin m ∧ d = c.withMargin m

inductive EndAlike (M : Margin → Margin → Prop) :
    Except Fault Console → Except Fault Console → Prop
  | ok {c d : Console} : Alike M c d → EndAlike M (.ok c) (.ok d)
  | error (f : Fault) : EndAlike M (.error f) (.error f)

def Together {α : Type} (R : Console → Console → Prop) (o o' : Outcome Console α) : Prop :=
  o'.1 = o.1 ∧ R o.2 o'.2

variable {M : Margin → Margin → Prop} {c d : Console} {m : Margin} {i : Instruction}

theorem Alike.halted (h : Alike M c d) : d.machine.halted = c.machine.halted := by
  obtain ⟨m, -, rfl⟩ := h
  rfl

/-- What an instruction does to the machine, the margin apart, it does whatever the margin is. -/
theorem alike_withMachine (hm : M c.margin m) {x : Machine}
    (hc : x.capacity = c.machine.capacity) (hd : x.delay = c.machine.delay)
    (hs : x.sound = c.machine.sound) :
    Alike M (c.withMachine x) ((c.withMargin m).withMachine
      { x with capacity := m.capacity, delay := m.delay, sound := m.sound }) := by
  refine ⟨m, ?_, rfl⟩
  rw [margin] at hm ⊢
  simp only [withMachine, hc, hd, hs]
  exact hm

theorem isKeyDown_withMargin {k : Key} (hk : m.keypad.isDown k = c.keypad.isDown k) :
    (c.withMargin m).isKeyDown k = ((c.isKeyDown k).1, (c.isKeyDown k).2.withMargin m) := by
  have hw : (c.withMargin m).watcher = c.watcher := rfl
  unfold isKeyDown
  rw [hw]
  cases c.watcher with
  | none => exact Prod.ext hk rfl
  | some w => rfl

theorem skipOnKey_alike (hm : M c.margin m) (x : Register) (down : Bool)
    (hk : m.keypad.isDown (Key.ofInt (c.machine.v x).toNat) =
      c.keypad.isDown (Key.ofInt (c.machine.v x).toNat)) :
    Alike M (c.skipOnKey x down) ((c.withMargin m).skipOnKey x down) := by
  have hv : (c.withMargin m).machine.v x = c.machine.v x := rfl
  simp only [skipOnKey, hv, isKeyDown_withMargin hk, Machine.skipIf_eq]
  refine ⟨m, ?_, rfl⟩
  rw [isKeyDown_snd]
  exact hm

/-- An instruction takes its course whatever else is on the margin, and leaves its own mark there. -/
theorem perform_alike (hm : M c.margin m) (hf : c.Finds i m)
    (hk : ∀ k : Mark, k.By i → k.Keeps M) :
    EndAlike M (c.perform i) ((c.withMargin m).perform i) := by
  have hnote (r : Record) (d : Console) (hd : M d.margin m) :
      Alike M (d.note r) ((d.withMargin m).note r) :=
    ⟨m.put (.note r), hk (.note r) trivial _ _ hd, rfl⟩
  unfold perform
  cases hop : i.op
  case clear | draw =>
    exact .ok ⟨m.put (.present _), hk (.present _) (by simp [Mark.By, hop]) _ _ hm, rfl⟩
  case ret =>
    cases hs : c.machine.stack with
    | nil =>
      have hp : c.machine.pop? = none := by simp [Machine.pop?, hs]
      have hp' : (c.withMargin m).machine.pop? = none := by simp [Machine.pop?, withMargin, hs]
      simp only [hp, hp']
      exact .ok (hnote .leaving (c.withMachine { c.machine with halted := true }) hm)
    | cons a rest =>
      have hs' : (c.withMargin m).machine.stack = a :: rest := hs
      simp only [Machine.pop?, hs, hs']
      exact .ok ⟨m, hm, rfl⟩
  case sys | unknown => exact .ok (hnote _ c hm)
  case call =>
    have hs : (c.withMargin m).machine.stack = c.machine.stack := rfl
    have hc : (c.withMargin m).machine.capacity = m.capacity := rfl
    simp only [Machine.push_eq, hs, hc]
    by_cases hl : c.machine.stack.length < c.machine.capacity
    · have hl' : c.machine.stack.length < m.capacity := by
        rcases hf.capacity hop with h | h
        · exact h.2
        · exact h ▸ hl
      rw [if_pos hl, if_pos hl']
      exact .ok ⟨m, hm, rfl⟩
    · have he : m.capacity = c.machine.capacity := (hf.capacity hop).resolve_left fun h => hl h.1
      rw [he, if_neg hl, if_neg hl]
      exact .error _
  case skipEqByte | skipNeByte | skipEqReg | skipNeReg =>
    simp only [Machine.skipIf_eq]
    exact .ok ⟨m, hm, rfl⟩
  case skipDown | skipUp => exact .ok (skipOnKey_alike hm i.x _ (hf.keypad (by simp [hop])))
  case readDelay =>
    have hr : (c.withMargin m).machine.registers.store i.x.val (c.withMargin m).machine.delay =
        c.machine.registers.store i.x.val c.machine.delay := congrArg _ (hf.delay hop)
    dsimp only
    rw [hr]
    cases c.machine.registers.store i.x.val c.machine.delay with
    | error f => exact .error f
    | ok r => exact .ok ⟨m, hm, rfl⟩
  case awaitKey =>
    exact .ok (hnote _ (c.withMachine { c.machine with
      waiting := true, keyRegister := i.x.val }) hm)
  case setDelay => exact .ok ⟨m.put (.delay _), hk (.delay _) hop _ _ hm, rfl⟩
  case setSound => exact .ok ⟨m.put (.sound _), hk (.sound _) hop _ _ hm, rfl⟩
  case random => exact .ok ⟨m, hm, rfl⟩
  all_goals exact .ok (alike_withMachine hm rfl rfl rfl)

theorem margin_readKey (c : Console) : c.readKey.2.margin = c.margin := by
  rw [readKey_snd]
  rfl

theorem readKey_withMargin (c : Console) (m : Margin) :
    (c.withMargin m).readKey = (c.readKey.1, c.readKey.2.withMargin m) := by
  have hr : (c.withMargin m).reader = c.reader := rfl
  unfold readKey
  rw [hr]
  cases c.reader <;> rfl

variable (hn : ∀ r, (Mark.note r).Keeps M)

include hn in
theorem storeKey_together (hm : M c.margin m) (k : Int) :
    Together (Alike M) (c.storeKey k) ((c.withMargin m).storeKey k) := by
  have hr : (c.withMargin m).machine.registers = c.machine.registers := rfl
  have hx : (c.withMargin m).machine.keyRegister = c.machine.keyRegister := rfl
  simp only [storeKey, hr, hx]
  cases c.machine.registers.store c.machine.keyRegister (Key.ofInt k).val with
  | error f => exact ⟨rfl, m, hm, rfl⟩
  | ok r => exact ⟨rfl, m.put (.note _), hn _ _ _ hm, rfl⟩

include hn in
theorem resume_together (hm : M c.margin m) (key : Option Int) :
    Together (Alike M) (c.resume key) ((c.withMargin m).resume key) := by
  cases key with
  | some k => exact storeKey_together hn hm k
  | none =>
    have hr := c.margin_readKey
    simp only [resume, readKey_withMargin]
    cases hk : c.readKey with
    | mk a e =>
      rw [hk] at hr
      cases a with
      | none => exact ⟨rfl, m, hr ▸ hm, rfl⟩
      | some k => exact storeKey_together hn (hr ▸ hm) k

include hn in
theorem settle_together (hm : M c.margin m) :
    Together (Alike M) c.settle (c.withMargin m).settle := by
  have hh : (c.withMargin m).machine.halted = c.machine.halted := rfl
  have hw : (c.withMargin m).machine.waiting = c.machine.waiting := rfl
  have hr : (c.withMargin m).reader = c.reader := rfl
  simp only [settle, hh, hw, hr, readKey_withMargin]
  split
  · exact ⟨rfl, m, hm, rfl⟩
  split
  · split
    · exact ⟨rfl, m, hm, rfl⟩
    · have he := c.margin_readKey
      cases hk : c.readKey with
      | mk a e =>
        rw [hk] at he
        cases a with
        | none => exact ⟨rfl, m, he ▸ hm, rfl⟩
        | some k => exact storeKey_together hn (he ▸ hm) k
  · exact ⟨rfl, m, hm, rfl⟩

include hn in
theorem announce_alike (hm : M c.margin m) (hf : c.Finds i m)
    (hk : ∀ k : Mark, k.By i → k.Keeps M) :
    Alike M (c.announce i) ((c.withMargin m).announce i) ∧
      EndAlike M ((c.announce i).perform i) (((c.withMargin m).announce i).perform i) := by
  let n := m.put (.note (.executing ((c.machine.pc - 2) % 65536).toNat i))
  have ha : M (c.announce i).margin n := hn _ _ _ hm
  have hf' : (c.announce i).Finds i n := ⟨hf.capacity, hf.delay, hf.keypad⟩
  exact ⟨⟨n, ha, rfl⟩, perform_alike ha hf' hk⟩

include hn in
theorem execute_together (hm : M c.margin m) {w : Int}
    (hi : ∀ i, Instruction.decode w = .ok i →
      c.Finds i m ∧ ∀ k : Mark, k.By i → k.Keeps M) :
    Together (Alike M) (c.execute w) ((c.withMargin m).execute w) := by
  cases hd : Instruction.decode w with
  | error f =>
    simp only [execute, hd]
    exact ⟨rfl, m, hm, rfl⟩
  | ok i =>
    obtain ⟨hf, hk⟩ := hi i hd
    obtain ⟨ha, hp⟩ := announce_alike hn hm hf hk
    rw [execute_decoded hd, execute_decoded hd]
    generalize (c.announce i).perform i = o, ((c.withMargin m).announce i).perform i = o' at hp
    cases hp with
    | ok h => exact ⟨rfl, h⟩
    | error f => exact ⟨rfl, ha⟩

include hn in
/-- A step takes its course whatever else is on the margin, if the instruction that it fetches
does. -/
theorem step_together (hm : M c.margin m)
    (hi : ∀ i, c.fetch? = some i → c.Finds i m ∧ ∀ k : Mark, k.By i → k.Keeps M)
    (key : Option Int) : Together (Alike M) (c.step key) ((c.withMargin m).step key) := by
  have ht := c.turn key
  generalize c.step key = o at ht
  have announced {i : Instruction} (h : c.fetch? = some i) :=
    announce_alike (c := c.advance) hn hm (i := i)
      ⟨(hi i h).1.capacity, (hi i h).1.delay, (hi i h).1.keypad⟩ (hi i h).2
  cases ht with
  | halted hh =>
    rw [step_halted (c := c.withMargin m) hh]
    exact ⟨rfl, m, hm, rfl⟩
  | suspended hh hw =>
    rw [step_waiting (c := c.withMargin m) hh hw]
    exact resume_together hn hm key
  | stuck f hr hf =>
    rw [step_badFetch (c := c.withMargin m) hr hf]
    exact ⟨rfl, m, hm, rfl⟩
  | refused i f h hp =>
    obtain ⟨ha, he⟩ := announced h
    rw [hp] at he
    generalize hp' : ((c.advance.withMargin m).announce i).perform i = o' at he
    cases he
    rw [step_of_refused (c := c.withMargin m) h hp']
    exact ⟨rfl, ha⟩
  | done i d h hp =>
    have he := (announced h).2
    rw [hp] at he
    generalize hp' : ((c.advance.withMargin m).announce i).perform i = o' at he
    cases he with
    | ok hd =>
      rw [step_of_perform (c := c.withMargin m) h hp']
      obtain ⟨n, hdn, rfl⟩ := hd
      exact settle_together hn hdn

end Console

end Chip8

import Chip8.Console.Command
import Chip8.Proofs.Change

/-! The execution cycle by cases, and the induction along a history that all invariants share. -/

namespace Chip8

def Machine.Running (m : Machine) : Prop := m.halted = false ∧ m.waiting = false

theorem Machine.readWord_decodes {m : Machine} {a : Int} {w : Nat} (h : m.readWord a = .ok w) :
    ∃ i, Instruction.decode w = .ok i :=
  ⟨_, Instruction.decode_word (m.readWord_range a h).2.2⟩

def Command.Internal (e : Command) : Prop := ∀ w, e ≠ .execute w

def Machine.mode (m : Machine) : StepResult :=
  if m.halted then .halted else if m.waiting then .waiting else .executed

theorem Machine.mode_eq_halted {m : Machine} : m.mode = .halted ↔ m.halted = true := by
  cases hh : m.halted <;> cases hw : m.waiting <;> simp [mode, hh, hw]

theorem Machine.mode_eq_waiting {m : Machine} :
    m.mode = .waiting ↔ m.halted = false ∧ m.waiting = true := by
  cases hh : m.halted <;> cases hw : m.waiting <;> simp [mode, hh, hw]

namespace Console

variable {c d : Console} {i : Instruction} {f : Fault} {r : StepResult} {key : Option Int}

theorem execute_decoded {w : Int} (h : Instruction.decode w = .ok i) :
    c.execute w = match (c.announce i).perform i with
      | .error f => (.error f, c.announce i)
      | .ok d => (.ok (), d) := by
  cases hp : (c.announce i).perform i <;> simp only [execute, h, hp]

theorem step_halted (h : c.machine.halted = true) : c.step key = (.error .halted, c) := by
  rw [step, if_pos h]

theorem step_waiting (hh : c.machine.halted = false) (hw : c.machine.waiting = true) :
    c.step key = c.resume key := by
  rw [step, if_neg (by simp [hh]), if_pos hw]

theorem step_suspended (hh : c.machine.halted = false) (hw : c.machine.waiting = true) (k : Int) :
    c.step (some k) = c.storeKey k := by
  rw [step_waiting hh hw]
  rfl

theorem step_suspended_none (hr : c.reader = none) (hh : c.machine.halted = false)
    (hw : c.machine.waiting = true) : c.step none = (.ok .waiting, c) := by
  rw [step_waiting hh hw]
  simp only [resume, readKey, hr]

theorem step_badFetch (h : c.machine.Running)
    (hf : c.machine.readWord c.machine.pc = .error f) : c.step key = (.error f, c) := by
  rw [step, if_neg (by simp [h.1]), if_neg (by simp [h.2]), hf]

theorem step_fetch {w : Nat} (h : c.machine.Running)
    (hw : c.machine.readWord c.machine.pc = .ok w) (hd : Instruction.decode w = .ok i) :
    c.step key = match (c.advance.announce i).perform i with
      | .error f => (.error f, c.advance.announce i)
      | .ok d => d.settle := by
  rw [step, if_neg (by simp [h.1]), if_neg (by simp [h.2]), hw]
  dsimp only
  rw [execute_decoded hd]
  cases (c.advance.announce i).perform i <;> rfl

def fetch? (c : Console) : Option Instruction :=
  if c.machine.halted || c.machine.waiting then none
  else match c.machine.readWord c.machine.pc with
    | .ok w => some (.ofWord (UInt16.ofNat w))
    | .error _ => none

theorem fetch?_eq_some_iff : c.fetch? = some i ↔
    c.machine.Running ∧ ∃ w, c.machine.readWord c.machine.pc = .ok w ∧
      Instruction.decode w = .ok i := by
  unfold fetch? Machine.Running
  cases c.machine.halted <;> cases c.machine.waiting <;> simp
  cases hf : c.machine.readWord c.machine.pc with
  | error f => simp
  | ok w => simp [Instruction.decode_word (c.machine.readWord_range _ hf).2.2]

theorem fetch?_of_not_running (h : ¬ c.machine.Running) : c.fetch? = none := by
  cases hi : c.fetch? with
  | none => rfl
  | some i => exact absurd (fetch?_eq_some_iff.1 hi).1 h

theorem fetch?_of_badFetch (h : c.machine.readWord c.machine.pc = .error f) : c.fetch? = none := by
  cases hi : c.fetch? with
  | none => rfl
  | some i =>
    obtain ⟨-, w, hw, -⟩ := fetch?_eq_some_iff.1 hi
    rw [h] at hw
    cases hw

theorem step_of_perform (hi : c.fetch? = some i)
    (hp : (c.advance.announce i).perform i = .ok d) : c.step key = d.settle := by
  obtain ⟨hr, w, hw, hd⟩ := fetch?_eq_some_iff.1 hi
  rw [step_fetch hr hw hd, hp]

theorem step_of_refused (hi : c.fetch? = some i)
    (hp : (c.advance.announce i).perform i = .error f) :
    c.step key = (.error f, c.advance.announce i) := by
  obtain ⟨hr, w, hw, hd⟩ := fetch?_eq_some_iff.1 hi
  rw [step_fetch hr hw hd, hp]

inductive Turn (c : Console) (key : Option Int) : Outcome Console StepResult → Prop
  | halted : c.machine.halted = true → Turn c key (.error .halted, c)
  | suspended : c.machine.halted = false → c.machine.waiting = true → Turn c key (c.resume key)
  | stuck (f : Fault) : c.machine.Running → c.machine.readWord c.machine.pc = .error f →
      Turn c key (.error f, c)
  | refused (i : Instruction) (f : Fault) : c.fetch? = some i →
      (c.advance.announce i).perform i = .error f → Turn c key (.error f, c.advance.announce i)
  | done (i : Instruction) (d : Console) : c.fetch? = some i →
      (c.advance.announce i).perform i = .ok d → Turn c key d.settle

theorem turn (c : Console) (key : Option Int) : Turn c key (c.step key) := by
  by_cases hh : c.machine.halted = true
  · rw [step_halted hh]
    exact .halted hh
  rw [Bool.not_eq_true] at hh
  by_cases hw : c.machine.waiting = true
  · rw [step_waiting hh hw]
    exact .suspended hh hw
  rw [Bool.not_eq_true] at hw
  cases hf : c.machine.readWord c.machine.pc with
  | error f =>
    rw [step_badFetch ⟨hh, hw⟩ hf]
    exact .stuck f ⟨hh, hw⟩ hf
  | ok w =>
    obtain ⟨i, hd⟩ := Machine.readWord_decodes hf
    have hi : c.fetch? = some i := fetch?_eq_some_iff.2 ⟨⟨hh, hw⟩, w, hf, hd⟩
    rw [step_fetch ⟨hh, hw⟩ hf hd]
    cases hp : (c.advance.announce i).perform i with
    | error f => exact .refused i f hi hp
    | ok d => exact .done i d hi hp

theorem storeKey_ok {k : Int} (h : c.storeKey k = (.ok r, d)) :
    r = .executed ∧ ∃ s, d = (c.withMachine { c.machine with
      registers := s, waiting := false }).note (.stored (Key.ofInt k) c.machine.keyRegister) := by
  cases hs : c.machine.registers.store c.machine.keyRegister (Key.ofInt k).val with
  | error f => simp [storeKey, hs] at h
  | ok s =>
    simp only [storeKey, hs, Prod.mk.injEq, Except.ok.injEq] at h
    exact ⟨h.1.symm, s, h.2.symm⟩

theorem storeKey_error {k : Int} (h : c.storeKey k = (.error f, d)) : d = c := by
  cases hs : c.machine.registers.store c.machine.keyRegister (Key.ofInt k).val with
  | error f =>
    simp only [storeKey, hs, Prod.mk.injEq] at h
    exact h.2.symm
  | ok s => simp [storeKey, hs] at h

/-- A key that a suspended console takes ends its wait. -/
theorem step_key_executed {k : Int} (hw : c.machine.waiting = true)
    (h : c.step (some k) = (.ok r, d)) : r = .executed := by
  cases hh : c.machine.halted with
  | true =>
    rw [step_halted hh] at h
    cases h
  | false =>
    rw [step_suspended hh hw] at h
    exact (storeKey_ok h).1

theorem exists_register {k : Int} (h : 0 ≤ k ∧ k ≤ 0xF) : ∃ x : Register, k = x.val :=
  ⟨⟨k.toNat, by omega⟩, (Int.toNat_of_nonneg h.1).symm⟩

theorem storeKey_eq (x : Register) (hx : c.machine.keyRegister = x.val) (k : Int) :
    c.storeKey k = (.ok .executed, (c.withMachine { c.machine with
      registers := c.machine.registers.set x (UInt8.ofNat (k % 16).toNat),
      waiting := false }).note (.stored (Key.ofInt k) x.val)) := by
  have hb : (UInt8.ofNat (k % 16).toNat).toNat = (Key.ofInt k).val := by
    rw [UInt8.toNat_ofNat_of_lt' (by simp; omega)]
    rfl
  simp only [storeKey, hx, Registers.store_register, ← hb, byte?_toNat]

theorem storeKey_register {k : Int} (x : Register) (hx : c.machine.keyRegister = x.val) :
    ∃ d, c.storeKey k = (.ok .executed, d) :=
  ⟨_, storeKey_eq x hx k⟩

theorem readKey_snd (c : Console) : c.readKey.2 = { c with reader := c.readKey.2.reader } := by
  rw [readKey]
  cases c.reader <;> rfl

theorem machine_readKey (c : Console) : c.readKey.2.machine = c.machine := by
  rw [readKey_snd]

inductive Resumes (c : Console) : Outcome Console StepResult → Prop
  | given (k : Int) : Resumes c (c.storeKey k)
  | read (k : Int) : Resumes c (c.readKey.2.storeKey k)
  | idle : Resumes c (.ok .waiting, c.readKey.2)

theorem resume_cases (c : Console) (key : Option Int) : Resumes c (c.resume key) := by
  cases key with
  | some k => exact .given k
  | none =>
    have hread : ∀ k, Resumes c (c.readKey.2.storeKey k) := .read
    have hidle : Resumes c (.ok .waiting, c.readKey.2) := .idle
    rw [resume]
    cases hk : c.readKey with
    | mk a e =>
      rw [hk] at hread hidle
      cases a with
      | none => exact hidle
      | some k => exact hread k

inductive Settles (c : Console) : Outcome Console StepResult → Prop
  | rest : Settles c (.ok c.machine.mode, c)
  | read (k : Int) : c.machine.halted = false → Settles c (c.readKey.2.storeKey k)
  | unanswered : c.machine.halted = false → c.reader ≠ none → c.readKey.1 = none →
      Settles c (.error .noKey, c.readKey.2)

theorem settle_cases (c : Console) : Settles c c.settle := by
  have hrest : Settles c (.ok c.machine.mode, c) := .rest
  rw [Machine.mode] at hrest
  rw [settle]
  by_cases hh : c.machine.halted = true
  · rw [if_pos hh] at hrest ⊢
    exact hrest
  rw [if_neg hh] at hrest ⊢
  by_cases hw : c.machine.waiting = true
  · rw [if_pos hw] at hrest ⊢
    by_cases hr : c.reader = none
    · simp only [hr, Option.isNone_none, if_true]
      exact hrest
    · have hread k : Settles c (c.readKey.2.storeKey k) := .read k (by simpa using hh)
      have hnone := Settles.unanswered (c := c) (by simpa using hh) hr
      rw [if_neg (by simpa using hr)]
      cases hk : c.readKey with
      | mk a e =>
        rw [hk] at hread hnone
        cases a with
        | none => exact hnone rfl
        | some k => exact hread k
  · rw [if_neg hw] at hrest ⊢
    exact hrest

theorem storeKey_mode {k : Int} (hh : c.machine.halted = false)
    (h : c.storeKey k = (.ok r, d)) : r = d.machine.mode := by
  obtain ⟨rfl, s, rfl⟩ := storeKey_ok h
  simp [Machine.mode, note, withMachine, hh]

theorem resume_mode (hh : c.machine.halted = false) (hw : c.machine.waiting = true)
    (h : c.resume key = (.ok r, d)) : r = d.machine.mode := by
  have hm := c.machine_readKey
  have hc := c.resume_cases key
  rw [h] at hc
  generalize ho : (Except.ok r, d) = o at hc
  cases hc with
  | given k => exact storeKey_mode hh ho.symm
  | read k => exact storeKey_mode (hm ▸ hh) ho.symm
  | idle =>
    cases ho
    exact (Machine.mode_eq_waiting.2 ⟨hm ▸ hh, hm ▸ hw⟩).symm

theorem settle_mode (h : c.settle = (.ok r, d)) : r = d.machine.mode := by
  have hc := c.settle_cases
  rw [h] at hc
  generalize ho : (Except.ok r, d) = o at hc
  cases hc with
  | rest =>
    cases ho
    rfl
  | read k hh => exact storeKey_mode (c.machine_readKey ▸ hh) ho.symm
  | unanswered => cases ho

/-- The answer of a step and the state of the machine say the same. -/
theorem step_mode (h : c.step key = (.ok r, d)) : r = d.machine.mode := by
  have ht := c.turn key
  rw [h] at ht
  generalize ho : (Except.ok r, d) = o at ht
  cases ht with
  | halted | stuck | refused => cases ho
  | suspended hh hw => exact resume_mode hh hw ho.symm
  | done => exact settle_mode ho.symm

theorem halted_of_step (h : c.step key = (.ok r, d)) (hne : r ≠ .halted) :
    d.machine.halted = false := by
  rw [← Bool.not_eq_true, ← Machine.mode_eq_halted, ← step_mode h]
  exact hne

theorem resume_read {k : Int} (hk : c.readKey.1 = some k) :
    c.resume none = c.readKey.2.storeKey k := by
  rw [resume]
  cases hc : c.readKey with
  | mk a e =>
    rw [hc] at hk
    simp only at hk
    simp only [hk]

theorem settle_unread (h : c.reader = none) : c.settle = (.ok c.machine.mode, c) := by
  simp only [settle, h, Option.isNone_none, if_true, Machine.mode]
  split
  · rfl
  · split <;> rfl

theorem settle_awake (h : c.machine.waiting = false) : c.settle = (.ok c.machine.mode, c) := by
  simp only [settle, Machine.mode, h]
  split <;> rfl

theorem settle_read {k : Int} (hh : c.machine.halted = false) (hw : c.machine.waiting = true)
    (hk : c.readKey.1 = some k) : c.settle = c.readKey.2.storeKey k := by
  have hr : c.reader.isNone = false := by
    cases hr : c.reader with
    | none => simp [readKey, hr] at hk
    | some r => rfl
  rw [settle, if_neg (by simp [hh]), if_pos hw, if_neg (by simp [hr])]
  cases hc : c.readKey with
  | mk a e =>
    rw [hc] at hk
    simp only at hk
    simp only [hk]

theorem step_of_perform_awake (hi : c.fetch? = some i)
    (hp : (c.advance.announce i).perform i = .ok d) (hw : d.machine.waiting = false) :
    c.step key = (.ok d.machine.mode, d) := by
  rw [step_of_perform hi hp, settle_awake hw]

/-- `d` is `c` but for what a wait for a key and its end leave behind. -/
def UpToKey (c d : Console) : Prop :=
  ∃ s w r t, d = { c with
    machine := { c.machine with registers := s, waiting := w }, reader := r, trace := t }

theorem UpToKey.refl (c : Console) : UpToKey c c := ⟨_, _, _, _, rfl⟩

theorem UpToKey.trans {e : Console} (h : UpToKey c d) (h' : UpToKey d e) : UpToKey c e := by
  obtain ⟨s, w, r, t, rfl⟩ := h
  obtain ⟨s', w', r', t', rfl⟩ := h'
  exact ⟨s', w', r', t', rfl⟩

theorem upToKey_readKey (c : Console) : UpToKey c c.readKey.2 :=
  ⟨_, _, _, _, c.readKey_snd⟩

theorem upToKey_storeKey (c : Console) (k : Int) : UpToKey c (c.storeKey k).2 := by
  cases hs : c.storeKey k with
  | mk a d =>
    cases a with
    | error f => exact storeKey_error hs ▸ .refl c
    | ok r =>
      obtain ⟨-, s, rfl⟩ := storeKey_ok hs
      exact ⟨_, _, _, _, rfl⟩

theorem upToKey_resume (c : Console) (key : Option Int) : UpToKey c (c.resume key).2 := by
  have hs := c.resume_cases key
  generalize c.resume key = o at hs
  cases hs with
  | given k => exact upToKey_storeKey c k
  | read k => exact (upToKey_readKey c).trans (upToKey_storeKey _ k)
  | idle => exact upToKey_readKey c

theorem upToKey_settle (c : Console) : UpToKey c c.settle.2 := by
  have hs := c.settle_cases
  generalize c.settle = o at hs
  cases hs with
  | rest => exact .refl c
  | read k => exact (upToKey_readKey c).trans (upToKey_storeKey _ k)
  | unanswered => exact upToKey_readKey c

theorem settle_error_halted (h : c.settle = (.error f, d)) : d.machine.halted = false := by
  have hm := c.machine_readKey
  have hs := c.settle_cases
  rw [h] at hs
  generalize ho : (Except.error f, d) = o at hs
  cases hs with
  | rest => cases ho
  | read k hh =>
    rw [storeKey_error ho.symm, hm]
    exact hh
  | unanswered hh =>
    cases ho
    rw [hm]
    exact hh

/-- A program does not halt by a fault. -/
theorem step_error_halted (h : c.step key = (.error f, d)) :
    d.machine.halted = c.machine.halted := by
  have ht := c.turn key
  rw [h] at ht
  generalize ho : (Except.error f, d) = o at ht
  cases ht with
  | halted | stuck | refused =>
    cases ho
    rfl
  | suspended =>
    obtain ⟨s, w, r, t, hd⟩ := c.upToKey_resume key
    rw [← ho] at hd
    dsimp only at hd
    rw [hd]
  | done i e hi =>
    rw [settle_error_halted ho.symm]
    exact (fetch?_eq_some_iff.1 hi).1.1.symm

inductive Fetches (c : Console) : Except Fault StepResult → Console → Prop
  | stuck (f : Fault) : Fetches c (.error f) c
  | refused (i : Instruction) (f : Fault) : Fetches c (.error f) (c.advance.announce i)
  | done (i : Instruction) (d : Console) : c.machine.Running →
      Change (c.advance.announce i) i d → Fetches c (.ok d.machine.mode) d

theorem step_fetches (hr : c.reader = none) (hw : c.machine.waiting = false) (key : Option Int) :
    Fetches c (c.step key).1 (c.step key).2 := by
  have ht := c.turn key
  generalize c.step key = o at ht
  cases ht with
  | halted => exact .stuck _
  | suspended _ hn => exact absurd (hw.symm.trans hn) nofun
  | stuck f => exact .stuck f
  | refused i f => exact .refused i f
  | done i d hi hp =>
    have hc := perform_change hp
    rw [settle_unread (hc.reader.trans hr)]
    exact .done i d (fetch?_eq_some_iff.1 hi).1 hc

theorem steps_of_step {P : Console → Prop} (h : ∀ d, P d → P (d.step none).2) (hc : P c) (n : Nat) :
    P (c.steps n).2 := by
  induction n generalizing c with
  | zero => exact hc
  | succ n ih =>
    have hs := h c hc
    rw [steps]
    cases he : c.step none with
    | mk a d =>
      rw [he] at hs
      cases a with
      | error f => exact hs
      | ok r =>
        cases r with
        | executed => exact ih hs
        | waiting | halted => exact hs

theorem run_of_step {P : Console → Prop} (h : ∀ d, P d → P (d.step none).2) (hc : P c) (n : Int) :
    P (c.run n).2 := by
  have hs := steps_of_step h hc n.toNat
  rw [run]
  cases he : c.steps n.toNat with
  | mk a d =>
    rw [he] at hs
    cases a <;> exact hs

theorem run_suspended (hr : c.reader = none) (hh : c.machine.halted = false)
    (hw : c.machine.waiting = true) (n : Int) : c.run n = (.ok true, c) := by
  have hs : c.steps n.toNat = (.ok (), c) := by
    cases n.toNat with
    | zero => rfl
    | succ n => rw [steps, step_suspended_none hr hh hw]
  simp only [run, hs, hh, Bool.not_false]

theorem run_ok {b : Bool} {n : Int} (h : c.run n = (.ok b, d)) : b = !d.machine.halted := by
  rw [run] at h
  cases hs : c.steps n.toNat with
  | mk a e =>
    rw [hs] at h
    cases a with
    | error f => cases h
    | ok =>
      cases h
      rfl

structure StepInvariant (P : Console → Prop) : Prop where
  fetch {c : Console} {w : Nat} {i : Instruction} : P c → c.machine.Running →
    c.machine.readWord c.machine.pc = .ok w → P (c.advance.announce i)
  perform {c d : Console} {w : Nat} {i : Instruction} : P c → c.machine.Running →
    c.machine.readWord c.machine.pc = .ok w → Change (c.advance.announce i) i d → P d
  store {c d : Console} {k : Int} {r : StepResult} : P c → c.storeKey k = (.ok r, d) → P d
  read {c : Console} : P c → P c.readKey.2

namespace StepInvariant
variable {P : Console → Prop}

theorem storeKey (h : StepInvariant P) (hc : P c) (k : Int) : P (c.storeKey k).2 := by
  cases hs : c.storeKey k with
  | mk a d =>
    cases a with
    | error f => exact storeKey_error hs ▸ hc
    | ok r => exact h.store hc hs

theorem resume (h : StepInvariant P) (hc : P c) : P (c.resume key).2 := by
  have hs := c.resume_cases key
  generalize c.resume key = o at hs
  cases hs with
  | given k => exact h.storeKey hc k
  | read k => exact h.storeKey (h.read hc) k
  | idle => exact h.read hc

theorem settle (h : StepInvariant P) (hc : P c) : P c.settle.2 := by
  have hs := c.settle_cases
  generalize c.settle = o at hs
  cases hs with
  | rest => exact hc
  | read k => exact h.storeKey (h.read hc) k
  | unanswered => exact h.read hc

theorem step (h : StepInvariant P) (hc : P c) (key : Option Int) : P (c.step key).2 := by
  have ht := c.turn key
  generalize c.step key = o at ht
  cases ht with
  | halted | stuck => exact hc
  | suspended => exact h.resume hc
  | refused i f hi =>
    obtain ⟨hr, w, hw, -⟩ := fetch?_eq_some_iff.1 hi
    exact h.fetch hc hr hw
  | done i d hi hp =>
    obtain ⟨hr, w, hw, -⟩ := fetch?_eq_some_iff.1 hi
    exact h.settle (h.perform hc hr hw (perform_change hp))

theorem run (h : StepInvariant P) (hc : P c) (n : Int) : P (c.run n).2 :=
  run_of_step (P := P) (fun _ hd => h.step hd none) hc n

end StepInvariant

theorem unread_stepInvariant : StepInvariant fun c => c.reader = none where
  fetch h _ _ := h
  perform h _ _ hc := hc.reader.trans h
  store h hs := by
    obtain ⟨-, s, rfl⟩ := storeKey_ok hs
    exact h
  read {c} h := by
    simp only [Console.readKey, h]

structure Invariant (P : Console → Prop) : Prop where
  advance {c : Console} : P c → P c.advance
  announce {c : Console} (i : Instruction) : P c → P (c.announce i)
  change {c d : Console} {i : Instruction} : P c → Change c i d → P d
  store {c d : Console} {k : Int} {r : StepResult} : P c → c.storeKey k = (.ok r, d) → P d
  read {c : Console} : P c → P c.readKey.2
  tick {c : Console} : P c → P c.tick
  press {c : Console} (k : Int) : P c → P (c.press k)
  release {c : Console} (k : Int) : P c → P (c.release k)
  seen {c : Console} : P c → P { c with drawn := false }

/-- A property of the machine alone has less to survive. -/
theorem Invariant.ofMachine {P : Machine → Prop}
    (advance : ∀ m : Machine, P m → P { m with pc := m.pc + 2 })
    (change : ∀ {c d : Console} {i : Instruction}, P c.machine → Change c i d → P d.machine)
    (store : ∀ (m : Machine) (s : Registers), P m → P { m with registers := s, waiting := false })
    (tick : ∀ m : Machine, P m → P m.tick) : Invariant fun c => P c.machine where
  advance h := advance _ h
  announce _ h := h
  change h hc := change h hc
  store h hs := by
    obtain ⟨-, s, rfl⟩ := storeKey_ok hs
    exact store _ s h
  read {c} h := by
    rw [machine_readKey]
    exact h
  tick h := tick _ h
  press _ h := h
  release _ h := h
  seen h := h

namespace Invariant
variable {P : Console → Prop}

theorem stepInvariant (h : Invariant P) : StepInvariant P where
  fetch hc _ _ := h.announce _ (h.advance hc)
  perform hc _ _ := h.change (h.announce _ (h.advance hc))
  store := h.store
  read := h.read

theorem execute (h : Invariant P) (hc : P c) (w : Int) : P (c.execute w).2 := by
  unfold Console.execute
  split
  · exact hc
  case h_2 i _ =>
    split
    · exact h.announce i hc
    case h_2 hp => exact h.change (h.announce i hc) (perform_change hp)

theorem apply (h : Invariant P) (hc : P c) (e : Command) : P (c.apply e).2 := by
  cases e with
  | step key => exact h.stepInvariant.step hc key
  | execute w => exact h.execute hc w
  | run n => exact h.stepInvariant.run hc n
  | tick => exact h.tick hc
  | press k => exact h.press k hc
  | release k => exact h.release k hc
  | seen => exact h.seen hc

theorem after (h : Invariant P) (hc : P c) (ds : List Command) : P (c.after ds) := by
  induction ds generalizing c with
  | nil => exact hc
  | cons d ds ih => exact ih (h.apply hc d)

end Invariant

structure InternalInvariant (P : Console → Prop) : Prop where
  step {c : Console} (key : Option Int) : P c → P (c.step key).2
  tick {c : Console} : P c → P c.tick
  press {c : Console} (k : Int) : P c → P (c.press k)
  release {c : Console} (k : Int) : P c → P (c.release k)
  seen {c : Console} : P c → P { c with drawn := false }

namespace InternalInvariant
variable {P : Console → Prop}

theorem apply (h : InternalInvariant P) (hc : P c) {e : Command} (he : e.Internal) :
    P (c.apply e).2 := by
  cases e with
  | step key => exact h.step key hc
  | execute w => exact absurd rfl (he w)
  | run n => exact run_of_step (P := P) (fun _ hd => h.step none hd) hc n
  | tick => exact h.tick hc
  | press k => exact h.press k hc
  | release k => exact h.release k hc
  | seen => exact h.seen hc

theorem after (h : InternalInvariant P) (hc : P c) (ds : List Command)
    (hd : ∀ w, .execute w ∉ ds) : P (c.after ds) := by
  induction ds generalizing c with
  | nil => exact hc
  | cons e es ih =>
    have he : e.Internal := fun w hw => hd w (hw ▸ List.mem_cons_self)
    exact ih (h.apply hc he) fun w hw => hd w (List.mem_cons_of_mem e hw)

end InternalInvariant

end Console

end Chip8

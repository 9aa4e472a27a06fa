import Chip8.Proofs.Cycle

/-! When executing a word and stepping fail, and what a failure leaves behind: never more than a
program counter that has moved on, and a record in the trace. -/

namespace Chip8

inductive Machine.Refuses (m : Machine) (w : Int) : Fault → Prop
  | range : ¬ (0 ≤ w ∧ w ≤ 0xFFFF) → Refuses m w (.wordOutOfRange w)
  | full : 0 ≤ w ∧ w ≤ 0xFFFF → Opcode.ofWord w = .call → m.capacity ≤ m.stack.length →
      Refuses m w (.stackOverflow (m.pc - 2) m.capacity)
  | timer : 0 ≤ w ∧ w ≤ 0xFFFF → Opcode.ofWord w = .readDelay →
      ¬ (0 ≤ m.delay ∧ m.delay ≤ 255) → Refuses m w .notByte

namespace Console

inductive Fails (c : Console) : Fault → Console → Prop
  | halted : c.machine.halted = true → Fails c .halted c
  | badFetch : c.machine.Running → c.machine.pc < 0 ∨ 0xFFE < c.machine.pc →
      Fails c (.badFetch c.machine.pc) c
  | refused (w : Nat) (f : Fault) (t : List Record) : c.machine.Running →
      c.machine.readWord c.machine.pc = .ok w →
      Machine.Refuses { c.machine with pc := c.machine.pc + 2 } w f →
      Fails c f { c with machine := { c.machine with pc := c.machine.pc + 2 }, trace := t }

def Answered (c : Console) : Prop := ∀ r, c.reader = some r → ∀ n, (r.answer n).isSome = true

variable {c d : Console} {i : Instruction} {f : Fault} {key : Option Int}

theorem execute_error_iff {w : Int} :
    (c.execute w).1 = .error f ↔ c.machine.Refuses w f := by
  cases hd : Instruction.decode w with
  | error g =>
    obtain ⟨hr, rfl⟩ := Instruction.decode_eq_error_iff.1 hd
    simp only [execute, hd, Except.error.injEq]
    constructor
    · rintro rfl
      exact .range hr
    · intro h
      cases h with
      | range => rfl
      | full hw => exact absurd hw hr
      | timer hw => exact absurd hw hr
  | ok i =>
    have hw := Instruction.decode_range hd
    have hop := Instruction.op_of_decode hd
    have he : (c.execute w).1 = .error f ↔ (c.announce i).perform i = .error f := by
      rw [execute_decoded hd]
      cases (c.announce i).perform i <;> simp
    rw [he, perform_eq_error_iff, hop]
    constructor
    · rintro (⟨ho, hs, rfl⟩ | ⟨ho, ht, rfl⟩)
      · exact .full hw ho hs
      · exact .timer hw ho ht
    · intro h
      cases h with
      | range hr => exact absurd hw hr
      | full _ ho hs => exact .inl ⟨ho, hs, rfl⟩
      | timer _ ho ht => exact .inr ⟨ho, ht, rfl⟩

theorem execute_error {w : Int} (h : (c.execute w).1 = .error f) :
    ∃ t, (c.execute w).2 = { c with trace := t } := by
  cases hd : Instruction.decode w with
  | error g => exact ⟨c.trace, by simp only [execute, hd]⟩
  | ok i =>
    rw [execute_decoded hd] at h ⊢
    cases hp : (c.announce i).perform i with
    | error g => exact ⟨_, rfl⟩
    | ok d => simp [hp] at h

/-- Keys always fit, so a wait for one ends well once it has come. -/
theorem resume_ok (x : Register) (hx : c.machine.keyRegister = x.val) (key : Option Int) :
    ∃ r d, c.resume key = (.ok r, d) := by
  have hc := c.resume_cases key
  generalize c.resume key = o at hc
  cases hc with
  | given k => exact ⟨_, storeKey_register x hx⟩
  | read k => exact ⟨_, storeKey_register x (c.machine_readKey ▸ hx)⟩
  | idle => exact ⟨_, _, rfl⟩

theorem Answered.readKey_ne_none (ha : c.Answered) (hr : c.reader ≠ none) :
    c.readKey.1 ≠ none := by
  obtain ⟨r, hr⟩ := Option.ne_none_iff_exists'.1 hr
  have hk : c.readKey.1 = r.answer r.taken := by simp only [readKey, hr, KeyReader.next]
  rw [hk, ← Option.isSome_iff_ne_none]
  exact ha r hr _

theorem settle_ok (x : Register) (hx : c.machine.keyRegister = x.val) (ha : c.Answered) :
    ∃ r d, c.settle = (.ok r, d) := by
  have hc := c.settle_cases
  generalize c.settle = o at hc
  cases hc with
  | rest => exact ⟨_, _, rfl⟩
  | read k => exact ⟨_, storeKey_register x (c.machine_readKey ▸ hx)⟩
  | unanswered _ hr hk => exact absurd hk (ha.readKey_ne_none hr)

theorem step_error (x : Register) (hx : c.machine.keyRegister = x.val) (ha : c.Answered)
    (h : (c.step key).1 = .error f) : c.Fails f (c.step key).2 := by
  have ht := c.turn key
  generalize c.step key = o at ht h
  cases ht with
  | halted hh =>
    cases h
    exact .halted hh
  | suspended hh hw =>
    obtain ⟨r, d, hr⟩ := resume_ok x hx key
    rw [hr] at h
    cases h
  | stuck g hr hf =>
    obtain ⟨hpc, rfl⟩ := (c.machine.readWord_eq_error_iff _).1 hf
    cases h
    exact .badFetch hr hpc
  | refused i g hi hp =>
    obtain ⟨hr, w, hw, hd⟩ := fetch?_eq_some_iff.1 hi
    have he : (c.advance.execute w).1 = .error g := by rw [execute_decoded hd, hp]
    cases h
    exact .refused w _ _ hr hw (execute_error_iff.1 he)
  | done i e hi hp =>
    have hc := perform_change hp
    obtain ⟨y, hy⟩ := hc.keyRegister x hx
    have hae : e.Answered := by
      intro r hr
      exact ha r (hc.reader ▸ hr)
    obtain ⟨r, d, hs⟩ := settle_ok y hy hae
    rw [hs] at h
    cases h

theorem Fails.step (h : c.Fails f d) : (c.step key).1 = .error f := by
  cases h with
  | halted hh => rw [step_halted hh]
  | badFetch hr hpc => rw [step_badFetch hr ((c.machine.readWord_eq_error_iff _).2 ⟨hpc, rfl⟩)]
  | refused w _ t hr hw hf =>
    obtain ⟨i, hd⟩ := Machine.readWord_decodes hw
    have he : (c.advance.execute w).1 = .error f := execute_error_iff.2 hf
    rw [execute_decoded hd] at he
    rw [step_fetch hr hw hd]
    cases hp : (c.advance.announce i).perform i with
    | error g => simpa [hp] using he
    | ok e => simp [hp] at he

/-- Faults have the stated causes and no others. A word that is refused leaves the console as it
was but for the trace; a step that fails has done nothing, or has moved past the word that was
refused. -/
theorem faults_exact_and_atomic (c : Console)
    (hk : 0 ≤ c.machine.keyRegister ∧ c.machine.keyRegister ≤ 0xF) (ha : c.Answered) :
    (∀ w f, (c.execute w).1 = .error f ↔ c.machine.Refuses w f) ∧
    (∀ w f, (c.execute w).1 = .error f → ∃ t, (c.execute w).2 = { c with trace := t }) ∧
    (∀ key f, (c.step key).1 = .error f ↔ ∃ d, c.Fails f d) ∧
    (∀ key f, (c.step key).1 = .error f → c.Fails f (c.step key).2) ∧
    (∀ key f, (c.step key).1 = .error f → (f = .halted ∨ ∃ a, f = .badFetch a) →
      (c.step key).2 = c ∧ ∀ again, ((c.step key).2.step again).1 = .error f) := by
  obtain ⟨x, hx⟩ := exists_register hk
  have fails (key : Option Int) (f : Fault) (h : (c.step key).1 = .error f) :
      c.Fails f (c.step key).2 := step_error x hx ha h
  refine ⟨fun _ _ => execute_error_iff, fun _ _ => execute_error, ?_, fails, ?_⟩
  · intro key f
    exact ⟨fun h => ⟨_, fails key f h⟩, fun ⟨_, h⟩ => h.step⟩
  · intro key f h hf
    have same : (c.step key).2 = c := by
      have hd := fails key f h
      generalize (c.step key).2 = d at hd
      cases hd with
      | halted | badFetch => rfl
      | refused w _ t _ _ hr => cases hr <;> simp at hf
    refine ⟨same, fun again => ?_⟩
    rw [same]
    exact (fails key f h).step

def poked : Console where
  machine := { pc := -3, stack := [7], capacity := 1, delay := 300, keyRegister := 15 }
  reader := some { answer := fun n => some n }
  random := .stream (fun n => n) 0

theorem faults_exact_and_atomic_poked :
    (0 ≤ poked.machine.keyRegister ∧ poked.machine.keyRegister ≤ 0xF) ∧ poked.Answered ∧
      (poked.step none).1 = .error (.badFetch (-3)) ∧
      (poked.execute 0xF007).1 = .error .notByte ∧
      (poked.execute 0x2ABC).1 = .error (.stackOverflow (-5) 1) := by
  have hk : 0 ≤ poked.machine.keyRegister ∧ poked.machine.keyRegister ≤ 0xF := by decide
  have ha : poked.Answered := by
    rintro r ⟨⟩ n
    rfl
  obtain ⟨hw, -, hs, -⟩ := faults_exact_and_atomic poked hk ha
  refine ⟨hk, ha, (hs _ _).2 ⟨_, .badFetch ⟨rfl, rfl⟩ (.inl ?_)⟩, (hw _ _).2 (.timer ?_ ?_ ?_),
    (hw _ _).2 (.full ?_ ?_ ?_)⟩
  all_goals decide

end Console

end Chip8

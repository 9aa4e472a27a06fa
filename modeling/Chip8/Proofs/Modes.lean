import Chip8.Proofs.Bounds
import Chip8.Proofs.Footprint
import Chip8.Proofs.History

/-! The three modes of a console: it executes, waits for a key, or has halted. Only a return from
the top level halts it, for good; only an instruction that awaits a key suspends it, until a step
stores one. -/

namespace Chip8.Console

/-- What holds from power-on between the calls of a driver that executes no words of its own. A
reader never leaves a console suspended. -/
structure Orderly (c : Console) : Prop where
  bounded : c.machine.Bounded
  answered : c.Answered
  suspended : c.machine.waiting = true → c.machine.halted = false ∧ c.reader = none

structure Modal (c : Console) : Prop where
  apart : ¬ (c.machine.halted = true ∧ c.machine.waiting = true)
  answers : ∀ key r d, c.step key = (.ok r, d) →
    (r = .halted ↔ d.machine.halted = true) ∧ (r = .waiting ↔ d.machine.waiting = true) ∧
    (r = .executed ↔ d.machine.halted = false ∧ d.machine.waiting = false)
  halts : ∀ e : Command, e.Internal → c.machine.halted = false →
    (c.apply e).2.machine.halted = true →
    ∃ es key i, c.calls e = es ++ [.step key] ∧ (c.apply e).2 = ((c.after es).step key).2 ∧
      (c.after es).fetch? = some i ∧ i.op = .ret ∧ (c.after es).machine.stack = []
  stays : c.machine.halted = true → ∀ es, (c.after es).machine.halted = true ∧
    ∀ key, (c.after es).step key = (.error .halted, c.after es)
  suspends : ∀ e : Command, e.Internal → c.machine.waiting = false →
    (c.apply e).2.machine.waiting = true →
    ∃ es key i, c.calls e = es ++ [.step key] ∧ (c.apply e).2 = ((c.after es).step key).2 ∧
      (c.after es).fetch? = some i ∧ i.op = .awaitKey
  resumes : ∀ e : Command, e.Internal → c.machine.waiting = true →
    (c.apply e).2.machine.waiting = false →
    ∃ (k : Int) (x : Register), e = .step (some k) ∧ c.machine.keyRegister = x.val ∧
      (c.apply e).2.machine = { c.machine with
        registers := c.machine.registers.set x (UInt8.ofNat (k % 16).toNat), waiting := false }
  keeps : c.machine.waiting = true → c.step none = (.ok .waiting, c) ∧
    ∀ n, c.run n = (.ok true, c)
  runs : ∀ n b d, c.run n = (.ok b, d) → (b = false ↔ d.machine.halted = true)

variable {c d : Console} {i : Instruction} {key : Option Int}

theorem step_halts (hh : c.machine.halted = false)
    (h : (c.step key).2.machine.halted = true) :
    ∃ i, c.fetch? = some i ∧ i.op = .ret ∧ c.machine.stack = [] := by
  have ht := c.turn key
  generalize c.step key = o at ht h
  cases ht with
  | halted | stuck | refused => exact absurd (hh.symm.trans h) nofun
  | suspended =>
    obtain ⟨s, w, r, t, hd⟩ := c.upToKey_resume key
    rw [hd] at h
    exact absurd (hh.symm.trans h) nofun
  | done i d hi hp =>
    obtain ⟨s, w, r, t, hd⟩ := d.upToKey_settle
    rw [hd] at h
    have hne : d.machine.halted ≠ c.machine.halted := by
      rw [hh]
      exact h ▸ nofun
    obtain ⟨hop, hs⟩ := (perform_footprint hp).halted hne
    exact ⟨i, hi, hop, hs⟩

theorem step_suspends (hm : c.machine.mode ≠ .waiting)
    (h : (c.step key).2.machine.mode = .waiting) : ∃ i, c.fetch? = some i ∧ i.op = .awaitKey := by
  have ht := c.turn key
  generalize c.step key = o at ht h
  cases ht with
  | halted | stuck | refused => exact absurd h hm
  | suspended hh hw => exact absurd (Machine.mode_eq_waiting.2 ⟨hh, hw⟩) hm
  | done i d hi hp =>
    obtain ⟨⟨-, hw⟩, -⟩ := fetch?_eq_some_iff.1 hi
    refine ⟨i, hi, (perform_footprint hp).waiting fun he => ?_⟩
    have hd : d.machine.waiting = false := he.trans hw
    rw [settle_awake hd, Machine.mode_eq_waiting] at h
    exact absurd (hd.symm.trans h.2) nofun

/-- A step that has executed an instruction leaves a console suspended only if there is no reader to
ask. -/
theorem settle_suspends (ha : c.Answered) (hb : c.machine.Bounded)
    (hh : c.machine.waiting = true → c.machine.halted = false)
    (h : c.settle.2.machine.waiting = true) : c.settle.2 = c ∧ c.reader = none := by
  by_cases hr : c.reader = none
  · exact ⟨by rw [settle_unread hr], hr⟩
  by_cases hw : c.machine.waiting = true
  · obtain ⟨k, hk⟩ := Option.ne_none_iff_exists'.1 (ha.readKey_ne_none hr)
    obtain ⟨x, hx⟩ := exists_register hb.keyRegister
    rw [settle_read (hh hw) hw hk, storeKey_eq x (c.machine_readKey ▸ hx)] at h
    exact absurd h nofun
  · rw [Bool.not_eq_true] at hw
    rw [settle_awake hw] at h
    exact absurd (hw.symm.trans h) nofun

theorem Orderly.suspended_step (ho : c.Orderly) (h : (c.step key).2.machine.waiting = true) :
    (c.step key).2.machine.halted = false ∧ (c.step key).2.reader = none := by
  have ht := c.turn key
  generalize c.step key = o at ht h
  cases ht with
  | halted | stuck | refused => exact ho.suspended h
  | suspended hh hw =>
    have hr := (ho.suspended hw).2
    cases key with
    | none =>
      rw [← step_waiting hh hw, step_suspended_none hr hh hw]
      exact ⟨hh, hr⟩
    | some k =>
      obtain ⟨x, hx⟩ := exists_register ho.bounded.keyRegister
      rw [resume, storeKey_eq x hx] at h
      cases h
  | done i d hi hp =>
    obtain ⟨⟨hh, hw⟩, -⟩ := fetch?_eq_some_iff.1 hi
    have hc := perform_change hp
    have hf := perform_footprint hp
    have hb : d.machine.Bounded := bounded_change ho.bounded.advance hc
    have ha := answered_invariant.change (c := c.advance.announce i) ho.answered hc
    have hd (hdw : d.machine.waiting = true) : d.machine.halted = false := by
      -- one instruction cannot both await a key and halt the program
      have hop := hf.waiting fun he => Bool.noConfusion (hdw.symm.trans (he.trans hw))
      rw [← Bool.not_eq_true]
      intro hdh
      have hret := (hf.halted fun he => Bool.noConfusion (hdh.symm.trans (he.trans hh))).1
      cases hop.symm.trans hret
    obtain ⟨he, hr⟩ := settle_suspends ha hb hd h
    rw [he] at h ⊢
    exact ⟨hd h, hr⟩

theorem orderly_invariant : InternalInvariant Orderly where
  step key ho := {
    bounded := bounded_invariant.stepInvariant.step ho.bounded key
    answered := answered_invariant.stepInvariant.step ho.answered key
    suspended := ho.suspended_step }
  tick ho := { ho with bounded := ho.bounded.tick }
  press _ ho := { ho with }
  release _ ho := { ho with }
  seen ho := { ho with }

theorem halted_invariant : Invariant fun c => c.machine.halted = true := by
  refine .ofMachine (P := fun m => m.halted = true) (fun _ h => h) ?_ (fun _ _ h => h) fun _ h => h
  intro c d i h hc
  cases hc with
  | skip b => cases b <;> exact h
  | leave => rfl
  | _ => exact h

theorem Orderly.mode_of_waiting (ho : c.Orderly) (h : c.machine.waiting = true) :
    c.machine.mode = .waiting :=
  Machine.mode_eq_waiting.2 ⟨(ho.suspended h).1, h⟩

theorem Orderly.answers (ho : d.Orderly) :
    (d.machine.mode = .halted ↔ d.machine.halted = true) ∧
    (d.machine.mode = .waiting ↔ d.machine.waiting = true) ∧
    (d.machine.mode = .executed ↔ d.machine.halted = false ∧ d.machine.waiting = false) := by
  have hs := ho.suspended
  cases hh : d.machine.halted <;> cases hw : d.machine.waiting <;>
    simp_all [Machine.mode]

theorem Orderly.modal (ho : c.Orderly) : c.Modal where
  apart := by
    rintro ⟨hh, hw⟩
    cases (ho.suspended hw).1.symm.trans hh
  answers key r d h := by
    have hd := orderly_invariant.step key ho
    rw [h] at hd
    rw [step_mode h]
    exact hd.answers
  halts e he hc h := by
    obtain ⟨es, key, hk, hm, hl⟩ := last_call (r := .halted) (by decide) he
      (mt Machine.mode_eq_halted.1 (by simp [hc])) (Machine.mode_eq_halted.2 h)
    have hh : (c.after es).machine.halted = false := by
      rw [← Bool.not_eq_true, ← Machine.mode_eq_halted]
      exact hm
    obtain ⟨i, hi⟩ := step_halts hh (hl ▸ h)
    exact ⟨es, key, i, hk, hl, hi⟩
  stays h es := by
    have hes := halted_invariant.after h es
    exact ⟨hes, fun _ => step_halted hes⟩
  suspends e he hc h := by
    have hd := orderly_invariant.apply ho he
    obtain ⟨es, key, hk, hm, hl⟩ := last_call (r := .waiting) (by decide) he
      (mt Machine.mode_eq_waiting.1 (by simp [hc])) (hd.mode_of_waiting h)
    obtain ⟨i, hi⟩ := step_suspends hm (hl ▸ hd.mode_of_waiting h)
    exact ⟨es, key, i, hk, hl, hi⟩
  resumes e he hw h := by
    obtain ⟨hh, hr⟩ := ho.suspended hw
    cases e with
    | step key =>
      cases key with
      | none =>
        simp only [apply, step_suspended_none hr hh hw] at h
        cases hw.symm.trans h
      | some k =>
        obtain ⟨x, hx⟩ := exists_register ho.bounded.keyRegister
        refine ⟨k, x, rfl, hx, ?_⟩
        simp only [apply, step_suspended hh hw, storeKey_eq x hx]
        rfl
    | execute w => exact absurd rfl (he w)
    | run n =>
      simp only [apply, run_suspended hr hh hw] at h
      cases hw.symm.trans h
    | tick | press | release | seen => cases hw.symm.trans h
  keeps hw := by
    obtain ⟨hh, hr⟩ := ho.suspended hw
    exact ⟨step_suspended_none hr hh hw, run_suspended hr hh hw⟩
  runs n b d h := by
    rw [run_ok h]
    cases d.machine.halted <;> simp

/-- From power-on, a console that is given keys, runs and ticks goes from mode to mode by the rules,
and its answers tell which one it is in. -/
theorem reachable_modal (s : Setup) (hp : s.program.length ≤ 3584) (hc : 1 ≤ s.capacity)
    (ha : ∀ r, s.reader = some r → ∀ n, (r.answer n).isSome = true) :
    ∃ c, boot s = .ok c ∧ ∀ ds : List Command, (∀ w, .execute w ∉ ds) → (c.after ds).Modal := by
  obtain ⟨c, t, hboot, hm, hr⟩ := boot_ok s hp hc
  have ho : c.Orderly := {
    bounded := hm ▸ start_bounded t _
    answered := fun r hs => ha r (hr ▸ hs)
    suspended := by simp [hm] }
  exact ⟨c, hboot, fun ds hd => (orderly_invariant.after ho ds hd).modal⟩

def pausing : Setup where
  program := [0xF3, 0x0A, 0x00, 0xEE]
  random := .stream (fun n => n) 0

theorem reachable_modal_pausing :
    pausing.program.length ≤ 3584 ∧ 1 ≤ pausing.capacity ∧
      (∀ r, pausing.reader = some r → ∀ n, (r.answer n).isSome = true) ∧
      ∃ c, boot pausing = .ok c ∧ (c.after [.step none, .tick, .run 5]).Modal ∧
        (c.after [.step none, .press 4, .step (some 20), .run 5]).Modal := by
  have hp : pausing.program.length ≤ 3584 := by decide
  have hc : 1 ≤ pausing.capacity := by decide
  have ha : ∀ r, pausing.reader = some r → ∀ n, (r.answer n).isSome = true := nofun
  obtain ⟨c, hboot, h⟩ := reachable_modal pausing hp hc ha
  exact ⟨hp, hc, ha, c, hboot, h _ (by simp), h _ (by simp)⟩

end Chip8.Console

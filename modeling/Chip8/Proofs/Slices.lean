import Mathlib.Algebra.Ring.Nat
import Chip8.Proofs.Bounds
import Chip8.Proofs.Frame
import Chip8.Proofs.KeyWait

/-! Runs one after another. A driver may cut a budget into slices as it likes, since the slice after
one that has been stopped by a wait does nothing. -/

namespace Chip8.Console

/-- Runs with the budgets one after another, up to one that fails or that ends with the program
halted. -/
def slices (c : Console) : List Nat → Outcome Console Bool
  | [] => (.ok (!c.machine.halted), c)
  | n :: ns =>
    match c.run n with
    | (.ok true, d) => d.slices ns
    | o => o

variable {c d : Console} {key : Option Int} {r : StepResult}

/-- A reader that always answers leaves no wait behind. -/
theorem resume_waiting (ha : c.Answered) (h : c.resume key = (.ok .waiting, d)) :
    d.reader = none := by
  cases key with
  | some k => exact absurd (storeKey_ok h).1 nofun
  | none =>
    by_cases hr : c.reader = none
    · simp only [resume, readKey, hr] at h
      cases h
      exact hr
    · obtain ⟨k, hk⟩ := Option.ne_none_iff_exists'.1 (ha.readKey_ne_none hr)
      rw [resume_read hk] at h
      exact absurd (storeKey_ok h).1 nofun

theorem settle_waiting (ha : c.Answered) (h : c.settle = (.ok .waiting, d)) :
    d.reader = none := by
  by_cases hr : c.reader = none
  · rw [settle_unread hr] at h
    obtain rfl := (Prod.mk.inj h).2
    exact hr
  by_cases hm : c.machine.mode = .waiting
  · obtain ⟨hh, hw⟩ := Machine.mode_eq_waiting.1 hm
    obtain ⟨k, hk⟩ := Option.ne_none_iff_exists'.1 (ha.readKey_ne_none hr)
    rw [settle_read hh hw hk] at h
    exact absurd (storeKey_ok h).1 nofun
  · have hs := c.settle_cases
    rw [h] at hs
    generalize ho : (Except.ok StepResult.waiting, d) = o at hs
    cases hs with
    | rest => exact absurd (Except.ok.inj (Prod.mk.inj ho).1).symm hm
    | read k => exact absurd (storeKey_ok ho.symm).1 nofun
    | unanswered => cases ho

theorem step_waiting_unread (ha : c.Answered) (h : c.step key = (.ok .waiting, d)) :
    d.reader = none := by
  have ht := c.turn key
  rw [h] at ht
  generalize ho : (Except.ok StepResult.waiting, d) = o at ht
  cases ht with
  | halted | stuck | refused => cases ho
  | suspended => exact resume_waiting ha ho.symm
  | done i e hi hp =>
    have hc := perform_change hp
    refine settle_waiting (c := e) ?_ ho.symm
    exact fun r hr => ha r (hc.reader ▸ hr)

/-- A run goes on where a shorter one has stopped, unless the shorter one has failed or halted. -/
theorem run_add (hh : c.machine.halted = false) (ha : c.Answered) (a b : Nat) :
    c.run (a + b : Nat) = match c.run a with
      | (.ok true, d) => d.run b
      | o => o := by
  induction a generalizing c with
  | zero => rw [Nat.zero_add, Int.natCast_zero, run_zero hh]
  | succ a ih =>
    rw [Nat.add_right_comm]
    cases hs : c.step none with
    | mk r d =>
      rcases r with f | r
      · rw [run_error hs, run_error hs]
      by_cases hr : r = .halted
      · subst hr
        rw [run_halted hs, run_halted hs]
      · have hu : r = .waiting → d.reader = none := by
          rintro rfl
          exact step_waiting_unread ha hs
        have hd := answered_invariant.stepInvariant.step ha none
        rw [hs] at hd
        rw [run_succ hu hs hr, run_succ hu hs hr]
        exact ih (halted_of_step hs hr) hd

theorem slices_eq_run (hh : c.machine.halted = false) (ha : c.Answered) (ns : List Nat) :
    c.slices ns = c.run ns.sum := by
  induction ns generalizing c with
  | nil => rw [slices, List.sum_nil, Int.natCast_zero, run_zero hh, hh, Bool.not_false]
  | cons n ns ih =>
    rw [slices, List.sum_cons, run_add hh ha]
    have hd := answered_invariant.stepInvariant.run ha n
    cases hs : c.run n with
    | mk r d =>
      rw [hs] at hd
      rcases r with f | b
      · rfl
      · cases b with
        | false => rfl
        | true =>
          have hn := run_ok hs
          exact ih (by simpa using hn) hd

/-- Two runs do what one does with their budgets together, as long as the first neither fails nor
finds the program halted; if it does, the one run has done no more. So it does not matter how a
budget is cut into slices. -/
theorem runs_join (c : Console) (hh : c.machine.halted = false) (ha : c.Answered) :
    (∀ a b : Nat,
      (∀ f d, c.run a = (.error f, d) → c.run (a + b : Nat) = (.error f, d)) ∧
      (∀ d, c.run a = (.ok false, d) → c.run (a + b : Nat) = (.ok false, d)) ∧
      ∀ d, c.run a = (.ok true, d) → d.run b = c.run (a + b : Nat)) ∧
    ∀ ns : List Nat, c.slices ns = c.run ns.sum := by
  refine ⟨fun a b => ?_, slices_eq_run hh ha⟩
  rw [run_add hh ha a b]
  refine ⟨fun f d hr => ?_, fun d hr => ?_, fun d hr => ?_⟩
  · rw [hr]
  · rw [hr]
  · rw [hr]

def reading : Console where
  machine := {
    memory := Memory.blank.writeBlock Layout.programStart [0xF3, 0x0A, 0xC4, 0x0F, 0x00, 0xEE] }
  reader := some { answer := fun n => some (n + 21) }
  random := .stream (fun n => n + 100) 0

set_option maxRecDepth 4000 in
/-- The wait of `asking` ends the first of two runs before its budget is used up. -/
theorem runs_join_reading :
    reading.machine.halted = false ∧ reading.Answered ∧
      reading.slices [1, 0, 1, 3] = reading.run 5 ∧ reading.run 5 = reading.run 3 ∧
      (reading.run 5).1 = .ok false ∧ (reading.run 5).2.machine.v 3 = 5 ∧
      (reading.run 5).2.machine.v 4 = 4 ∧
      asking.machine.halted = false ∧ asking.Answered ∧
      asking.slices [2, 7] = asking.run 9 ∧ (asking.run 9).2.machine.pc = 0x202 := by
  have hr : reading.Answered := by
    rintro r ⟨⟩ n
    rfl
  have ha : asking.Answered := nofun
  have hf : reading.run 3 = (.ok false, (reading.run 3).2) := rfl
  obtain ⟨hj, hs⟩ := runs_join reading rfl hr
  obtain ⟨-, hw⟩ := runs_join asking rfl ha
  have h5 : reading.run 5 = reading.run 3 := ((hj 3 2).2.1 _ hf).trans hf.symm
  refine ⟨rfl, hr, hs [1, 0, 1, 3], h5, ?_, ?_, ?_, rfl, ha, hw [2, 7], ?_⟩
  · rw [h5]
    rfl
  · rw [h5]
    rfl
  · rw [h5]
    rfl
  · rfl

end Chip8.Console

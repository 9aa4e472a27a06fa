import Chip8.Proofs.CallStack
import Chip8.Proofs.Lockstep

/-! The overflow of the call stack, and what its capacity has to do with everything else: nothing
before an overflow. -/

namespace Chip8

def Fault.isOverflow : Fault → Bool
  | stackOverflow .. => true
  | _ => false

theorem Registers.store_error {r : Registers} {k v : Int} {f : Fault} (h : r.store k v = .error f) :
    f.isOverflow = false := by
  unfold store at h
  split at h
  · split at h <;> cases h <;> rfl
  · cases h
    rfl

namespace Console

variable {c d : Console} {f : Fault}

theorem storeKey_no_overflow {k : Int} (h : (c.storeKey k).1 = .error f) :
    f.isOverflow = false := by
  unfold storeKey at h
  cases hs : c.machine.registers.store c.machine.keyRegister (Key.ofInt k).val with
  | error g =>
    simp only [hs, Except.error.injEq] at h
    exact h ▸ Registers.store_error hs
  | ok r => simp [hs] at h

theorem resume_no_overflow {key : Option Int} (h : (c.resume key).1 = .error f) :
    f.isOverflow = false := by
  have hc := c.resume_cases key
  generalize c.resume key = o at hc h
  cases hc with
  | given | read => exact storeKey_no_overflow h
  | idle => cases h

theorem settle_no_overflow (h : c.settle.1 = .error f) : f.isOverflow = false := by
  have hc := c.settle_cases
  generalize c.settle = o at hc h
  cases hc with
  | rest => cases h
  | read => exact storeKey_no_overflow h
  | unanswered =>
    cases h
    rfl

theorem perform_overflow {i : Instruction} (h : c.perform i = .error f) (hf : f.isOverflow = true) :
    c.machine.capacity ≤ c.machine.stack.length := by
  rcases perform_eq_error_iff.1 h with ⟨-, hs, -⟩ | ⟨-, -, rfl⟩
  · exact hs
  · cases hf

/-- A step that overflows leaves the stack full, as it was. -/
theorem step_overflow {key : Option Int} (h : (c.step key).1 = .error f)
    (hf : f.isOverflow = true) :
    (c.step key).2.machine.capacity ≤ (c.step key).2.machine.stack.length := by
  have ht := c.turn key
  generalize c.step key = o at ht h
  cases ht with
  | halted =>
    cases h
    cases hf
  | suspended => exact absurd (resume_no_overflow h) (by simp [hf])
  | stuck g _ hr =>
    cases h
    rw [((c.machine.readWord_eq_error_iff _).1 hr).2] at hf
    cases hf
  | refused i g _ hp =>
    cases h
    exact perform_overflow (c := c.advance.announce i) hp hf
  | done => exact absurd (settle_no_overflow h) (by simp [hf])

/-- A run fails by its last step. -/
theorem steps_error {n : Nat} (h : (c.steps n).1 = .error f) :
    ∃ d : Console, (d.step none).1 = .error f ∧ (c.steps n).2 = (d.step none).2 := by
  induction n generalizing c with
  | zero => cases h
  | succ n ih =>
    rw [steps] at h ⊢
    cases hc : c.step none with
    | mk a e =>
    rw [hc] at h
    cases a with
    | error g =>
      cases h
      exact ⟨c, by rw [hc], by rw [hc]⟩
    | ok r =>
      cases r with
      | executed => exact ih h
      | waiting | halted => cases h

theorem execute_overflow {w : Int} (h : (c.execute w).1 = .error f) (hf : f.isOverflow = true) :
    (c.execute w).2.machine.capacity ≤ (c.execute w).2.machine.stack.length := by
  obtain ⟨t, ht⟩ := execute_error h
  rw [ht]
  cases execute_error_iff.1 h with
  | full _ _ hs => exact hs
  | range | timer => cases hf

theorem run_overflow {n : Int} (h : (c.run n).1 = .error f) (hf : f.isOverflow = true) :
    (c.run n).2.machine.capacity ≤ (c.run n).2.machine.stack.length := by
  obtain ⟨d, hd, he⟩ := steps_error (run_eq_error_iff.1 h)
  rw [run_snd, he]
  exact step_overflow hd hf

theorem apply_overflow {e : Command} (h : (c.apply e).1 = .error f) (hf : f.isOverflow = true) :
    (c.apply e).2.machine.capacity ≤ (c.apply e).2.machine.stack.length := by
  have unmap {α : Type} {a : Except Fault α} {g : α → Reply} (h : a.map g = .error f) :
      a = .error f := by
    cases a with
    | error f => exact congrArg _ (Except.error.inj h)
    | ok r => cases h
  cases e with
  | step key => exact step_overflow (unmap h) hf
  | execute w => exact execute_overflow (unmap h) hf
  | run n => exact run_overflow (unmap h) hf
  | tick | press | release | seen => cases h

/-! The capacity of the stack. -/

def withCapacity (c : Console) (n : Nat) : Console :=
  c.withMachine { c.machine with capacity := n }

def Roomier (n : Nat) (m m' : Margin) : Prop := m.capacity ≤ n ∧ m' = { m with capacity := n }

theorem alike_roomier {n : Nat} :
    Alike (Roomier n) c d ↔ c.machine.capacity ≤ n ∧ d = c.withCapacity n := by
  constructor
  · rintro ⟨m, ⟨hn, rfl⟩, rfl⟩
    exact ⟨hn, rfl⟩
  · rintro ⟨hn, rfl⟩
    exact ⟨_, ⟨hn, rfl⟩, rfl⟩

theorem roomier_indistinct (n : Nat) : Indistinct (·.isOverflow = true) (Roomier n) where
  keeps k := by
    rintro m m' ⟨hn, rfl⟩
    cases k <;> exact ⟨hn, rfl⟩
  finds {c m i} hm hE := by
    obtain ⟨hn, rfl⟩ := hm
    refine ⟨fun hop => .inl ?_, fun _ => rfl, fun _ => rfl⟩
    have hl : c.machine.stack.length < c.machine.capacity := by
      refine Nat.lt_of_not_le fun hs => ?_
      exact hE _ (perform_eq_error_iff.2 (.inl ⟨hop, hs, rfl⟩)) rfl
    exact ⟨hl, Nat.lt_of_lt_of_le hl hn⟩

theorem boot_withCapacity {s : Setup} {n : Int} (hs : 1 ≤ s.capacity) (hn : 1 ≤ n) :
    boot { s with capacity := n } = (boot s).map (·.withCapacity n.toNat) := by
  have hs' : ¬ s.capacity < 1 := by omega
  have hn' : ¬ n < 1 := by omega
  simp only [boot, Machine.ofProgram, hs', hn', if_false]
  by_cases hp : Layout.programLimit < s.program.length
  · rw [if_pos hp, if_pos hp]
    rfl
  · rw [if_neg hp, if_neg hp]
    cases s.listening <;> rfl

theorem boot_ok_iff {s : Setup} (hs : 1 ≤ s.capacity) :
    (∃ c, boot s = .ok c) ↔ s.program.length ≤ Layout.programLimit := by
  constructor
  · rintro ⟨c, hc⟩
    refine Nat.le_of_not_lt fun hp => ?_
    rw [boot, Machine.ofProgram, if_pos hp] at hc
    cases hc
  · intro hp
    obtain ⟨c, _, hc, -⟩ := boot_ok s hp hs
    exact ⟨c, hc⟩

/-- Of two consoles that are switched on with the same program, the one with the larger stack does
what the other one does, until that runs out of stack, which is then full. -/
theorem capacity_only_bounds (s : Setup) (hs : 1 ≤ s.capacity) (n : Int) (hn : s.capacity ≤ n) :
    boot { s with capacity := n } = (boot s).map (·.withCapacity n.toNat) ∧
    ((∃ c, boot s = .ok c) ↔ s.program.length ≤ 3584) ∧
    ∀ c, boot s = .ok c → ∀ ds : List Command,
      (∀ f, .error f ∈ c.replies ds → f.isOverflow = false) →
      (c.withCapacity n.toNat).replies ds = c.replies ds ∧
      (c.withCapacity n.toNat).after ds = (c.after ds).withCapacity n.toNat ∧
      ∀ e f, ((c.after ds).apply e).1 = .error f → f.isOverflow = true →
        ((c.after ds).apply e).2.depth = s.capacity := by
  refine ⟨boot_withCapacity hs (Int.le_trans hs hn), boot_ok_iff hs, fun c hc ds hds => ?_⟩
  obtain ⟨c', t, hc', hm, -⟩ := boot_ok s ((boot_ok_iff hs).1 ⟨c, hc⟩) hs
  cases hc.symm.trans hc'
  have hcap : c.machine.capacity = s.capacity.toNat := by rw [hm]
  have hstack : c.machine.stack.length ≤ c.machine.capacity := by rw [hm]; exact Nat.zero_le _
  have hroom : c.machine.capacity ≤ n.toNat := by omega
  have hall := (roomier_indistinct n.toNat).after (alike_roomier.2 ⟨hroom, rfl⟩) ds fun f hf h =>
    absurd (hds f hf) (by simp [h])
  refine ⟨hall.1, (alike_roomier.1 hall.2).2, fun e f he hf => ?_⟩
  have hfull := apply_overflow he hf
  have hbound := stackBound_invariant.apply (stackBound_invariant.after hstack ds) e
  have hkept := (capacity_invariant _).apply ((capacity_invariant _).after hcap ds) e
  rw [depth]
  omega

def recursive : Setup where
  program := [0x22, 0x00]
  capacity := 2
  random := .stream (fun n => n) 0

def recursing : Console where
  machine := {
    memory := (Memory.blank.writeBlock Layout.fontStart Font.bytes).writeBlock Layout.programStart
      [0x22, 0x00]
    capacity := 2 }
  random := .stream (fun n => n) 0

set_option maxRecDepth 4000 in
theorem capacity_only_bounds_recursive :
    1 ≤ recursive.capacity ∧ recursive.capacity ≤ 5 ∧ boot recursive = .ok recursing ∧
      (recursing.withCapacity 5).after [.step none, .run 1] =
        (recursing.after [.step none, .run 1]).withCapacity 5 ∧
      ((recursing.after [.step none, .run 1]).apply (.step none)).1 =
        .error (.stackOverflow 0x200 2) ∧
      ((recursing.after [.step none, .run 1]).apply (.step none)).2.depth = recursive.capacity := by
  have hs : 1 ≤ recursive.capacity := by decide
  have hn : recursive.capacity ≤ 5 := by decide
  have hboot : boot recursive = .ok recursing := rfl
  have hr : recursing.replies [.step none, .run 1] =
      [.ok (.stepped .executed), .ok (.ran true)] := rfl
  have hf : ((recursing.after [.step none, .run 1]).apply (.step none)).1 =
      .error (.stackOverflow 0x200 2) := rfl
  obtain ⟨-, -, h⟩ := capacity_only_bounds recursive hs 5 hn
  obtain ⟨-, ha, hd⟩ := h recursing hboot [.step none, .run 1] (by simp [hr])
  exact ⟨hs, hn, hboot, ha, hf, hd _ _ hf rfl⟩

end Console

end Chip8

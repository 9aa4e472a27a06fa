import Chip8.Proofs.Cycle

/-! Histories taken apart. A run is as many single steps, and what a history executes is a list of
instructions, each with the machine that it finds. -/

namespace Chip8

structure Moment where
  machine : Machine
  instruction : Instruction

namespace Console

def stepCount (c : Console) : Nat → Nat
  | 0 => 0
  | n + 1 =>
    match c.step none with
    | (.ok .executed, d) => d.stepCount n + 1
    | _ => 1

def calls (c : Console) : Command → List Command
  | .run n => .replicate (c.stepCount n.toNat) (.step none)
  | e => [e]

def unrolled (c : Console) : List Command → List Command
  | [] => []
  | e :: es => c.calls e ++ (c.apply e).2.unrolled es

def moment? (c : Console) : Command → Option Moment
  | .step _ => c.fetch?.map fun i => ⟨c.advance.machine, i⟩
  | .execute w => (Instruction.decode w).toOption.map fun i => ⟨c.machine, i⟩
  | _ => none

def moments (c : Console) : List Command → List Moment
  | [] => []
  | e :: es => (c.moment? e).toList ++ (c.apply e).2.moments es

def history (c : Console) (ds : List Command) : List Moment := c.moments (c.unrolled ds)

def movedTo (c : Console) (pc : Int) (t : List Record) : Console :=
  { c with machine := { c.machine with pc := pc }, trace := t }

/-- All that a step, or a word from outside, can do by executing an instruction or none. -/
inductive Executes (c : Console) : Option Moment → Console → Prop
  | nothing {d : Console} : UpToKey c d → Executes c none d
  | refused (pc : Int) (t : List Record) (i : Instruction) (f : Fault) :
      (c.movedTo pc t).perform i = .error f →
      Executes c (some ⟨(c.movedTo pc t).machine, i⟩) (c.movedTo pc t)
  | done {d : Console} (pc : Int) (t : List Record) (i : Instruction) (e : Console) :
      (c.movedTo pc t).perform i = .ok e → UpToKey e d →
      Executes c (some ⟨(c.movedTo pc t).machine, i⟩) d

variable {c : Console} {e : Command}

theorem executes_step (c : Console) (key : Option Int) :
    Executes c (c.moment? (.step key)) (c.step key).2 := by
  have ht := c.turn key
  rw [moment?]
  generalize c.step key = o at ht
  cases ht with
  | halted hh =>
    rw [fetch?_of_not_running fun hr => absurd (hr.1.symm.trans hh) nofun]
    exact .nothing (.refl c)
  | suspended hh hw =>
    rw [fetch?_of_not_running fun hr => absurd (hr.2.symm.trans hw) nofun]
    exact .nothing (c.upToKey_resume key)
  | stuck f hr hf =>
    rw [fetch?_of_badFetch hf]
    exact .nothing (.refl c)
  | refused i f hi hp =>
    rw [hi]
    exact .refused (c.machine.pc + 2) (c.advance.announce i).trace i f hp
  | done i d hi hp =>
    rw [hi]
    exact .done (c.machine.pc + 2) (c.advance.announce i).trace i d hp d.upToKey_settle

theorem executes_execute (c : Console) (w : Int) :
    Executes c (c.moment? (.execute w)) (c.execute w).2 := by
  rw [moment?]
  cases hd : Instruction.decode w with
  | error f =>
    simp only [execute, hd]
    exact .nothing (.refl c)
  | ok i =>
    rw [execute_decoded hd]
    cases hp : (c.announce i).perform i with
    | error f => exact .refused c.machine.pc (c.announce i).trace i f hp
    | ok d => exact .done c.machine.pc (c.announce i).trace i d hp (.refl d)

theorem after_calls_run (c : Console) (n : Nat) :
    c.after (.replicate (c.stepCount n) (.step none)) = (c.steps n).2 := by
  induction n generalizing c with
  | zero => rfl
  | succ n ih =>
    cases hs : c.step none with
    | mk a d =>
      rcases a with f | r
      · simp [stepCount, steps, hs, after, apply]
      · cases r with
        | executed =>
          have := ih d
          simp only [stepCount, steps, hs, List.replicate_succ, after, apply]
          exact this
        | waiting | halted => simp [stepCount, steps, hs, after, apply]

theorem run_snd (c : Console) (n : Int) : (c.run n).2 = (c.steps n.toNat).2 := by
  rw [run]
  split <;> rename_i h <;> rw [h]

theorem after_calls (c : Console) (e : Command) : c.after (c.calls e) = (c.apply e).2 := by
  cases e with
  | run n => exact (c.after_calls_run n.toNat).trans (c.run_snd n).symm
  | _ => rfl

theorem after_unrolled (c : Console) (ds : List Command) :
    c.after (c.unrolled ds) = c.after ds := by
  induction ds generalizing c with
  | nil => rfl
  | cons e es ih => rw [unrolled, after_append, after_calls, ih, after]

/-- A call of an unrolled history is a step of a run, or it has been there before. -/
theorem mem_unrolled {c : Console} {ds : List Command} {e : Command} (h : e ∈ c.unrolled ds) :
    e = .step none ∨ e ∈ ds ∧ ∀ n, e ≠ .run n := by
  induction ds generalizing c with
  | nil => cases h
  | cons a es ih =>
    rw [unrolled, List.mem_append] at h
    rcases h with h | h
    · cases a with
      | run n => exact .inl (List.mem_replicate.1 h).2
      | _ =>
        obtain rfl := List.mem_singleton.1 h
        exact .inr ⟨List.mem_cons_self, nofun⟩
    · exact (ih h).imp_right fun hm => ⟨List.mem_cons_of_mem a hm.1, hm.2⟩

theorem run_not_mem_unrolled (c : Console) (ds : List Command) (n : Int) :
    .run n ∉ c.unrolled ds := by
  intro h
  rcases mem_unrolled h with h | ⟨-, h⟩
  · cases h
  · exact h n rfl

theorem not_mem_unrolled (c : Console) {ds : List Command} {e : Command} (he : e ≠ .step none)
    (h : e ∉ ds) : e ∉ c.unrolled ds :=
  fun hm => (mem_unrolled hm).elim he fun hn => h hn.1

/-- A run that ends in another mode than it has begun with, and not because its budget is used up,
does so by its last step. -/
theorem last_step {r : StepResult} (hr : r ≠ .executed) (n : Nat) (hc : c.machine.mode ≠ r)
    (h : (c.steps n).2.machine.mode = r) :
    ∃ k, c.stepCount n = k + 1 ∧ (c.after (.replicate k (.step none))).machine.mode ≠ r := by
  induction n generalizing c with
  | zero => exact absurd h hc
  | succ n ih =>
    cases hs : c.step none with
    | mk a d =>
      rcases a with f | a
      · exact ⟨0, by simp only [stepCount, hs], hc⟩
      · cases a with
        | executed =>
          have hd : d.machine.mode ≠ r := step_mode hs ▸ hr.symm
          rw [steps, hs] at h
          obtain ⟨k, hk, hm⟩ := ih hd h
          refine ⟨k + 1, by simp only [stepCount, hs, hk], ?_⟩
          rw [List.replicate_succ]
          simp only [after, apply, hs]
          exact hm
        | waiting | halted => exact ⟨0, by simp only [stepCount, hs], hc⟩

/-- Only a step changes the mode to one that stops a run, and it is the last call of its command. -/
theorem last_call {r : StepResult} (hr : r ≠ .executed) (he : e.Internal)
    (hc : c.machine.mode ≠ r) (h : (c.apply e).2.machine.mode = r) :
    ∃ es key, c.calls e = es ++ [.step key] ∧ (c.after es).machine.mode ≠ r ∧
      (c.apply e).2 = ((c.after es).step key).2 := by
  have hlast {es : List Command} {key : Option Int} (hk : c.calls e = es ++ [.step key]) :
      (c.apply e).2 = ((c.after es).step key).2 := by
    rw [← after_calls, hk, after_append]
    rfl
  cases e with
  | step key => exact ⟨[], key, rfl, hc, hlast rfl⟩
  | execute w => exact absurd rfl (he w)
  | run n =>
    rw [apply, run_snd] at h
    obtain ⟨k, hk, hm⟩ := last_step hr _ hc h
    have hcalls : c.calls (.run n) = .replicate k (.step none) ++ [.step none] := by
      rw [calls, hk, List.replicate_succ']
    exact ⟨_, none, hcalls, hm, hlast hcalls⟩
  | tick | press | release | seen => exact absurd h hc

end Console

end Chip8

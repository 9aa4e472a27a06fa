import Chip8.Proofs.Bounds
import Chip8.Proofs.Footprint
import Chip8.Proofs.History

/-! Calls and returns. The stack grows and shrinks at its top only, so a return leads back to the
call that its frame comes from, whatever the program has done in between. -/

namespace Chip8

def Command.Single : Command → Prop
  | .execute _ | .run _ => False
  | _ => True

namespace Console

def depth (c : Console) : Nat := c.machine.stack.length

inductive StackMove (c d : Console) : Prop
  | level : d.machine.stack = c.machine.stack → StackMove c d
  | call (i : Instruction) : c.fetch? = some i → i.op = .call →
      d.machine.stack = (c.machine.pc + 2) :: c.machine.stack → StackMove c d
  | ret (i : Instruction) (a : Int) (rest : List Int) : c.fetch? = some i → i.op = .ret →
      c.machine.stack = a :: rest → d.machine.stack = rest → d.machine.pc = a → StackMove c d

structure Nests (c : Console) : Prop where
  one : ∀ key, (c.step key).2.depth ≤ c.depth + 1 ∧ c.depth ≤ (c.step key).2.depth + 1
  bound : c.depth ≤ c.machine.capacity → ∀ ds, (c.after ds).depth ≤ c.machine.capacity
  bottom : ∀ ds : List Command, (∀ e ∈ ds, e.Single) →
    (∀ n ≤ ds.length, c.depth ≤ (c.after (ds.take n)).depth) →
    c.machine.stack <:+ (c.after ds).machine.stack
  returns : ∀ key i r, c.fetch? = some i → i.op = .call → (c.step key).1 = .ok r →
    ∀ (ds : List Command) (key' : Option Int), (∀ e ∈ ds, e.Single) →
    (∀ n ≤ ds.length, ((c.step key).2.after (ds.take n)).depth ≠ c.depth) →
    (((c.step key).2.after ds).step key').2.depth = c.depth →
    ∃ j, ((c.step key).2.after ds).fetch? = some j ∧ j.op = .ret ∧
      (((c.step key).2.after ds).step key').2.machine.pc = c.machine.pc + 2 ∧
      (((c.step key).2.after ds).step key').2.machine.stack = c.machine.stack
  exit : ∀ key i, c.fetch? = some i → i.op = .ret →
    ((c.step key).2.machine.halted = true ↔ c.depth = 0) ∧
    (c.depth = 0 → ∃ t, c.step key = (.ok .halted, { c with
      machine := { c.machine with pc := c.machine.pc + 2, halted := true }, trace := t }))

variable {c d : Console} {i : Instruction} {key : Option Int} {σ : List Int}

theorem call_pushes (hi : c.fetch? = some i) (hop : i.op = .call)
    (h : ∃ r, (c.step key).1 = .ok r) :
    (c.step key).2.machine.stack = (c.machine.pc + 2) :: c.machine.stack := by
  obtain ⟨r, h⟩ := h
  by_cases hs : c.machine.stack.length < c.machine.capacity
  · have hp : (c.advance.announce i).perform i =
        .ok ((c.advance.announce i).withMachine { c.machine with
          stack := (c.machine.pc + 2) :: c.machine.stack, pc := i.nnn.val }) := by
      simp only [perform, hop, Machine.push_eq]
      rw [if_pos (by exact hs)]
      rfl
    have hw := (fetch?_eq_some_iff.1 hi).1.2
    rw [step_of_perform_awake hi hp hw]
    rfl
  · have hp : (c.advance.announce i).perform i =
        .error (.stackOverflow (c.machine.pc + 2 - 2) c.machine.capacity) :=
      perform_eq_error_iff.2 (.inl ⟨hop, Nat.le_of_not_lt hs, rfl⟩)
    rw [step_of_refused hi hp] at h
    cases h

theorem step_ret {a : Int} {rest : List Int} (key : Option Int) (hi : c.fetch? = some i)
    (hop : i.op = .ret) (hs : c.machine.stack = a :: rest) :
    ∃ t, c.step key = (.ok .executed, { c with
      machine := { c.machine with stack := rest, pc := a }, trace := t }) := by
  obtain ⟨hh, hw⟩ := (fetch?_eq_some_iff.1 hi).1
  have hp : (c.advance.announce i).perform i =
      .ok ((c.advance.announce i).withMachine { c.machine with stack := rest, pc := a }) := by
    simp only [perform, hop, Machine.pop?, announce, advance, note, withMachine, hs]
  have hm : Machine.mode { c.machine with stack := rest, pc := a } = .executed := by
    simp [Machine.mode, hh, hw]
  refine ⟨(c.advance.announce i).trace, ?_⟩
  rw [step_of_perform_awake hi hp hw, ← hm]
  rfl

theorem step_leave (key : Option Int) (hi : c.fetch? = some i) (hop : i.op = .ret)
    (hs : c.machine.stack = []) :
    ∃ t, c.step key = (.ok .halted, { c with
      machine := { c.machine with pc := c.machine.pc + 2, halted := true }, trace := t }) := by
  have hw := (fetch?_eq_some_iff.1 hi).1.2
  have hp : (c.advance.announce i).perform i =
      .ok (((c.advance.announce i).withMachine { c.machine with
        pc := c.machine.pc + 2, halted := true }).note .leaving) := by
    simp only [perform, hop, Machine.pop?, announce, advance, note, withMachine, hs]
  refine ⟨.leaving :: (c.advance.announce i).trace, ?_⟩
  rw [step_of_perform_awake hi hp hw]
  rfl

/-- Only calls and returns reach for the stack, and they do when they succeed. -/
theorem fetch?_of_stack_ne (h : (c.step key).2.machine.stack ≠ c.machine.stack) :
    ∃ i, c.fetch? = some i ∧ (i.op = .ret ∨ i.op = .call ∧ ∃ r, (c.step key).1 = .ok r) := by
  have ht := c.turn key
  generalize c.step key = o at ht h
  cases ht with
  | halted | stuck | refused => exact absurd rfl h
  | suspended =>
    obtain ⟨s, w, r, t, hd⟩ := c.upToKey_resume key
    rw [hd] at h
    exact absurd rfl h
  | done i d hi hp =>
    obtain ⟨s, w, r, t, hd⟩ := d.upToKey_settle
    rw [hd] at h
    have hf := perform_footprint hp
    rcases hf.stack h with hop | hop
    · have hw : d.machine.waiting = false := by
        refine (Decidable.by_contra fun hn => ?_ : d.machine.waiting = c.machine.waiting).trans
          (fetch?_eq_some_iff.1 hi).1.2
        exact absurd (hop.symm.trans (hf.waiting hn)) nofun
      exact ⟨i, hi, .inr ⟨hop, _, by rw [settle_awake hw]⟩⟩
    · exact ⟨i, hi, .inl hop⟩

theorem stackMove_step (c : Console) (key : Option Int) : StackMove c (c.step key).2 := by
  by_cases hne : (c.step key).2.machine.stack = c.machine.stack
  · exact .level hne
  obtain ⟨i, hi, hop | ⟨hop, hok⟩⟩ := fetch?_of_stack_ne hne
  · cases hs : c.machine.stack with
    | nil =>
      obtain ⟨t, ht⟩ := step_leave key hi hop hs
      exact .level (by rw [ht])
    | cons a rest =>
      obtain ⟨t, ht⟩ := step_ret key hi hop hs
      exact .ret i a rest hi hop hs (by rw [ht]) (by rw [ht])
  · exact .call i hi hop (call_pushes hi hop hok)

theorem stackMove_apply (c : Console) {e : Command} (he : e.Single) :
    StackMove c (c.apply e).2 := by
  cases e with
  | step key => exact c.stackMove_step key
  | execute w => exact he.elim
  | run n => exact he.elim
  | tick | press | release | seen => exact .level rfl

theorem StackMove.depth_le (h : StackMove c d) : d.depth ≤ c.depth + 1 ∧ c.depth ≤ d.depth + 1 := by
  unfold depth
  cases h with
  | level hs =>
    rw [hs]
    omega
  | call i _ _ hs =>
    rw [hs, List.length_cons]
    omega
  | ret i a rest _ _ hc hd =>
    rw [hc, hd, List.length_cons]
    omega

/-- The lower part of a stack goes only when the depth drops to one below its length. -/
theorem StackMove.suffix (h : StackMove c d) (hσ : σ <:+ c.machine.stack)
    (hd : d.depth + 1 ≠ σ.length) : σ <:+ d.machine.stack := by
  cases h with
  | level hs => exact hs ▸ hσ
  | call i _ _ hs => exact hs ▸ hσ.trans (List.suffix_cons _ _)
  | ret i a rest _ _ hc hr =>
    rw [hc, List.suffix_cons_iff] at hσ
    rcases hσ with rfl | hσ
    · rw [depth, hr] at hd
      exact absurd rfl hd
    · exact hr ▸ hσ

theorem suffix_after (hσ : σ <:+ c.machine.stack) (ds : List Command) (hds : ∀ e ∈ ds, e.Single)
    (hd : ∀ n ≤ ds.length, (c.after (ds.take n)).depth + 1 ≠ σ.length) :
    σ <:+ (c.after ds).machine.stack := by
  induction ds generalizing c with
  | nil => exact hσ
  | cons e es ih =>
    have he : (c.apply e).2.depth + 1 ≠ σ.length := hd 1 (Nat.le_add_left 1 _)
    have hm := c.stackMove_apply (hds e List.mem_cons_self)
    refine ih (hm.suffix hσ he) (fun f hf => hds f (List.mem_cons_of_mem e hf)) fun n hn => ?_
    exact hd (n + 1) (Nat.succ_le_succ hn)

/-- A step that takes the last cell off the lower part of the stack returns to the address in it. -/
theorem StackMove.returns {a : Int} {rest : List Int} (h : StackMove c d)
    (hσ : a :: rest <:+ c.machine.stack) (hd : d.depth = rest.length) :
    ∃ i, c.fetch? = some i ∧ i.op = .ret ∧ d.machine.pc = a ∧ d.machine.stack = rest := by
  have hl := hσ.length_le
  rw [List.length_cons] at hl
  unfold depth at hd
  cases h with
  | level hs =>
    rw [hs] at hd
    omega
  | call i _ _ hs =>
    rw [hs, List.length_cons] at hd
    omega
  | ret i b tail hi hop hc hr hpc =>
    rw [hr] at hd
    rw [hc] at hσ
    -- the two stacks have the same length
    have he : a :: rest = b :: tail := hσ.eq_of_length (by simp [hd])
    obtain ⟨rfl, rfl⟩ := List.cons.inj he
    exact ⟨i, hi, hop, hpc, hr⟩

theorem stackBound_invariant :
    Invariant fun c => c.machine.stack.length ≤ c.machine.capacity := by
  refine .ofMachine (P := fun m => m.stack.length ≤ m.capacity) (fun _ h => h) ?_ (fun _ _ h => h)
    fun _ h => h
  intro c d i h hc
  cases hc with
  | skip b => cases b <;> exact h
  | ret a rest _ hs =>
    rw [hs] at h
    exact Nat.le_of_succ_le h
  | call a _ hl => exact hl
  | _ => exact h

/-- Calls and returns nest, whatever the program and whatever is on the stack at first. -/
theorem calls_nest (c : Console) : c.Nests where
  one key := (c.stackMove_step key).depth_le
  bound h ds := by
    have hb := stackBound_invariant.after h ds
    rw [(capacity_invariant _).after rfl ds] at hb
    exact hb
  bottom ds hds hd := by
    refine suffix_after List.suffix_rfl ds hds fun n hn => ?_
    have := hd n hn
    unfold depth at this ⊢
    omega
  returns key i r hi hop hr ds key' hds hd hlast := by
    have hs := call_pushes hi hop ⟨r, hr⟩
    have hσ : (c.machine.pc + 2) :: c.machine.stack <:+ (c.step key).2.machine.stack :=
      hs ▸ List.suffix_rfl
    have hσ' := suffix_after hσ ds hds fun n hn h => hd n hn (Nat.succ.inj h)
    exact (stackMove_step _ key').returns hσ' hlast
  exit key i hi hop := by
    have hz : c.depth = 0 ↔ c.machine.stack = [] := List.length_eq_zero_iff
    rw [hz]
    refine ⟨?_, step_leave key hi hop⟩
    cases hs : c.machine.stack with
    | nil =>
      obtain ⟨t, ht⟩ := step_leave key hi hop hs
      simp [ht]
    | cons a rest =>
      obtain ⟨t, ht⟩ := step_ret key hi hop hs
      simp [ht, (fetch?_eq_some_iff.1 hi).1.1]

def nested : Console where
  machine := {
    memory := Memory.blank.writeBlock 0
      [0x20, 0x06, 0x6A, 0x01, 0x00, 0xEE,
       0x20, 0x0C, 0x6B, 0x02, 0x00, 0xEE,
       0x6C, 0x03, 0x00, 0xEE]
    pc := 0 }
  random := .stream (fun n => n) 0

def inner : List Command :=
  [.step none, .tick, .step none, .press 3, .step none, .step none]

theorem calls_nest_twice :
    nested.fetch? = some (.ofWord 0x2006) ∧ (nested.step none).1 = .ok .executed ∧
      (∀ e ∈ inner, e.Single) ∧
      (∀ n ≤ inner.length, ((nested.step none).2.after (inner.take n)).depth ≠ nested.depth) ∧
      (((nested.step none).2.after inner).step none).2.machine.pc = 2 := by
  have hi : nested.fetch? = some (.ofWord 0x2006) := by decide +kernel
  have hr : (nested.step none).1 = .ok .executed := rfl
  have hs : ∀ e ∈ inner, e.Single := by simp [inner, Command.Single]
  have hd : ∀ n ≤ inner.length,
      ((nested.step none).2.after (inner.take n)).depth ≠ nested.depth := by decide +kernel
  have hl : (((nested.step none).2.after inner).step none).2.depth = nested.depth := by
    decide +kernel
  obtain ⟨j, -, -, hpc, -⟩ := (calls_nest nested).returns none _ _ hi rfl hr inner none hs hd hl
  exact ⟨hi, hr, hs, hd, hpc⟩

end Console

end Chip8

import Chip8.Proofs.Cycle

/-! Two ways to give a program its keys: a reader that is asked in the middle of a step, and a driver
that answers a suspended console by one more step. They lead to the same. -/

namespace Chip8

def KeyReader.endless (keys : Nat → Int) (taken : Nat) : KeyReader where
  answer n := some (keys n)
  taken := taken

def Record.isAwaiting : Record → Bool
  | awaiting _ => true
  | _ => false

def Command.key? : Command → Option Int
  | step key => key
  | _ => none

def isWaiting : Except Fault Reply → Bool
  | .ok (.stepped .waiting) => true
  | _ => false

namespace Console

def waits (c : Console) : Nat := c.trace.countP Record.isAwaiting

/-- The calls of a driver that lets a console execute `n` instructions and answers each wait with
the next of `keys`, of which `used` have been used before. -/
def attend (keys : Nat → Int) (used : Nat) (c : Console) : Nat → List Command
  | 0 => []
  | n + 1 =>
    match c.step none with
    | (.ok .waiting, d) =>
      .step none :: .step (some (keys used)) ::
        attend keys (used + 1) (d.step (some (keys used))).2 n
    | (_, d) => .step none :: attend keys used d n

variable {c d : Console} {i : Instruction} (keys : Nat → Int) (used : Nat)

theorem storeKey_withReader (c : Console) (r : Option KeyReader) (k : Int) :
    (c.withReader r).storeKey k = ((c.storeKey k).1, (c.storeKey k).2.withReader r) := by
  simp only [storeKey, withReader]
  cases c.machine.registers.store c.machine.keyRegister (Key.ofInt k).val <;> rfl

theorem readKey_endless : (c.withReader (some (.endless keys used))).readKey =
    (some (keys used), c.withReader (some (.endless keys (used + 1)))) := rfl

theorem settle_endless :
    (c.withReader (some (.endless keys used))).settle =
      match c.machine.mode with
      | .waiting =>
        ((c.step (some (keys used))).1,
          (c.step (some (keys used))).2.withReader (some (.endless keys (used + 1))))
      | r => (.ok r, c.withReader (some (.endless keys used))) := by
  have hm : (c.withReader (some (.endless keys used))).machine = c.machine := rfl
  rw [settle, Machine.mode, hm]
  cases hh : c.machine.halted with
  | true => rfl
  | false =>
    cases hw : c.machine.waiting with
    | false => rfl
    | true =>
      simp only [step_suspended hh hw, readKey_endless, storeKey_withReader]
      rfl

/-- A step with a reader is a step without one, and a second one if that has been suspended. -/
theorem step_endless (hr : c.reader = none) :
    (c.withReader (some (.endless keys used))).step none =
      match c.step none with
      | (.ok .waiting, d) =>
        ((d.step (some (keys used))).1,
          (d.step (some (keys used))).2.withReader (some (.endless keys (used + 1))))
      | (r, d) => (r, d.withReader (some (.endless keys used))) := by
  let b := c.withReader (some (.endless keys used))
  by_cases hh : c.machine.halted = true
  · rw [step_halted hh, step_halted (c := b) hh]
  rw [Bool.not_eq_true] at hh
  by_cases hw : c.machine.waiting = true
  · rw [step_waiting (c := b) hh hw, step_suspended_none hr hh hw]
    simp only [step_suspended hh hw, resume, b, readKey_endless, storeKey_withReader]
  rw [Bool.not_eq_true] at hw
  cases hf : c.machine.readWord c.machine.pc with
  | error f => rw [step_badFetch ⟨hh, hw⟩ hf, step_badFetch (c := b) ⟨hh, hw⟩ hf]
  | ok w =>
    obtain ⟨i, hd⟩ := Machine.readWord_decodes hf
    have hb : b.advance.announce i =
      (c.advance.announce i).withReader (some (.endless keys used)) := rfl
    rw [step_fetch ⟨hh, hw⟩ hf hd, step_fetch (c := b) ⟨hh, hw⟩ hf hd, hb, perform_withReader]
    cases hp : (c.advance.announce i).perform i with
    | error f => rfl
    | ok e =>
      have hre : e.reader = none := (perform_change hp).reader.trans hr
      simp only [Except.map, settle_unread hre, settle_endless]
      cases e.machine.mode <;> rfl

theorem attend_waiting (h : c.step none = (.ok .waiting, d)) (n : Nat) :
    attend keys used c (n + 1) = .step none :: .step (some (keys used)) ::
      attend keys (used + 1) (d.step (some (keys used))).2 n := by
  rw [attend, h]

theorem attend_other {r : Except Fault StepResult} (h : c.step none = (r, d))
    (hr : r ≠ .ok .waiting) (n : Nat) :
    attend keys used c (n + 1) = .step none :: attend keys used d n := by
  rw [attend, h]
  split
  · simp_all
  · simp_all

theorem step_endless_waiting (hr : c.reader = none) (h : c.step none = (.ok .waiting, d)) :
    (c.withReader (some (.endless keys used))).step none =
      ((d.step (some (keys used))).1,
        (d.step (some (keys used))).2.withReader (some (.endless keys (used + 1)))) := by
  rw [step_endless keys used hr, h]

theorem step_endless_other {r : Except Fault StepResult} (hr : c.reader = none)
    (h : c.step none = (r, d)) (hw : r ≠ .ok .waiting) :
    (c.withReader (some (.endless keys used))).step none =
      (r, d.withReader (some (.endless keys used))) := by
  rw [step_endless keys used hr, h]
  split
  · simp_all
  · simp_all

theorem change_waits (h : Change c i d) (hc : c.machine.waiting = false) :
    (d.machine.waiting = true ∧ d.machine.halted = c.machine.halted ∧
      d.machine.keyRegister = i.x.val ∧ d.waits = c.waits + 1) ∨
    (d.machine.waiting = false ∧ d.waits = c.waits) := by
  cases h with
  | await => exact .inl ⟨rfl, rfl, rfl, List.countP_cons_of_pos rfl⟩
  | skip b => cases b <;> exact .inr ⟨hc, rfl⟩
  | leave | ignore => exact .inr ⟨hc, List.countP_cons_of_neg (by simp [Record.isAwaiting])⟩
  | _ => exact .inr ⟨hc, rfl⟩

theorem waits_announce (c : Console) (i : Instruction) : (c.advance.announce i).waits = c.waits :=
  List.countP_cons_of_neg (by simp [Record.isAwaiting])

/-- A step is suspended exactly if it has made the program ask for a key. -/
theorem step_waits (hr : c.reader = none) (hw : c.machine.waiting = false) :
    ((c.step none).1 = .ok .waiting ∧ (c.step none).2.machine.halted = false ∧
      (c.step none).2.machine.waiting = true ∧ (c.step none).2.waits = c.waits + 1 ∧
      ∃ x : Register, (c.step none).2.machine.keyRegister = x.val) ∨
    ((c.step none).1 ≠ .ok .waiting ∧ (c.step none).2.machine.waiting = false ∧
      (c.step none).2.waits = c.waits) := by
  have h := step_fetches hr hw none
  generalize (c.step none).1 = r, (c.step none).2 = d at h
  cases h with
  | stuck => exact .inr ⟨by simp, hw, rfl⟩
  | refused i => exact .inr ⟨by simp, hw, waits_announce c i⟩
  | done i _ hrun hc =>
    rcases change_waits hc hw with ⟨hdw, hdh, hx, hn⟩ | ⟨hdw, hn⟩
    · have hh : d.machine.halted = false := hdh.trans hrun.1
      have hm := Machine.mode_eq_waiting.2 ⟨hh, hdw⟩
      exact .inl ⟨by rw [hm], hh, hdw, hn.trans (by rw [waits_announce]), i.x, hx⟩
    · have hm : d.machine.mode ≠ .waiting := by simp [Machine.mode_eq_waiting, hdw]
      exact .inr ⟨by simpa using hm, hdw, hn.trans (waits_announce c i)⟩

theorem step_key_waits (hh : c.machine.halted = false) (hw : c.machine.waiting = true)
    (x : Register) (hx : c.machine.keyRegister = x.val) (k : Int) :
    (c.step (some k)).1 = .ok .executed ∧ (c.step (some k)).2.machine.waiting = false ∧
      (c.step (some k)).2.waits = c.waits := by
  obtain ⟨d, hd⟩ := storeKey_register (k := k) x hx
  rw [step_suspended hh hw, hd]
  obtain ⟨-, s, rfl⟩ := storeKey_ok hd
  exact ⟨rfl, rfl, List.countP_cons_of_neg (by simp [Record.isAwaiting])⟩

structure Serves (keys : Nat → Int) (used : Nat) (c : Console) (n u : Nat) : Prop where
  state : (c.withReader (some (.endless keys used))).after (.replicate n (.step none)) =
    (c.after (attend keys used c n)).withReader (some (.endless keys (used + u)))
  replies : (c.withReader (some (.endless keys used))).replies (.replicate n (.step none)) =
    (c.replies (attend keys used c n)).filter (!isWaiting ·)
  answers : (attend keys used c n).filterMap Command.key? = (List.range' used u).map keys
  length : (attend keys used c n).length = n + u
  waits : (c.after (attend keys used c n)).waits = c.waits + u

theorem Serves.wait {n u : Nat} (hr : c.reader = none) (hs : c.step none = (.ok .waiting, d))
    (hk : (d.step (some (keys used))).1 = .ok .executed)
    (hn : (d.step (some (keys used))).2.waits = c.waits + 1)
    (h : Serves keys (used + 1) (d.step (some (keys used))).2 n u) :
    Serves keys used c (n + 1) (u + 1) := by
  have hb := step_endless_waiting keys used hr hs
  have ha := attend_waiting keys used hs n
  refine ⟨?_, ?_, ?_, ?_, ?_⟩
  · rw [ha, List.replicate_succ]
    simp only [after, apply, hb, hs]
    rw [h.state, Nat.add_right_comm, Nat.add_assoc]
  · rw [ha, List.replicate_succ]
    simp only [Console.replies, apply, hb, hs]
    rw [h.replies, hk]
    rfl
  · rw [ha, List.range'_succ, List.map_cons, ← h.answers]
    rfl
  · rw [ha]
    simp only [List.length_cons, h.length]
    omega
  · rw [ha]
    simp only [after, apply, hs]
    rw [h.waits, hn]
    omega

theorem Serves.other {n u : Nat} {r : Except Fault StepResult} (hr : c.reader = none)
    (hs : c.step none = (r, d)) (hne : r ≠ .ok .waiting) (hn : d.waits = c.waits)
    (h : Serves keys used d n u) : Serves keys used c (n + 1) u := by
  have hb := step_endless_other keys used hr hs hne
  have ha := attend_other keys used hs hne n
  have hi : isWaiting (r.map Reply.stepped) = false := by
    cases r with
    | error f => rfl
    | ok r => cases r <;> first | rfl | exact absurd rfl hne
  refine ⟨?_, ?_, ?_, ?_, ?_⟩
  · rw [ha, List.replicate_succ]
    simp only [after, apply, hb, hs]
    exact h.state
  · rw [ha, List.replicate_succ]
    simp only [Console.replies, apply, hb, hs]
    rw [h.replies, List.filter_cons_of_pos (by simp [hi])]
  · rw [ha]
    exact h.answers
  · rw [ha]
    simp only [List.length_cons, h.length]
    omega
  · rw [ha]
    simp only [after, apply, hs]
    rw [h.waits, hn]

theorem serves (hr : c.reader = none) (hw : c.machine.waiting = false) (n : Nat) :
    ∃ u, Serves keys used c n u := by
  -- once its wait has been answered, the console is not suspended any more, as at the start
  induction n generalizing c used with
  | zero => exact ⟨0, rfl, rfl, rfl, rfl, rfl⟩
  | succ n ih =>
    have hd := unread_stepInvariant.step hr none
    have hcases := step_waits hr hw
    cases hs : c.step none with
    | mk r d =>
    rw [hs] at hd hcases
    dsimp only at hd hcases
    rcases hcases with ⟨rfl, hh, hdw, hn, x, hx⟩ | ⟨hne, hdw, hn⟩
    · obtain ⟨hk, hew, hen⟩ := step_key_waits hh hdw x hx (keys used)
      have he := unread_stepInvariant.step hd (some (keys used))
      obtain ⟨u, hu⟩ := ih (used + 1) he hew
      exact ⟨u + 1, hu.wait keys used hr hs hk (hen.trans hn)⟩
    · obtain ⟨u, hu⟩ := ih used hd hdw
      exact ⟨u, hu.other keys used hr hs hne hn⟩

/-- A console that reads its keys in the middle of its steps and one that is suspended for each of
them do the same, whatever the keys. -/
theorem blocking_eq_attended (c : Console) (hr : c.reader = none)
    (hw : c.machine.waiting = false) (keys : Nat → Int) (n : Nat) :
    ∃ used : Nat,
      (c.withReader (some (.endless keys 0))).after (.replicate n (.step none)) =
        (c.after (attend keys 0 c n)).withReader (some (.endless keys used)) ∧
      (attend keys 0 c n).filterMap Command.key? = (List.range used).map keys ∧
      (attend keys 0 c n).length = n + used ∧
      (c.after (attend keys 0 c n)).waits = c.waits + used ∧
      (c.withReader (some (.endless keys 0))).replies (.replicate n (.step none)) =
        (c.replies (attend keys 0 c n)).filter (!isWaiting ·) ∧
      .ok (.stepped .waiting) ∉
        (c.withReader (some (.endless keys 0))).replies (.replicate n (.step none)) := by
  obtain ⟨used, h⟩ := serves keys 0 hr hw n
  have ha := h.answers
  rw [← List.range_eq_range'] at ha
  refine ⟨used, ?_, ha, h.length, h.waits, h.replies, ?_⟩
  · rw [h.state, Nat.zero_add]
  · rw [h.replies]
    intro hm
    have := (List.mem_filter.1 hm).2
    simp [isWaiting] at this

def asking : Console where
  machine := { memory := Memory.blank.writeBlock Layout.programStart [0xF3, 0x0A, 0xF1, 0x0A] }
  random := .stream (fun n => n) 0

theorem blocking_eq_attended_asking :
    asking.reader = none ∧ asking.machine.waiting = false ∧
      ∃ used : Nat,
        (asking.withReader (some (.endless (fun n => 5 * n) 0))).after (.replicate 4 (.step none)) =
          (asking.after (attend (fun n => 5 * n) 0 asking 4)).withReader
            (some (.endless (fun n => 5 * n) used)) ∧
        (attend (fun n => 5 * n) 0 asking 4).length = 4 + used := by
  obtain ⟨used, hs, -, hl, -⟩ := blocking_eq_attended asking rfl rfl (fun n => 5 * n) 4
  exact ⟨rfl, rfl, used, hs, hl⟩

end Console

end Chip8

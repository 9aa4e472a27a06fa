import Chip8.Proofs.History
import Chip8.Proofs.Margin

/-! What comes from outside commutes with the steps that do not look at it: a tick of the timers
with any but three instructions, a key with any step that does not ask for it. So it does not matter
where in between the timers are ticked. -/

namespace Chip8

def Mark.Commutes (j k : Mark) : Prop := ∀ m : Margin, (m.put k).put j = (m.put j).put k

def Instruction.Timed (i : Instruction) : Prop :=
  i.op = .readDelay ∨ i.op = .setDelay ∨ i.op = .setSound
deriving Decidable

namespace Console

def mark (c : Console) (k : Mark) : Console := c.withMargin (c.margin.put k)

def TimedNext (c : Console) : Prop := ∃ i, c.fetch? = some i ∧ i.Timed

instance (c : Console) : Decidable c.TimedNext :=
  inferInstanceAs (Decidable (∃ i, i ∈ c.fetch? ∧ i.Timed))

def AsksNext (c : Console) (k : Int) : Prop :=
  ∃ i, c.fetch? = some i ∧ (i.op = .skipDown ∨ i.op = .skipUp) ∧ (c.machine.v i.x).toNat % 16 = k

instance (c : Console) (k : Int) : Decidable (c.AsksNext k) :=
  inferInstanceAs (Decidable (∃ i, i ∈ c.fetch? ∧
    (i.op = .skipDown ∨ i.op = .skipUp) ∧ (c.machine.v i.x).toNat % 16 = k))

variable {c : Console} {k : Mark} {key : Option Int}

/-- A mark commutes with a step that does not find it and makes only marks it commutes with. -/
theorem step_mark (hn : ∀ r, (Mark.note r).Commutes k)
    (hi : ∀ i, c.fetch? = some i →
      c.Finds i (c.margin.put k) ∧ ∀ j : Mark, j.By i → j.Commutes k) :
    (c.mark k).step key = ((c.step key).1, (c.step key).2.mark k) := by
  have keeps {j : Mark} (h : j.Commutes k) : j.Keeps fun m n => n = m.put k := by
    rintro m n rfl
    exact h m
  obtain ⟨hr, m, rfl, he⟩ := step_together (M := fun m n => n = m.put k) (fun r => keeps (hn r)) rfl
    (fun i h => ⟨(hi i h).1, fun j hj => keeps ((hi i h).2 j hj)⟩) key
  exact Prod.ext hr he

theorem tick_step (h : ¬ c.TimedNext) :
    c.tick.step key = ((c.step key).1, (c.step key).2.tick) := by
  refine step_mark (k := .tick) (fun _ _ => rfl) fun i hi => ⟨⟨fun _ => .inr rfl, ?_, fun _ => rfl⟩, ?_⟩
  · exact fun hop => absurd ⟨i, hi, .inl hop⟩ h
  · intro j hj
    cases j with
    | delay t => exact absurd ⟨i, hi, .inr (.inl hj)⟩ h
    | sound t => exact absurd ⟨i, hi, .inr (.inr hj)⟩ h
    | note | present | tick | press | release | seen => exact fun _ => rfl

theorem step_put {j : Mark} {k : Int} {down : Bool}
    (hj : ∀ m : Margin, m.put j = { m with keypad := m.keypad.put k down }) (h : ¬ c.AsksNext k) :
    (c.mark j).step key = ((c.step key).1, (c.step key).2.mark j) := by
  have hc {i : Instruction} {l : Mark} (hl : l.By i) : l.Commutes j := by
    intro m
    rw [hj, hj]
    cases l <;> first | rfl | exact hl.elim
  refine step_mark (fun _ m => by rw [hj, hj]; rfl) fun i hi => ⟨?_, fun l => hc⟩
  rw [hj]
  refine ⟨fun _ => .inr rfl, fun _ => rfl, fun hop => ?_⟩
  rw [Keypad.isDown_put, if_neg]
  · rfl
  · rw [Key.ofInt_val]
    exact fun hk => h ⟨i, hi, hop, hk.symm⟩

theorem key_step {k : Int} (h : ¬ c.AsksNext k) :
    (c.press k).step key = ((c.step key).1, (c.step key).2.press k) ∧
      (c.release k).step key = ((c.step key).1, (c.step key).2.release k) :=
  ⟨step_put (j := .press k) (fun _ => rfl) h, step_put (j := .release k) (fun _ => rfl) h⟩

/-! Interleavings of steps with ticks. -/

/-- The history makes these steps in their order, and so many ticks somewhere in between. -/
inductive Interleaving : List (Option Int) → Nat → List Command → Prop
  | nil : Interleaving [] 0 []
  | step {keys : List (Option Int)} {m : Nat} {ds : List Command} (key : Option Int) :
      Interleaving keys m ds → Interleaving (key :: keys) m (.step key :: ds)
  | tick {keys : List (Option Int)} {m : Nat} {ds : List Command} :
      Interleaving keys m ds → Interleaving keys (m + 1) (.tick :: ds)

def results (c : Console) : List Command → List (Except Fault StepResult)
  | [] => []
  | .step key :: ds => (c.step key).1 :: (c.step key).2.results ds
  | d :: ds => (c.apply d).2.results ds

def Untimed (c : Console) (ds : List Command) : Prop := ∀ x ∈ c.moments ds, ¬ x.instruction.Timed

instance (c : Console) (ds : List Command) : Decidable (c.Untimed ds) :=
  inferInstanceAs (Decidable (∀ x ∈ c.moments ds, ¬ x.instruction.Timed))

variable {keys : List (Option Int)} {m : Nat} {ds : List Command}

theorem untimed_step : c.Untimed (.step key :: ds) ↔ ¬ c.TimedNext ∧ (c.step key).2.Untimed ds := by
  have hnext : (∀ x ∈ (c.moment? (.step key)).toList, ¬ x.instruction.Timed) ↔ ¬ c.TimedNext := by
    simp only [moment?, TimedNext]
    cases c.fetch? <;> simp
  rw [Untimed, moments, List.forall_mem_append, hnext]
  rfl

theorem tick_steps (h : c.Untimed (keys.map .step)) :
    c.tick.after (keys.map .step) = (c.after (keys.map .step)).tick ∧
      c.tick.results (keys.map .step) = c.results (keys.map .step) := by
  induction keys generalizing c with
  | nil => exact ⟨rfl, rfl⟩
  | cons key keys ih =>
    obtain ⟨hn, hu⟩ := untimed_step.1 h
    obtain ⟨ha, hr⟩ := ih hu
    simp only [List.map_cons, after, apply, results, tick_step hn]
    exact ⟨ha, by rw [hr]⟩

/-- A tick changes nothing about what steps fetch, as long as that is no timer instruction. -/
theorem untimed_tick_steps : c.tick.Untimed (keys.map .step) ↔ c.Untimed (keys.map .step) := by
  induction keys generalizing c with
  | nil => exact Iff.rfl
  | cons key keys ih =>
    have hf : c.tick.TimedNext ↔ c.TimedNext := Iff.rfl
    simp only [List.map_cons, untimed_step, hf]
    refine and_congr_right fun hn => ?_
    rw [tick_step hn]
    exact ih

theorem Interleaving.untimed_iff (h : Interleaving keys m ds) :
    c.Untimed ds ↔ c.Untimed (keys.map .step) := by
  induction h generalizing c with
  | nil => exact Iff.rfl
  | step key _ ih => rw [List.map_cons, untimed_step, untimed_step, ih]
  | tick _ ih => exact ih.trans untimed_tick_steps

/-- The ticks might as well all come at the end. -/
theorem Interleaving.ticks_last (h : Interleaving keys m ds) (hu : c.Untimed (keys.map .step)) :
    c.after ds = c.after (keys.map .step ++ .replicate m .tick) ∧
      c.results ds = c.results (keys.map .step) := by
  simp only [after_append]
  induction h generalizing c with
  | nil => exact ⟨rfl, rfl⟩
  | step key _ ih =>
    obtain ⟨ha, hr⟩ := ih (untimed_step.1 hu).2
    exact ⟨ha, by simp only [List.map_cons, results, hr]⟩
  | tick _ ih =>
    obtain ⟨ha, hr⟩ := ih (untimed_tick_steps.2 hu)
    obtain ⟨ha', hr'⟩ := tick_steps hu
    refine ⟨?_, hr.trans hr'⟩
    rw [after, apply, ha, ha']
    rfl

/-- A tick can come before or after a step with any but the three timer instructions, and a key with
any step that does not ask for it. Hence all interleavings of the same steps with as many ticks
are one and the same, unless a timer instruction is among what they execute. -/
theorem ticks_and_keys_commute (c : Console) (key : Option Int) :
    (¬ c.TimedNext → c.tick.step key = ((c.step key).1, (c.step key).2.tick)) ∧
    (∀ k, ¬ c.AsksNext k →
      (c.press k).step key = ((c.step key).1, (c.step key).2.press k) ∧
      (c.release k).step key = ((c.step key).1, (c.step key).2.release k)) ∧
    ∀ (keys : List (Option Int)) (m : Nat) (ds es : List Command),
      Interleaving keys m ds → Interleaving keys m es → c.Untimed ds →
        c.Untimed es ∧ c.after es = c.after ds ∧ c.results es = c.results ds := by
  refine ⟨tick_step, fun k => key_step, fun keys m ds es hd he hu => ?_⟩
  have hs := hd.untimed_iff.1 hu
  obtain ⟨hda, hdr⟩ := hd.ticks_last hs
  obtain ⟨hea, her⟩ := he.ticks_last hs
  exact ⟨he.untimed_iff.2 hs, hea.trans hda.symm, her.trans hdr.symm⟩

def counting : Console where
  machine := {
    memory := Memory.blank.writeBlock Layout.programStart [0x6A, 0x05, 0x7A, 0x01, 0xEA, 0x9E]
    delay := 1
    sound := 2 }
  random := .stream (fun n => n) 0

set_option maxRecDepth 4000 in
theorem ticks_and_keys_commute_counting :
    ¬ counting.TimedNext ∧ ¬ counting.AsksNext 6 ∧
      counting.tick.step none = ((counting.step none).1, (counting.step none).2.tick) ∧
      (counting.press 6).step none = ((counting.step none).1, (counting.step none).2.press 6) ∧
      counting.Untimed [.step none, .tick, .step (some 4), .tick, .step none] ∧
      counting.after [.tick, .tick, .step none, .step (some 4), .step none] =
        counting.after [.step none, .tick, .step (some 4), .tick, .step none] := by
  have ht : ¬ counting.TimedNext := by decide +kernel
  have hk : ¬ counting.AsksNext 6 := by decide +kernel
  have hu : counting.Untimed [.step none, .tick, .step (some 4), .tick, .step none] := by
    decide +kernel
  obtain ⟨htick, hkey, h⟩ := ticks_and_keys_commute counting none
  obtain ⟨-, ha, -⟩ := h [none, some 4, none] 2 _ _
    (.step none (.tick (.step (some 4) (.tick (.step none .nil)))))
    (.tick (.tick (.step none (.step (some 4) (.step none .nil))))) hu
  exact ⟨ht, hk, htick ht, (hkey 6 hk).1, hu, ha⟩

end Console

end Chip8

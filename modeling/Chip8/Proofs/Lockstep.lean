import Chip8.Proofs.History
import Chip8.Proofs.Margin

/-! Two consoles with one history, which differ where no instruction finds a difference. What
observers see of a console and what they do about it is such a place. -/

namespace Chip8

namespace Console

structure Indistinct (E : Fault → Prop) (M : Margin → Margin → Prop) : Prop where
  keeps (k : Mark) : k.Keeps M
  finds {c : Console} {m : Margin} {i : Instruction} : M c.margin m →
    (∀ f, c.perform i = .error f → ¬ E f) → c.Finds i m

variable {E : Fault → Prop} {M : Margin → Margin → Prop} {c d : Console} {f : Fault}

theorem steps_of_step_error (h : (c.step none).1 = .error f) (n : Nat) :
    (c.steps (n + 1)).1 = .error f := by
  rw [steps]
  cases hc : c.step none with
  | mk a e =>
    rw [hc] at h
    cases h
    rfl

theorem run_eq_error_iff {n : Int} : (c.run n).1 = .error f ↔ (c.steps n.toNat).1 = .error f := by
  rw [run]
  cases c.steps n.toNat with
  | mk a e => cases a <;> simp

namespace Indistinct

theorem step (h : Indistinct E M) (hcd : Alike M c d) (key : Option Int)
    (hE : ∀ f, (c.step key).1 = .error f → ¬ E f) :
    Together (Alike M) (c.step key) (d.step key) := by
  obtain ⟨m, hm, rfl⟩ := hcd
  refine step_together (fun r => h.keeps (.note r)) hm (fun i hi => ⟨?_, fun k _ => h.keeps k⟩) key
  have hf := h.finds (c := c.advance.announce i) (i := i) (h.keeps (.note _) _ _ hm) fun f hp =>
    hE f (by rw [step_of_refused hi hp])
  exact ⟨hf.capacity, hf.delay, hf.keypad⟩

theorem execute (h : Indistinct E M) (hcd : Alike M c d) (w : Int)
    (hE : ∀ f, (c.execute w).1 = .error f → ¬ E f) :
    Together (Alike M) (c.execute w) (d.execute w) := by
  obtain ⟨m, hm, rfl⟩ := hcd
  refine execute_together (fun r => h.keeps (.note r)) hm fun i hd => ⟨?_, fun k _ => h.keeps k⟩
  have hf := h.finds (c := c.announce i) (i := i) (h.keeps (.note _) _ _ hm) fun f hp =>
    hE f (by rw [execute_decoded hd, hp])
  exact ⟨hf.capacity, hf.delay, hf.keypad⟩

theorem steps (h : Indistinct E M) (hcd : Alike M c d) (n : Nat)
    (hE : ∀ f, (c.steps n).1 = .error f → ¬ E f) :
    Together (Alike M) (c.steps n) (d.steps n) := by
  induction n generalizing c d with
  | zero => exact ⟨rfl, hcd⟩
  | succ n ih =>
    have hs := h.step hcd none fun f hf => hE f (steps_of_step_error hf n)
    rw [Console.steps] at hE
    rw [Console.steps, Console.steps]
    cases hc : c.step none with
    | mk a e =>
    cases hd : d.step none with
    | mk a' e' =>
    rw [hc] at hE
    rw [hc, hd] at hs
    obtain ⟨rfl, he⟩ := hs
    cases a' with
    | error f => exact ⟨rfl, he⟩
    | ok r =>
      cases r with
      | executed => exact ih he hE
      | waiting | halted => exact ⟨rfl, he⟩

theorem run (h : Indistinct E M) (hcd : Alike M c d) (n : Int)
    (hE : ∀ f, (c.run n).1 = .error f → ¬ E f) :
    Together (Alike M) (c.run n) (d.run n) := by
  have hs := h.steps hcd n.toNat fun f hf => hE f (run_eq_error_iff.2 hf)
  rw [Console.run, Console.run]
  cases hc : c.steps n.toNat with
  | mk a e =>
  cases hd : d.steps n.toNat with
  | mk a' e' =>
  rw [hc, hd] at hs
  obtain ⟨rfl, he⟩ := hs
  cases a' with
  | error f => exact ⟨rfl, he⟩
  | ok =>
    have hh : e'.machine.halted = e.machine.halted := Alike.halted he
    exact ⟨congrArg (fun b => Except.ok !b) hh, he⟩

theorem apply (h : Indistinct E M) (hcd : Alike M c d) (e : Command)
    (hE : ∀ f, (c.apply e).1 = .error f → ¬ E f) :
    Together (Alike M) (c.apply e) (d.apply e) := by
  have driver (k : Mark) (e : Command)
      (hc : ∀ c : Console, c.apply e = (.ok .done, c.withMargin (c.margin.put k))) :
      Together (Alike M) (c.apply e) (d.apply e) := by
    obtain ⟨m, hm, rfl⟩ := hcd
    rw [hc, hc]
    exact ⟨rfl, _, h.keeps k _ _ hm, rfl⟩
  cases e with
  | step key =>
    have hs := h.step hcd key fun f hf => hE f (by simp only [Console.apply, hf, Except.map])
    exact ⟨congrArg (Except.map Reply.stepped) hs.1, hs.2⟩
  | execute w =>
    have hs := h.execute hcd w fun f hf => hE f (by simp only [Console.apply, hf, Except.map])
    exact ⟨congrArg (Except.map fun _ => Reply.done) hs.1, hs.2⟩
  | run n =>
    have hs := h.run hcd n fun f hf => hE f (by simp only [Console.apply, hf, Except.map])
    exact ⟨congrArg (Except.map Reply.ran) hs.1, hs.2⟩
  | tick => exact driver .tick _ fun _ => rfl
  | press k => exact driver (.press k) _ fun _ => rfl
  | release k => exact driver (.release k) _ fun _ => rfl
  | seen => exact driver .seen _ fun _ => rfl

/-- The same history has the same replies on both, until a fault of `E`. -/
theorem after (h : Indistinct E M) (hcd : Alike M c d) (ds : List Command)
    (hE : ∀ f, .error f ∈ c.replies ds → ¬ E f) :
    d.replies ds = c.replies ds ∧ Alike M (c.after ds) (d.after ds) := by
  induction ds generalizing c d with
  | nil => exact ⟨rfl, hcd⟩
  | cons e es ih =>
    obtain ⟨hr, he⟩ := h.apply hcd e fun f hf => hE f (by
      rw [replies, ← hf]
      exact List.mem_cons_self)
    obtain ⟨hrs, hes⟩ := ih he fun f hf => hE f (List.mem_cons_of_mem _ hf)
    exact ⟨by rw [replies, replies, hr, hrs], hes⟩

end Indistinct

/-! Observers. -/

/-- The console as other observers might have it: they hear the sound timer, look at the display when
it has been drawn on, are given frames and read the trace. -/
def observed (c : Console) (sound : Int) (drawn : Bool) (frames : Option (List Display))
    (trace : List Record) : Console :=
  { c with
    machine := { c.machine with sound := sound }, drawn := drawn, frames := frames, trace := trace }

def EqInside (m n : Margin) : Prop :=
  n.capacity = m.capacity ∧ n.delay = m.delay ∧ n.keypad = m.keypad

theorem alike_eqInside : Alike EqInside c d ↔ ∃ t b fs tr, d = c.observed t b fs tr := by
  constructor
  · rintro ⟨⟨n, t, s, p, fs, b, tr⟩, ⟨hn, ht, hp⟩, rfl⟩
    dsimp only at hn ht hp
    subst hn ht hp
    exact ⟨s, b, fs, tr, rfl⟩
  · rintro ⟨t, b, fs, tr, rfl⟩
    exact ⟨(c.observed t b fs tr).margin, ⟨rfl, rfl, rfl⟩, rfl⟩

theorem eqInside_indistinct : Indistinct (fun _ => False) EqInside where
  keeps k := by
    rintro m n ⟨hc, hd, hk⟩
    cases k <;> simp [Margin.put, EqInside, hc, hd, hk]
  finds hm _ := {
    capacity := fun _ => .inr hm.1
    delay := fun _ => hm.2.1
    keypad := fun _ => by rw [hm.2.2]; rfl }

def overwrite (c : Console) (w : List Display → List Display) : Console :=
  { c with frames := c.frames.map w }

def overwritten (c : Console) (w : List Display → List Display) :
    List Command → List (Except Fault Reply) × Console
  | [] => ([], c)
  | e :: es =>
    let r := ((c.apply e).2.overwrite w).overwritten w es
    ((c.apply e).1 :: r.1, r.2)

theorem overwritten_alike (h : Alike EqInside c d) (w : List Display → List Display)
    (es : List Command) :
    (d.overwritten w es).1 = c.replies es ∧ Alike EqInside (c.after es) (d.overwritten w es).2 := by
  induction es generalizing c d with
  | nil => exact ⟨rfl, h⟩
  | cons e es ih =>
    obtain ⟨hr, m, hm, he⟩ := eqInside_indistinct.apply h e fun _ _ => id
    have ho : Alike EqInside (c.apply e).2 ((d.apply e).2.overwrite w) :=
      ⟨{ m with frames := m.frames.map w }, hm, by rw [he]; rfl⟩
    obtain ⟨hrs, hes⟩ := ih ho
    exact ⟨by rw [overwritten, replies, hr, hrs], hes⟩

/-- Whatever observers have seen and whatever they do with it, the console answers as before, and
nothing but what they see is different. Nor do they get at it by overwriting their frames after
every call, the single steps of runs included. -/
theorem observers_without_influence (c : Console) (sound : Int) (drawn : Bool)
    (frames : Option (List Display)) (trace : List Record) (ds : List Command) :
    (c.observed sound drawn frames trace).replies ds = c.replies ds ∧
    (∃ t b fs tr, (c.observed sound drawn frames trace).after ds = (c.after ds).observed t b fs tr) ∧
    ∀ w : List Display → List Display,
      ((c.observed sound drawn frames trace).overwritten w (c.unrolled ds)).1 =
        c.replies (c.unrolled ds) ∧
      ∃ t b fs tr, ((c.observed sound drawn frames trace).overwritten w (c.unrolled ds)).2 =
        (c.after ds).observed t b fs tr := by
  have h : Alike EqInside c (c.observed sound drawn frames trace) :=
    alike_eqInside.2 ⟨sound, drawn, frames, trace, rfl⟩
  obtain ⟨hr, hd⟩ := eqInside_indistinct.after h ds fun _ _ => id
  refine ⟨hr, alike_eqInside.1 hd, fun w => ?_⟩
  obtain ⟨hr, hd⟩ := overwritten_alike h w (c.unrolled ds)
  rw [after_unrolled] at hd
  exact ⟨hr, alike_eqInside.1 hd⟩

end Console

end Chip8

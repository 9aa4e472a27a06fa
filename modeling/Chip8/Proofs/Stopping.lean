import Chip8.Proofs.Bounds
import Chip8.Proofs.KeyDelivery

/-! How a frame can stop the main loop: by an event, by a program that halts, or by a fault of one of
its steps. A script in which the user leaves has exactly one last frame. -/

namespace Chip8

def Event.Stops (e : Event) : Prop := e = .quit ∨ e = .keyDown Keyboard.escape

namespace Console

variable {c d : Console} {i : Instruction}

theorem Fails.halted_eq {f : Fault} (h : c.Fails f d) : d.machine.halted = c.machine.halted := by
  cases h <;> rfl

theorem Invariant.internal {P : Console → Prop} (h : Invariant P) : InternalInvariant P where
  step key hc := h.stepInvariant.step hc key
  tick := h.tick
  press := h.press
  release := h.release
  seen := h.seen

theorem InternalInvariant.and {P Q : Console → Prop} (h : InternalInvariant P)
    (h' : InternalInvariant Q) : InternalInvariant fun c => P c ∧ Q c where
  step key hc := ⟨h.step key hc.1, h'.step key hc.2⟩
  tick hc := ⟨h.tick hc.1, h'.tick hc.2⟩
  press k hc := ⟨h.press k hc.1, h'.press k hc.2⟩
  release k hc := ⟨h.release k hc.1, h'.release k hc.2⟩
  seen hc := ⟨h.seen hc.1, h'.seen hc.2⟩

theorem unread_invariant : InternalInvariant fun c => c.reader = none where
  step key h := unread_stepInvariant.step h key
  tick h := h
  press _ h := h
  release _ h := h
  seen h := h

theorem storable_change (hs : c.machine.Storable) (h : Change c i d) : d.machine.Storable := by
  cases h with
  | delay b =>
    have := b.toNat_lt
    exact { hs with delay := by simp only [withMachine]; omega }
  | await => exact { hs with keyRegister := by simp only [withMachine, note]; omega }
  | skip b => cases b <;> exact { hs with }
  | _ => exact { hs with }

theorem storable_invariant : Invariant fun c => c.machine.Storable :=
  .ofMachine (P := Machine.Storable) (fun _ hs => { hs with }) storable_change
    (fun _ _ hs => { hs with }) fun _ hs => { hs with delay := Machine.countDown_byte hs.delay }

end Console

namespace Frontend

def Faults (h : Frontend) (es : List Event) (f : Fault) : Prop :=
  .error f ∈ (h.receive es).console.replies ((h.receive es).calls h.cycles)

def Stops (h : Frontend) (es : List Event) : Prop :=
  (∃ e ∈ es, e.Stops) ∨ (h.frame es).2.console.machine.halted = true ∨ ∃ f, h.Faults es f

def GoesOn (h : Frontend) : List (List Event) → Prop
  | [] => True
  | es :: fs => ¬ h.Stops es ∧ (h.frame es).2.GoesOn fs

/-- The frame with the events `es`, which comes after the frames `fs`, is the last one of a loop over
the script. -/
structure LastFrame (h : Frontend) (script fs : List (List Event)) (es : List Event) : Prop where
  within : fs ++ [es] <+: script
  goesOn : h.GoesOn fs
  stops : (h.frames fs).Stops es

structure Live (h : Frontend) : Prop where
  reader : h.console.reader = none
  halted : h.console.machine.halted = false
  running : h.running = true

variable {h : Frontend} {es : List Event} {fs script : List (List Event)} {f : Fault}

theorem handle_running (h : Frontend) (e : Event) :
    (h.handle e).running = true ↔ h.running = true ∧ ¬ e.Stops := by
  cases e with
  | quit => simp [handle, Event.Stops]
  | other => simp [handle, Event.Stops]
  | keyDown name =>
    by_cases hn : name = Keyboard.escape
    · simp [handle, Event.Stops, hn]
    · rw [handle, if_neg hn]
      cases Keyboard.key? name <;> simp [Event.Stops, hn]
  | keyUp name =>
    rw [handle]
    cases Keyboard.key? name <;> simp [Event.Stops]

theorem receive_running (h : Frontend) (es : List Event) :
    (h.receive es).running = true ↔ h.running = true ∧ ∀ e ∈ es, ¬ e.Stops := by
  induction es generalizing h with
  | nil => simp [receive]
  | cons e es ih =>
    rw [receive, List.foldl_cons, ← receive, ih, handle_running, List.forall_mem_cons, and_assoc]

theorem receive_cycles (h : Frontend) (es : List Event) : (h.receive es).cycles = h.cycles := by
  obtain ⟨k, p, r, hr⟩ := h.receive_eq es
  rw [hr]

theorem receive_machine (h : Frontend) (es : List Event) :
    (h.receive es).console.machine = h.console.machine := by
  obtain ⟨k, p, r, hr⟩ := h.receive_eq es
  rw [hr]

theorem cycle_eq (h : Frontend) (n : Nat) :
    ∃ c p, (h.cycle n).2 = { h with console := c, pressed := p } := by
  induction n generalizing h with
  | zero => exact ⟨_, _, rfl⟩
  | succ n ih =>
    have hr := h.round n
    generalize h.cycle (n + 1) = o, h.calls (n + 1) = ds at hr
    cases hr with
    | idle | failed | halted => exact ⟨_, _, rfl⟩
    | answered _ _ c => exact ih { h with console := c, pressed := none }
    | stepped _ c => exact ih { h with console := c }

theorem cycle_error_iff (h : Frontend) (n : Nat) :
    (h.cycle n).1 = .error f ↔ .error f ∈ h.console.replies (h.calls n) := by
  induction n generalizing h with
  | zero => simp [cycle, calls, Console.replies]
  | succ n ih =>
    have hr := h.round n
    generalize h.cycle (n + 1) = o, h.calls (n + 1) = ds at hr ⊢
    cases hr with
    | idle => simp [Console.replies]
    | failed key g c hs =>
      simp [Console.replies, Console.apply, hs, Except.map, eq_comm]
    | halted c hs => simp [Console.replies, Console.apply, hs, Except.map]
    | answered k r c _ _ hs | stepped r c _ hs =>
      simp only [Console.replies, Console.apply, hs, Except.map, List.mem_cons, reduceCtorEq,
        false_or]
      exact ih _

/-- A fault of a frame is the fault of its last step, which finds a console that has not halted. -/
theorem cycle_fault {P : Console → Prop} (hP : Console.InternalInvariant P) (hc : P h.console)
    (hh : h.console.machine.halted = false) {n : Nat} {g : Frontend}
    (he : h.cycle n = (.error f, g)) :
    ∃ c key, P c ∧ c.machine.halted = false ∧ c.step key = (.error f, g.console) := by
  induction n generalizing h with
  | zero => cases he
  | succ n ih =>
    have next {key : Option Int} {r : StepResult} {c : Console}
        (hs : h.console.step key = (.ok r, c)) (hr : r ≠ .halted) :
        P c ∧ c.machine.halted = false := by
      have hd := hP.step key hc
      rw [hs] at hd
      exact ⟨hd, Console.halted_of_step hs hr⟩
    have hr := h.round n
    generalize h.cycle (n + 1) = o, h.calls (n + 1) = ds at hr he
    cases hr with
    | idle | halted => cases he
    | failed key _ c hs =>
      cases he
      exact ⟨h.console, key, hc, hh, hs⟩
    | answered k r c _ _ hs hn =>
      obtain ⟨hd, hd'⟩ := next hs hn
      exact ih (h := { h with console := c, pressed := none }) hd hd' he
    | stepped r c _ hs hn =>
      obtain ⟨hd, hd'⟩ := next hs hn
      exact ih (h := { h with console := c }) hd hd' he

def spent (h : Frontend) (es : List Event) : Console :=
  ((h.receive es).cycle h.cycles).2.console

inductive Close (h : Frontend) (es : List Event) : Outcome Frontend Unit → Prop
  | failed (f : Fault) (key : Option Int) : h.Faults es f →
      Close h es (.error f, { h.receive es with console := h.spent es, pressed := key })
  | halted (key : Option Int) : (∀ f, ¬ h.Faults es f) → (h.spent es).machine.halted = true →
      Close h es (.ok (), { h.receive es with
        console := (h.spent es).note .finished, pressed := key, running := false })
  | done : (∀ f, ¬ h.Faults es f) → (h.spent es).machine.halted = false →
      Close h es (.ok (), { h.receive es with console := (h.spent es).tick, pressed := none })

theorem faults_iff (h : Frontend) (es : List Event) (f : Fault) :
    h.Faults es f ↔ ((h.receive es).cycle h.cycles).1 = .error f :=
  ((h.receive es).cycle_error_iff h.cycles).symm

theorem receive_keeps {P : Console → Prop} (hP : Console.InternalInvariant P) (hc : P h.console)
    (es : List Event) : P (h.receive es).console := by
  induction es generalizing h with
  | nil => exact hc
  | cons e es ih =>
    refine ih (h := h.handle e) ?_
    unfold handle
    split
    · exact hc
    · split
      · exact hc
      · split
        · exact hP.press _ hc
        · exact hc
    · split
      · exact hP.release _ hc
      · exact hc
    · exact hc

/-- What every operation keeps, the events and the cycles of a frame keep. -/
theorem spent_keeps {P : Console → Prop} (hP : Console.InternalInvariant P) (hc : P h.console)
    (es : List Event) : P (h.spent es) :=
  (h.receive es).cycle_keeps (fun _ key => hP.step key) (receive_keeps hP hc es) h.cycles

/-- The cycles of a frame tell whether they have halted the program. -/
theorem cycle_ok {n : Nat} {b : Bool} (hh : h.console.machine.halted = false)
    (hb : (h.cycle n).1 = .ok b) : b = (h.cycle n).2.console.machine.halted := by
  induction n generalizing h with
  | zero =>
    cases hb
    exact hh.symm
  | succ n ih =>
    have hr := h.round n
    generalize h.cycle (n + 1) = o, h.calls (n + 1) = ds at hr hb ⊢
    cases hr with
    | idle =>
      cases hb
      exact hh.symm
    | failed => cases hb
    | halted c hs =>
      cases hb
      exact (Machine.mode_eq_halted.1 (Console.step_mode hs).symm).symm
    | answered k r c _ _ hs hn =>
      exact ih (h := { h with console := c, pressed := none }) (Console.halted_of_step hs hn) hb
    | stepped r c _ hs hn =>
      exact ih (h := { h with console := c }) (Console.halted_of_step hs hn) hb

theorem close (hh : h.console.machine.halted = false) (es : List Event) :
    Close h es (h.frame es) := by
  have hh' := (congrArg Machine.halted (h.receive_machine es)).trans hh
  have hb {b : Bool} := cycle_ok (n := h.cycles) (b := b) hh'
  have hf := h.faults_iff es
  have failed := @Close.failed h es
  have halted := @Close.halted h es
  have done := @Close.done h es
  obtain ⟨c, key, hc⟩ := (h.receive es).cycle_eq h.cycles
  rw [frame, ← receive, update, h.receive_cycles es]
  rw [spent] at failed halted done
  cases hs : (h.receive es).cycle h.cycles with
  | mk a g =>
    simp only [hs] at hb hf hc failed halted done
    subst hc
    cases a with
    | error f => exact failed f key ((hf f).2 rfl)
    | ok b =>
      have hn (f : Fault) : ¬ h.Faults es f := by
        rw [hf]
        simp
      cases b with
      | true => exact halted key hn (hb rfl).symm
      | false => exact done hn (hb rfl).symm

theorem frame_eq (h : Frontend) (es : List Event) :
    ∃ c p r, (h.frame es).2 = { h with console := c, pressed := p, running := r } := by
  obtain ⟨k, p, r, hg⟩ := h.receive_eq es
  obtain ⟨c, key, hc⟩ := (h.receive es).cycle_eq h.cycles
  rw [frame, ← receive, update, h.receive_cycles es]
  cases hs : (h.receive es).cycle h.cycles with
  | mk a g =>
    rw [hs] at hc
    dsimp only at hc
    subst hc
    rw [hg]
    rcases a with f | b
    · exact ⟨_, _, _, rfl⟩
    · cases b <;> exact ⟨_, _, _, rfl⟩

theorem exists_lastFrame (h : Frontend) (hs : ∃ es ∈ script, ∃ e ∈ es, e.Stops) :
    ∃ fs es, h.LastFrame script fs es := by
  induction script generalizing h with
  | nil => simp at hs
  | cons es script ih =>
    by_cases hn : h.Stops es
    · exact ⟨[], es, ⟨script, rfl⟩, trivial, hn⟩
    · have hes : ¬ ∃ e ∈ es, e.Stops := fun he => hn (.inl he)
      obtain ⟨fs, es', hl⟩ := ih (h.frame es).2 (by simpa [hes] using hs)
      exact ⟨es :: fs, es', (List.prefix_cons_inj es).2 hl.within, ⟨hn, hl.goesOn⟩, hl.stops⟩

theorem GoesOn.not_stops {fs' : List (List Event)} (hg : h.GoesOn fs')
    (hp : fs ++ [es] <+: fs') : ¬ (h.frames fs).Stops es := by
  induction fs generalizing h fs' with
  | nil =>
    obtain ⟨rest, rfl⟩ := hp
    exact hg.1
  | cons e fs ih =>
    obtain ⟨rest, rfl⟩ := hp
    exact ih hg.2 ⟨rest, rfl⟩

theorem LastFrame.length_le {fs' : List (List Event)} {es' : List Event}
    (hl : h.LastFrame script fs es) (hl' : h.LastFrame script fs' es') : fs'.length ≤ fs.length := by
  refine Nat.not_lt.1 fun hn => ?_
  have hp : fs ++ [es] <+: fs' ++ [es'] :=
    List.prefix_of_prefix_length_le hl.within hl'.within (by simp; omega)
  rcases List.prefix_concat_iff.1 hp with he | he
  · have := congrArg List.length he
    simp at this
    omega
  · exact hl'.goesOn.not_stops he hl.stops

/-- A script has one last frame at most. -/
theorem LastFrame.unique {fs' : List (List Event)} {es' : List Event}
    (hl : h.LastFrame script fs es) (hl' : h.LastFrame script fs' es') : fs' = fs ∧ es' = es := by
  have hp : fs' ++ [es'] <+: fs ++ [es] :=
    List.prefix_of_prefix_length_le hl'.within hl.within (by simpa using hl.length_le hl')
  have he := hp.eq_of_length (by simpa using Nat.le_antisymm (hl.length_le hl') (hl'.length_le hl))
  simpa using he

namespace Live

theorem frame_error_iff (h' : h.Live) : (h.frame es).1 = .error f ↔ h.Faults es f := by
  have hc := h.close h'.halted es
  generalize h.frame es = o at hc ⊢
  cases hc with
  | failed g key hg =>
    rw [faults_iff] at hg ⊢
    simp [hg]
  | halted key hn | done hn => simp [hn]

/-- A frame is not the last one if the front end is alive and well after it. -/
theorem not_stops_iff (h' : h.Live) :
    ¬ h.Stops es ↔ (h.frame es).1 = .ok () ∧ (h.frame es).2.Live := by
  have hr := h.receive_running es
  have hc := h.close h'.halted es
  simp only [Stops, not_or, not_exists, not_and]
  generalize h.frame es = o at hc ⊢
  constructor
  · rintro ⟨he, hh, hf⟩
    cases hc with
    | failed g key hg => exact absurd hg (hf g)
    | halted key _ hd => exact absurd hd hh
    | done _ hd =>
      refine ⟨rfl, ?_, hd, hr.2 ⟨h'.running, he⟩⟩
      exact Console.unread_invariant.tick (spent_keeps Console.unread_invariant h'.reader es)
  · rintro ⟨hok, hl⟩
    cases hc with
    | failed => cases hok
    | halted => exact absurd hl.running nofun
    | done hn hd => exact ⟨(hr.1 hl.running).2, fun hh => absurd (hl.halted.symm.trans hh) nofun, hn⟩

theorem frames (h' : h.Live) (hg : h.GoesOn fs) : (h.frames fs).Live := by
  induction fs generalizing h with
  | nil => exact h'
  | cons es fs ih => exact ih (h'.not_stops_iff.1 hg.1).2 hg.2

theorem frame_keeps {P : Console → Prop} (hP : Console.InternalInvariant P) (h' : h.Live)
    (hs : ¬ h.Stops es) (hc : P h.console) : P (h.frame es).2.console := by
  have hn := (h'.not_stops_iff.1 hs).2.halted
  have hc' := spent_keeps hP hc es
  have hf := h.close h'.halted es
  generalize h.frame es = o at hf hn ⊢
  cases hf with
  | failed => exact hc'
  | halted key _ hd => exact absurd (hd.symm.trans hn) nofun
  | done => exact hP.tick hc'

/-- What every operation keeps, a loop keeps until its last frame. -/
theorem keeps {P : Console → Prop} (hP : Console.InternalInvariant P) (h' : h.Live)
    (hg : h.GoesOn fs) (hc : P h.console) : P (h.frames fs).console := by
  induction fs generalizing h with
  | nil => exact hc
  | cons es fs ih => exact ih (h'.not_stops_iff.1 hg.1).2 hg.2 (frame_keeps hP h' hg.1 hc)

/-- A frame that stops the loop without a fault leaves it stopped. -/
theorem stopped (h' : h.Live) (hs : h.Stops es) (hn : ∀ f, ¬ h.Faults es f) :
    (h.frame es).2.running = false := by
  have hr := mt (h.receive_running es).1
  have hc := h.close h'.halted es
  rw [Stops] at hs
  generalize h.frame es = o at hc hs ⊢
  cases hc with
  | failed f key hf => exact absurd hf (hn f)
  | halted => rfl
  | done _ hd =>
    have he : ∃ e ∈ es, e.Stops := by
      rcases hs with he | hh | ⟨f, hf⟩
      · exact he
      · exact absurd (hd.symm.trans hh) nofun
      · exact absurd hf (hn f)
    rw [← Bool.not_eq_true]
    obtain ⟨e, hm, hs⟩ := he
    exact hr fun h' => h'.2 e hm hs

/-- A fault does not stop the loop by itself. -/
theorem running_of_faults (h' : h.Live) (hf : h.Faults es f) :
    (h.frame es).2.running = false ↔ ∃ e ∈ es, e.Stops := by
  have hr := h.receive_running es
  have hc := h.close h'.halted es
  generalize h.frame es = o at hc ⊢
  cases hc with
  | failed g key =>
    rw [← Bool.not_eq_true]
    dsimp only
    rw [hr]
    simp [h'.running]
  | halted _ hn | done hn => exact absurd hf (hn f)

/-- Where keys and delays can be stored, a frame fails by one of two faults, and has not halted. -/
theorem fault_of_storable (h' : h.Live) (hs : h.console.machine.Storable) (hf : h.Faults es f) :
    ((∃ pc n, f = .stackOverflow pc n) ∨ ∃ a, f = .badFetch a) ∧
      (h.spent es).machine.halted = false := by
  have hp : Console.InternalInvariant fun c => c.machine.Storable ∧ c.reader = none :=
    Console.storable_invariant.internal.and Console.unread_invariant
  have hc := receive_keeps hp ⟨hs, h'.reader⟩ es
  have hh := (congrArg Machine.halted (h.receive_machine es)).trans h'.halted
  have hcycle : (h.receive es).cycle h.cycles = (.error f, ((h.receive es).cycle h.cycles).2) :=
    Prod.ext ((h.faults_iff es f).1 hf) rfl
  obtain ⟨c, key, ⟨hs', hr⟩, hh', he⟩ := cycle_fault hp hc hh hcycle
  obtain ⟨x, hx⟩ := Console.exists_register hs'.keyRegister
  have ha : c.Answered := fun r hr' => nomatch hr.symm.trans hr'
  have herror : (c.step key).1 = .error f := congrArg Prod.fst he
  have hfails := Console.step_error x hx ha herror
  rw [he] at hfails
  refine ⟨?_, hfails.halted_eq.trans hh'⟩
  rcases Console.step_error_of_storable hs' ha herror with ⟨-, hn⟩ | hf
  · exact absurd (hh'.symm.trans hn) nofun
  · exact hf

end Live

end Frontend

end Chip8

import Chip8.Frontend.Basic
import Chip8.Proofs.Cycle

/-! A frame of the front end in the operations of the console: a run, a second one after a wait that
a key has ended, and a tick. -/

namespace Chip8

def Record.isExecuting : Record → Bool
  | executing .. => true
  | _ => false

def Record.isStored : Record → Bool
  | stored .. => true
  | _ => false

namespace Console

def fetches (c : Console) : Nat := c.trace.countP Record.isExecuting

def stores (c : Console) : Nat := c.trace.countP Record.isStored

def runWithKey (c : Console) (key : Option Int) (n : Nat) : Option Int × Outcome Console Bool :=
  match key, c.run n with
  | some k, (.ok true, d) =>
    if d.machine.waiting ∧ d.fetches - c.fetches < n then
      match d.step (some k) with
      | (.error f, e) => (some k, .error f, e)
      | (.ok _, e) => (none, e.run (n - (d.fetches - c.fetches) - 1 : Nat))
    else (some k, .ok true, d)
  | key, o => (key, o)

variable {c d : Console} {i : Instruction} {r : StepResult} {key : Option Int}

theorem fetches_announce (c : Console) (i : Instruction) :
    (c.advance.announce i).fetches = c.fetches + 1 :=
  List.countP_cons_of_pos rfl

theorem change_fetches (h : Change c i d) : d.fetches = c.fetches :=
  h.countP ⟨rfl, rfl, rfl⟩

theorem change_stores (h : Change c i d) : d.stores = c.stores :=
  h.countP ⟨rfl, rfl, rfl⟩

theorem stores_announce (c : Console) (i : Instruction) :
    (c.advance.announce i).stores = c.stores :=
  List.countP_cons_of_neg (by simp [Record.isStored])

theorem stores_finished (c : Console) : (c.note .finished).stores = c.stores :=
  List.countP_cons_of_neg (by simp [Record.isStored])

theorem storeKey_fetches {k : Int} (h : c.storeKey k = (.ok r, d)) : d.fetches = c.fetches := by
  obtain ⟨-, s, rfl⟩ := storeKey_ok h
  exact List.countP_cons_of_neg (by simp [Record.isExecuting])

theorem fetches_stepInvariant (n : Nat) : StepInvariant fun c => n ≤ c.fetches where
  fetch h _ _ := by
    rw [fetches_announce]
    exact Nat.le_succ_of_le h
  perform h _ _ hc := by
    rw [change_fetches hc, fetches_announce]
    exact Nat.le_succ_of_le h
  store h hs := by
    rw [storeKey_fetches hs]
    exact h
  read {c} h := by
    rw [readKey_snd]
    exact h

theorem step_stores (hr : c.reader = none) : (c.step none).2.stores = c.stores := by
  by_cases hh : c.machine.halted = true
  · rw [step_halted hh]
  rw [Bool.not_eq_true] at hh
  by_cases hw : c.machine.waiting = true
  · rw [step_suspended_none hr hh hw]
  rw [Bool.not_eq_true] at hw
  have h := step_fetches hr hw none
  generalize (c.step none).1 = r, (c.step none).2 = d at h
  cases h with
  | stuck => rfl
  | refused i => exact stores_announce c i
  | done i _ _ hc => exact (change_stores hc).trans (stores_announce c i)

theorem run_stores (hr : c.reader = none) (n : Int) : (c.run n).2.stores = c.stores := by
  have hstep (d : Console) (hd : d.reader = none ∧ d.stores = c.stores) :
      (d.step none).2.reader = none ∧ (d.step none).2.stores = c.stores :=
    ⟨unread_stepInvariant.step hd.1 none, (step_stores hd.1).trans hd.2⟩
  exact (run_of_step hstep ⟨hr, rfl⟩ n).2

theorem step_key_stores (hh : c.machine.halted = false) (hw : c.machine.waiting = true) (k : Int) :
    (c.step (some k)).2.stores ≤ c.stores + 1 := by
  rw [step_suspended hh hw]
  cases hs : c.storeKey k with
  | mk a d =>
    cases a with
    | error f =>
      rw [storeKey_error hs]
      exact Nat.le_succ _
    | ok r =>
      obtain ⟨-, s, rfl⟩ := storeKey_ok hs
      exact Nat.le_of_eq (List.countP_cons_of_pos rfl)

theorem run_zero (hh : c.machine.halted = false) : c.run 0 = (.ok true, c) := by
  simp only [run, steps, Int.toNat_zero, hh, Bool.not_false]

theorem run_error {f : Fault} (h : c.step none = (.error f, d)) (n : Nat) :
    c.run (n + 1 : Nat) = (.error f, d) := by
  simp only [run, Int.toNat_natCast, steps, h]

theorem run_halted (h : c.step none = (.ok .halted, d)) (n : Nat) :
    c.run (n + 1 : Nat) = (.ok false, d) := by
  have hd := Machine.mode_eq_halted.1 (step_mode h).symm
  simp only [run, Int.toNat_natCast, steps, h, hd, Bool.not_true]

/-- A suspended console keeps to itself, so a run can be counted as if it went on. -/
theorem run_succ (hd : r = .waiting → d.reader = none) (h : c.step none = (.ok r, d))
    (hne : r ≠ .halted) (n : Nat) : c.run (n + 1 : Nat) = d.run n := by
  cases r with
  | executed => simp only [run, Int.toNat_natCast, steps, h]
  | halted => exact absurd rfl hne
  | waiting =>
    obtain ⟨hh, hw⟩ := Machine.mode_eq_waiting.1 (step_mode h).symm
    rw [run_suspended (hd rfl) hh hw]
    simp only [run, Int.toNat_natCast, steps, h, hh, Bool.not_false]

theorem runWithKey_zero (hh : c.machine.halted = false) (key : Option Int) :
    c.runWithKey key 0 = (key, .ok true, c) := by
  simp only [runWithKey, Int.natCast_zero, run_zero hh]
  cases key <;> simp

theorem runWithKey_none (c : Console) (n : Nat) : c.runWithKey none n = (none, c.run n) := rfl

theorem runWithKey_error {f : Fault} (h : c.step none = (.error f, d)) (key : Option Int) (n : Nat) :
    c.runWithKey key (n + 1) = (key, .error f, d) := by
  unfold runWithKey
  rw [run_error h]
  cases key <;> rfl

theorem runWithKey_halted (h : c.step none = (.ok .halted, d)) (key : Option Int) (n : Nat) :
    c.runWithKey key (n + 1) = (key, .ok false, d) := by
  unfold runWithKey
  rw [run_halted h]
  cases key <;> rfl

theorem step_fetched (hr : c.reader = none) (hw : c.machine.waiting = false)
    (h : c.step none = (.ok r, d)) : d.fetches = c.fetches + 1 := by
  have hf := step_fetches hr hw none
  simp only [h] at hf
  cases hf with
  | done i _ _ hc => rw [change_fetches hc, fetches_announce]

/-- Each step uses up one cycle, before the wait as after it. -/
theorem runWithKey_succ (hr : c.reader = none) (hw : c.machine.waiting = false)
    (h : c.step none = (.ok r, d)) (hne : r ≠ .halted) (key : Option Int) (n : Nat) :
    c.runWithKey key (n + 1) = d.runWithKey key n := by
  have hd := unread_stepInvariant.step hr none
  rw [h] at hd
  have hdc := step_fetched hr hw h
  have hde := (fetches_stepInvariant d.fetches).run (Nat.le_refl _) n
  unfold runWithKey
  rw [run_succ (fun _ => hd) h hne]
  cases hrun : d.run n with
  | mk a e =>
    simp only [hrun] at hde
    cases key with
    | none => rfl
    | some k =>
      rcases a with f | b
      · rfl
      cases b with
      | false => rfl
      | true =>
        have hlt : e.fetches - c.fetches < n + 1 ↔ e.fetches - d.fetches < n := by omega
        have hrest : n + 1 - (e.fetches - c.fetches) - 1 = n - (e.fetches - d.fetches) - 1 := by omega
        simp only [hlt, hrest]

theorem runWithKey_suspended (hr : c.reader = none) (hh : c.machine.halted = false)
    (hw : c.machine.waiting = true) (k : Int) (n : Nat) :
    c.runWithKey (some k) (n + 1) =
      match c.step (some k) with
      | (.error f, e) => (some k, .error f, e)
      | (.ok _, e) => (none, e.run n) := by
  unfold runWithKey
  rw [run_suspended hr hh hw]
  simp [hw]

theorem runWithKey_ok {b : Bool} {key left : Option Int} {n : Nat}
    (h : c.runWithKey key n = (left, .ok b, d)) : b = !d.machine.halted := by
  unfold runWithKey at h
  split at h
  case h_1 k e hrun =>
    split at h
    · split at h
      · cases h
      · exact run_ok (Prod.mk.inj h).2
    · cases h
      exact run_ok hrun
  case h_2 => exact run_ok (Prod.mk.inj h).2

/-- The only wait that ends in a frame is the one that the pending key ends. -/
theorem runWithKey_stores (hr : c.reader = none) (key : Option Int) (n : Nat) :
    (c.runWithKey key n).2.2.stores ≤ c.stores + 1 := by
  have hs := run_stores hr n
  have hd := unread_stepInvariant.run hr n
  unfold runWithKey
  split
  case h_1 k d hrun =>
    rw [hrun] at hs hd
    dsimp only at hs hd
    split
    case isTrue hw =>
      have hh := run_ok hrun
      have hk := step_key_stores (by simpa using hh) hw.1 k
      have he := unread_stepInvariant.step hd (some k)
      split
      case h_1 hstep =>
        rw [hstep] at hk
        exact hs ▸ hk
      case h_2 hstep =>
        rw [hstep] at hk he
        dsimp only at hk he
        rw [run_stores he, ← hs]
        exact hk
    case isFalse => exact Nat.le_succ_of_le (Nat.le_of_eq hs)
  case h_2 => exact Nat.le_succ_of_le (Nat.le_of_eq hs)

end Console

namespace Frontend

theorem with_pressed {h : Frontend} {key : Option Int} (hp : h.pressed = key) :
    { h with pressed := key } = h := by
  subst hp
  rfl

/-- The loop of a frame, which looks at the state before each cycle, does what runs do, which look at
the answer after it. -/
theorem cycle_eq_runWithKey (h : Frontend) (hr : h.console.reader = none)
    (hh : h.console.machine.halted = false) (n : Nat) :
    h.cycle n = match h.console.runWithKey h.pressed n with
      | (key, a, c) => (a.map (!·), { h with console := c, pressed := key }) := by
  induction n generalizing h with
  | zero =>
    rw [Console.runWithKey_zero hh]
    rfl
  | succ n ih =>
    by_cases hw : h.console.machine.waiting = true
    · rw [cycle, if_pos hw]
      cases hp : h.pressed with
      | none =>
        rw [Console.runWithKey_none, Console.run_suspended hr hh hw]
        exact congrArg (Prod.mk _) (with_pressed hp).symm
      | some k =>
        rw [Console.runWithKey_suspended hr hh hw]
        dsimp only
        have he := Console.unread_stepInvariant.step hr (some k)
        cases hs : h.console.step (some k) with
        | mk a e =>
          rw [hs] at he
          cases a with
          | error f => rfl
          | ok r =>
            have hk := hs
            rw [Console.step_suspended hh hw] at hk
            have hne : r ≠ .halted := by
              rw [(Console.storeKey_ok hk).1]
              nofun
            -- the key is used up, so the rest of the frame is a run
            exact ih { h with console := e, pressed := none } he (Console.halted_of_step hs hne)
    · rw [Bool.not_eq_true] at hw
      have he := Console.unread_stepInvariant.step hr none
      rw [cycle, if_neg (by simp [hw])]
      cases hs : h.console.step none with
      | mk a e =>
        rw [hs] at he
        rcases a with f | r
        · rw [Console.runWithKey_error hs]
          rfl
        by_cases hne : r = .halted
        · subst hne
          rw [Console.runWithKey_halted hs]
          rfl
        · rw [Console.runWithKey_succ hr hw hs hne]
          have := ih { h with console := e } he (Console.halted_of_step hs hne)
          cases r with
          | halted => exact absurd rfl hne
          | executed | waiting => exact this

theorem cycles_ofConsole (c : Console) (clock scale : Int) (fg : Ink) (screen : Option Surface) :
    ((ofConsole c clock scale fg screen).cycles : Int) = max 1 (clock / 60) := by
  simp only [ofConsole, cyclesPerFrame, frameRate]
  omega

theorem update_eq (h : Frontend) (hr : h.console.reader = none)
    (hh : h.console.machine.halted = false) :
    h.update = match h.console.runWithKey h.pressed h.cycles with
      | (key, .error f, c) => (.error f, { h with console := c, pressed := key })
      | (_, .ok true, c) => (.ok (), { h with console := c.tick, pressed := none })
      | (key, .ok false, c) =>
        (.ok (), { h with console := c.note .finished, pressed := key, running := false }) := by
  rw [update, h.cycle_eq_runWithKey hr hh]
  cases h.console.runWithKey h.pressed h.cycles with
  | mk key o =>
    rcases o with ⟨f | b, c⟩
    · rfl
    · cases b <;> rfl

/-- A frame runs the console for its cycles, with the pressed key for one wait, and ticks its timers
unless the program has halted. -/
theorem update_refines_run (h : Frontend) (hr : h.console.reader = none)
    (hh : h.console.machine.halted = false) :
    (h.update = match h.console.runWithKey h.pressed h.cycles with
      | (key, .error f, c) => (.error f, { h with console := c, pressed := key })
      | (_, .ok true, c) => (.ok (), { h with console := c.tick, pressed := none })
      | (key, .ok false, c) =>
        (.ok (), { h with console := c.note .finished, pressed := key, running := false })) ∧
    (h.update.1 = .ok () → h.update.2.console.machine.halted = true → h.update.2.running = false) ∧
    (h.update.1 = .ok () → h.update.2.console.machine.halted = false →
      h.update.2.running = h.running ∧ h.update.2.pressed = none) ∧
    h.update.2.console.stores ≤ h.console.stores + 1 ∧
    ∀ clock scale fg screen,
      ((ofConsole h.console clock scale fg screen).cycles : Int) = max 1 (clock / 60) := by
  refine ⟨h.update_eq hr hh, ?_⟩
  have hs := Console.runWithKey_stores hr h.pressed h.cycles
  rw [h.update_eq hr hh]
  cases hk : h.console.runWithKey h.pressed h.cycles with
  | mk key o =>
    rcases o with ⟨f | b, c⟩
    · rw [hk] at hs
      exact ⟨nofun, nofun, hs, cycles_ofConsole _⟩
    have hb := Console.runWithKey_ok hk
    rw [hk] at hs
    cases b with
    | false =>
      have hc : c.machine.halted = true := by simpa using hb
      refine ⟨?_, ?_, ?_, cycles_ofConsole _⟩
      · intro _ _
        rfl
      · intro _ hn
        exact absurd (hn.symm.trans hc) nofun
      · rw [← Console.stores_finished c] at hs
        exact hs
    | true =>
      have hc : c.machine.halted = false := by simpa using hb
      refine ⟨?_, ?_, hs, cycles_ofConsole _⟩
      · intro _ hn
        exact absurd (hc.symm.trans hn) nofun
      · intro _ _
        exact ⟨rfl, rfl⟩

def suspended : Frontend where
  console := {
    machine := { waiting := true, keyRegister := 7 }
    random := .stream (fun n => n) 0 }
  cycles := cyclesPerFrame 500
  scale := 12
  foreground := Color.night.ink
  screen := none
  pressed := some 20

set_option maxRecDepth 4000 in
theorem update_refines_run_suspended :
    suspended.console.reader = none ∧ suspended.console.machine.halted = false ∧
      suspended.update.1 = .ok () ∧ suspended.update.2.console.machine.v 7 = 4 ∧
      suspended.update.2.running = true ∧ suspended.update.2.pressed = none ∧
      suspended.update.2.console.stores ≤ 1 := by
  have hu : suspended.update.1 = .ok () := rfl
  have hh : suspended.update.2.console.machine.halted = false := rfl
  obtain ⟨-, -, hrest, hs, -⟩ := update_refines_run suspended rfl rfl
  obtain ⟨hrun, hp⟩ := hrest hu hh
  exact ⟨rfl, rfl, hu, rfl, hrun, hp, hs⟩

end Frontend

end Chip8

import Chip8.Proofs.History
import Chip8.Proofs.Footprint
import Chip8.Proofs.Stopping

/-! The keypad and the end of a session, as the history of a front end tells them: a key is down
when the last thing that has been done to it is a press, whatever programs have done since. -/

namespace Chip8

inductive Act
  | event (e : Event)
  | press (k : Int)
  | release (k : Int)
  | update
  | paint (g : Graphics)
  | tick

def Act.touch (k : Key) : Act → Option Bool
  | press n => if n = k.val then some true else none
  | release n => if n = k.val then some false else none
  | event (.keyDown name) => if Keyboard.key? name = some k then some true else none
  | event (.keyUp name) => if Keyboard.key? name = some k then some false else none
  | _ => none

def lastTouch (k : Key) (as : List Act) : Option Bool := as.reverse.findSome? (Act.touch k)

namespace Console

variable {c d : Console} {i : Instruction} {m : Option Moment} {key : Option Int}

theorem keypad_executes (h : Executes c m d) : d.keypad = c.keypad := by
  cases h with
  | nothing hd =>
    obtain ⟨s, w, r, t, rfl⟩ := hd
    rfl
  | refused => rfl
  | done pc t i e hp hd =>
    obtain ⟨s, w, r, u, rfl⟩ := hd
    exact (perform_footprint hp).keypad

theorem keypad_step (c : Console) (key : Option Int) : (c.step key).2.keypad = c.keypad :=
  keypad_executes (c.executes_step key)

theorem skipOnKey_unwatched (hw : c.watcher = none) (x : Register) (down : Bool) :
    c.skipOnKey x down = c.withMachine
      (c.machine.skipIf (c.keypad.isDown (Key.ofInt (c.machine.v x).toNat) == down)) := by
  simp only [skipOnKey, isKeyDown, hw]

theorem perform_unwatched (hw : c.watcher = none) (h : c.perform i = .ok d) :
    d.watcher = none := by
  by_cases hd : d.watcher = c.watcher
  · rw [hd, hw]
  rcases (perform_footprint h).watcher hd with hop | hop
  all_goals
    simp only [perform, hop, skipOnKey_unwatched hw, Except.ok.injEq] at h
    rw [← h]
    exact hw

theorem unwatched_executes (hw : c.watcher = none) (h : Executes c m d) : d.watcher = none := by
  cases h with
  | nothing hd =>
    obtain ⟨s, w, r, t, rfl⟩ := hd
    exact hw
  | refused => exact hw
  | done pc t i e hp hd =>
    have he := perform_unwatched (c := c.movedTo pc t) hw hp
    obtain ⟨s, w, r, u, rfl⟩ := hd
    exact he

theorem unwatched_step (c : Console) (key : Option Int) (hw : c.watcher = none) :
    (c.step key).2.watcher = none :=
  unwatched_executes hw (c.executes_step key)

/-- The two instructions that look at the keypad skip the next one if the key in `Vx` is as they
want it. -/
theorem step_skipOnKey (hi : c.fetch? = some i) (hw : c.watcher = none) (down : Bool)
    (hop : i.op = if down then .skipDown else .skipUp) :
    (c.step key).2.machine.pc = c.machine.pc + 2 +
      if c.keypad.isDown (Key.ofInt (c.machine.v i.x).toNat) = down then 2 else 0 := by
  have hp : (c.advance.announce i).perform i = .ok ((c.advance.announce i).skipOnKey i.x down) := by
    cases down <;> simp only [perform, hop, if_true, Bool.false_eq_true, if_false]
  rw [skipOnKey_unwatched (by exact hw), Machine.skipIf_eq] at hp
  rw [step_of_perform_awake hi hp (fetch?_eq_some_iff.1 hi).1.2]
  simp only [withMachine, beq_iff_eq]
  rfl

end Console

namespace Frontend

def act (h : Frontend) : Act → Outcome Frontend Unit
  | .event e => (.ok (), h.handle e)
  | .press k => (.ok (), { h with console := h.console.press k })
  | .release k => (.ok (), { h with console := h.console.release k })
  | .update => h.update
  | .paint g => let r := h.paint g {}; (r.1, r.2.1)
  | .tick => (.ok (), { h with console := h.console.tick })

def acts (h : Frontend) (as : List Act) : Frontend := as.foldl (fun h a => (h.act a).2) h

def Ends (h : Frontend) (a : Act) : Prop :=
  (∃ e : Event, a = .event e ∧ e.Stops) ∨
    a = .update ∧ h.console.machine.halted = false ∧ h.update.2.console.machine.halted = true

variable {h : Frontend} {a : Act} {as : List Act}

theorem paint_eq (g : Graphics) (h : Frontend) (s : Showing) :
    ∃ t, (h.paint g s).2.1 = { h with screen := t } := by
  unfold paint
  split
  · exact ⟨h.screen, rfl⟩
  · split
    · exact ⟨h.screen, rfl⟩
    · split
      · exact ⟨h.screen, rfl⟩
      · split <;> exact ⟨_, rfl⟩

/-- What steps and ticks keep, and does not lie in the trace, frames keep. -/
theorem update_keeps {P : Console → Prop} (hs : ∀ c key, P c → P (c.step key).2)
    (hn : ∀ c, P c → P (c.note .finished)) (ht : ∀ c, P c → P c.tick) (hc : P h.console) :
    P h.update.2.console := by
  have hcycle := h.cycle_keeps hs hc h.cycles
  rw [update]
  cases hy : h.cycle h.cycles with
  | mk r g =>
    rw [hy] at hcycle
    rcases r with f | b
    · exact hcycle
    · cases b with
      | true => exact hn _ hcycle
      | false => exact ht _ hcycle

theorem isDown_handle (h : Frontend) (e : Event) (k : Key) :
    (h.handle e).console.keypad.isDown k =
      ((Act.event e).touch k).getD (h.console.keypad.isDown k) := by
  cases e with
  | quit | other => rfl
  | keyDown name =>
    by_cases hn : name = Keyboard.escape
    · subst hn
      rfl
    · rw [handle, if_neg hn, Act.touch]
      cases Keyboard.key? name with
      | none => rfl
      | some j =>
        refine (Keypad.isDown_put_key _ j true k).trans ?_
        simp only [Option.some.injEq]
        split <;> rfl
  | keyUp name =>
    rw [handle, Act.touch]
    cases Keyboard.key? name with
    | none => rfl
    | some j =>
      refine (Keypad.isDown_put_key _ j false k).trans ?_
      simp only [Option.some.injEq]
      split <;> rfl

/-- A key is changed by the acts that touch it, and by no others. -/
theorem isDown_act (h : Frontend) (a : Act) (k : Key) :
    (h.act a).2.console.keypad.isDown k = (a.touch k).getD (h.console.keypad.isDown k) := by
  cases a with
  | event e => exact h.isDown_handle e k
  | press n =>
    refine (Keypad.isDown_put _ n true k).trans ?_
    rw [Act.touch]
    split <;> rfl
  | release n =>
    refine (Keypad.isDown_put _ n false k).trans ?_
    rw [Act.touch]
    split <;> rfl
  | update =>
    have hk : h.update.2.console.keypad = h.console.keypad :=
      update_keeps (P := fun c => c.keypad = h.console.keypad)
        (fun c key hc => (c.keypad_step key).trans hc) (fun _ hc => hc) (fun _ hc => hc) rfl
    rw [act, hk]
    rfl
  | paint g =>
    obtain ⟨s, hs⟩ := h.paint_eq g {}
    rw [act, hs]
    rfl
  | tick => rfl

theorem isDown_acts (h : Frontend) (as : List Act) (k : Key) :
    (h.acts as).console.keypad.isDown k = (lastTouch k as).getD (h.console.keypad.isDown k) := by
  induction as generalizing h with
  | nil => rfl
  | cons a as ih =>
    have hl : lastTouch k (a :: as) = (lastTouch k as).or (a.touch k) := by
      simp only [lastTouch, List.reverse_cons, List.findSome?_append, List.findSome?_singleton]
    rw [acts, List.foldl_cons, ← acts, ih, isDown_act, hl, Option.getD_or]

theorem keypad_of_untouched (ha : ∀ k, a.touch k = none) :
    (h.act a).2.console.keypad = h.console.keypad := by
  apply Keypad.ext_isDown
  intro k
  rw [isDown_act, ha]
  rfl

theorem unwatched_act (hw : h.console.watcher = none) (a : Act) :
    (h.act a).2.console.watcher = none := by
  cases a with
  | event e =>
    obtain ⟨k, p, r, he⟩ := h.handle_eq e
    rw [act, he]
    exact hw
  | update =>
    exact update_keeps (P := fun c => c.watcher = none) Console.unwatched_step (fun _ hc => hc)
      (fun _ hc => hc) hw
  | paint g =>
    obtain ⟨s, hs⟩ := h.paint_eq g {}
    rw [act, hs]
    exact hw
  | press | release | tick => exact hw

theorem unwatched_acts (hw : h.console.watcher = none) (as : List Act) :
    (h.acts as).console.watcher = none := by
  induction as generalizing h with
  | nil => exact hw
  | cons a as ih => exact ih (unwatched_act hw a)

/-- The cycles of a frame tell that they have halted the program, and never that it had halted
before. -/
theorem cycle_halts_iff (h : Frontend) (n : Nat) :
    (h.cycle n).1 = .ok true ↔
      h.console.machine.halted = false ∧ (h.cycle n).2.console.machine.halted = true := by
  cases hh : h.console.machine.halted with
  | true =>
    have hn : (h.cycle n).1 ≠ .ok true := by
      cases n with
      | zero => nofun
      | succ n =>
        have hr := h.round n
        generalize h.cycle (n + 1) = o, h.calls (n + 1) = ds at hr
        cases hr with
        | idle | failed => nofun
        | halted c hs | answered _ _ c _ _ hs | stepped _ c _ hs =>
          rw [Console.step_halted hh] at hs
          cases hs
    simp [hn]
  | false =>
    cases hc : h.cycle n with
    | mk r g =>
      rcases r with f | b
      · obtain ⟨c, key, -, hn, hs⟩ :=
          cycle_fault (P := fun _ => True) ⟨fun _ _ => trivial, fun _ => trivial, fun _ _ => trivial,
            fun _ _ => trivial, fun _ => trivial⟩ trivial hh hc
        have hg := (Console.step_error_halted hs).trans hn
        simp [hg]
      · have hb := cycle_ok (b := b) hh (congrArg Prod.fst hc)
        rw [hc] at hb
        simp [hb]

theorem update_ends_iff (h : Frontend) : h.Ends .update ↔ (h.cycle h.cycles).1 = .ok true := by
  have hu : h.update.2.console.machine.halted = (h.cycle h.cycles).2.console.machine.halted := by
    rw [update]
    split <;> rename_i hc <;> rw [hc] <;> rfl
  rw [cycle_halts_iff, Ends, hu]
  simp

theorem act_running (h : Frontend) (a : Act) :
    (h.act a).2.running = true ↔ h.running = true ∧ ¬ h.Ends a := by
  cases a with
  | event e =>
    have he : h.Ends (.event e) ↔ e.Stops := by simp [Ends]
    rw [he]
    exact h.handle_running e
  | update =>
    obtain ⟨c, p, hc⟩ := h.cycle_eq h.cycles
    rw [update_ends_iff, act, update]
    cases hy : h.cycle h.cycles with
    | mk r g =>
      rw [hy] at hc
      dsimp only at hc
      subst hc
      rcases r with f | b
      · simp
      · cases b <;> simp
  | paint g =>
    obtain ⟨s, hs⟩ := h.paint_eq g {}
    rw [act, hs]
    simp [Ends]
  | press | release | tick => simp [act, Ends]

theorem acts_append (h : Frontend) (as bs : List Act) : h.acts (as ++ bs) = (h.acts as).acts bs :=
  List.foldl_append

theorem acts_stopped (hr : h.running = false) (as : List Act) : (h.acts as).running = false := by
  induction as generalizing h with
  | nil => exact hr
  | cons a as ih =>
    refine ih ?_
    rw [← Bool.not_eq_true, act_running, hr]
    simp

/-- A session that is going on is over when an act has ended it. -/
theorem acts_running_iff (hr : h.running = true) (as : List Act) :
    (h.acts as).running = false ↔ ∃ bs a cs, as = bs ++ a :: cs ∧ (h.acts bs).Ends a := by
  induction as generalizing h with
  | nil => simp [acts, hr]
  | cons a as ih =>
    have ha := h.act_running a
    by_cases he : h.Ends a
    · have hf : (h.act a).2.running = false := by
        rw [← Bool.not_eq_true, ha]
        exact fun hn => hn.2 he
      exact iff_of_true (acts_stopped hf as) ⟨[], a, as, rfl, he⟩
    · refine (ih (ha.2 ⟨hr, he⟩)).trans ⟨?_, ?_⟩
      · rintro ⟨bs, b, cs, rfl, hb⟩
        exact ⟨a :: bs, b, cs, rfl, hb⟩
      · rintro ⟨bs, b, cs, hs, hb⟩
        cases bs with
        | nil =>
          cases hs
          exact absurd hb he
        | cons d bs =>
          cases hs
          exact ⟨bs, b, cs, rfl, hb⟩

/-- What steps keep holds between the cycles of a frame. -/
theorem midway_keeps {P : Console → Prop} (hs : ∀ c key, P c → P (c.step key).2)
    (hc : P h.console) (j : Nat) : P (h.midway j) := by
  obtain ⟨keys, hk⟩ := h.exists_calls_eq h.cycles
  rw [midway, Console.midway, hk, ← List.map_take]
  exact Console.after_steps hs hc _

theorem midway_succ {j : Nat} (hj : j < (h.calls h.cycles).length) :
    ∃ key, h.midway (j + 1) = ((h.midway j).step key).2 := by
  obtain ⟨keys, hk⟩ := h.exists_calls_eq h.cycles
  rw [hk, List.length_map] at hj
  refine ⟨keys[j], ?_⟩
  rw [midway, midway, Console.midway, Console.midway, hk, List.take_succ_eq_append_getElem (by simpa),
    Console.after_append, List.getElem_map]
  rfl

/-- In a frame, too, programs see the keypad as it was before. -/
theorem skip_midway {i : Instruction} {j : Nat} (hw : h.console.watcher = none)
    (hj : j < (h.calls h.cycles).length) (hi : (h.midway j).fetch? = some i) (down : Bool)
    (hop : i.op = if down then .skipDown else .skipUp) :
    (h.midway (j + 1)).machine.pc = (h.midway j).machine.pc + 2 +
      if h.console.keypad.isDown (Key.ofInt ((h.midway j).machine.v i.x).toNat) = down
        then 2 else 0 := by
  obtain ⟨key, hs⟩ := midway_succ hj
  have hk : (h.midway j).keypad = h.console.keypad :=
    midway_keeps (P := fun c => c.keypad = h.console.keypad)
      (fun c key hc => (c.keypad_step key).trans hc) rfl j
  have hw' : (h.midway j).watcher = none :=
    midway_keeps (P := fun c => c.watcher = none) Console.unwatched_step hw j
  rw [hs, Console.step_skipOnKey hi hw' down hop, hk]

/-- From power-on, the keypad is what the history says, and programs that look at it see that; the
front end stops when the user leaves or the program halts, and then for good. -/
theorem keys_tell_history (s : Console.Setup) (h : Frontend)
    (hb : Console.boot s = .ok h.console) (hr : h.running = true) :
    (∀ as k, (h.acts as).console.keypad.isDown k = true ↔ lastTouch k as = some true) ∧
    (∀ as a, (∀ k, a.touch k = none) →
      ((h.acts as).act a).2.console.keypad = (h.acts as).console.keypad) ∧
    (∀ (c d : Console) i, c.perform i = .ok d → d.keypad = c.keypad) ∧
    (s.watcher = none → ∀ as j i k,
      j < ((h.acts as).calls (h.acts as).cycles).length → ((h.acts as).midway j).fetch? = some i →
      k = Key.ofInt (((h.acts as).midway j).machine.v i.x).toNat →
      (i.op = .skipDown → ((h.acts as).midway (j + 1)).machine.pc =
        ((h.acts as).midway j).machine.pc + 2 + if lastTouch k as = some true then 2 else 0) ∧
      (i.op = .skipUp → ((h.acts as).midway (j + 1)).machine.pc =
        ((h.acts as).midway j).machine.pc + 2 + if lastTouch k as = some true then 0 else 2)) ∧
    (∀ as, (h.acts as).running = false ↔
      ∃ bs a cs, as = bs ++ a :: cs ∧ (h.acts bs).Ends a) ∧
    ∀ as bs, (h.acts as).running = false → (h.acts (as ++ bs)).running = false := by
  obtain ⟨t, hc⟩ := Console.eq_of_boot hb
  have hdown (as : List Act) (k : Key) :
      (h.acts as).console.keypad.isDown k = true ↔ lastTouch k as = some true := by
    have hk : h.console.keypad.isDown k = false := by
      rw [hc]
      exact Keypad.isDown_released k
    rw [isDown_acts, hk]
    cases lastTouch k as <;> simp
  refine ⟨hdown, fun as a => keypad_of_untouched, fun c d i hp => (Console.perform_footprint hp).keypad,
    fun hw as j i k hj hi hk => ?_, acts_running_iff hr, fun as bs hs => ?_⟩
  · have hw' : (h.acts as).console.watcher = none := by
      refine unwatched_acts ?_ as
      rw [hc]
      exact hw
    have hskip := skip_midway hw' hj hi
    rw [← hk] at hskip
    refine ⟨fun hop => ?_, fun hop => ?_⟩
    · simp only [hskip true hop, hdown]
    · simp only [hskip false hop, ← Bool.not_eq_true, hdown, ite_not]
  · rw [acts_append]
    exact acts_stopped hs bs

def heeding : Console.Setup where
  program := [0xE1, 0x9E, 0x12, 0x00, 0x00, 0xEE]
  random := .stream (fun n => n) 0

def heeded : Frontend := .ofConsole {
    machine := {
      memory := (Memory.blank.writeBlock 0 Font.bytes).writeBlock 0x200 heeding.program }
    random := heeding.random } 120 12 Color.night.ink none

set_option maxRecDepth 4000 in
theorem keys_tell_history_heeding :
    Console.boot heeding = .ok heeded.console ∧ heeded.running = true ∧
      (heeded.acts [.press 0, .event (.keyDown "q"), .event (.keyUp "x")]).console.keypad.isDown
        (.ofInt 0) = false ∧
      ((heeded.acts [.update, .event (.keyDown "x"), .release 16]).midway 1).machine.pc = 0x204 ∧
      (heeded.acts [.update, .event (.keyDown "x"), .update, .press 3]).running = false := by
  have hb : Console.boot heeding = .ok heeded.console := rfl
  obtain ⟨hdown, -, -, hskip, hend, -⟩ := keys_tell_history heeding heeded hb rfl
  refine ⟨hb, rfl, ?_, ?_, ?_⟩
  · rw [← Bool.not_eq_true, hdown]
    decide
  · exact (hskip rfl [.update, .event (.keyDown "x"), .release 16] 0 (.ofWord 0xE19E) (.ofInt 0)
      (by decide) rfl rfl).1 rfl
  · rw [hend]
    exact ⟨[.update, .event (.keyDown "x")], .update, [.press 3], rfl, .inr ⟨rfl, rfl, rfl⟩⟩

end Frontend

end Chip8

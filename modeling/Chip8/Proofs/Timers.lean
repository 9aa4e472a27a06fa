import Chip8.Proofs.Bounds
import Chip8.Proofs.Footprint
import Chip8.Proofs.History
import Chip8.Proofs.Stopping

/-! The timers as their history tells them: each stands at what it has last been set to, less the
ticks since then. -/

namespace Chip8

inductive Beat
  | tick
  | executed (m : Moment)

def Beat.isTick : Beat → Bool
  | tick => true
  | executed _ => false

inductive Timer
  | delay | sound

namespace Timer

def reading : Timer → Machine → Int
  | delay, m => m.delay
  | sound, m => m.sound

def setter : Timer → Opcode
  | delay => .setDelay
  | sound => .setSound

def setting? (t : Timer) : Beat → Option Nat
  | .tick => none
  | .executed m =>
    if m.instruction.op = t.setter then some (m.machine.v m.instruction.x).toNat else none

def beat (t : Timer) (n : Int) (b : Beat) : Int :=
  match t.setting? b with
  | some v => v
  | none => if b.isTick then Machine.countDown n else n

def lastSet (t : Timer) (h : List Beat) : Nat := (h.reverse.findSome? t.setting?).getD 0

def ticksSince (t : Timer) (h : List Beat) : Nat :=
  (h.reverse.takeWhile fun b => (t.setting? b).isNone).countP Beat.isTick

def due (t : Timer) (h : List Beat) : Int := max 0 ((t.lastSet h : Int) - t.ticksSince h)

variable {t : Timer}

/-- Here the latest beat comes first, so the induction meets it last. -/
theorem foldr_beat (l : List Beat) :
    l.foldr (fun b n => t.beat n b) 0 =
      max 0 (((l.findSome? t.setting?).getD 0 : Nat) -
        ((l.takeWhile fun b => (t.setting? b).isNone).countP Beat.isTick : Nat) : Int) := by
  induction l with
  | nil => rfl
  | cons b l ih =>
    rw [List.foldr_cons, ih, beat]
    cases hb : t.setting? b with
    | some v =>
      rw [List.findSome?_cons_of_isSome (by simp [hb]), List.takeWhile_cons_of_neg (by simp [hb])]
      simp [hb]
    | none =>
      rw [List.findSome?_cons_of_isNone (by simp [hb]), List.takeWhile_cons_of_pos (by simp [hb]),
        List.countP_cons]
      cases b with
      | tick =>
        simp only [Beat.isTick, if_true, Machine.countDown]
        omega
      | executed m => simp [Beat.isTick]

theorem foldl_beat (h : List Beat) : h.foldl t.beat 0 = t.due h := by
  rw [← List.foldr_reverse, foldr_beat]
  rfl

theorem countP_takeWhile_executed (l : List Moment) (h : List Beat) :
    ((l.map Beat.executed ++ h).takeWhile fun b => (t.setting? b).isNone).countP Beat.isTick =
      if l.any (·.instruction.op = t.setter) then 0
      else (h.takeWhile fun b => (t.setting? b).isNone).countP Beat.isTick := by
  induction l with
  | nil => rfl
  | cons m l ih =>
    rw [List.map_cons, List.cons_append]
    by_cases hop : m.instruction.op = t.setter
    · rw [List.takeWhile_cons_of_neg (by simp [setting?, hop])]
      simp [hop]
    · rw [List.takeWhile_cons_of_pos (by simp [setting?, hop]),
        List.countP_cons_of_neg (by simp [Beat.isTick]), ih]
      simp [hop]

/-- A tick after instructions is one more, unless the timer has been set by them. -/
theorem ticksSince_append (h : List Beat) (l : List Moment) :
    t.ticksSince (h ++ (l.map Beat.executed ++ [.tick])) =
      (if l.any (·.instruction.op = t.setter) then 0 else t.ticksSince h) + 1 := by
  have hr : (h ++ (l.map Beat.executed ++ [Beat.tick])).reverse =
      Beat.tick :: (l.reverse.map Beat.executed ++ h.reverse) := by simp
  rw [ticksSince, hr, List.takeWhile_cons_of_pos rfl, List.countP_cons_of_pos rfl,
    countP_takeWhile_executed, List.any_reverse]
  rfl

end Timer

namespace Console

def beat? (c : Console) : Command → Option Beat
  | .tick => some .tick
  | e => (c.moment? e).map .executed

def beats (c : Console) : List Command → List Beat
  | [] => []
  | e :: es => (c.beat? e).toList ++ (c.apply e).2.beats es

def pulse (c : Console) (ds : List Command) : List Beat := c.beats (c.unrolled ds)

variable {c d : Console} {i : Instruction} {e : Command} {t : Timer}

theorem reading_upToKey (h : UpToKey c d) : t.reading d.machine = t.reading c.machine := by
  obtain ⟨s, w, r, u, rfl⟩ := h
  cases t <;> rfl

theorem reading_perform (h : c.perform i = .ok d) :
    t.reading d.machine = t.beat (t.reading c.machine) (.executed ⟨c.machine, i⟩) := by
  rw [Timer.beat, Timer.setting?]
  by_cases hop : i.op = t.setter
  · rw [if_pos hop]
    cases t
    all_goals
      simp only [Timer.setter] at hop
      simp only [perform, hop, Except.ok.injEq] at h
      rw [← h]
      rfl
  · rw [if_neg hop]
    have hf := perform_footprint h
    cases t with
    | delay => exact Decidable.by_contra fun hn => hop (hf.delay hn)
    | sound => exact Decidable.by_contra fun hn => hop (hf.sound hn)

/-- What is refused sets no timer. -/
theorem setting?_of_refused {f : Fault} (h : c.perform i = .error f) :
    t.setting? (.executed ⟨c.machine, i⟩) = none := by
  have hop : i.op ≠ t.setter := by
    rcases perform_eq_error_iff.1 h with ⟨hop, -⟩ | ⟨hop, -⟩ <;> cases t <;>
      simp [hop, Timer.setter]
  exact if_neg hop

theorem reading_executes {m : Option Moment} (h : Executes c m d) :
    t.reading d.machine = (m.map Beat.executed).toList.foldl t.beat (t.reading c.machine) := by
  have hm (pc : Int) (u : List Record) :
      t.reading (c.movedTo pc u).machine = t.reading c.machine := by
    cases t <;> rfl
  cases h with
  | nothing hd => exact reading_upToKey hd
  | refused pc u i f hp =>
    simp only [Option.map_some, Option.toList_some, List.foldl_cons, List.foldl_nil, Timer.beat,
      setting?_of_refused hp]
    exact hm pc u
  | done pc u i e hp hd =>
    rw [reading_upToKey hd, reading_perform hp, hm]
    rfl

theorem reading_apply (hr : ∀ n, e ≠ .run n) :
    t.reading (c.apply e).2.machine = (c.beat? e).toList.foldl t.beat (t.reading c.machine) := by
  cases e with
  | step key => exact reading_executes (c.executes_step key)
  | execute w => exact reading_executes (c.executes_execute w)
  | run n => exact absurd rfl (hr n)
  | tick => cases t <;> rfl
  | press | release | seen => cases t <;> rfl

theorem reading_beats (c : Console) (ds : List Command) (hd : ∀ n, .run n ∉ ds) :
    t.reading (c.after ds).machine = (c.beats ds).foldl t.beat (t.reading c.machine) := by
  induction ds generalizing c with
  | nil => rfl
  | cons e es ih =>
    rw [after, beats, List.foldl_append, ← reading_apply fun n hn => hd n (hn ▸ List.mem_cons_self)]
    exact ih _ fun n hn => hd n (List.mem_cons_of_mem e hn)

/-- A timer that starts at zero stands at what its history says. -/
theorem reading_after (h : t.reading c.machine = 0) (ds : List Command) :
    t.reading (c.after ds).machine = t.due (c.pulse ds) := by
  rw [← after_unrolled, reading_beats _ _ (c.run_not_mem_unrolled ds), h, Timer.foldl_beat]
  rfl

theorem perform_readDelay {b : UInt8} (hop : i.op = .readDelay)
    (hb : byte? c.machine.delay = some b) :
    c.perform i = .ok (c.withMachine (c.machine.setV i.x b)) := by
  simp only [perform, hop, Registers.store_register, hb]
  rfl

theorem apply_readDelay {m : Moment} (hm : c.moment? e = some m)
    (hop : m.instruction.op = .readDelay) (hd : 0 ≤ c.machine.delay ∧ c.machine.delay ≤ 255) :
    (∃ r, (c.apply e).1 = .ok r) ∧
      (((c.apply e).2.machine.v m.instruction.x).toNat : Int) = c.machine.delay := by
  obtain ⟨b, hb⟩ := Option.ne_none_iff_exists'.1 (mt byte?_eq_none_iff.1 (not_not_intro hd))
  have hv (n : Machine) (x : Register) : ((n.setV x b).v x).toNat = c.machine.delay := by
    rw [Machine.v_setV, if_pos rfl]
    exact byte?_eq_some hb
  cases e with
  | step key =>
    obtain ⟨i, hi, rfl⟩ := Option.map_eq_some_iff.1 hm
    have hp := perform_readDelay (c := c.advance.announce i) hop hb
    simp only [apply, step_of_perform_awake hi hp (fetch?_eq_some_iff.1 hi).1.2]
    exact ⟨⟨_, rfl⟩, hv _ _⟩
  | execute w =>
    obtain ⟨i, hi, rfl⟩ := Option.map_eq_some_iff.1 hm
    have hw : Instruction.decode w = .ok i := by
      cases hd : Instruction.decode w with
      | error f => simp [hd, Except.toOption] at hi
      | ok j => simpa [hd, Except.toOption] using hi
    have hp := perform_readDelay (c := c.announce i) hop hb
    simp only [apply, execute_decoded hw, hp]
    exact ⟨⟨_, rfl⟩, hv _ _⟩
  | run | tick | press | release | seen => cases hm

theorem unrolled_eq_self (c : Console) {ds : List Command} (hd : ∀ n, .run n ∉ ds) :
    c.unrolled ds = ds := by
  induction ds generalizing c with
  | nil => rfl
  | cons e es ih =>
    rw [unrolled, ih _ fun n hn => hd n (List.mem_cons_of_mem e hn)]
    cases e with
    | run n => exact absurd List.mem_cons_self (hd n)
    | _ => rfl

theorem beats_append (c : Console) (ds es : List Command) :
    c.beats (ds ++ es) = c.beats ds ++ (c.after ds).beats es := by
  induction ds generalizing c with
  | nil => rfl
  | cons d ds ih => rw [List.cons_append, beats, beats, ih, List.append_assoc, after]

theorem beats_steps (c : Console) (keys : List (Option Int)) :
    c.beats (keys.map .step) = (c.moments (keys.map .step)).map .executed := by
  induction keys generalizing c with
  | nil => rfl
  | cons key keys ih =>
    have hb : c.beat? (.step key) = (c.moment? (.step key)).map .executed := rfl
    rw [List.map_cons, beats, moments, List.map_append, ih, hb]
    cases c.moment? (.step key) <;> rfl

end Console

def Event.command? : Event → Option Command
  | .keyDown name =>
    if name = Keyboard.escape then none else (Keyboard.key? name).map fun k => .press k.val
  | .keyUp name => (Keyboard.key? name).map fun k => .release k.val
  | _ => none

theorem Event.command?_cases (e : Event) :
    e.command? = none ∨ (∃ k, e.command? = some (.press k)) ∨
      ∃ k, e.command? = some (.release k) := by
  cases e with
  | quit | other => exact .inl rfl
  | keyDown name =>
    rw [command?]
    split
    · exact .inl rfl
    · cases Keyboard.key? name with
      | none => exact .inl rfl
      | some k => exact .inr (.inl ⟨_, rfl⟩)
  | keyUp name =>
    rw [command?]
    cases Keyboard.key? name with
    | none => exact .inl rfl
    | some k => exact .inr (.inr ⟨_, rfl⟩)

namespace Frontend

def frameCalls (h : Frontend) (es : List Event) : List Command :=
  es.filterMap Event.command? ++ ((h.receive es).calls h.cycles ++ [.tick])

def scriptCalls (h : Frontend) : List (List Event) → List Command
  | [] => []
  | es :: fs => h.frameCalls es ++ (h.frame es).2.scriptCalls fs

def executed (h : Frontend) (es : List Event) : List Moment :=
  (h.receive es).console.moments ((h.receive es).calls h.cycles)

variable {h : Frontend} {es : List Event} {fs : List (List Event)}

theorem handle_console (h : Frontend) (e : Event) :
    (h.handle e).console = h.console.after e.command?.toList := by
  cases e with
  | quit | other => rfl
  | keyDown name =>
    rw [handle, Event.command?]
    split
    · rfl
    · cases Keyboard.key? name <;> rfl
  | keyUp name =>
    rw [handle, Event.command?]
    cases Keyboard.key? name <;> rfl

theorem receive_console (h : Frontend) (es : List Event) :
    (h.receive es).console = h.console.after (es.filterMap Event.command?) := by
  induction es generalizing h with
  | nil => rfl
  | cons e es ih =>
    rw [receive, List.foldl_cons, ← receive, ih, handle_console, ← Console.after_append]
    cases hc : e.command? <;> simp [hc]

theorem run_not_mem_frameCalls (h : Frontend) (es : List Event) (n : Int) :
    .run n ∉ h.frameCalls es := by
  obtain ⟨keys, hk⟩ := (h.receive es).exists_calls_eq h.cycles
  rw [frameCalls, hk, List.mem_append, not_or]
  refine ⟨fun hm => ?_, by simp⟩
  obtain ⟨e, -, he⟩ := List.mem_filterMap.1 hm
  rcases e.command?_cases with hn | ⟨k, hn⟩ | ⟨k, hn⟩ <;> cases hn.symm.trans he

theorem run_not_mem_scriptCalls (h : Frontend) (fs : List (List Event)) (n : Int) :
    .run n ∉ h.scriptCalls fs := by
  induction fs generalizing h with
  | nil => exact List.not_mem_nil
  | cons es fs ih =>
    rw [scriptCalls, List.mem_append, not_or]
    exact ⟨h.run_not_mem_frameCalls es n, ih _⟩

theorem scriptCalls_concat (h : Frontend) (fs : List (List Event)) (es : List Event) :
    h.scriptCalls (fs ++ [es]) = h.scriptCalls fs ++ (h.frames fs).frameCalls es := by
  induction fs generalizing h with
  | nil => exact List.append_nil _
  | cons e fs ih =>
    rw [List.cons_append, scriptCalls, ih, scriptCalls, List.append_assoc]
    rfl

/-- Keys are none of a timer's business. -/
theorem beats_events (c : Console) (es : List Event) :
    c.beats (es.filterMap Event.command?) = [] := by
  induction es generalizing c with
  | nil => rfl
  | cons e es ih =>
    rcases e.command?_cases with hn | ⟨k, hn⟩ | ⟨k, hn⟩
    · rw [List.filterMap_cons_none hn, ih]
    · rw [List.filterMap_cons_some hn, Console.beats, ih]
      rfl
    · rw [List.filterMap_cons_some hn, Console.beats, ih]
      rfl

/-- In a frame the timers are ticked once, after its instructions. -/
theorem beats_frameCalls (h : Frontend) (es : List Event) :
    h.console.beats (h.frameCalls es) = (h.executed es).map .executed ++ [.tick] := by
  obtain ⟨keys, hk⟩ := (h.receive es).exists_calls_eq h.cycles
  rw [frameCalls, Console.beats_append, beats_events, List.nil_append, ← receive_console,
    Console.beats_append, executed, hk, Console.beats_steps]
  rfl

/-- A frame that neither fails nor halts the program makes its calls, and forgets its key. -/
theorem frame_smooth (hh : h.console.machine.halted = false) (hok : (h.frame es).1 = .ok ())
    (hn : (h.frame es).2.console.machine.halted = false) :
    (h.frame es).2.console = h.console.after (h.frameCalls es) ∧ (h.frame es).2.pressed = none := by
  have hs : h.spent es = (h.receive es).console.after ((h.receive es).calls h.cycles) :=
    (h.receive es).cycle_console h.cycles
  have hc := h.close hh es
  generalize h.frame es = o at hc hok hn
  cases hc with
  | failed => cases hok
  | halted key _ hd => exact absurd (hd.symm.trans hn) nofun
  | done =>
    refine ⟨?_, rfl⟩
    rw [frameCalls, Console.after_append, ← receive_console, Console.after_append, ← hs]
    rfl

theorem frames_smooth (hh : h.console.machine.halted = false) (hp : h.pressed = none)
    (hs : h.Smooth fs) :
    (h.frames fs).console = h.console.after (h.scriptCalls fs) ∧ (h.frames fs).pressed = none := by
  induction fs generalizing h with
  | nil => exact ⟨rfl, hp⟩
  | cons es fs ih =>
    obtain ⟨hc, hp'⟩ := frame_smooth hh hs.1 hs.2.1
    rw [scriptCalls, Console.after_append, ← hc]
    exact ih hs.2.1 hp' hs.2.2

theorem Smooth.of_append {gs : List (List Event)} (hs : h.Smooth (fs ++ gs)) : h.Smooth fs := by
  induction fs generalizing h with
  | nil => trivial
  | cons es fs ih => exact ⟨hs.1, hs.2.1, ih hs.2.2⟩

/-- A program that waits is not moved on by a frame without a key. -/
theorem executed_waiting (hw : h.console.machine.waiting = true) (hp : h.pressed = none)
    (he : lastPress es = none) : h.executed es = [] := by
  have hw' : (h.receive es).console.machine.waiting = true := by rw [receive_machine, hw]
  have hp' : (h.receive es).pressed = none := by rw [receive_pressed, he, hp]; rfl
  rw [executed]
  cases h.cycles with
  | zero => rfl
  | succ n => rw [calls, if_pos hw', hp']; rfl

end Frontend

namespace Console

/-- From power-on the timers stand at what they have last been set to, less the ticks since then,
and that is what programs read. A front end ticks them once in each frame. -/
theorem timers_tell_history (s : Setup) (c : Console) (hb : boot s = .ok c) :
    (∀ ds (t : Timer), t.reading (c.after ds).machine = t.due (c.pulse ds)) ∧
    (∀ ds, (c.after ds).machine.sounding = true ↔
      Timer.sound.ticksSince (c.pulse ds) < Timer.sound.lastSet (c.pulse ds)) ∧
    (∀ ds e m, (c.after ds).moment? e = some m → m.instruction.op = .readDelay →
      (∃ r, ((c.after ds).apply e).1 = .ok r) ∧
      ((((c.after ds).apply e).2.machine.v m.instruction.x).toNat : Int) =
        Timer.delay.due (c.pulse ds)) ∧
    ∀ h : Frontend, h.console = c → h.pressed = none →
      (∀ fs, h.Smooth fs → (h.frames fs).console = c.after (h.scriptCalls fs)) ∧
      ∀ fs es, h.Smooth (fs ++ [es]) →
        (∀ t : Timer, t.ticksSince (c.pulse (h.scriptCalls (fs ++ [es]))) =
          (if ((h.frames fs).executed es).any (·.instruction.op = t.setter) then 0
            else t.ticksSince (c.pulse (h.scriptCalls fs))) + 1) ∧
        ((h.frames fs).console.machine.waiting = true → lastPress es = none →
          (h.frames fs).executed es = []) := by
  obtain ⟨u, hc⟩ := eq_of_boot hb
  have hz (t : Timer) : t.reading c.machine = 0 := by rw [hc]; cases t <;> rfl
  have hm : c.machine.Bounded := by rw [hc]; exact start_bounded u _
  have hh : c.machine.halted = false := by rw [hc]
  refine ⟨fun ds t => reading_after (hz t) ds, fun ds => ?_, fun ds e m hm' hop => ?_, ?_⟩
  · have hs : (c.after ds).machine.sound = Timer.sound.due (c.pulse ds) :=
      reading_after (t := .sound) (hz _) ds
    rw [Machine.sounding, hs, Timer.due, decide_eq_true_eq]
    omega
  · rw [← reading_after (t := .delay) (hz _) ds]
    exact apply_readDelay hm' hop (bounded_invariant.after hm ds).delay
  · rintro h rfl hp
    refine ⟨fun fs hs => (Frontend.frames_smooth hh hp hs).1, fun fs es hs => ?_⟩
    obtain ⟨hfc, hfp⟩ := Frontend.frames_smooth hh hp hs.of_append
    refine ⟨fun t => ?_, fun hw he => Frontend.executed_waiting hw hfp he⟩
    have hrun (fs : List (List Event)) := h.console.unrolled_eq_self (h.run_not_mem_scriptCalls fs)
    rw [pulse, pulse, hrun, hrun, Frontend.scriptCalls_concat, beats_append, ← hfc,
      Frontend.beats_frameCalls, Timer.ticksSince_append]

def timing : Setup where
  program := [0x6A, 0x05, 0xFA, 0x15, 0xFA, 0x18, 0xF1, 0x0A, 0xF2, 0x07, 0x12, 0x0A]
  random := .stream (fun n => n) 0

def timed : Console where
  machine := {
    memory := (Memory.blank.writeBlock 0 Font.bytes).writeBlock 0x200 timing.program }
  random := timing.random

def timedHost : Frontend := .ofConsole timed 500 12 Color.night.ink none

set_option maxRecDepth 4000 in
theorem timers_tell_history_timing :
    boot timing = .ok timed ∧
      ((timed.after [.run 4, .tick, .tick, .step (some 3), .step none]).machine.v 2).toNat = 3 ∧
      (timed.after [.run 4, .tick, .tick, .tick, .tick, .tick]).machine.sounding = false ∧
      timedHost.Smooth [[], [.keyUp "q"]] ∧
      (timedHost.frames [[], [.keyUp "q"]]).console.machine.delay = 3 ∧
      (timedHost.frames [[]]).executed [.keyUp "q"] = [] := by
  have hb : boot timing = .ok timed := rfl
  obtain ⟨hreading, hsounding, hread, hhost⟩ := timers_tell_history timing timed hb
  obtain ⟨hconsole, hframe⟩ := hhost timedHost rfl rfl
  have hs : timedHost.Smooth ([[]] ++ [[.keyUp "q"]]) := ⟨rfl, rfl, rfl, rfl, trivial⟩
  have hdue :
      Timer.delay.due (timed.pulse [.run 4, .tick, .tick, .step (some 3)]) = 3 ∧
      ¬ Timer.sound.ticksSince (timed.pulse [.run 4, .tick, .tick, .tick, .tick, .tick]) <
        Timer.sound.lastSet (timed.pulse [.run 4, .tick, .tick, .tick, .tick, .tick]) ∧
      Timer.delay.due (timed.pulse (timedHost.scriptCalls [[], [.keyUp "q"]])) = 3 := by
    decide +kernel
  obtain ⟨-, hv⟩ := hread [.run 4, .tick, .tick, .step (some 3)] (.step none)
    ⟨_, .ofWord 0xF207⟩ rfl rfl
  refine ⟨hb, Int.ofNat.inj (hv.trans hdue.1), ?_, hs, ?_, (hframe [[]] _ hs).2 rfl rfl⟩
  · rw [← Bool.not_eq_true, hsounding]
    exact hdue.2.1
  · rw [hconsole [[], [.keyUp "q"]] hs]
    exact (hreading _ .delay).trans hdue.2.2

end Console

end Chip8

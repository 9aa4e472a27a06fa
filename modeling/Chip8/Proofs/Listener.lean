import Chip8.Proofs.Footprint
import Chip8.Proofs.History

/-! The frames that a listener is given: the blank display at power-on, and then the display as each
clear and each draw leaves it. -/

namespace Chip8

def Instruction.Paints (i : Instruction) : Prop := i.op = .clear ∨ i.op = .draw
deriving Decidable

namespace Console

def paints (c : Console) (e : Command) : Bool := (c.moment? e).any (·.instruction.Paints)

def shown (c : Console) : List Command → List Display
  | [] => []
  | e :: es =>
    if c.paints e then (c.apply e).2.machine.display :: (c.apply e).2.shown es
    else (c.apply e).2.shown es

def UpToDate (c : Console) : Prop := ∀ l, c.frames = some l → l.head? = some c.machine.display

structure Presents (c d : Console) (due : Bool) : Prop where
  frames : d.frames = if due then c.frames.map (d.machine.display :: ·) else c.frames
  drawn : d.drawn = (c.drawn || due)

variable {c d : Console} {i : Instruction} {e : Command}

theorem Presents.refl (c : Console) : Presents c c false := ⟨rfl, (Bool.or_false _).symm⟩

theorem Presents.upToKey {d' : Console} {due : Bool} (h : Presents c d due) (h' : UpToKey d d') :
    Presents c d' due := by
  obtain ⟨s, w, r, t, rfl⟩ := h'
  exact ⟨h.frames, h.drawn⟩

theorem presents_perform (h : c.perform i = .ok d) : Presents c d (decide i.Paints) := by
  by_cases hp : i.Paints
  · rw [decide_eq_true hp]
    rcases hp with hop | hop
    all_goals
      simp only [perform, hop, Except.ok.injEq] at h
      rw [← h]
      exact ⟨rfl, (Bool.or_true _).symm⟩
  · rw [decide_eq_false hp]
    have hf := perform_footprint h
    exact ⟨Decidable.by_contra fun hn => hp (hf.frames hn),
      (Decidable.by_contra fun hn => hp (hf.drawn hn)).trans (Bool.or_false _).symm⟩

theorem not_paints_of_refused {f : Fault} (h : c.perform i = .error f) : ¬ i.Paints := by
  rcases perform_eq_error_iff.1 h with ⟨hop, -⟩ | ⟨hop, -⟩ <;> simp [Instruction.Paints, hop]

theorem presents_executes {m : Option Moment} (h : Executes c m d) :
    Presents c d (m.any (·.instruction.Paints)) := by
  cases h with
  | nothing hd => exact (Presents.refl c).upToKey hd
  | refused p t i f hp =>
    rw [Option.any_some, decide_eq_false (not_paints_of_refused hp)]
    exact ⟨rfl, (Bool.or_false _).symm⟩
  | done p t i e hp hd =>
    rw [Option.any_some]
    have he := presents_perform hp
    exact Presents.upToKey ⟨he.frames, he.drawn⟩ hd

/-- Only the driver takes back that the display has changed. -/
theorem presents_apply (c : Console) (hs : e ≠ .seen) (hr : ∀ n, e ≠ .run n) :
    Presents c (c.apply e).2 (c.paints e) := by
  cases e with
  | step key => exact presents_executes (c.executes_step key)
  | execute w => exact presents_executes (c.executes_execute w)
  | run n => exact absurd rfl (hr n)
  | tick | press | release => exact ⟨rfl, (Bool.or_false _).symm⟩
  | seen => exact absurd rfl hs

theorem frames_apply (c : Console) (hr : ∀ n, e ≠ .run n) : (c.apply e).2.frames =
    if c.paints e then c.frames.map ((c.apply e).2.machine.display :: ·) else c.frames := by
  by_cases hs : e = .seen
  · subst hs
    rfl
  · exact (c.presents_apply hs hr).frames

theorem length_shown (c : Console) (ds : List Command) :
    (c.shown ds).length = (c.moments ds).countP (·.instruction.Paints) := by
  induction ds generalizing c with
  | nil => rfl
  | cons e es ih =>
    have he : (c.moment? e).toList.countP (·.instruction.Paints) = if c.paints e then 1 else 0 := by
      rw [paints]
      cases c.moment? e with
      | none => rfl
      | some m => simp [List.countP_cons]
    rw [shown, moments, List.countP_append, he, ← ih]
    split
    · rw [List.length_cons, Nat.add_comm]
    · rw [Nat.zero_add]

theorem frames_after (c : Console) (ds : List Command) (hd : ∀ n, .run n ∉ ds) :
    (c.after ds).frames = c.frames.map ((c.shown ds).reverse ++ ·) := by
  induction ds generalizing c with
  | nil => simp [after, shown]
  | cons e es ih =>
    have he := c.frames_apply fun n hn => hd n (hn ▸ List.mem_cons_self)
    rw [after, ih _ fun n hn => hd n (List.mem_cons_of_mem e hn), he, shown]
    split
    · simp [Option.map_map, Function.comp_def]
    · rfl

theorem drawn_after (c : Console) (ds : List Command) (hs : .seen ∉ ds) (hd : ∀ n, .run n ∉ ds) :
    (c.after ds).drawn = (c.drawn || (c.moments ds).any (·.instruction.Paints)) := by
  induction ds generalizing c with
  | nil => simp [after, moments]
  | cons e es ih =>
    have he := (c.presents_apply (fun h => hs (h ▸ List.mem_cons_self))
      fun n hn => hd n (hn ▸ List.mem_cons_self)).drawn
    have hp : (c.moment? e).toList.any (·.instruction.Paints) = c.paints e := by
      rw [paints]
      cases c.moment? e <;> simp
    rw [after, ih _ (fun h => hs (List.mem_cons_of_mem e h))
      fun n hn => hd n (List.mem_cons_of_mem e hn), he, moments, List.any_append, hp, Bool.or_assoc]

theorem drawn_after_history (c : Console) {ds : List Command} (hs : .seen ∉ ds) :
    (c.after ds).drawn = true ↔ c.drawn = true ∨ ∃ x ∈ c.history ds, x.instruction.Paints := by
  rw [← after_unrolled, drawn_after c _ (c.not_mem_unrolled nofun hs) (c.run_not_mem_unrolled ds),
    ← history]
  simp

theorem upToDate_invariant : Invariant UpToDate where
  advance h := h
  announce _ h := h
  change {c d i} h hc := by
    cases hc with
    | clear | draw =>
      intro l hl
      obtain ⟨k, -, rfl⟩ := Option.map_eq_some_iff.1 hl
      rfl
    | skip b => cases b <;> exact h
    | _ => exact h
  store h hs := by
    obtain ⟨-, s, rfl⟩ := storeKey_ok hs
    exact h
  read {c} h := by
    rw [readKey_snd]
    exact h
  tick h := h
  press _ h := h
  release _ h := h
  seen h := h

theorem boot_frames {s : Setup} (h : boot s = .ok c) :
    c.machine.display = .blank ∧ c.drawn = s.listening ∧
      c.frames = if s.listening then some [.blank] else none := by
  obtain ⟨t, rfl⟩ := eq_of_boot h
  exact ⟨rfl, rfl, rfl⟩

/-- A listener has been given the blank display, and after it one frame for each clear and each draw,
as that has left the display; the last of them is the present display. A driver without a listener
can tell from the flag that such an instruction has been executed since it last looked. -/
theorem frames_delivered (s : Setup) (c : Console) (hb : boot s = .ok c) (ds : List Command) :
    (s.listening = true → ∃ l, (c.after ds).frames = some l ∧
      l = (c.shown (c.unrolled ds)).reverse ++ [.blank] ∧
      l.length = 1 + (c.history ds).countP (·.instruction.Paints) ∧
      l.head? = some (c.after ds).machine.display) ∧
    (s.listening = false → (c.after ds).frames = none) ∧
    (.seen ∉ ds → ((c.after ds).drawn = true ↔
      s.listening = true ∨ ∃ x ∈ c.history ds, x.instruction.Paints)) ∧
    ∀ es, .seen ∉ es → ((c.after (ds ++ .seen :: es)).drawn = true ↔
      ∃ x ∈ (c.after (ds ++ [.seen])).history es, x.instruction.Paints) := by
  obtain ⟨hd, hdrawn, hf⟩ := boot_frames hb
  have hframes := c.frames_after _ (c.run_not_mem_unrolled ds)
  rw [after_unrolled, hf] at hframes
  refine ⟨fun hl => ?_, fun hl => ?_, fun hs => ?_, fun es hs => ?_⟩
  · rw [hl, if_pos rfl, Option.map_some] at hframes
    have hu : c.UpToDate := by
      intro l hc
      rw [hf, hl, if_pos rfl] at hc
      cases hc
      rw [hd]
      rfl
    refine ⟨_, hframes, rfl, ?_, upToDate_invariant.after hu ds _ hframes⟩
    rw [List.length_append, List.length_reverse, length_shown, Nat.add_comm]
    rfl
  · rw [hframes, hl]
    rfl
  · rw [c.drawn_after_history hs, hdrawn]
  · have hsplit : ds ++ .seen :: es = (ds ++ [.seen]) ++ es := by simp
    have hoff : (c.after (ds ++ [.seen])).drawn = false := by
      rw [after_append]
      rfl
    rw [hsplit, after_append, drawn_after_history _ hs, hoff]
    simp

def flashing : Setup where
  program := [0xD0, 0x11, 0x00, 0xE0, 0x12, 0x04]
  random := .stream (fun n => n) 0
  listening := true

def flasher : Console where
  machine := {
    memory := (Memory.blank.writeBlock 0 Font.bytes).writeBlock 0x200 flashing.program }
  random := flashing.random
  frames := some [.blank]
  drawn := true

set_option maxRecDepth 4000 in
theorem frames_delivered_flashing :
    boot flashing = .ok flasher ∧
      (∃ d, d ≠ .blank ∧ (flasher.after [.run 1]).frames = some [d, .blank]) ∧
      (∃ l, (flasher.after [.run 9, .tick]).frames = some l ∧ l.length = 3 ∧
        l.head? = some .blank) ∧
      (flasher.after [.run 1]).drawn = true ∧
      (flasher.after [.run 2, .seen, .run 7]).drawn = false := by
  have hb : boot flashing = .ok flasher := rfl
  have h := frames_delivered flashing flasher hb
  obtain ⟨l, hl, hshown, -⟩ := (h [.run 1]).1 rfl
  obtain ⟨k, hk, -, hlen, hlast⟩ := (h [.run 9, .tick]).1 rfl
  refine ⟨hb, ⟨(flasher.after [.run 1]).machine.display, by decide +kernel, ?_⟩,
    ⟨k, hk, ?_, ?_⟩, ?_, ?_⟩
  · rw [hl, hshown]
    rfl
  · rw [hlen]
    decide +kernel
  · rw [hlast]
    decide +kernel
  · exact ((h [.run 1]).2.2.1 (by simp)).2 (.inl rfl)
  · have hn : ¬ ∃ x ∈ (flasher.after [.run 2, .seen]).history [.run 7], x.instruction.Paints := by
      decide +kernel
    rw [← Bool.not_eq_true]
    exact mt ((h [.run 2]).2.2.2 [.run 7] (by simp)).1 hn

end Console

end Chip8

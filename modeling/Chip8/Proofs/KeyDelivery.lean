import Chip8.Proofs.Frame

/-! The delivery of keys to a program that waits for them, frame by frame: no press is lost, none is
used twice, and none outlives its frame. -/

namespace Chip8

def Event.press? : Event → Option Key
  | keyDown name => Keyboard.key? name
  | _ => none

def lastPress (es : List Event) : Option Key := (es.filterMap Event.press?).getLast?

namespace Console

def midway (c : Console) (ds : List Command) (j : Nat) : Console := c.after (ds.take j)

variable {c : Console} {r : StepResult} {ds : List Command} {j : Nat}

/-- What every step keeps, steps one after another keep. -/
theorem after_steps {P : Console → Prop} (h : ∀ c key, P c → P (c.step key).2) (hc : P c)
    (keys : List (Option Int)) : P (c.after (keys.map .step)) := by
  induction keys generalizing c with
  | nil => exact hc
  | cons key keys ih => exact ih (h c key hc)

theorem step_key_ok {k : Int} (hw : c.machine.waiting = true)
    (h : (c.step (some k)).1 = .ok r) :
    (c.step (some k)).2.machine.waiting = false ∧
      ∃ x, Register.ofInt? c.machine.keyRegister = some x ∧
        ((c.step (some k)).2.machine.v x).toNat = (Key.ofInt k).val := by
  have hh : c.machine.halted = false := by
    rw [← Bool.not_eq_true]
    intro hh
    rw [step_halted hh] at h
    cases h
  rw [step_suspended hh hw, storeKey] at h ⊢
  cases hs : c.machine.registers.store c.machine.keyRegister (Key.ofInt k).val with
  | error f =>
    simp only [hs] at h
    cases h
  | ok s =>
    obtain ⟨x, hx, hv⟩ := Registers.store_ok hs
    exact ⟨rfl, x, hx, Int.ofNat.inj hv⟩

/-- A console without a reader is suspended by the instruction that asks for a key. -/
theorem step_awaitKey {i : Instruction} (hr : c.reader = none) (hi : c.fetch? = some i)
    (hop : i.op = .awaitKey) : (c.step none).2.machine.waiting = true := by
  cases hp : (c.advance.announce i).perform i with
  | error f => simp [perform, hop] at hp
  | ok d =>
    have hd := (perform_change hp).reader.trans hr
    rw [step_of_perform hi hp, settle_unread hd]
    simp only [perform, hop, Except.ok.injEq] at hp
    rw [← hp]
    rfl

/-- The cycles of a frame, a step each, when none of them fails or halts the console. They end before
there have been `n` only when the program waits and there is no key. -/
inductive Course : Option Int → Nat → Console → List Command → Prop
  | spent {key : Option Int} {c : Console} : Course key 0 c []
  | idle {n : Nat} {c : Console} : c.machine.waiting = true → Course none (n + 1) c []
  | answer {k : Int} {n : Nat} {c : Console} {r : StepResult} {ds : List Command} :
      c.machine.waiting = true → (c.step (some k)).1 = .ok r →
      Course none n (c.step (some k)).2 ds → Course (some k) (n + 1) c (.step (some k) :: ds)
  | other {key : Option Int} {n : Nat} {c : Console} {ds : List Command} :
      c.machine.waiting = false → Course key n (c.step none).2 ds →
      Course key (n + 1) c (.step none :: ds)

namespace Course

variable {key : Option Int} {n : Nat}

theorem length_le (h : Course key n c ds) : ds.length ≤ n := by
  induction h with
  | spent | idle => exact Nat.zero_le _
  | answer _ _ _ ih | other _ _ ih => exact Nat.succ_le_succ ih

theorem unread (h : Course key n c ds) (hr : c.reader = none) (j : Nat) :
    (c.midway ds j).reader = none := by
  induction h generalizing j with
  | spent | idle => rwa [midway, List.take_nil]
  | answer _ _ _ ih | other _ _ ih =>
    cases j with
    | zero => exact hr
    | succ j => exact ih (unread_stepInvariant.step hr _) j

/-- A suspended console is given the key. -/
theorem waiting (h : Course key n c ds) (hj : j < ds.length)
    (hw : (c.midway ds j).machine.waiting = true) :
    ∃ k r, key = some k ∧ ((c.midway ds j).step (some k)).1 = .ok r ∧
      c.midway ds (j + 1) = ((c.midway ds j).step (some k)).2 := by
  induction h generalizing j with
  | spent | idle => exact absurd hj (Nat.not_lt_zero j)
  | @answer k n c r ds _ hs _ ih =>
    cases j with
    | zero => exact ⟨k, r, rfl, hs, rfl⟩
    | succ j =>
      obtain ⟨k, _, hk, -⟩ := ih (Nat.lt_of_succ_lt_succ hj) hw
      cases hk
  | other hn _ ih =>
    cases j with
    | zero => exact absurd (hn.symm.trans hw) nofun
    | succ j => exact ih (Nat.lt_of_succ_lt_succ hj) hw

/-- Any other console is stepped without a key. -/
theorem awake (h : Course key n c ds) (hj : j < ds.length)
    (hw : (c.midway ds j).machine.waiting = false) :
    c.midway ds (j + 1) = ((c.midway ds j).step none).2 := by
  induction h generalizing j with
  | spent | idle => exact absurd hj (Nat.not_lt_zero j)
  | answer hn _ _ ih =>
    cases j with
    | zero => exact absurd (hn.symm.trans hw) nofun
    | succ j => exact ih (Nat.lt_of_succ_lt_succ hj) hw
  | other _ _ ih =>
    cases j with
    | zero => rfl
    | succ j => exact ih (Nat.lt_of_succ_lt_succ hj) hw

theorem not_waiting_without_key (h : Course none n c ds) (hj : j < ds.length) :
    (c.midway ds j).machine.waiting ≠ true := by
  intro hw
  obtain ⟨k, _, hk, -⟩ := h.waiting hj hw
  cases hk

/-- The key is given once. -/
theorem once (h : Course key n c ds) {k : Nat} (hj : j < ds.length) (hk : k < ds.length)
    (hwj : (c.midway ds j).machine.waiting = true)
    (hwk : (c.midway ds k).machine.waiting = true) : j = k := by
  induction h generalizing j k with
  | spent | idle => exact absurd hj (Nat.not_lt_zero j)
  | answer _ _ h _ =>
    cases j with
    | succ j => exact absurd hwj (h.not_waiting_without_key (Nat.lt_of_succ_lt_succ hj))
    | zero =>
      cases k with
      | zero => rfl
      | succ k => exact absurd hwk (h.not_waiting_without_key (Nat.lt_of_succ_lt_succ hk))
  | other hn _ ih =>
    cases j with
    | zero => exact absurd (hn.symm.trans hwj) nofun
    | succ j =>
      cases k with
      | zero => exact absurd (hn.symm.trans hwk) nofun
      | succ k => rw [ih (Nat.lt_of_succ_lt_succ hj) (Nat.lt_of_succ_lt_succ hk) hwj hwk]

/-- Cycles are left over only if there is no key, or no more. -/
theorem left_over (h : Course key n c ds) (hn : ds.length < n) :
    key = none ∨ ∃ j < ds.length, (c.midway ds j).machine.waiting = true := by
  induction h with
  | spent => exact absurd hn (Nat.lt_irrefl 0)
  | idle => exact .inl rfl
  | answer hw => exact .inr ⟨0, Nat.zero_lt_succ _, hw⟩
  | other _ _ ih =>
    refine (ih (Nat.lt_of_succ_lt_succ hn)).imp_right ?_
    rintro ⟨j, hj, hwj⟩
    exact ⟨j + 1, Nat.succ_lt_succ hj, hwj⟩

end Course

end Console

namespace Frontend

def calls (h : Frontend) : Nat → List Command
  | 0 => []
  | n + 1 =>
    if h.console.machine.waiting then
      match h.pressed with
      | none => []
      | some k =>
        .step (some k) ::
          match h.console.step (some k) with
          | (.error _, _) => []
          | (.ok _, c) => { h with console := c, pressed := none }.calls n
    else
      .step none ::
        match h.console.step none with
        | (.error _, _) | (.ok .halted, _) => []
        | (.ok _, c) => { h with console := c }.calls n

def receive (h : Frontend) (es : List Event) : Frontend := es.foldl handle h

def midway (h : Frontend) (j : Nat) : Console := h.console.midway (h.calls h.cycles) j

def StartsWait (h : Frontend) (j : Nat) : Prop :=
  j < (h.calls h.cycles).length ∧ ∃ i, (h.midway j).fetch? = some i ∧ i.op = .awaitKey

def EndsWait (h : Frontend) (j : Nat) : Prop :=
  j < (h.calls h.cycles).length ∧
    (h.midway j).machine.waiting = true ∧ (h.midway (j + 1)).machine.waiting = false

structure Delivers (h : Frontend) (es : List Event) : Prop where
  steps : (h.frame es).2.console =
    ((h.receive es).console.after ((h.receive es).calls h.cycles)).tick
  suspended : (h.receive es).console.machine.waiting = true →
    ((∃ j, (h.receive es).EndsWait j) ↔ ∃ k, lastPress es = some k)
  once {j k : Nat} : (h.receive es).EndsWait j → (h.receive es).EndsWait k → j = k
  stored {j : Nat} : (h.receive es).EndsWait j → ∃ k x, lastPress es = some k ∧
    Register.ofInt? ((h.receive es).midway j).machine.keyRegister = some x ∧
    (((h.receive es).midway (j + 1)).machine.v x).toNat = k.val
  started {j : Nat} : (h.receive es).StartsWait j →
    ((∃ k, j < k ∧ (h.receive es).EndsWait k) ↔
      (∃ k, lastPress es = some k) ∧ (∀ k, (h.receive es).EndsWait k → j < k) ∧ j + 1 < h.cycles)
  forgotten : (h.frame es).2.pressed = none

def frames (h : Frontend) (fs : List (List Event)) : Frontend :=
  fs.foldl (fun h es => (h.frame es).2) h

def Smooth (h : Frontend) : List (List Event) → Prop
  | [] => True
  | es :: fs => (h.frame es).1 = .ok () ∧ (h.frame es).2.console.machine.halted = false ∧
      (h.frame es).2.Smooth fs

structure Ready (h : Frontend) : Prop where
  reader : h.console.reader = none
  pressed : h.pressed = none
  halted : h.console.machine.halted = false
  cycles : 0 < h.cycles

variable {h : Frontend} {es : List Event}

theorem frames_concat (h : Frontend) (fs : List (List Event)) (es : List Event) :
    h.frames (fs ++ [es]) = ((h.frames fs).frame es).2 := by
  rw [frames, List.foldl_append]
  rfl

theorem handle_pressed (h : Frontend) (e : Event) :
    (h.handle e).pressed = match e.press? with
      | none => h.pressed
      | some k => some k.val := by
  cases e with
  | quit | other => rfl
  | keyDown name =>
    by_cases hn : name = Keyboard.escape
    · subst hn
      rfl
    · rw [handle, if_neg hn, Event.press?]
      cases Keyboard.key? name <;> rfl
  | keyUp name =>
    rw [handle]
    cases Keyboard.key? name <;> rfl

/-- Events leave everything alone but the keys and whether the front end goes on. -/
theorem handle_eq (h : Frontend) (e : Event) :
    ∃ k p r, h.handle e =
      { h with console := { h.console with keypad := k }, pressed := p, running := r } := by
  unfold handle
  split
  · exact ⟨_, _, _, rfl⟩
  · split
    · exact ⟨_, _, _, rfl⟩
    · split <;> exact ⟨_, _, _, rfl⟩
  · split <;> exact ⟨_, _, _, rfl⟩
  · exact ⟨_, _, _, rfl⟩

theorem receive_pressed (h : Frontend) (es : List Event) :
    (h.receive es).pressed = ((lastPress es).map fun k => (k.val : Int)).or h.pressed := by
  induction es generalizing h with
  | nil => rfl
  | cons e es ih =>
    have hr := ih (h.handle e)
    rw [handle_pressed] at hr
    refine hr.trans ?_
    rw [lastPress, lastPress, List.filterMap_cons]
    cases e.press? with
    | none => rfl
    | some k =>
      rw [List.getLast?_cons]
      cases (es.filterMap Event.press?).getLast? <;> rfl

theorem receive_eq (h : Frontend) (es : List Event) :
    ∃ k p r, h.receive es =
      { h with console := { h.console with keypad := k }, pressed := p, running := r } := by
  induction es generalizing h with
  | nil => exact ⟨_, _, _, rfl⟩
  | cons e es ih =>
    obtain ⟨k, p, r, he⟩ := h.handle_eq e
    obtain ⟨k', p', r', hes⟩ := ih (h.handle e)
    rw [he] at hes
    exact ⟨k', p', r', (congrArg (receive · es) he).trans hes⟩

inductive Round (h : Frontend) (n : Nat) : Outcome Frontend Bool → List Command → Prop
  | idle : h.console.machine.waiting = true → h.pressed = none → Round h n (.ok false, h) []
  | failed (key : Option Int) (f : Fault) (c : Console) : h.console.step key = (.error f, c) →
      Round h n (.error f, { h with console := c }) [.step key]
  | halted (c : Console) : h.console.step none = (.ok .halted, c) →
      Round h n (.ok true, { h with console := c }) [.step none]
  | answered (k : Int) (r : StepResult) (c : Console) : h.console.machine.waiting = true →
      h.pressed = some k → h.console.step (some k) = (.ok r, c) → r ≠ .halted →
      Round h n ({ h with console := c, pressed := none }.cycle n)
        (.step (some k) :: { h with console := c, pressed := none }.calls n)
  | stepped (r : StepResult) (c : Console) : h.console.machine.waiting = false →
      h.console.step none = (.ok r, c) → r ≠ .halted →
      Round h n ({ h with console := c }.cycle n) (.step none :: { h with console := c }.calls n)

theorem round (h : Frontend) (n : Nat) : Round h n (h.cycle (n + 1)) (h.calls (n + 1)) := by
  by_cases hw : h.console.machine.waiting = true
  · rw [cycle, calls, if_pos hw, if_pos hw]
    cases hp : h.pressed with
    | none => exact .idle hw hp
    | some k =>
      cases hs : h.console.step (some k) with
      | mk a c =>
        cases a with
        | error f =>
          have hr := Round.failed (n := n) _ f c hs
          rw [hp] at hr
          simp only [hs]
          exact hr
        | ok r =>
          have hr : r = .executed := Console.step_key_executed hw hs
          simp only [hs]
          exact .answered k r c hw hp hs (by simp [hr])
  · rw [cycle, calls, if_neg hw, if_neg hw]
    rw [Bool.not_eq_true] at hw
    cases hs : h.console.step none with
    | mk a c =>
      rcases a with f | r
      · exact .failed _ f c hs
      · cases r with
        | halted => exact .halted c hs
        | executed | waiting => exact .stepped _ c hw hs (by simp)

theorem cycle_console (h : Frontend) (n : Nat) :
    (h.cycle n).2.console = h.console.after (h.calls n) := by
  induction n generalizing h with
  | zero => rfl
  | succ n ih =>
    have hr := h.round n
    generalize h.cycle (n + 1) = o, h.calls (n + 1) = ds at hr ⊢
    cases hr with
    | idle => rfl
    | failed _ _ _ hs | halted _ hs => simp only [Console.after, Console.apply, hs]
    | answered _ _ _ _ _ hs | stepped _ _ _ hs =>
      simp only [Console.after, Console.apply, hs]
      exact ih _

/-- The cycles of a frame are steps. -/
theorem exists_calls_eq (h : Frontend) (n : Nat) : ∃ keys, h.calls n = List.map .step keys := by
  induction n generalizing h with
  | zero => exact ⟨[], rfl⟩
  | succ n ih =>
    have hr := h.round n
    generalize h.cycle (n + 1) = o, h.calls (n + 1) = ds at hr
    cases hr with
    | idle => exact ⟨[], rfl⟩
    | failed key => exact ⟨[key], rfl⟩
    | halted => exact ⟨[none], rfl⟩
    | answered k r c =>
      obtain ⟨keys, hk⟩ := ih { h with console := c, pressed := none }
      exact ⟨some k :: keys, by rw [hk]; rfl⟩
    | stepped r c =>
      obtain ⟨keys, hk⟩ := ih { h with console := c }
      exact ⟨none :: keys, by rw [hk]; rfl⟩

/-- What every step keeps, the cycles of a frame keep. -/
theorem cycle_keeps {P : Console → Prop} (h : Frontend) (hs : ∀ c key, P c → P (c.step key).2)
    (hc : P h.console) (n : Nat) : P (h.cycle n).2.console := by
  obtain ⟨keys, hk⟩ := h.exists_calls_eq n
  rw [cycle_console, hk]
  exact Console.after_steps hs hc keys

theorem cycle_course {n : Nat} (h : Frontend) (hc : (h.cycle n).1 = .ok false) :
    Console.Course h.pressed n h.console (h.calls n) := by
  induction n generalizing h with
  | zero => exact .spent
  | succ n ih =>
    have hr := h.round n
    generalize h.cycle (n + 1) = o, h.calls (n + 1) = ds at hr hc ⊢
    cases hr with
    | idle hw hp => exact hp ▸ .idle hw
    | failed | halted => cases hc
    | answered k r c hw hp hs =>
      rw [hp]
      exact .answer hw (congrArg Prod.fst hs) (hs ▸ ih _ hc)
    | stepped r c hw hs => exact .other hw (hs ▸ ih _ hc)

section
variable {j : Nat} (hc : Console.Course h.pressed h.cycles h.console (h.calls h.cycles))
include hc

theorem endsWait_iff :
    h.EndsWait j ↔ j < (h.calls h.cycles).length ∧ (h.midway j).machine.waiting = true := by
  refine ⟨fun he => ⟨he.1, he.2.1⟩, fun ⟨hj, hw⟩ => ⟨hj, hw, ?_⟩⟩
  obtain ⟨k, r, -, hs, hn⟩ := hc.waiting hj hw
  rw [midway, hn]
  exact (Console.step_key_ok hw hs).1

theorem EndsWait.stored (he : h.EndsWait j) : ∃ k x, h.pressed = some k ∧
    Register.ofInt? (h.midway j).machine.keyRegister = some x ∧
    ((h.midway (j + 1)).machine.v x).toNat = (Key.ofInt k).val := by
  obtain ⟨k, r, hk, hs, hn⟩ := hc.waiting he.1 he.2.1
  obtain ⟨-, x, hx, hv⟩ := Console.step_key_ok he.2.1 hs
  refine ⟨k, x, hk, hx, ?_⟩
  rw [midway, hn]
  exact hv

theorem endsWait_of_suspended (hn : 0 < h.cycles) (hw : h.console.machine.waiting = true) :
    (∃ j, h.EndsWait j) ↔ ∃ k, h.pressed = some k := by
  constructor
  · rintro ⟨j, he⟩
    obtain ⟨k, _, hk, -⟩ := he.stored hc
    exact ⟨k, hk⟩
  · rintro ⟨k, hk⟩
    refine ⟨0, (endsWait_iff hc).2 ⟨Nat.pos_of_ne_zero fun hl => ?_, hw⟩⟩
    rcases hc.left_over (hl ▸ hn) with hp | ⟨j, hj, -⟩
    · exact absurd (hk.symm.trans hp) nofun
    · exact absurd (hl ▸ hj) (Nat.not_lt_zero j)

theorem StartsWait.waiting (hr : h.console.reader = none) (hs : h.StartsWait j) :
    (h.midway j).machine.waiting = false ∧ (h.midway (j + 1)).machine.waiting = true := by
  obtain ⟨hj, i, hi, hop⟩ := hs
  have hw := (Console.fetch?_eq_some_iff.1 hi).1.2
  refine ⟨hw, ?_⟩
  rw [midway, hc.awake hj hw]
  exact Console.step_awaitKey (hc.unread hr j) hi hop

theorem StartsWait.ends_iff (hr : h.console.reader = none) (hs : h.StartsWait j) :
    (∃ k, j < k ∧ h.EndsWait k) ↔
      (∃ k, h.pressed = some k) ∧ (∀ k, h.EndsWait k → j < k) ∧ j + 1 < h.cycles := by
  obtain ⟨hw, hw'⟩ := hs.waiting hc hr
  constructor
  · rintro ⟨k, hk, he⟩
    obtain ⟨key, _, hkey, -⟩ := he.stored hc
    have := hc.length_le
    have := he.1
    refine ⟨⟨key, hkey⟩, fun l hl => ?_, by omega⟩
    rw [hc.once hl.1 he.1 hl.2.1 he.2.1]
    exact hk
  · rintro ⟨⟨key, hkey⟩, ho, hn⟩
    refine ⟨j + 1, Nat.lt_succ_self j, (endsWait_iff hc).2 ⟨?_, hw'⟩⟩
    -- else the frame would have ended with this wait, in spite of the key and a cycle that is left
    have hj : j + 1 ≤ (h.calls h.cycles).length := hs.1
    refine Nat.lt_of_le_of_ne hj fun hl => ?_
    rcases hc.left_over (hl ▸ hn) with hp | ⟨k, hk, hwk⟩
    · exact absurd (hkey.symm.trans hp) nofun
    · have := ho k ((endsWait_iff hc).2 ⟨hk, hwk⟩)
      omega

end

/-- A frame that neither fails nor halts goes through its cycles and ends with a tick. -/
theorem update_smooth (hr : h.console.reader = none) (hh : h.console.machine.halted = false)
    (hok : h.update.1 = .ok ()) (hu : h.update.2.console.machine.halted = false) :
    (h.cycle h.cycles).1 = .ok false ∧
      h.update.2.console = (h.console.after (h.calls h.cycles)).tick ∧
      h.update.2.pressed = none ∧ h.update.2.cycles = h.cycles := by
  have hc := h.cycle_eq_runWithKey hr hh h.cycles
  have ha := h.cycle_console h.cycles
  rw [h.update_eq hr hh] at hok hu ⊢
  cases hk : h.console.runWithKey h.pressed h.cycles with
  | mk key o =>
    rcases o with ⟨f | b, c⟩
    · rw [hk] at hok
      cases hok
    · have hb := Console.runWithKey_ok hk
      rw [hk] at hc hu
      rw [hc] at ha ⊢
      cases b with
      | true => exact ⟨rfl, congrArg Console.tick ha, rfl, rfl⟩
      | false => exact absurd (hb.trans (congrArg (!·) hu)) nofun

/-- A frame that neither fails nor halts delivers its key, and another frame can follow. -/
theorem Ready.frame (h' : h.Ready) (hok : (h.frame es).1 = .ok ())
    (hh : (h.frame es).2.console.machine.halted = false) :
    h.Delivers es ∧ (h.frame es).2.Ready := by
  obtain ⟨keypad, p, r, hg⟩ := h.receive_eq es
  have hr : (h.receive es).console.reader = none := hg ▸ h'.reader
  have hm : (h.receive es).console.machine.halted = false := hg ▸ h'.halted
  have hn : (h.receive es).cycles = h.cycles := hg ▸ rfl
  have hp : ∀ k, (h.receive es).pressed = some k ↔ ∃ k', lastPress es = some k' ∧ k = k'.val := by
    intro k
    rw [h.receive_pressed es, h'.pressed, Option.or_none, Option.map_eq_some_iff]
    simp only [eq_comm]
  have hpress : (∃ k, (h.receive es).pressed = some k) ↔ ∃ k, lastPress es = some k := by
    simp only [hp, exists_comm (α := Int), exists_eq_right]
  obtain ⟨hcycle, hsteps, hpressed, hcycles⟩ := update_smooth hr hm hok hh
  have hc := (h.receive es).cycle_course hcycle
  refine ⟨?_, ?_⟩
  · exact {
      steps := hn ▸ hsteps
      suspended := fun hw => (endsWait_of_suspended hc (hn ▸ h'.cycles) hw).trans hpress
      once := fun hj hk => hc.once hj.1 hk.1 hj.2.1 hk.2.1
      stored := fun he => by
        obtain ⟨k, x, hk, hx, hv⟩ := he.stored hc
        obtain ⟨k, hl, rfl⟩ := (hp k).1 hk
        exact ⟨k, x, hl, hx, by rw [hv, Key.ofInt_natCast]⟩
      started := fun hs => by
        rw [hs.ends_iff hc hr, hpress, hn]
      forgotten := hpressed }
  · refine ⟨?_, hpressed, hh, ?_⟩
    · have hu := hc.unread hr ((h.receive es).calls (h.receive es).cycles).length
      rw [Console.midway, List.take_length] at hu
      rw [Frontend.frame, ← receive, hsteps]
      exact hu
    · rw [Frontend.frame, ← receive, hcycles, hn]
      exact h'.cycles

theorem Ready.frames (h' : h.Ready) {fs : List (List Event)} (hs : h.Smooth (fs ++ [es])) :
    (h.frames fs).Delivers es := by
  induction fs generalizing h with
  | nil => exact (h'.frame hs.1 hs.2.1).1
  | cons e fs ih => exact ih (h'.frame hs.1 hs.2.1).2 hs.2.2

theorem cyclesPerFrame_pos (clock : Int) : 0 < cyclesPerFrame clock :=
  Nat.lt_of_lt_of_le Nat.zero_lt_one (Nat.le_max_left _ _)

/-- In every frame up to the end of a program, the key of the frame is delivered. -/
theorem keys_delivered (h : Frontend) (clock : Int) (hr : h.console.reader = none)
    (hp : h.pressed = none) (hh : h.console.machine.halted = false)
    (hn : h.cycles = cyclesPerFrame clock) (fs : List (List Event)) (es : List Event)
    (hs : h.Smooth (fs ++ [es])) : (h.frames fs).Delivers es :=
  Ready.frames ⟨hr, hp, hh, hn ▸ cyclesPerFrame_pos clock⟩ hs

def pondering : Frontend where
  console := {
    machine := {
      memory := Memory.blank.writeBlock Layout.programStart [0xF3, 0x0A, 0xF4, 0x0A, 0x12, 0x04] }
    random := .stream (fun n => n) 0 }
  cycles := cyclesPerFrame 180
  scale := 12
  foreground := Color.night.ink
  screen := none

set_option maxRecDepth 4000 in
theorem keys_delivered_pondering :
    pondering.Smooth [[.keyDown "q", .keyDown "z", .keyUp "z"], [.keyDown "c"]] ∧
      pondering.Delivers [.keyDown "q", .keyDown "z", .keyUp "z"] ∧
      (pondering.frames [[.keyDown "q", .keyDown "z", .keyUp "z"]]).Delivers [.keyDown "c"] ∧
      (pondering.frames [[.keyDown "q", .keyDown "z", .keyUp "z"]]).console.machine.waiting = true ∧
      (pondering.frames [[.keyDown "q", .keyDown "z", .keyUp "z"]]).console.machine.v 3 = 0xA ∧
      (pondering.frames [[.keyDown "q", .keyDown "z", .keyUp "z"],
        [.keyDown "c"]]).console.machine.v 4 = 0xB := by
  have hs : pondering.Smooth [[.keyDown "q", .keyDown "z", .keyUp "z"], [.keyDown "c"]] :=
    ⟨rfl, rfl, rfl, rfl, trivial⟩
  have hfirst := keys_delivered pondering 180 rfl rfl rfl rfl []
    [.keyDown "q", .keyDown "z", .keyUp "z"] ⟨hs.1, hs.2.1, trivial⟩
  have hsecond := keys_delivered pondering 180 rfl rfl rfl rfl
    [[.keyDown "q", .keyDown "z", .keyUp "z"]] [.keyDown "c"] hs
  exact ⟨hs, hfirst, hsecond, rfl, rfl, rfl⟩

end Frontend

end Chip8

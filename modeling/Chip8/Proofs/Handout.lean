import Chip8.Proofs.Listener

/-! Displays as arrays that can be shared. A console draws in an array of its own. A listener keeps
the arrays that it is handed, and may draw in them too; since they are copies, nobody else can
tell. -/

namespace Chip8

structure Arrays where
  cells : List Display

namespace Arrays

def read (a : Arrays) (p : Nat) : Display := a.cells.getD p .blank

def write (a : Arrays) (p : Nat) (d : Display) : Arrays := ⟨a.cells.set p d⟩

def writeAll (a : Arrays) (l : List (Nat × Display)) : Arrays :=
  l.foldl (fun a c => a.write c.1 c.2) a

def copy (a : Arrays) (p : Nat) : Arrays × Nat := (⟨a.cells ++ [a.read p]⟩, a.cells.length)

def same (a : Arrays) (p : Nat) : Arrays × Nat := (a, p)

variable (a : Arrays) {p q : Nat}

theorem read_write (d : Display) :
    (a.write p d).read q = if p = q ∧ p < a.cells.length then d else a.read q := by
  simp only [read, write, List.getD_eq_getElem?_getD, List.getElem?_set]
  by_cases h : p = q
  · subst h
    by_cases hp : p < a.cells.length <;> simp [hp]
  · simp [h]

theorem length_write (d : Display) : (a.write p d).cells.length = a.cells.length :=
  List.length_set

theorem length_writeAll (l : List (Nat × Display)) :
    (a.writeAll l).cells.length = a.cells.length := by
  induction l generalizing a with
  | nil => rfl
  | cons c l ih => exact (ih _).trans (a.length_write c.2)

theorem read_writeAll {l : List (Nat × Display)} (h : ∀ c ∈ l, c.1 ≠ q) :
    (a.writeAll l).read q = a.read q := by
  induction l generalizing a with
  | nil => rfl
  | cons c l ih =>
    have hc : ¬ (c.1 = q ∧ c.1 < a.cells.length) := fun hc => h c List.mem_cons_self hc.1
    refine (ih _ fun c' hm => h c' (List.mem_cons_of_mem c hm)).trans ?_
    rw [read_write, if_neg hc]

theorem read_copy (h : q < a.cells.length) : (a.copy p).1.read q = a.read q := by
  simp only [read, copy, List.getD_eq_getElem?_getD, List.getElem?_append_left h]

theorem read_copy_self : (a.copy p).1.read (a.copy p).2 = a.read p := by
  simp [read, copy]

end Arrays

structure Handover where
  frame : Arrays → Nat → Arrays × Nat
  -- What the listener leaves in the arrays that it holds, the latest first. There is one more each
  -- time, so that it can do something else each time.
  listen : List Display → List Display

/-- The display of the console is the array at the place `live`. The listener holds those at the places
`held`, the latest first, and has received them with the contents `received`. -/
structure Studio where
  console : Console
  arrays : Arrays
  live : Nat
  held : List Nat := []
  received : Option (List Display)

namespace Studio

def view (s : Studio) : Console :=
  { s.console with
    machine := { s.console.machine with display := s.arrays.read s.live }
    frames := s.received }

def handOver (v : Handover) (s : Studio) : Studio :=
  match s.received with
  | none => s
  | some l =>
    let (a, p) := v.frame s.arrays s.live
    { s with
      arrays := a.writeAll ((p :: s.held).zip (v.listen ((p :: s.held).map a.read)))
      held := p :: s.held
      received := some (a.read p :: l) }

def leave (s : Studio) (c : Console) : Studio :=
  { s with console := c, arrays := s.arrays.write s.live c.machine.display }

def call (v : Handover) (s : Studio) (e : Command) : Outcome Studio Reply :=
  let r := s.view.apply e
  (r.1, if s.view.paints e then (s.leave r.2).handOver v else s.leave r.2)

def steps (v : Handover) (s : Studio) : Nat → Outcome Studio Unit
  | 0 => (.ok (), s)
  | n + 1 =>
    match s.call v (.step none) with
    | (.error f, s) => (.error f, s)
    | (.ok (.stepped .executed), s) => s.steps v n
    | (.ok _, s) => (.ok (), s)

def apply (v : Handover) (s : Studio) : Command → Outcome Studio Reply
  | .run n =>
    match s.steps v n.toNat with
    | (.error f, s) => (.error f, s)
    | (.ok (), s) => (.ok (.ran (!s.console.machine.halted)), s)
  | e => s.call v e

def after (v : Handover) (s : Studio) : List Command → Studio
  | [] => s
  | e :: es => (s.apply v e).2.after v es

def replies (v : Handover) (s : Studio) : List Command → List (Except Fault Reply)
  | [] => []
  | e :: es => (s.apply v e).1 :: (s.apply v e).2.replies v es

def boot (v : Handover) (s : Console.Setup) : Except Fault Studio :=
  (Console.boot s).map fun c =>
    let t : Studio := {
      console := c
      arrays := ⟨[c.machine.display]⟩
      live := 0
      received := if s.listening then some [] else none }
    if s.listening then t.handOver v else t

structure Apart (s : Studio) : Prop where
  made : s.live < s.arrays.cells.length
  kept : s.live ∉ s.held

variable {v : Handover} {s : Studio} {e : Command}

/-- A copy shows what the display is, and it is none of the arrays that were there before. -/
theorem handOver_copy (hv : v.frame = Arrays.copy) (h : s.Apart) :
    (s.handOver v).Apart ∧ (s.handOver v).view =
      { s.view with frames := s.view.frames.map (s.view.machine.display :: ·) } := by
  unfold handOver
  split
  · next hr =>
    refine ⟨h, ?_⟩
    simp only [view, hr]
    rfl
  · next l hr =>
    rw [hv]
    have hnew : s.live ∉ s.arrays.cells.length :: s.held := by
      rw [List.mem_cons, not_or]
      exact ⟨Nat.ne_of_lt h.made, h.kept⟩
    have hlive (ds : List Display) :
        ((s.arrays.copy s.live).1.writeAll ((s.arrays.cells.length :: s.held).zip ds)).read s.live =
          s.arrays.read s.live := by
      rw [Arrays.read_writeAll, Arrays.read_copy _ h.made]
      intro c hc he
      exact hnew (he ▸ (List.of_mem_zip hc).1)
    constructor
    · refine ⟨?_, hnew⟩
      have := h.made
      simp only [Arrays.length_writeAll, Arrays.copy, List.length_append]
      omega
    · have hcopy := s.arrays.read_copy_self (p := s.live)
      simp only [view, hr, hcopy, Option.map_some]
      rw [← hlive]
      rfl

theorem leave_view (h : s.Apart) (c : Console) :
    (s.leave c).Apart ∧ (s.leave c).view = { c with frames := s.received } := by
  refine ⟨⟨(s.arrays.length_write _).symm ▸ h.made, h.kept⟩, ?_⟩
  have hd : (s.leave c).arrays.read s.live = c.machine.display := by
    rw [leave, Arrays.read_write, if_pos ⟨rfl, h.made⟩]
  simp only [view, leave] at hd ⊢
  rw [hd]

theorem call_view (hv : v.frame = Arrays.copy) (h : s.Apart) (hr : ∀ n, e ≠ .run n) :
    (s.call v e).2.Apart ∧ (s.call v e).2.view = (s.view.apply e).2 := by
  obtain ⟨ha, hview⟩ := leave_view h (s.view.apply e).2
  have hf := s.view.frames_apply hr
  rw [call]
  split
  · next hp =>
    rw [if_pos hp] at hf
    obtain ⟨ha', hview'⟩ := handOver_copy hv ha
    refine ⟨ha', ?_⟩
    rw [hview', hview]
    exact congrArg (fun l => { (s.view.apply e).2 with frames := l }) hf.symm
  · next hp =>
    rw [if_neg hp] at hf
    refine ⟨ha, ?_⟩
    rw [hview]
    exact congrArg (fun l => { (s.view.apply e).2 with frames := l }) hf.symm

theorem steps_view (hv : v.frame = Arrays.copy) (h : s.Apart) (n : Nat) :
    (s.steps v n).2.Apart ∧ (s.steps v n).1 = (s.view.steps n).1 ∧
      (s.steps v n).2.view = (s.view.steps n).2 := by
  induction n generalizing s with
  | zero => exact ⟨h, rfl, rfl⟩
  | succ n ih =>
    obtain ⟨ha, hview⟩ := call_view hv h (e := .step none) nofun
    have hreply : (s.call v (.step none)).1 = (s.view.step none).1.map .stepped := rfl
    have hstep : (s.view.apply (.step none)).2 = (s.view.step none).2 := rfl
    rw [hstep] at hview
    rw [steps, Console.steps]
    generalize s.call v (.step none) = o at ha hview hreply ⊢
    generalize s.view.step none = o' at hview hreply ⊢
    obtain ⟨a, t⟩ := o
    obtain ⟨r, c⟩ := o'
    obtain rfl : a = r.map .stepped := hreply
    obtain rfl : t.view = c := hview
    cases r with
    | error f => exact ⟨ha, rfl, rfl⟩
    | ok r =>
      cases r with
      | executed => exact ih ha
      | waiting | halted => exact ⟨ha, rfl, rfl⟩

/-- A call on arrays does what it does on the console that they stand for. -/
theorem apply_view (hv : v.frame = Arrays.copy) (h : s.Apart) (e : Command) :
    (s.apply v e).2.Apart ∧ (s.apply v e).1 = (s.view.apply e).1 ∧
      (s.apply v e).2.view = (s.view.apply e).2 := by
  cases e with
  | run n =>
    obtain ⟨ha, hreply, hview⟩ := steps_view hv h n.toNat
    have hrun : s.view.apply (.run n) = ((s.view.run n).1.map .ran, (s.view.run n).2) := rfl
    rw [hrun, apply, Console.run]
    generalize s.steps v n.toNat = o at ha hreply hview ⊢
    generalize s.view.steps n.toNat = o' at hreply hview ⊢
    obtain ⟨a, t⟩ := o
    obtain ⟨r, c⟩ := o'
    obtain rfl : a = r := hreply
    obtain rfl : t.view = c := hview
    cases a <;> exact ⟨ha, rfl, rfl⟩
  | step | execute | tick | press | release | seen =>
    refine ⟨(call_view hv h ?_).1, rfl, (call_view hv h ?_).2⟩ <;> simp

theorem boot_view (hv : v.frame = Arrays.copy) {i : Console.Setup} {c : Console}
    (h : Console.boot i = .ok c) : ∃ s, boot v i = .ok s ∧ s.Apart ∧ s.view = c := by
  obtain ⟨t, rfl⟩ := Console.eq_of_boot h
  rw [boot, h]
  refine ⟨_, rfl, ?_⟩
  dsimp only
  split
  · next hl =>
    obtain ⟨ha, hview⟩ := handOver_copy (s := {
      console := _, arrays := ⟨[.blank]⟩, live := 0, received := some [] }) hv
      ⟨Nat.zero_lt_one, List.not_mem_nil⟩
    refine ⟨ha, hview.trans ?_⟩
    rfl
  · next hl => exact ⟨⟨Nat.zero_lt_one, List.not_mem_nil⟩, rfl⟩

theorem after_view (hv : v.frame = Arrays.copy) (h : s.Apart) (ds : List Command) :
    (s.after v ds).Apart ∧ s.replies v ds = s.view.replies ds ∧
      (s.after v ds).view = s.view.after ds := by
  induction ds generalizing s with
  | nil => exact ⟨h, rfl, rfl⟩
  | cons e es ih =>
    obtain ⟨ha, hreply, hview⟩ := apply_view hv h e
    obtain ⟨ha', hreplies, hafter⟩ := ih ha
    rw [replies, after, Console.replies, Console.after, hreply, ← hview]
    exact ⟨ha', congrArg _ hreplies, hafter⟩

/-- A listener may keep the frames that it is handed and may draw in them. Neither the replies nor the
console can tell, and what it has been handed are the displays of the console. -/
theorem copies_without_influence (hv : v.frame = Arrays.copy) {i : Console.Setup} {c : Console}
    (h : Console.boot i = .ok c) (ds : List Command) :
    ∃ s, boot v i = .ok s ∧ s.replies v ds = c.replies ds ∧ (s.after v ds).view = c.after ds ∧
      (s.after v ds).received = (c.after ds).frames := by
  obtain ⟨s, hs, ha, rfl⟩ := boot_view hv h
  obtain ⟨-, hreplies, hafter⟩ := after_view hv ha ds
  exact ⟨s, hs, hreplies, hafter, congrArg Console.frames hafter⟩

def wiped (frame : Arrays → Nat → Arrays × Nat) : Option Display :=
  let v : Handover := ⟨frame, fun l => l.map fun _ => .blank⟩
  (boot v Console.flashing).toOption.map fun s => (s.after v [.run 1]).view.machine.display

/-- A listener that wipes out what it holds would wipe out the display, if the array of the console
itself was handed over. -/
example : wiped Arrays.copy ≠ some .blank ∧ wiped Arrays.same = some .blank := by decide +kernel

end Studio

end Chip8

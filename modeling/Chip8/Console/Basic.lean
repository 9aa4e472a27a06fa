import Chip8.Console.Trace
import Chip8.Machine.Arithmetic
import Chip8.Peripheral.Keypad
import Chip8.Peripheral.Random

/-! A console: the machine among its peripherals. The trace, and the frames that a listener has been
given, begin with the latest. -/

namespace Chip8

structure Console where
  machine : Machine
  keypad : Keypad := .released
  watcher : Option KeyWatcher := none
  reader : Option KeyReader := none
  random : RandomSource
  frames : Option (List Display) := none
  drawn : Bool := false
  trace : List Record := []

inductive StepResult
  | executed | waiting | halted
deriving DecidableEq, Repr

namespace Console

def withMachine (c : Console) (m : Machine) : Console := { c with machine := m }

def note (c : Console) (r : Record) : Console := { c with trace := r :: c.trace }

def present (c : Console) : Console :=
  { c with drawn := true, frames := c.frames.map (c.machine.display :: ·) }

def isKeyDown (c : Console) (k : Key) : Bool × Console :=
  match c.watcher with
  | none => (c.keypad.isDown k, c)
  | some w => let r := w.ask k; (r.1, { c with watcher := some r.2 })

/-- A question to a watcher is all that a look at a key leaves behind. -/
theorem isKeyDown_snd (c : Console) (k : Key) :
    (c.isKeyDown k).2 = { c with watcher := (c.isKeyDown k).2.watcher } := by
  unfold isKeyDown
  split <;> rfl

structure Setup where
  program : List UInt8
  capacity : Int := Layout.stackSize
  random : RandomSource
  watcher : Option KeyWatcher := none
  reader : Option KeyReader := none
  listening : Bool := false

def boot (s : Setup) : Except Fault Console :=
  (Machine.ofProgram s.program s.capacity).map fun m =>
    let c : Console := { machine := m, watcher := s.watcher, reader := s.reader, random := s.random }
    if s.listening then { c with frames := some [] }.present else c

theorem eq_of_boot {s : Setup} {c : Console} (h : boot s = .ok c) : ∃ t, c = {
    machine := { memory := t, capacity := s.capacity.toNat }
    watcher := s.watcher
    reader := s.reader
    random := s.random
    frames := if s.listening then some [.blank] else none
    drawn := s.listening } := by
  rw [boot] at h
  cases hm : Machine.ofProgram s.program s.capacity with
  | error f =>
    rw [hm] at h
    cases h
  | ok m =>
    obtain ⟨t, rfl⟩ := Machine.eq_of_ofProgram hm
    rw [hm] at h
    refine ⟨t, ?_⟩
    cases hl : s.listening <;> simp only [Except.map, hl] at h <;> cases h <;> rfl

def tick (c : Console) : Console := c.withMachine c.machine.tick

def press (c : Console) (k : Int) : Console := { c with keypad := c.keypad.press k }

def release (c : Console) (k : Int) : Console := { c with keypad := c.keypad.release k }

end Console

end Chip8

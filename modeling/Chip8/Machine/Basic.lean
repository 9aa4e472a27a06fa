import Chip8.Machine.Display
import Chip8.Machine.Memory
import Chip8.Machine.Registers

/-! The state of the machine, and the operations on it that no instruction is needed for. The stack
begins with the latest return address. -/

namespace Chip8

structure Machine where
  memory : Memory := .blank
  registers : Registers := .blank
  index : Int := 0
  pc : Int := Layout.programStart
  stack : List Int := []
  capacity : Nat := Layout.stackSize
  delay : Int := 0
  sound : Int := 0
  display : Display := .blank
  waiting : Bool := false
  keyRegister : Int := 0
  halted : Bool := false
deriving DecidableEq

namespace Machine

def ofProgram (program : List UInt8) (capacity : Int) : Except Fault Machine :=
  if Layout.programLimit < program.length then
    .error (.programTooLarge program.length Layout.programLimit)
  else if capacity < 1 then
    .error (.badCapacity capacity)
  else
    .ok {
      memory := (Memory.blank.writeBlock Layout.fontStart Font.bytes).writeBlock
        Layout.programStart program
      capacity := capacity.toNat }

/-- The address is the one after the call, so the call itself is two before it. -/
def push (m : Machine) (address : Int) : Except Fault Machine :=
  if m.capacity ≤ m.stack.length then .error (.stackOverflow (address - 2) m.capacity)
  else .ok { m with stack := address :: m.stack }

def pop? (m : Machine) : Option (Int × Machine) :=
  match m.stack with
  | [] => none
  | a :: rest => some (a, { m with stack := rest })

/-- Two bytes, the high one first. Unlike data, instructions do not wrap round the end of memory. -/
def readWord (m : Machine) (a : Int) : Except Fault Nat :=
  if a < 0 ∨ 4095 ≤ a then .error (.badFetch a)
  else .ok (256 * (m.memory.read a).toNat + (m.memory.read (a + 1)).toNat)

def countDown (t : Int) : Int := if 0 < t then t - 1 else t

def tick (m : Machine) : Machine :=
  { m with delay := countDown m.delay, sound := countDown m.sound }

def sounding (m : Machine) : Bool := 0 < m.sound

def clear (m : Machine) : Machine := { m with display := .blank }

def v (m : Machine) (x : Register) : UInt8 := m.registers.get x

def setV (m : Machine) (x : Register) (b : UInt8) : Machine :=
  { m with registers := m.registers.set x b }

def skipIf (m : Machine) (c : Bool) : Machine := if c then { m with pc := m.pc + 2 } else m

/-- Of a new machine only the memory depends on the program. -/
theorem eq_of_ofProgram {program : List UInt8} {capacity : Int} {m : Machine}
    (h : ofProgram program capacity = .ok m) :
    ∃ t, m = { memory := t, capacity := capacity.toNat } := by
  unfold ofProgram at h
  split at h
  · cases h
  · split at h
    · cases h
    · cases h
      exact ⟨_, rfl⟩

variable (m : Machine) (a : Int)

theorem push_eq : m.push a =
    if m.stack.length < m.capacity then .ok { m with stack := a :: m.stack }
    else .error (.stackOverflow (a - 2) m.capacity) := by
  unfold push
  split <;> split <;> first | rfl | omega

theorem readWord_eq_error_iff {f : Fault} :
    m.readWord a = .error f ↔ (a < 0 ∨ 0xFFE < a) ∧ f = .badFetch a := by
  unfold readWord
  split <;> simp [eq_comm] <;> omega

theorem readWord_range {w : Nat} (h : m.readWord a = .ok w) :
    0 ≤ a ∧ a ≤ 0xFFE ∧ w ≤ 0xFFFF := by
  unfold readWord at h
  split at h
  · cases h
  · have hi := (m.memory.read a).toNat_lt
    have lo := (m.memory.read (a + 1)).toNat_lt
    cases h
    omega

end Machine

end Chip8

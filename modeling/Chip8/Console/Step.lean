import Chip8.Console.Effect

/-! The execution cycle. One step executes one instruction, or resumes a suspended console. -/

namespace Chip8.Console

def announce (c : Console) (i : Instruction) : Console :=
  c.note (.executing ((c.machine.pc - 2) % 65536).toNat i)

def execute (c : Console) (w : Int) : Outcome Console Unit :=
  match Instruction.decode w with
  | .error f => (.error f, c)
  | .ok i =>
    match (c.announce i).perform i with
    | .error f => (.error f, c.announce i)
    | .ok c => (.ok (), c)

def storeKey (c : Console) (k : Int) : Outcome Console StepResult :=
  let m := c.machine
  let key := Key.ofInt k
  match m.registers.store m.keyRegister key.val with
  | .error f => (.error f, c)
  | .ok r =>
    (.ok .executed,
      (c.withMachine { m with registers := r, waiting := false }).note (.stored key m.keyRegister))

def readKey (c : Console) : Option Int × Console :=
  match c.reader with
  | none => (none, c)
  | some r => let a := r.next; (a.1, { c with reader := some a.2 })

def resume (c : Console) (key : Option Int) : Outcome Console StepResult :=
  match key with
  | some k => c.storeKey k
  | none =>
    match c.readKey with
    | (none, c) => (.ok .waiting, c)
    | (some k, c) => c.storeKey k

/-- The end of a step that has executed an instruction. A reader is asked in the same step. -/
def settle (c : Console) : Outcome Console StepResult :=
  if c.machine.halted then (.ok .halted, c)
  else if c.machine.waiting then
    if c.reader.isNone then (.ok .waiting, c)
    else
      match c.readKey with
      | (none, c) => (.error .noKey, c)
      | (some k, c) => c.storeKey k
  else (.ok .executed, c)

def advance (c : Console) : Console := c.withMachine { c.machine with pc := c.machine.pc + 2 }

def step (c : Console) (key : Option Int) : Outcome Console StepResult :=
  if c.machine.halted then (.error .halted, c)
  else if c.machine.waiting then c.resume key
  else
    match c.machine.readWord c.machine.pc with
    | .error f => (.error f, c)
    | .ok w =>
      match c.advance.execute w with
      | (.error f, c) => (.error f, c)
      | (.ok (), c) => c.settle

def steps (c : Console) : Nat → Outcome Console Unit
  | 0 => (.ok (), c)
  | n + 1 =>
    match c.step none with
    | (.error f, c) => (.error f, c)
    | (.ok .executed, c) => c.steps n
    | (.ok _, c) => (.ok (), c)

def run (c : Console) (n : Int) : Outcome Console Bool :=
  match c.steps n.toNat with
  | (.error f, c) => (.error f, c)
  | (.ok (), c) => (.ok (!c.machine.halted), c)

end Chip8.Console

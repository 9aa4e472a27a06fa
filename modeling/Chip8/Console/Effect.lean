import Chip8.Console.Basic

/-! What each instruction does. An instruction that fails does nothing. -/

namespace Chip8.Console

def skipOnKey (c : Console) (x : Register) (down : Bool) : Console :=
  let r := c.isKeyDown (Key.ofInt (c.machine.v x).toNat)
  r.2.withMachine (r.2.machine.skipIf (r.1 == down))

def draw (c : Console) (x y : Register) (n : Nat) : Console :=
  let m := c.machine
  let s := Display.stamp (Fin.ofNat 64 (m.v x).toNat) (Fin.ofNat 32 (m.v y).toNat)
    (m.memory.readBlock m.index n)
  let m' := { m with display := m.display.xor s }
  -- The flag comes after its use as an operand.
  (c.withMachine (m'.setV Layout.flagRegister (if m.display.overlaps s then 1 else 0))).present

def drawRandom (c : Console) (x : Register) (mask : UInt8) : Console :=
  let r := c.random.next
  { c with random := r.2, machine := c.machine.setV x (UInt8.ofInt r.1 &&& mask) }

def perform (c : Console) (i : Instruction) : Except Fault Console :=
  let m := c.machine
  match i.op with
  | .clear => .ok (c.withMachine m.clear).present
  | .ret =>
    match m.pop? with
    | none => .ok ((c.withMachine { m with halted := true }).note .leaving)
    | some (a, m) => .ok (c.withMachine { m with pc := a })
  | .sys => .ok (c.note (.ignoring i.word))
  | .unknown => .ok (c.note (.ignoring i.word))
  | .jump => .ok (c.withMachine { m with pc := i.nnn.val })
  | .call => (m.push m.pc).map fun m => c.withMachine { m with pc := i.nnn.val }
  | .skipEqByte => .ok (c.withMachine (m.skipIf (m.v i.x == i.kk)))
  | .skipNeByte => .ok (c.withMachine (m.skipIf (m.v i.x != i.kk)))
  | .skipEqReg => .ok (c.withMachine (m.skipIf (m.v i.x == m.v i.y)))
  | .skipNeReg => .ok (c.withMachine (m.skipIf (m.v i.x != m.v i.y)))
  | .loadByte => .ok (c.withMachine (m.setV i.x i.kk))
  | .addByte => .ok (c.withMachine (m.setV i.x (m.v i.x + i.kk)))
  | .copy => .ok (c.withMachine (m.combine i.x i.y fun _ b => b))
  | .or => .ok (c.withMachine (m.combine i.x i.y (· ||| ·)))
  | .and => .ok (c.withMachine (m.combine i.x i.y (· &&& ·)))
  | .xor => .ok (c.withMachine (m.combine i.x i.y (· ^^^ ·)))
  | .add => .ok (c.withMachine (m.combineFlag i.x i.y Arithmetic.add))
  | .sub => .ok (c.withMachine (m.combineFlag i.x i.y Arithmetic.sub))
  | .shiftRight => .ok (c.withMachine (m.combineFlag i.x i.y Arithmetic.shiftRight))
  | .subFrom => .ok (c.withMachine (m.combineFlag i.x i.y Arithmetic.subFrom))
  | .shiftLeft => .ok (c.withMachine (m.combineFlag i.x i.y Arithmetic.shiftLeft))
  | .loadIndex => .ok (c.withMachine { m with index := i.nnn.val })
  | .jumpOffset =>
    .ok (c.withMachine { m with
      pc := (Address.wrap ((m.v Layout.offsetRegister).toNat + i.nnn.val)).val })
  | .random => .ok (c.drawRandom i.x i.kk)
  | .draw => .ok (c.draw i.x i.y i.n)
  | .skipDown => .ok (c.skipOnKey i.x true)
  | .skipUp => .ok (c.skipOnKey i.x false)
  | .readDelay =>
    (m.registers.store i.x.val m.delay).map fun r => c.withMachine { m with registers := r }
  | .awaitKey =>
    .ok ((c.withMachine { m with waiting := true, keyRegister := i.x.val }).note (.awaiting i.x))
  | .setDelay => .ok (c.withMachine { m with delay := (m.v i.x).toNat })
  | .setSound => .ok (c.withMachine { m with sound := (m.v i.x).toNat })
  | .addIndex => .ok (c.withMachine { m with index := (Address.wrap (m.index + (m.v i.x).toNat)).val })
  | .glyph =>
    .ok (c.withMachine { m with
      index := (Layout.fontStart + (m.v i.x).toNat % 16 * Font.glyphSize : Nat) })
  | .decimal =>
    .ok (c.withMachine { m with
      memory := m.memory.writeBlock m.index (Arithmetic.decimal (m.v i.x)) })
  | .save =>
    .ok (c.withMachine { m with memory := m.memory.writeBlock m.index (m.registers.upTo i.x) })
  | .restore =>
    .ok (c.withMachine { m with
      registers := m.registers.fill i.x fun k => m.memory.read (m.index + k) })

end Chip8.Console

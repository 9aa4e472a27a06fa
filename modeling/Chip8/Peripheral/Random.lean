import Chip8.Peripheral.Twister

/-! Random numbers for the machine: any stream of integers, or a seeded generator. -/

namespace Chip8

inductive RandomSource
  | stream (answer : Nat → Int) (drawn : Nat)
  | twister (t : Twister) (drawn : Nat)

namespace RandomSource

def ofSeed (seed : Int) : RandomSource := twister (.ofSeed seed) 0

def drawn : RandomSource → Nat
  | stream _ n => n
  | twister _ n => n

def next : RandomSource → Int × RandomSource
  | stream f n => (f n, stream f (n + 1))
  | twister t n => let r := t.nextByte; (r.1, twister r.2 (n + 1))

end RandomSource

end Chip8

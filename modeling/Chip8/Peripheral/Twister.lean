/-! The 32-bit Mersenne twister with a block of 624 words, seeded from an integer. Indices into the
block are taken modulo its size. -/

namespace Chip8

structure Twister where
  words : Vector UInt32 624
  used : Nat

namespace Twister

abbrev Block := Vector UInt32 624

def blend (w : UInt32) : UInt32 := w ^^^ (w >>> 30)

def grow (s : UInt32) : Block :=
  Fin.foldl 623 (fun v i =>
    let k : Fin 624 := i.succ
    v.set k (1812433253 * blend v[k - 1] + UInt32.ofNat k)) (Vector.replicate 624 s)

def stir (factor summand : UInt32) (v : Block) (i : Fin 624) : Block × Fin 624 :=
  let v := v.set i ((v[i] ^^^ (blend v[i - 1] * factor)) + summand)
  if i = 623 then (v.set 0 v[623], 1) else (v, i + 1)

def ofKey (key : Array UInt32) : Twister :=
  let first := (List.range (max 624 key.size)).foldl (fun (v, i) t =>
    let j := t % key.size
    stir 1664525 ((key[j]?).getD 0 + UInt32.ofNat j) v i) (grow 19650218, 1)
  let second := (List.range 623).foldl (fun (v, i) _ =>
    stir 1566083941 (0 - UInt32.ofNat i) v i) first
  { words := second.1.set 0 0x80000000, used := 624 }

def digits (n : Nat) : List UInt32 :=
  if n < 0x100000000 then [UInt32.ofNat n] else UInt32.ofNat n :: digits (n / 0x100000000)

def ofSeed (seed : Int) : Twister := ofKey (digits seed.natAbs).toArray

def regenerate (v : Block) : Block :=
  Fin.foldl 624 (fun v k =>
    let y := (v[k] &&& 0x80000000) ||| (v[k + 1] &&& 0x7FFFFFFF)
    v.set k (v[k + 397] ^^^ (y >>> 1) ^^^ (if y % 2 = 1 then 0x9908B0DF else 0))) v

def temper (y : UInt32) : UInt32 :=
  let y := y ^^^ (y >>> 11)
  let y := y ^^^ ((y <<< 7) &&& 0x9D2C5680)
  let y := y ^^^ ((y <<< 15) &&& 0xEFC60000)
  y ^^^ (y >>> 18)

def next (t : Twister) : UInt32 × Twister :=
  if h : t.used < 624 then
    (temper t.words[t.used], { t with used := t.used + 1 })
  else
    let v := regenerate t.words
    (temper v[0], { words := v, used := 1 })

def nextBelow256 : Nat → Twister → Nat × Twister
  | 0, t => (0, t)
  | n + 1, t =>
    let (w, t) := t.next
    let r := (w >>> 23).toNat
    if r < 256 then (r, t) else nextBelow256 n t

/-- Within a period the highest bits of 19937 words in a row show every pattern but zero just once,
so a run of set bits is no longer than that. -/
def nextByte (t : Twister) : Nat × Twister := nextBelow256 19938 t

end Twister

end Chip8

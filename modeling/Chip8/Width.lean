/-! Which integers fit into a byte or into 64 bits, and what 32 bits keep of an integer. -/

namespace Chip8

def byte? (v : Int) : Option UInt8 := if 0 ≤ v ∧ v < 256 then some (UInt8.ofNat v.toNat) else none

def fits64 (n : Int) : Bool := -0x8000000000000000 ≤ n ∧ n < 0x8000000000000000

def low32 (n : Int) : Int := n.bmod 0x100000000

theorem byte?_toNat (b : UInt8) : byte? b.toNat = some b := by
  have := b.toNat_lt
  simp [byte?]
  omega

theorem byte?_eq_some {v : Int} {b : UInt8} (h : byte? v = some b) : (b.toNat : Int) = v := by
  unfold byte? at h
  split at h
  · cases h
    simp
    omega
  · cases h

theorem byte?_eq_none_iff {v : Int} : byte? v = none ↔ ¬ (0 ≤ v ∧ v ≤ 255) := by
  unfold byte?
  split <;> simp <;> omega

theorem fits64_iff {n : Int} :
    fits64 n = true ↔ -0x8000000000000000 ≤ n ∧ n < 0x8000000000000000 := by
  simp [fits64]

theorem low32_eq_self {n : Int} (h : -0x80000000 ≤ n) (h' : n < 0x80000000) : low32 n = n :=
  Int.bmod_eq_of_le (by omega) (by omega)

end Chip8

import Chip8.Fault
import Chip8.Layout
import Chip8.Width

/-! The register file, and what may be stored in it. -/

namespace Chip8

def Register.ofInt? (k : Int) : Option Register :=
  if -16 ≤ k ∧ k < 16 then some ⟨(k % 16).toNat, toNat_emod_lt k⟩ else none

structure Registers where
  cells : Vector UInt8 16
deriving DecidableEq

namespace Registers

def blank : Registers := ⟨Vector.replicate 16 0⟩

def get (r : Registers) (x : Register) : UInt8 := r.cells[x]

def set (r : Registers) (x : Register) (b : UInt8) : Registers := ⟨r.cells.set x b⟩

def upTo (r : Registers) (x : Register) : List UInt8 :=
  ((List.finRange 16).take (x.val + 1)).map r.get

def fill (r : Registers) (x : Register) (f : Nat → UInt8) : Registers :=
  ⟨Vector.ofFn fun i => if i ≤ x then f i.val else r.get i⟩

/-- Stores a number in the register with a number. A value that is no byte is noticed before a
number that is no register, unless that number is too large to look at. -/
def store (r : Registers) (k v : Int) : Except Fault Registers :=
  if fits64 k then
    match byte? v, Register.ofInt? k with
    | none, _ => .error .notByte
    | some _, none => .error .badIndex
    | some b, some x => .ok (r.set x b)
  else .error .hugeIndex

def toList (r : Registers) : List UInt8 := r.cells.toList

variable (r : Registers) (x y : Register)

theorem get_set (b : UInt8) : (r.set x b).get y = if x = y then b else r.get y := by
  simp only [get, set, Fin.getElem_fin, Vector.getElem_set, Fin.ext_iff]

theorem get_fill (f : Nat → UInt8) : (r.fill x f).get y = if y ≤ x then f y.val else r.get y := by
  simp [get, fill]

/-- In a register that exists everything can be stored that is a byte. -/
theorem store_register (v : Int) : r.store x.val v = match byte? v with
    | none => .error .notByte
    | some b => .ok (r.set x b) := by
  have hx : Register.ofInt? x.val = some x := by
    rw [Register.ofInt?, if_pos (by omega)]
    congr 1
    apply Fin.ext
    simp only
    omega
  have hf : fits64 x.val = true := fits64_iff.2 (by omega)
  rw [store, if_pos hf, hx]
  cases byte? v <;> rfl

theorem store_ok {r s : Registers} {k v : Int} (h : r.store k v = .ok s) :
    ∃ x, Register.ofInt? k = some x ∧ (s.get x).toNat = v := by
  unfold store at h
  split at h
  · split at h <;> cases h
    case h_3 hb hx =>
      refine ⟨_, hx, ?_⟩
      rw [get_set, if_pos rfl]
      exact byte?_eq_some hb
  · cases h

theorem getElem?_upTo (k : Nat) :
    (r.upTo x)[k]? = if h : k ≤ x.val then some (r.get ⟨k, by omega⟩) else none := by
  simp only [upTo, List.getElem?_map, List.getElem?_take]
  by_cases h : k ≤ x.val
  · have hk : k < (List.finRange 16).length := by rw [List.length_finRange]; omega
    simp [h, Nat.lt_succ_of_le h, List.getElem?_eq_getElem hk]
  · rw [if_neg (by omega), dif_neg h]
    rfl

end Registers

end Chip8

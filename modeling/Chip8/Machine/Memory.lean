import Chip8.Layout

/-! The memory: a ring of 4096 bytes, read and written at any integer. -/

namespace Chip8

structure Memory where
  bytes : Vector UInt8 4096
deriving DecidableEq

namespace Memory

def blank : Memory := ⟨Vector.replicate 4096 0⟩

def read (m : Memory) (i : Int) : UInt8 := m.bytes[Address.wrap i]

def write (m : Memory) (i : Int) (b : UInt8) : Memory := ⟨m.bytes.set (Address.wrap i) b⟩

def readBlock (m : Memory) (i : Int) (n : Nat) : List UInt8 :=
  (List.range n).map fun (k : Nat) => m.read (i + k)

def writeBlock (m : Memory) (i : Int) : List UInt8 → Memory
  | [] => m
  | b :: bs => (m.write i b).writeBlock (i + 1) bs

def toList (m : Memory) : List UInt8 := m.bytes.toList

variable (m : Memory) (i j : Int)

@[simp] theorem read_blank : blank.read i = 0 := by simp [read, blank]

theorem read_congr {i j : Int} (h : i % 4096 = j % 4096) : m.read i = m.read j := by
  simp only [read, Address.wrap_eq_iff.2 h]

theorem read_emod : m.read (i % 4096) = m.read i :=
  m.read_congr (Int.emod_emod_of_dvd _ (Int.dvd_refl _))

theorem read_wrap : m.read (Address.wrap i).val = m.read i := by
  rw [Address.val_wrap, read_emod]

/-- A memory is told by what is read at its addresses. -/
theorem ext_read {m n : Memory} (h : ∀ a : Address, m.read a.val = n.read a.val) : m = n := by
  cases m; cases n
  congr 1
  apply Vector.ext
  intro i hi
  have hw : Address.wrap i = ⟨i, hi⟩ := Address.wrap_val ⟨i, hi⟩
  have ha := h ⟨i, hi⟩
  simp only [read, hw] at ha
  exact ha

theorem read_write (b : UInt8) :
    (m.write i b).read j = if i % 4096 = j % 4096 then b else m.read j := by
  simp only [read, write, Fin.getElem_fin, Vector.getElem_set, ← Address.wrap_eq_iff, Fin.ext_iff]

theorem getElem?_readBlock (n k : Nat) :
    (m.readBlock i n)[k]? = if k < n then some (m.read (i + k)) else none := by
  by_cases h : k < n <;> simp [readBlock, h]

/-- A block that is no larger than memory does not run over its own beginning. -/
theorem read_writeBlock {l : List UInt8} (h : l.length ≤ 4096) :
    (m.writeBlock i l).read j = l[((j - i) % 4096).toNat]?.getD (m.read j) := by
  induction l generalizing m i with
  | nil => simp [writeBlock]
  | cons b l ih =>
    rw [List.length_cons] at h
    rw [writeBlock, ih _ _ (by omega), read_write]
    by_cases he : i % 4096 = j % 4096
    · -- the first byte; the rest ends before it comes round to it again
      have h0 : ((j - i) % 4096).toNat = 0 := by omega
      have h1 : ((j - (i + 1)) % 4096).toNat = 4095 := by omega
      rw [h0, h1, List.getElem?_eq_none (by omega)]
      simp [he]
    · have h1 : ((j - i) % 4096).toNat = ((j - (i + 1)) % 4096).toNat + 1 := by omega
      rw [h1, List.getElem?_cons_succ]
      simp [he]

end Memory

end Chip8

/-! Sizes of the machine, and the font of the sixteen hexadecimal digits. -/

namespace Chip8

abbrev Address := Fin 4096

abbrev Register := Fin 16

abbrev Key := Fin 16

theorem toNat_emod_lt (k : Int) : (k % 16).toNat < 16 := by omega

def Key.ofInt (k : Int) : Key := ⟨(k % 16).toNat, toNat_emod_lt k⟩

theorem Key.ofInt_val (k : Int) : ((Key.ofInt k).val : Int) = k % 16 :=
  Int.toNat_of_nonneg (Int.emod_nonneg k (by decide))

theorem Key.ofInt_natCast (k : Key) : Key.ofInt k.val = k := by
  have := Key.ofInt_val k.val
  apply Fin.ext
  omega

def Address.wrap (i : Int) : Address := ⟨(i % 4096).toNat, by omega⟩

theorem Address.wrap_eq_iff {i j : Int} : wrap i = wrap j ↔ i % 4096 = j % 4096 := by
  simp only [wrap, Fin.mk.injEq]
  omega

theorem Address.val_wrap (i : Int) : ((wrap i).val : Int) = i % 4096 :=
  Int.toNat_of_nonneg (Int.emod_nonneg i (by decide))

theorem Address.wrap_val (a : Address) : wrap a.val = a := by
  have := val_wrap a.val
  apply Fin.ext
  omega

namespace Layout

def memorySize : Nat := 4096
def programStart : Nat := 0x200
def programLimit : Nat := memorySize - programStart
def fontStart : Nat := 0
def stackSize : Nat := 16
def displayWidth : Nat := 64
def displayHeight : Nat := 32

def flagRegister : Register := 0xF

def offsetRegister : Register := 0x0

end Layout

namespace Font

def glyphSize : Nat := 5

def bytes : List UInt8 :=
  [0xF0, 0x90, 0x90, 0x90, 0xF0,
   0x20, 0x60, 0x20, 0x20, 0x70,
   0xF0, 0x10, 0xF0, 0x80, 0xF0,
   0xF0, 0x10, 0xF0, 0x10, 0xF0,
   0x90, 0x90, 0xF0, 0x10, 0x10,
   0xF0, 0x80, 0xF0, 0x10, 0xF0,
   0xF0, 0x80, 0xF0, 0x90, 0xF0,
   0xF0, 0x10, 0x20, 0x40, 0x40,
   0xF0, 0x90, 0xF0, 0x90, 0xF0,
   0xF0, 0x90, 0xF0, 0x10, 0xF0,
   0xF0, 0x90, 0xF0, 0x90, 0x90,
   0xE0, 0x90, 0xE0, 0x90, 0xE0,
   0xF0, 0x80, 0x80, 0x80, 0xF0,
   0xE0, 0x90, 0x90, 0x90, 0xE0,
   0xF0, 0x80, 0xF0, 0x80, 0xF0,
   0xF0, 0x80, 0xF0, 0x80, 0x80]

end Font

end Chip8

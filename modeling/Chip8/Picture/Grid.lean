import Chip8.Machine.Display

/-! Tables with two axes. A display goes down along the first axis and to the right along the
second. -/

namespace Chip8

abbrev Grid (m n : Nat) (α : Type) := Vector (Vector α n) m

namespace Grid

variable {m n : Nat} {α : Type}

def cell (a : Grid m n α) (i : Fin m) (j : Fin n) : α := a[i][j]

def transpose (a : Grid m n α) : Grid n m α :=
  Vector.ofFn fun j => Vector.ofFn fun i => a.cell i j

def select (a : Grid m n Bool) (on off : α) : Grid m n α :=
  a.map fun cells => cells.map fun b => if b then on else off

theorem cell_transpose (a : Grid m n α) (i : Fin m) (j : Fin n) :
    a.transpose.cell j i = a.cell i j := by
  simp [cell, transpose]

theorem cell_select (a : Grid m n Bool) (on off : α) (i : Fin m) (j : Fin n) :
    (a.select on off).cell i j = if a.cell i j then on else off := by
  change (a.select on off)[i][j] = if a[i][j] then on else off
  simp [select]

end Grid

def Display.grid (d : Display) : Grid 32 64 Bool :=
  Vector.ofFn fun p => Vector.ofFn fun q => d.pixel p q

theorem Display.cell_grid (d : Display) (p : Fin 32) (q : Fin 64) :
    d.grid.cell p q = d.pixel p q := by
  simp [Grid.cell, grid]

end Chip8

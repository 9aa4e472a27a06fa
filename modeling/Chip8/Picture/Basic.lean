import Chip8.Picture.Color
import Chip8.Picture.Grid
import Chip8.Picture.Runs

/-! Pictures: rectangles of coloured pixels, line by line from the top. Equal lines and equal pixels
come in runs, so that large pictures are small values. -/

namespace Chip8

structure Picture where
  width : Nat
  height : Nat
  lines : Runs (Runs Color)
  length_lines : lines.expand.length = height
  length_line : ∀ l ∈ lines.expand, l.expand.length = width

namespace Picture

def pixel? (p : Picture) (u w : Nat) : Option Color := p.lines.expand[w]?.bind fun l => l.expand[u]?

def black (width height : Nat) : Picture where
  width := width
  height := height
  lines := [(height, [(width, .black)])]
  length_lines := by simp
  length_line := by simp +contextual [List.mem_replicate]

def ofGrid {m n : Nat} (a : Grid m n Color) : Picture where
  width := m
  height := n
  lines := .ofList ((List.finRange n).map fun j =>
    .ofList ((List.finRange m).map fun i => a.cell i j))
  length_lines := by simp [Runs.expand_ofList]
  length_line := by
    intro l h
    rw [Runs.expand_ofList] at h
    obtain ⟨j, -, rfl⟩ := List.mem_map.1 h
    simp [Runs.expand_ofList]

def stretch (p : Picture) (a b : Nat) : Picture where
  width := p.width * a
  height := p.height * b
  lines := Runs.stretch b (p.lines.map fun r => (r.1, r.2.stretch a))
  length_lines := by
    rw [Runs.expand_stretch, Runs.expand_map fun l : Runs Color => l.stretch a, length_stretch,
      List.length_map, p.length_lines]
  length_line := by
    intro l h
    rw [Runs.expand_stretch, Runs.expand_map fun l : Runs Color => l.stretch a] at h
    obtain ⟨l', hl, rfl⟩ := List.mem_map.1 (mem_stretch h)
    rw [Runs.expand_stretch, length_stretch, p.length_line l' hl]

/-- A line that begins at column `x`; what is left of it lets through what is below. -/
def shifted (x : Nat) (l : Runs Color) : Runs (Option Color) :=
  (x, none) :: l.map fun r => (r.1, some r.2)

def blit (p s : Picture) (x y : Nat) : Picture where
  width := s.width
  height := s.height
  lines := Runs.layOver (Runs.layOver fun (a : Option Color) b => a.getD b)
    ((y, []) :: p.lines.map fun r => (r.1, shifted x r.2)) s.lines
  length_lines := by rw [Runs.expand_layOver, length_layOver, s.length_lines]
  length_line := by
    intro l h
    rw [Runs.expand_layOver] at h
    rcases mem_layOver h with h | ⟨b, c, hc, rfl⟩
    · exact s.length_line l h
    · rw [Runs.expand_layOver, length_layOver]
      exact s.length_line c hc

variable {p s : Picture} {u w : Nat}

theorem isSome_pixel?_iff (p : Picture) (u w : Nat) :
    (p.pixel? u w).isSome = true ↔ u < p.width ∧ w < p.height := by
  rw [pixel?, ← p.length_lines]
  by_cases hw : w < p.lines.expand.length
  · have hl := p.length_line _ (List.getElem_mem hw)
    rw [List.getElem?_eq_getElem hw, Option.bind_some, ← hl]
    simp [hw]
  · rw [List.getElem?_eq_none (Nat.not_lt.1 hw)]
    simp [hw]

theorem pixel?_eq_none (h : ¬ (u < p.width ∧ w < p.height)) : p.pixel? u w = none := by
  rw [← isSome_pixel?_iff] at h
  simpa using h

theorem pixel?_black (width height u w : Nat) :
    (black width height).pixel? u w = if u < width ∧ w < height then some .black else none := by
  by_cases hw : w < height <;> by_cases hu : u < width <;> simp [pixel?, black, hw, hu]

theorem pixel?_ofGrid {m n : Nat} (a : Grid m n Color) (i : Fin m) (j : Fin n) :
    (ofGrid a).pixel? i j = some (a.cell i j) := by
  simp [pixel?, ofGrid, Runs.expand_ofList]

theorem pixel?_stretch (p : Picture) {a b : Nat} (ha : 0 < a) (hb : 0 < b) (u w : Nat) :
    (p.stretch a b).pixel? u w = p.pixel? (u / a) (w / b) := by
  simp only [pixel?, stretch, Runs.expand_stretch, Runs.expand_map fun l : Runs Color => l.stretch a,
    getElem?_stretch hb, List.getElem?_map, Option.bind_map]
  cases p.lines.expand[w / b]? with
  | none => rfl
  | some l => simp [Runs.expand_stretch, getElem?_stretch ha]

theorem getElem?_shifted (x : Nat) (l : Runs Color) (u : Nat) :
    (shifted x l).expand[u]? = if u < x then some none else l.expand[u - x]?.map some := by
  rw [shifted, Runs.expand_cons, Runs.expand_map some l, List.getElem?_append]
  split
  · next h =>
    rw [List.length_replicate] at h
    simp [h]
  · next h =>
    rw [List.length_replicate] at h
    simp [h]

theorem pixel?_blit (p s : Picture) (x y u w : Nat) : (blit p s x y).pixel? u w =
    (s.pixel? u w).map fun c =>
      if x ≤ u ∧ y ≤ w then (p.pixel? (u - x) (w - y)).getD c else c := by
  simp only [pixel?, blit, Runs.expand_layOver, getElem?_layOver, Runs.expand_cons,
    Runs.expand_map (shifted x)]
  cases hs : s.lines.expand[w]? with
  | none => cases (List.replicate y [] ++ p.lines.expand.map (shifted x))[w]? <;> rfl
  | some m =>
    rw [List.getElem?_append, List.length_replicate]
    by_cases hy : w < y
    · simp only [if_pos hy, List.getElem?_replicate, Option.bind_some, Nat.not_le.2 hy, and_false,
        if_false, Option.map_id']
      rw [Runs.expand_layOver, getElem?_layOver]
      cases m.expand[u]? <;> rfl
    · rw [if_neg hy, List.getElem?_map]
      cases hp : p.lines.expand[w - y]? with
      | none => simp
      | some l =>
        simp only [Option.map_some, Option.bind_some, Runs.expand_layOver, getElem?_layOver,
          getElem?_shifted]
        by_cases hx : u < x
        · cases m.expand[u]? <;> simp [hx, Nat.not_le.2 hx]
        · simp only [if_neg hx, Nat.not_lt.1 hx, Nat.not_lt.1 hy, and_self, if_true]
          cases l.expand[u - x]? <;> cases m.expand[u]? <;> rfl

end Picture

end Chip8

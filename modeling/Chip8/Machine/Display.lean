/-! The display, 32 rows of 64 pixels, and sprites on it. Both axes wrap. -/

namespace Chip8

structure Display where
  -- The leftmost pixel of a row is its most significant bit.
  rows : Vector (BitVec 64) 32
deriving DecidableEq

namespace Display

def blank : Display := ⟨Vector.replicate 32 0⟩

def pixel (d : Display) (p : Fin 32) (q : Fin 64) : Bool := d.rows[p].getMsbD q

def strip (x : Fin 64) (b : UInt8) : BitVec 64 := (b.toBitVec ++ (0 : BitVec 56)).rotateRight x

/-- A display with nothing but the sprite, its top left corner at column `x` and row `y`. -/
def stamp (x : Fin 64) (y : Fin 32) (sprite : List UInt8) : Display :=
  ⟨Vector.ofFn fun p => match sprite[(p - y).val]? with
    | some b => strip x b
    | none => 0⟩

def xor (d e : Display) : Display := ⟨d.rows.zipWith (· ^^^ ·) e.rows⟩

def overlaps (d e : Display) : Bool := (d.rows.zipWith (· &&& ·) e.rows).any (· != 0)

variable (d e : Display) (p : Fin 32) (q : Fin 64)

theorem ext_pixel {d e : Display} (h : ∀ p q, d.pixel p q = e.pixel p q) : d = e := by
  cases d; cases e
  congr 1
  apply Vector.ext
  intro i hi
  apply BitVec.eq_of_getMsbD_eq
  intro k hk
  exact h ⟨i, hi⟩ ⟨k, hk⟩

@[simp] theorem pixel_blank : blank.pixel p q = false := by simp [pixel, blank]

@[simp] theorem pixel_xor : (d.xor e).pixel p q = (d.pixel p q ^^ e.pixel p q) := by
  simp [pixel, xor]

theorem xor_assoc (d s t : Display) : (d.xor s).xor t = d.xor (s.xor t) := by
  apply ext_pixel
  intro p q
  simp only [pixel_xor, Bool.xor_assoc]

theorem xor_right_comm (d s t : Display) : (d.xor s).xor t = (d.xor t).xor s := by
  apply ext_pixel
  intro p q
  simp only [pixel_xor, Bool.xor_right_comm]

theorem xor_xor_cancel_right (d s : Display) : (d.xor s).xor s = d := by
  apply ext_pixel
  intro p q
  simp only [pixel_xor, Bool.xor_assoc, Bool.xor_self, Bool.xor_false]

theorem getMsbD_strip (x q : Fin 64) (b : UInt8) :
    (strip x b).getMsbD q = b.toBitVec.getMsbD (q - x).val := by
  have hx := x.isLt
  have hq := q.isLt
  simp only [strip, BitVec.getMsbD_rotateRight, Nat.mod_eq_of_lt hx, BitVec.getMsbD_append]
  -- left of the corner the strip has come round from the right edge
  by_cases h : q.val < x.val
  · have : (q - x).val = 64 + q.val - x.val := by rw [Fin.sub_def]; simp; omega
    simp only [this, h, hq, if_true, decide_true, Bool.true_and]
    rw [Nat.mod_eq_of_lt (by omega)]
    by_cases h8 : 8 ≤ 64 + q.val - x.val <;> simp [h8]
  · have : (q - x).val = q.val - x.val := by rw [Fin.sub_def]; simp; omega
    simp only [this, h, hq, if_false, decide_true, Bool.true_and]
    by_cases h8 : 8 ≤ q.val - x.val <;> simp [h8]

theorem pixel_stamp (x : Fin 64) (y : Fin 32) (sprite : List UInt8) :
    (stamp x y sprite).pixel p q =
      ((sprite[(p - y).val]?).any fun b => b.toBitVec.getMsbD (q - x).val) := by
  simp only [pixel, stamp, Fin.getElem_fin, Vector.getElem_ofFn]
  cases h : sprite[(p - y).val]? with
  | none => simp
  | some b => simp [getMsbD_strip]

theorem overlaps_iff : d.overlaps e = true ↔ ∃ p q, d.pixel p q = true ∧ e.pixel p q = true := by
  have row (a b : BitVec 64) :
      (a &&& b != 0) = true ↔ ∃ q : Fin 64, a.getMsbD q = true ∧ b.getMsbD q = true := by
    rw [bne_iff_ne, ne_eq, ← Decidable.not_forall_not]
    apply not_congr
    constructor
    · intro h q hq
      have := congrArg (fun v => v.getMsbD q) h
      simp [hq] at this
    · intro h
      apply BitVec.eq_of_getMsbD_eq
      intro k hk
      have := h ⟨k, hk⟩
      simp_all
  simp only [overlaps, Vector.any_eq_true, Vector.getElem_zipWith, row]
  constructor
  · rintro ⟨i, hi, q, h⟩
    exact ⟨⟨i, hi⟩, q, h⟩
  · rintro ⟨p, q, h⟩
    exact ⟨p, p.isLt, q, h⟩

end Display

end Chip8

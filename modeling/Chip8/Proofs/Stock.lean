import Chip8.Frontend.Stock
import Chip8.Proofs.Window

/-! The stock graphics can be relied on, up to a scale where memory ends and one where windows do. -/

namespace Chip8

theorem Ink.level_toNat (b : UInt8) : level b.toNat = .ok b := by
  have := b.toNat_lt
  rw [level, if_pos (fits64_iff.2 ⟨by omega, by omega⟩), byte?_toNat]

theorem Color.color_ink (c : Color) : c.ink.color = .ok c := by
  simp only [Ink.color, Color.ink, Ink.level_toNat]
  rfl

namespace Stock

variable {k : Nat}

theorem sides_natCast {w h : Nat} (hw : w < 0x80000000) (hh : h < 0x80000000) :
    sides (w, h) = .ok (w, h) := by
  have hw' : fits64 w = true := fits64_iff.2 ⟨by omega, by omega⟩
  have hh' : fits64 h = true := fits64_iff.2 ⟨by omega, by omega⟩
  rw [sides, if_pos (by rw [hw', hh']; rfl), low32_eq_self (by omega) (by omega),
    low32_eq_self (by omega) (by omega)]

/-- There is memory for pictures that are not too large. -/
theorem fits_of_le (hk : k < 512) {w h : Nat} (hw : w ≤ 64 * k) (hh : h ≤ 32 * k) :
    fits w h = true := by
  have hkk := Nat.mul_le_mul (Nat.le_of_lt_succ hk) (Nat.le_of_lt_succ hk)
  have hwh := Nat.mul_le_mul hw hh
  have e : 64 * k * (32 * k) = 2048 * (k * k) := by grind
  have e' : pitch w * h = 4 * (w * h) := Nat.mul_assoc ..
  simp only [fits, decide_eq_true_eq, e']
  rw [pitch]
  omega

theorem scale_times (hk : k < 512) {p : Picture} (hw : p.width ≤ 64) (hh : p.height ≤ 32) :
    scale (.memory p) (p.width * k, p.height * k) =
      .ok (.memory (p.stretch (p.width * k / p.width) (p.height * k / p.height))) := by
  have hw' : p.width * k ≤ 64 * k := Nat.mul_le_mul_right k hw
  have hh' : p.height * k ≤ 32 * k := Nat.mul_le_mul_right k hh
  have hn : ¬ (((p.width * k : Nat) : Int) < 0 ∨ ((p.height * k : Nat) : Int) < 0) := by omega
  rw [← Int.natCast_mul, ← Int.natCast_mul, scale, sides_natCast (by omega) (by omega)]
  dsimp only [bind, Except.bind]
  rw [if_neg hn, Int.toNat_natCast, Int.toNat_natCast, if_pos (fits_of_le hk hw' hh')]
  rfl

theorem window_of_le (hk : k ≤ 256) (title : String) {w h : Nat} (hw : 0 < w) (hh : 0 < h)
    (hw' : w ≤ 64 * k) (hh' : h ≤ 32 * k) :
    window title (w, h) = .ok (.window title (.black w h)) := by
  have hn : ¬ ((w : Int) < 0 ∨ (h : Int) < 0) := by omega
  have hz : ¬ ((w : Int) = 0 ∧ (h : Int) = 0) := by omega
  have hl : ¬ ((windowLimit : Int) < w ∨ (windowLimit : Int) < h) := by
    rw [windowLimit]
    omega
  rw [window, sides_natCast (by omega) (by omega)]
  dsimp only [bind, Except.bind]
  rw [if_neg hn, if_neg hz, if_neg hl, Int.toNat_natCast, Int.toNat_natCast]

theorem topped_blit (q p : Picture) (x y : Nat) : q.Topped (x, y) p (p.blit q x y) where
  width := rfl
  height := rfl
  covered {u w} hu hw hu' hw' := by
    obtain ⟨b, hb⟩ := Option.isSome_iff_exists.1 ((p.isSome_pixel?_iff u w).2 ⟨hu, hw⟩)
    obtain ⟨c, hc⟩ := Option.isSome_iff_exists.1
      ((q.isSome_pixel?_iff (x + u) (y + w)).2 ⟨hu', hw'⟩)
    rw [Picture.pixel?_blit, hc, Option.map_some,
      if_pos ⟨Nat.le_add_right .., Nat.le_add_right ..⟩, Nat.add_sub_cancel_left,
      Nat.add_sub_cancel_left, hb]
    rfl
  kept {u w} hn := by
    rw [Picture.pixel?_blit]
    split
    · next h =>
      rw [Picture.pixel?_eq_none fun hp => hn (by dsimp only; omega)]
      exact Option.map_id' ..
    · exact Option.map_id' ..

theorem blit_topped (t s : Surface) (place : Nat × Nat) {q p : Picture}
    (hq : t.picture? = some q) (hp : s.picture? = some p) :
    ∃ r, blit t s place = .ok (t.withPicture r) ∧ q.Topped place p r := by
  refine ⟨p.blit q place.1 place.2, ?_, topped_blit q p place.1 place.2⟩
  simp only [blit, hq, hp]

end Stock

namespace Graphics

variable {k : Nat}

theorem stock_paints (hk : k < 512) : stock.Paints k where
  color := Color.color_ink
  surface a := ⟨.ofGrid a, rfl, rfl, rfl, Picture.pixel?_ofGrid a⟩
  scale p hw hh := by
    have times (n : Nat) : n * (n * k / n) = n * k := Nat.mul_div_cancel' (Nat.dvd_mul_right n k)
    refine ⟨_, Stock.scale_times hk hw hh, times p.width, times p.height, fun u w hu hw => ?_⟩
    -- Where there is a pixel, the picture has a width and a height to divide by.
    have hu : u < p.width * (p.width * k / p.width) := hu
    have hw : w < p.height * (p.height * k / p.height) := hw
    have hwidth : 0 < p.width := Nat.pos_of_ne_zero fun h => by simp [h] at hu
    have hheight : 0 < p.height := Nat.pos_of_ne_zero fun h => by simp [h] at hw
    have hpos : 0 < k := Nat.pos_of_ne_zero fun h => by simp [h] at hu
    rw [Nat.mul_div_cancel_left k hwidth, Nat.mul_div_cancel_left k hheight,
      p.pixel?_stretch hpos hpos]
  blit := Stock.blit_topped

theorem stock_serves (hk : k ≤ 256) : stock.Serves k where
  toPaints := stock_paints (by omega)
  window title _ _ hw hh hw' hh' := ⟨_, Stock.window_of_le hk title hw hh hw' hh', rfl, rfl⟩
  flip _ _ := rfl

end Graphics

end Chip8

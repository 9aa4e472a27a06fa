import Mathlib.Data.Fin.Basic
import Chip8.Frontend.Loop

/-! What is relied on in graphics, and the window of a front end. Each picture covers the window
altogether, so it shows the display it has been painted from, and nothing is left of earlier ones. -/

namespace Chip8

namespace Picture

structure Shows (p : Picture) (d : Display) (k : Nat) (fg bg : Color) : Prop where
  width : p.width = 64 * k
  height : p.height = 32 * k
  pixel (u : Fin (64 * k)) (w : Fin (32 * k)) :
    p.pixel? u w = some (if d.pixel w.divNat u.divNat then fg else bg)

/-- `t` is `s` with `p` over it, from a column and a line on. What does not fit of `p` is cut off. -/
structure Topped (place : Nat × Nat) (s p t : Picture) : Prop where
  width : t.width = s.width
  height : t.height = s.height
  covered {u w : Nat} : u < p.width → w < p.height → place.1 + u < s.width →
    place.2 + w < s.height → t.pixel? (place.1 + u) (place.2 + w) = p.pixel? u w
  kept {u w : Nat} : ¬ (place.1 ≤ u ∧ u < place.1 + p.width ∧ place.2 ≤ w ∧ w < place.2 + p.height) →
    t.pixel? u w = s.pixel? u w

theorem Topped.shows {d : Display} {k : Nat} {fg bg : Color} {s p t : Picture}
    (h : Topped (0, 0) s p t) (hp : p.Shows d k fg bg) (hw : s.width = 64 * k)
    (hh : s.height = 32 * k) : t.Shows d k fg bg where
  width := h.width.trans hw
  height := h.height.trans hh
  pixel u w := by
    have hc := h.covered (u := u) (w := w) (by rw [hp.width]; exact u.isLt)
      (by rw [hp.height]; exact w.isLt) (by rw [hw, Nat.zero_add]; exact u.isLt)
      (by rw [hh, Nat.zero_add]; exact w.isLt)
    rw [Nat.zero_add, Nat.zero_add] at hc
    rw [hc, hp.pixel]

end Picture

namespace Graphics

/-- What is relied on to draw displays at the scale `k`. -/
structure Paints (g : Graphics) (k : Nat) : Prop where
  -- Parts that are bytes make a colour.
  color (c : Color) : g.color c.ink = .ok c
  -- The first axis of a grid goes to the right, the second down.
  surface (a : Grid 64 32 Color) : ∃ p, g.surface a = .ok (.memory p) ∧
    p.width = 64 ∧ p.height = 32 ∧ ∀ (i : Fin 64) (j : Fin 32), p.pixel? i j = some (a.cell i j)
  -- When a small picture is brought to `k` times its width and height, each pixel becomes a square.
  scale (p : Picture) : p.width ≤ 64 → p.height ≤ 32 →
    ∃ q, g.scale (.memory p) (p.width * k, p.height * k) = .ok (.memory q) ∧
      q.width = p.width * k ∧ q.height = p.height * k ∧
      ∀ u w, u < q.width → w < q.height → q.pixel? u w = p.pixel? (u / k) (w / k)
  -- A copy is clipped to the surface that it goes to.
  blit (t s : Surface) (place : Nat × Nat) {q p : Picture} : t.picture? = some q →
    s.picture? = some p → ∃ r, g.blit t s place = .ok (t.withPicture r) ∧ q.Topped place p r

/-- What is relied on to show displays at the scale `k` in a window. -/
structure Serves (g : Graphics) (k : Nat) : Prop extends g.Paints k where
  -- A window has the width and the height that have been asked for.
  window (title : String) (w h : Nat) : 0 < w → 0 < h → w ≤ 64 * k → h ≤ 32 * k →
    ∃ p, g.window title (w, h) = .ok (.window title p) ∧ p.width = w ∧ p.height = h
  -- A window shows what has been drawn on it.
  flip (title : String) (p : Picture) : g.flip (.window title p) = .ok (some p)

variable {g : Graphics} {k : Nat}

/-- Columns of the picture come from columns of the display, and lines from its rows. -/
theorem Paints.render (hg : g.Paints k) (d : Display) (fg bg : Color) :
    ∃ p, g.render d k fg.ink bg.ink = .ok (.memory p) ∧ p.Shows d k fg bg := by
  obtain ⟨p, hp, hw, hh, hpixel⟩ := hg.surface (d.grid.transpose.select fg bg)
  obtain ⟨q, hq, hqw, hqh, hqpixel⟩ := hg.scale p (Nat.le_of_eq hw) (Nat.le_of_eq hh)
  rw [hw] at hq hqw
  rw [hh] at hq hqh
  refine ⟨q, ?_, hqw, hqh, fun u w => ?_⟩
  · rw [Graphics.render, hg.color, hg.color]
    dsimp only [bind, Except.bind]
    rw [hp]
    exact hq
  · have hcell : (d.grid.transpose.select fg bg).cell u.divNat w.divNat =
        if d.pixel w.divNat u.divNat then fg else bg := by
      rw [Grid.cell_select, Grid.cell_transpose, Display.cell_grid]
    rw [hqpixel u w (hqw.symm ▸ u.isLt) (hqh.symm ▸ w.isLt), ← hcell]
    exact hpixel u.divNat w.divNat

end Graphics

namespace Frontend

structure Windowed (h : Frontend) (k : Nat) (fg : Color) : Prop where
  scale : h.scale = k
  foreground : h.foreground = fg.ink
  window : ∃ q : Picture, h.screen = some (.window caption q) ∧ q.width = 64 * k ∧ q.height = 32 * k

def onScreen (h : Frontend) (s : Option Surface) : Frontend := { h with screen := s }

variable {g : Graphics} {h : Frontend} {k : Nat} {fg : Color} {t : Surface} {q : Picture}

/-- The display is on the screen before it is shown, and stays there if it cannot be shown. -/
theorem paint_on (hg : g.Paints k) (ht : h.screen = some t) (hq : t.picture? = some q)
    (hk : h.scale = k) (hf : h.foreground = fg.ink) :
    ∃ p r, g.render h.console.machine.display h.scale h.foreground Color.night.ink =
        .ok (.memory p) ∧
      p.Shows h.console.machine.display k fg .night ∧ q.Topped (0, 0) p r ∧
      ∀ s, (h.paint g s).2.1 = h.onScreen (some (t.withPicture r)) ∧
        ∀ w, g.flip (t.withPicture r) = .ok w → h.paint g s =
          (.ok (), h.onScreen (some (t.withPicture r)),
            { s with flips := s.flips + 1, window := w }) := by
  obtain ⟨p, hp, hshows⟩ := hg.render h.console.machine.display fg .night
  obtain ⟨r, hr, htop⟩ := hg.blit t (.memory p) (0, 0) hq rfl
  rw [← hk, ← hf] at hp
  refine ⟨p, r, hp, hshows, htop, fun s => ?_⟩
  simp only [Frontend.paint, ht, hp, hr]
  cases g.flip (t.withPicture r) with
  | error f => exact ⟨rfl, fun w hw => by cases hw⟩
  | ok w =>
    refine ⟨rfl, fun w' hw => ?_⟩
    cases hw
    rfl

theorem openWindow_absent (hg : g.Serves k) (ha : h.screen = none) (hk : h.scale = k) (hpos : 0 < k)
    (hf : h.foreground = fg.ink) :
    ∃ q, h.openWindow g = .ok (h.onScreen (some (.window caption q))) ∧
      (h.onScreen (some (.window caption q))).Windowed k fg := by
  obtain ⟨q, hq, hw, hh⟩ := hg.window caption (64 * k) (32 * k) (by omega) (by omega)
    (Nat.le_refl _) (Nat.le_refl _)
  refine ⟨q, ?_, hk, hf, q, rfl, hw, hh⟩
  have hsize : Layout.displaySize h.scale = (((64 * k : Nat) : Int), ((32 * k : Nat) : Int)) := by
    rw [hk, Int.natCast_mul, Int.natCast_mul]
    rfl
  rw [openWindow, ha, hsize]
  exact congrArg (Except.map fun s => h.onScreen (some s)) hq

theorem Windowed.paint (hg : g.Serves k) (h' : h.Windowed k fg) (s : Showing) :
    ∃ p, h.paint g s = (.ok (), h.onScreen (some (.window caption p)),
        { s with flips := s.flips + 1, window := some p }) ∧
      p.Shows h.console.machine.display k fg .night := by
  obtain ⟨q, hq, hw, hh⟩ := h'.window
  obtain ⟨p, r, -, hshows, htop, hpaint⟩ := paint_on hg.toPaints hq rfl h'.scale h'.foreground
  exact ⟨r, (hpaint s).2 _ (hg.flip caption r), htop.shows hshows hw hh⟩

end Frontend

end Chip8

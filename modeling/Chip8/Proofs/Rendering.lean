import Chip8.Proofs.Stock

/-! Displays painted on a screen. The part of the screen that a picture covers shows the display it has
been made from, the rest of the screen is kept, and of many pictures only the last is seen. -/

namespace Chip8

namespace Picture

structure Alike (p q : Picture) : Prop where
  width : p.width = q.width
  height : p.height = q.height
  pixel (u w : Nat) : p.pixel? u w = q.pixel? u w

variable {s p q t t' : Picture} {place : Nat × Nat}

/-- A picture hides an earlier one of its size. -/
theorem Topped.trans (h : s.Topped place p t) (h' : t.Topped place q t') (hw : p.width = q.width)
    (hh : p.height = q.height) : s.Topped place q t' where
  width := h'.width.trans h.width
  height := h'.height.trans h.height
  covered hu hv hu' hv' := h'.covered hu hv (h.width ▸ hu') (h.height ▸ hv')
  kept hn := (h'.kept hn).trans (h.kept (by rwa [hw, hh]))

/-- The same picture at the same place changes nothing. -/
theorem Topped.again (h : s.Topped place p t) (h' : t.Topped place p t') : t'.Alike t where
  width := h'.width
  height := h'.height
  pixel u w := by
    by_cases hin : place.1 ≤ u ∧ u < place.1 + p.width ∧ place.2 ≤ w ∧ w < place.2 + p.height
    · obtain ⟨hu, hu', hw, hw'⟩ := hin
      obtain ⟨a, rfl⟩ := Nat.exists_eq_add_of_le hu
      obtain ⟨b, rfl⟩ := Nat.exists_eq_add_of_le hw
      by_cases ht : place.1 + a < t.width ∧ place.2 + b < t.height
      · rw [h'.covered (by omega) (by omega) ht.1 ht.2]
        exact (h.covered (by omega) (by omega) (h.width ▸ ht.1) (h.height ▸ ht.2)).symm
      · rw [pixel?_eq_none ht, pixel?_eq_none (by rwa [h'.width, h'.height])]
    · exact h'.kept hin

end Picture

namespace Surface

variable {t : Surface} {q : Picture}

theorem picture?_withPicture (h : t.picture? = some q) (r : Picture) :
    (t.withPicture r).picture? = some r := by
  cases t with
  | memory | window => rfl
  | closed => cases h

theorem withPicture_withPicture (t : Surface) (q r : Picture) :
    (t.withPicture q).withPicture r = t.withPicture r := by
  cases t <;> rfl

end Surface

namespace Graphics

def screenAfter (g : Graphics) (s : Option Surface) (hs : List Frontend) : Option Surface :=
  hs.foldl (fun s h => ((h.onScreen s).paint g {}).2.1.screen) s

variable {g : Graphics} {k : Nat} {h : Frontend} {fg : Color} {t : Surface} {q : Picture}

/-- What a front end leaves on a screen, and that it would leave it again. -/
theorem Paints.paint (hg : g.Paints k) (ht : h.screen = some t) (hq : t.picture? = some q)
    (hk : h.scale = k) (hf : h.foreground = fg.ink) (s : Showing) :
    ∃ p r, g.render h.console.machine.display h.scale h.foreground Color.night.ink =
        .ok (.memory p) ∧
      p.Shows h.console.machine.display k fg .night ∧ q.Topped (0, 0) p r ∧
      (h.paint g s).2.1 = h.onScreen (some (t.withPicture r)) ∧
      (∀ w, g.flip (t.withPicture r) = .ok w → (h.paint g s).1 = .ok ()) ∧
      ∀ s', ∃ r', ((h.onScreen (some (t.withPicture r))).paint g s').2.1 =
        h.onScreen (some (t.withPicture r')) ∧ r'.Alike r := by
  obtain ⟨p, r, hp, hshows, htop, hpaint⟩ := Frontend.paint_on hg ht hq hk hf
  refine ⟨p, r, hp, hshows, htop, (hpaint s).1, fun w hw => congrArg Prod.fst ((hpaint s).2 w hw),
    fun s' => ?_⟩
  obtain ⟨p', r', hp', -, htop', hpaint'⟩ :=
    Frontend.paint_on (h := h.onScreen (some (t.withPicture r))) hg rfl
      (Surface.picture?_withPicture hq r) hk hf
  obtain rfl : p = p' := Surface.memory.inj (Except.ok.inj (hp.symm.trans hp'))
  refine ⟨r', ?_, htop.again htop'⟩
  rw [(hpaint' s').1, Surface.withPicture_withPicture]
  rfl

/-- Each picture hides the one before, so that only the last is seen over the first screen. -/
theorem Paints.screenAfter (hg : g.Paints k) {gs : List Frontend} {h : Frontend}
    (hq : t.picture? = some q) (hf : h.foreground = fg.ink)
    (hgs : ∀ h' ∈ gs ++ [h], h'.scale = k ∧ ∃ fg : Color, h'.foreground = fg.ink) :
    ∃ p r, p.Shows h.console.machine.display k fg .night ∧ q.Topped (0, 0) p r ∧
      g.screenAfter (some t) (gs ++ [h]) = some (t.withPicture r) := by
  -- The last picture covers what the first has left, and the first is of its size.
  induction gs generalizing t q with
  | nil =>
    obtain ⟨hk, -⟩ := hgs h List.mem_cons_self
    obtain ⟨p, r, -, hshows, htop, hpaint, -⟩ :=
      hg.paint (h := h.onScreen (some t)) rfl hq hk hf {}
    exact ⟨p, r, hshows, htop, congrArg Frontend.screen hpaint⟩
  | cons h' gs ih =>
    obtain ⟨hk, fg', hf'⟩ := hgs h' List.mem_cons_self
    obtain ⟨p', r', -, hshows', htop', hpaint, -⟩ :=
      hg.paint (h := h'.onScreen (some t)) rfl hq hk hf' {}
    obtain ⟨p, r, hshows, htop, hrest⟩ := ih (Surface.picture?_withPicture hq r')
      fun h'' hm => hgs h'' (List.mem_cons_of_mem h' hm)
    refine ⟨p, r, hshows, htop'.trans htop (hshows'.width.trans hshows.width.symm)
      (hshows'.height.trans hshows.height.symm), ?_⟩
    rw [Surface.withPicture_withPicture] at hrest
    rw [← hrest]
    exact congrArg (fun h'' => g.screenAfter h''.screen (gs ++ [h])) hpaint

/-- A picture has a square of `k` by `k` for each pixel of the display. It covers its part of the
screen and no more, the same picture changes nothing, of many pictures only the last is seen, and
without a screen nothing is done. -/
theorem displays_cover_screen (g : Graphics) (k : Nat) (hg : g.Paints k) :
    (∀ (d : Display) (fg bg : Color), ∃ p, g.render d k fg.ink bg.ink = .ok (.memory p) ∧
      p.Shows d k fg bg) ∧
    (∀ (h : Frontend) (fg : Color) (t : Surface) (q : Picture) (s : Showing), h.screen = some t →
      t.picture? = some q → h.scale = k → h.foreground = fg.ink →
      ∃ p r, g.render h.console.machine.display h.scale h.foreground Color.night.ink =
          .ok (.memory p) ∧
        p.Shows h.console.machine.display k fg .night ∧ q.Topped (0, 0) p r ∧
        (h.paint g s).2.1 = h.onScreen (some (t.withPicture r)) ∧
        (∀ w, g.flip (t.withPicture r) = .ok w → (h.paint g s).1 = .ok ()) ∧
        ∀ s', ∃ r', ((h.onScreen (some (t.withPicture r))).paint g s').2.1 =
          h.onScreen (some (t.withPicture r')) ∧ r'.Alike r) ∧
    (∀ (t : Surface) (q : Picture) (gs : List Frontend) (h : Frontend) (fg : Color),
      t.picture? = some q → h.foreground = fg.ink →
      (∀ h' ∈ gs ++ [h], h'.scale = k ∧ ∃ fg : Color, h'.foreground = fg.ink) →
      ∃ p r, p.Shows h.console.machine.display k fg .night ∧ q.Topped (0, 0) p r ∧
        g.screenAfter (some t) (gs ++ [h]) = some (t.withPicture r)) ∧
    ∀ (h : Frontend) (s : Showing), h.screen = none → h.paint g s = (.ok (), h, s) := by
  refine ⟨hg.render, fun h fg t q s ht hq hk hf => hg.paint ht hq hk hf s,
    fun t q gs h fg hq hf hgs => hg.screenAfter hq hf hgs, fun h s hn => ?_⟩
  rw [Frontend.paint, hn]

def dotted : Frontend where
  console := {
    machine := { display := .stamp ⟨3, by decide⟩ ⟨1, by decide⟩ [0x80] }
    random := .stream (fun n => n) 0 }
  cycles := 1
  scale := 2
  foreground := Color.phosphor.ink
  screen := some (.memory (.black 200 40))

theorem displays_cover_screen_dotted :
    stock.Paints 2 ∧ ∃ r : Picture, (dotted.paint stock {}).2.1.screen = some (.memory r) ∧
      r.width = 200 ∧ r.height = 40 ∧ r.pixel? 7 3 = some .phosphor ∧
      r.pixel? 3 7 = some .night ∧ r.pixel? 128 3 = some .black := by
  have hg : stock.Paints 2 := stock_paints (by decide)
  obtain ⟨-, hpaint, -, -⟩ := displays_cover_screen stock 2 hg
  obtain ⟨p, r, -, hshows, htop, hscreen, -⟩ :=
    hpaint dotted .phosphor (.memory (.black 200 40)) (.black 200 40) {} rfl rfl rfl rfl
  have hw := hshows.width
  have hh := hshows.height
  have hon := hshows.pixel ⟨7, by decide⟩ ⟨3, by decide⟩
  have hoff := hshows.pixel ⟨3, by decide⟩ ⟨7, by decide⟩
  have hcovered {u v : Nat} (hu : u < 128) (hv : v < 40) : r.pixel? u v = p.pixel? u v := by
    have hc := htop.covered (u := u) (w := v) (by omega) (by omega)
      (by simp only [Picture.black]; omega) (by simp only [Picture.black]; omega)
    rwa [Nat.zero_add, Nat.zero_add] at hc
  refine ⟨hg, r, congrArg Frontend.screen hscreen, htop.width, htop.height, ?_, ?_, ?_⟩
  · rw [hcovered (by decide) (by decide), hon]
    decide
  · rw [hcovered (by decide) (by decide), hoff]
    decide
  · rw [htop.kept (by dsimp only; omega), Picture.pixel?_black, if_pos (by decide)]

end Graphics

end Chip8

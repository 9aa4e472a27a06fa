import Chip8.Proofs.Sprite

/-! Several draws after one another: a sprite over itself, two sprites in either order, and a sprite
in two pieces. The display is the sum of all of them, and the flags taken together tell whether
anything has met. -/

namespace Chip8

open Instruction

theorem lt_of_testBit_toNat {v : UInt8} {b : Nat} (h : v.toNat.testBit b = true) : b < 8 := by
  have hv : 2 ^ b < 2 ^ 8 := Nat.lt_of_le_of_lt (Nat.ge_two_pow_of_testBit h) v.toNat_lt
  exact (Nat.pow_lt_pow_iff_right (by decide)).1 hv

namespace Display

def Meet (d : Display) (S T : Fin 32 → Fin 64 → Prop) : Prop :=
  ∃ p q, (S p q ∧ T p q) ∨ (S p q ∨ T p q) ∧ d.pixel p q = true

variable {d s t : Display} {S T : Fin 32 → Fin 64 → Prop}

instance [∀ p q, Decidable (S p q)] [∀ p q, Decidable (T p q)] : Decidable (d.Meet S T) :=
  inferInstanceAs (Decidable (∃ _ _, _))

theorem meet_comm : d.Meet S T ↔ d.Meet T S :=
  exists_congr fun _ => exists_congr fun _ => or_congr and_comm (and_congr_left' or_comm)

theorem meet_self : d.Meet S S ↔ ∃ p q, S p q := by
  refine exists_congr fun p => exists_congr fun q => ?_
  rw [and_self, or_self, or_iff_left_of_imp And.left]

/-- The first sprite meets what was on before, the second also what the first has turned on, and not
what it has turned off; but there the first has met something itself. -/
theorem overlaps_or_overlaps_xor : d.overlaps s = true ∨ (d.xor s).overlaps t = true ↔
    d.Meet (fun p q => s.pixel p q = true) fun p q => t.pixel p q = true := by
  simp only [overlaps_iff, ← exists_or, Meet]
  refine exists_congr fun p => exists_congr fun q => ?_
  rw [pixel_xor]
  cases d.pixel p q <;> cases s.pixel p q <;> simp

end Display

namespace Machine

variable {m u : Machine} {i j : Int} {x y z : Register} {n k : Nat} {p : Fin 32} {q : Fin 64}

theorem flag_eq_one_iff : (m.draw x y n).v 0xF = 1 ↔
    m.display.overlaps (m.sprite m.index x y n) = true := by
  rw [flag_draw]
  cases m.display.overlaps (m.sprite m.index x y n) <;> decide

/-- What two draws report together. In between everything but the display may change. -/
theorem or_flags {x' y' : Register} {n n' : Fin 16} (hu : u.display = (m.draw x y n).display) :
    ((m.draw x y n).v 0xF ||| (u.draw x' y' n').v 0xF) =
      if m.display.Meet (m.Covers m.index x y n) (u.Covers u.index x' y' n') then 1 else 0 := by
  have hor : ∀ a b : Bool, ((if a = true then 1 else 0 : UInt8) ||| if b = true then 1 else 0) =
      if a = true ∨ b = true then 1 else 0 := by decide
  rw [flag_draw, flag_draw, hu, display_draw, hor]
  refine if_congr ?_ rfl rfl
  simp only [Display.overlaps_or_overlaps_xor, pixel_sprite, decide_eq_true_eq]

/-- A sprite is told by the memory and two registers. -/
theorem covers_congr (hm : u.memory = m.memory) (hx : u.v x = m.v x) (hy : u.v y = m.v y) :
    u.Covers i x y n = m.Covers i x y n := by
  funext p q
  simp only [Covers, hm, hx, hy]

theorem sprite_congr (hm : u.memory = m.memory) (hx : u.v x = m.v x) (hy : u.v y = m.v y) :
    u.sprite i x y n = m.sprite i x y n := by
  simp only [sprite, hm, hx, hy]

/-- Something is covered exactly when one of the bytes has a bit that is set. -/
theorem exists_covers_iff : (∃ p q, m.Covers i x y n p q) ↔
    ∃ r < n, m.memory.read ((i + r) % 4096) ≠ 0 := by
  constructor
  · rintro ⟨p, q, r, hr, k, -, -, -, hb⟩
    refine ⟨r, hr, fun h0 => ?_⟩
    rw [h0] at hb
    exact absurd hb (by simp)
  · rintro ⟨r, hr, h0⟩
    have hne : (m.memory.read ((i + r) % 4096)).toNat ≠ 0 := fun h => h0 (UInt8.toNat_inj.1 h)
    obtain ⟨b, hb⟩ := Nat.exists_testBit_of_ne_zero hne
    have hb8 : b < 8 := lt_of_testBit_toNat hb
    -- bit 7 is the leftmost
    refine ⟨⟨((m.v y).toNat + r) % 32, Nat.mod_lt _ (by decide)⟩,
      ⟨((m.v x).toNat + (7 - b)) % 64, Nat.mod_lt _ (by decide)⟩,
      r, hr, 7 - b, by omega, rfl, rfl, ?_⟩
    rw [show 7 - (7 - b) = b by omega]
    exact hb

def place (m : Machine) (i : Int) (x y : Register) (n : Nat) : Machine :=
  ({ m with index := i } : Machine).draw x y n

theorem display_place : (m.place i x y n).display = m.display.xor (m.sprite i x y n) := rfl

theorem v_place {r : Register} (hr : r ≠ 0xF) : (m.place i x y n).v r = m.v r := v_draw hr n

/-- A sprite that has been drawn does not move the next one, if the flag is not read as a place. -/
theorem display_place_place {x' y' : Register} {n' : Nat} (hx : x' ≠ 0xF) (hy : y' ≠ 0xF) :
    ((m.place i x y n).place j x' y' n').display =
      (m.display.xor (m.sprite i x y n)).xor (m.sprite j x' y' n') := by
  have hs : (m.place i x y n).sprite j x' y' n' = m.sprite j x' y' n' :=
    sprite_congr rfl (v_place hx) (v_place hy)
  rw [display_place, display_place, hs]

theorem or_flags_place {x' y' : Register} {n n' : Fin 16} (hx : x' ≠ 0xF) (hy : y' ≠ 0xF) :
    ((m.place i x y n).v 0xF ||| ((m.place i x y n).place j x' y' n').v 0xF) =
      if m.display.Meet (m.Covers i x y n) (m.Covers j x' y' n') then 1 else 0 := by
  have hc : (m.place i x y n).Covers j x' y' n' = m.Covers j x' y' n' :=
    covers_congr rfl (v_place hx) (v_place hy)
  have hf : ((m.place i x y n).v 0xF ||| ((m.place i x y n).place j x' y' n').v 0xF) =
      if m.display.Meet (m.Covers i x y n) ((m.place i x y n).Covers j x' y' n') then 1 else 0 :=
    or_flags rfl
  rw [hf]
  exact if_congr (by rw [hc]) rfl rfl

/-- The address `j` and the registers of `u` are `k` rows below the address `i` and those of `m`. -/
structure Below (m u : Machine) (i j : Int) (x y : Register) (k : Nat) : Prop where
  memory : u.memory = m.memory
  column : u.v x = m.v x
  row : (u.v y).toNat = ((m.v y).toNat + k) % 256
  address : j % 4096 = (i + k) % 4096

/-- Rows are numbered modulo 32 and registers modulo 256, so it does not matter where a row is
counted from. -/
theorem Below.covers_iff (h : m.Below u i j x y k) : u.Covers j x y n p q ↔
    ∃ r < k + n, k ≤ r ∧ ∃ b < 8, p.val = ((m.v y).toNat + r) % 32 ∧
      q.val = ((m.v x).toNat + b) % 64 ∧
      (m.memory.read ((i + r) % 4096)).toNat.testBit (7 - b) = true := by
  have hread (r : Nat) : (j + r) % 4096 = (i + (k + r : Nat)) % 4096 := by
    have := h.address
    omega
  have hrow (r : Nat) : ((u.v y).toNat + r) % 32 = ((m.v y).toNat + (k + r)) % 32 := by
    have := h.row
    omega
  simp only [Covers, h.memory, h.column, hread, hrow]
  constructor
  · rintro ⟨r, hr, hb⟩
    exact ⟨k + r, Nat.add_lt_add_left hr k, Nat.le_add_right k r, hb⟩
  · rintro ⟨r, hr, hk, hb⟩
    obtain ⟨r, rfl⟩ := Nat.exists_eq_add_of_le hk
    exact ⟨r, Nat.lt_of_add_lt_add_left hr, hb⟩

/-- A sprite is its first rows and the others below them. -/
theorem Below.covers_add_iff (h : m.Below u i j x y k) :
    m.Covers i x y (k + n) p q ↔ m.Covers i x y k p q ∨ u.Covers j x y n p q := by
  rw [h.covers_iff]
  constructor
  · rintro ⟨r, hr, hb⟩
    by_cases hk : r < k
    · exact .inl ⟨r, hk, hb⟩
    · exact .inr ⟨r, hr, Nat.not_lt.1 hk, hb⟩
  · rintro (⟨r, hr, hb⟩ | ⟨r, hr, -, hb⟩)
    · exact ⟨r, Nat.lt_add_right n hr, hb⟩
    · exact ⟨r, hr, hb⟩

/-- The rows of a sprite that is no higher than the display are different rows of the display. -/
theorem Below.not_covers (h : m.Below u i j x y k) (hn : k + n ≤ 32)
    (hc : m.Covers i x y k p q) : ¬ u.Covers j x y n p q := by
  rw [h.covers_iff]
  rintro ⟨r, hr, hk, -, -, hp, -⟩
  obtain ⟨s, hs, -, -, hp', -⟩ := hc
  omega

theorem Below.sprite_eq {k n l : Fin 16} (h : m.Below u i j x y k) (hl : l.val = k.val + n.val) :
    m.sprite i x y l = (m.sprite i x y k).xor (u.sprite j x y n) := by
  apply Display.ext_pixel
  intro p q
  have hn : m.Covers i x y k p q → ¬ u.Covers j x y n p q := h.not_covers (by omega)
  rw [Display.pixel_xor, pixel_sprite, pixel_sprite, pixel_sprite, hl, Bool.eq_iff_iff]
  rw [decide_eq_true_eq, h.covers_add_iff]
  by_cases hk : m.Covers i x y k p q <;> simp [hk, hn]

/-- Where the second piece leaves what the whole would have left. -/
theorem Below.display_eq {k n l : Fin 16} (h : m.Below u m.index u.index x y k)
    (hl : l.val = k.val + n.val) (hu : u.display = (m.draw x y k).display) :
    (u.draw x y n).display = (m.draw x y l).display := by
  rw [display_draw, display_draw, hu, display_draw, h.sprite_eq hl, Display.xor_assoc]

/-- The pieces do not meet each other, so they meet what the whole meets. -/
theorem Below.flag_eq {k n l : Fin 16} (h : m.Below u m.index u.index x y k)
    (hl : l.val = k.val + n.val) (hu : u.display = (m.draw x y k).display) :
    (m.draw x y l).v 0xF = ((m.draw x y k).v 0xF ||| (u.draw x y n).v 0xF) := by
  rw [or_flags hu, flag_draw]
  refine if_congr ?_ rfl rfl
  rw [Display.overlaps_iff]
  refine exists_congr fun p => exists_congr fun q => ?_
  have hn : m.Covers m.index x y k p q → ¬ u.Covers u.index x y n p q := h.not_covers (by omega)
  rw [pixel_sprite, decide_eq_true_eq, hl, h.covers_add_iff]
  tauto

def lower (m : Machine) (y z : Register) (b : UInt8) : Machine :=
  ({ m with index := (Address.wrap (m.index + (m.v z).toNat)).val } : Machine).setV y (m.v y + b)

theorem below_lower {b : UInt8} (hx : x ≠ 0xF) (hy : y ≠ 0xF) (hz : z ≠ 0xF) (hxy : x ≠ y)
    (hb : m.v z = b) : m.Below ((m.draw x y n).lower y z b) m.index
      ((m.draw x y n).lower y z b).index x y b.toNat where
  memory := rfl
  column := by
    rw [lower, v_setV, if_neg hxy.symm]
    exact v_draw hx n
  row := by
    rw [lower, v_setV, if_pos rfl, v_draw hy, UInt8.toNat_add]
  address := by
    have hi : ((m.draw x y n).lower y z b).index = (Address.wrap (m.index + b.toNat)).val := by
      rw [← hb, ← v_draw hz n]
      rfl
    rw [hi]
    simp only [Address.wrap]
    omega

end Machine

namespace Console

variable {x y z : Register}

/-- A sprite drawn twice is gone again. The second draw meets what the first has turned on, and
unless the sprite is empty one of the two meets something. -/
theorem draw_draw (c : Console) (hx : x ≠ 0xF) (hy : y ≠ 0xF) (n : Fin 16) :
    ∃ d e, c.execute (code 0xD x y n) = (.ok (), d) ∧ d.execute (code 0xD x y n) = (.ok (), e) ∧
      e.machine.display = c.machine.display ∧
      (e.machine.v 0xF = 1 ↔ ∃ p q, c.machine.Covers c.machine.index x y n p q ∧
        c.machine.display.pixel p q = false) ∧
      (d.machine.v 0xF = 1 ∨ e.machine.v 0xF = 1 ↔
        ∃ r < n.val, c.machine.memory.read ((c.machine.index + r) % 4096) ≠ 0) := by
  obtain ⟨d, hd, hdm⟩ := c.execute_draw x y n
  obtain ⟨e, he, hem⟩ := d.execute_draw x y n
  have hs : d.machine.sprite d.machine.index x y n = c.machine.sprite c.machine.index x y n := by
    rw [hdm]
    exact Machine.sprite_congr rfl (Machine.v_draw hx n) (Machine.v_draw hy n)
  have hfd : d.machine.v 0xF = 1 ↔
      c.machine.display.overlaps (c.machine.sprite c.machine.index x y n) = true := by
    rw [hdm, Machine.flag_eq_one_iff]
  have hfe : e.machine.v 0xF = 1 ↔ (c.machine.display.xor
      (c.machine.sprite c.machine.index x y n)).overlaps
        (c.machine.sprite c.machine.index x y n) = true := by
    rw [hem, Machine.flag_eq_one_iff, hs, hdm, Machine.display_draw]
  refine ⟨d, e, hd, he, ?_, ?_, ?_⟩
  · rw [hem, Machine.display_draw, hs, hdm, Machine.display_draw, Display.xor_xor_cancel_right]
  · rw [hfe, Display.overlaps_iff]
    refine exists_congr fun p => exists_congr fun q => ?_
    rw [Display.pixel_xor, Machine.pixel_sprite]
    cases c.machine.display.pixel p q <;> simp
  · rw [hfd, hfe, Display.overlaps_or_overlaps_xor, Display.meet_self]
    simp only [Machine.pixel_sprite, decide_eq_true_eq, Machine.exists_covers_iff]

def smudged : Console where
  machine := {
    memory := Memory.blank.writeBlock 0xFFF [0xFF, 0x80]
    registers := ⟨#v[60, 255, 63, 63, 1, 0, 0, 0, 0, 0, 0, 0, 0, 0, 0, 0]⟩
    index := -1 }
  random := .stream (fun n => n) 0

theorem draw_draw_smudged :
    ((0 : Register) ≠ 0xF ∧ (1 : Register) ≠ 0xF) ∧
      ∃ d e, smudged.execute (code 0xD 0 1 2) = (.ok (), d) ∧
        d.execute (code 0xD 0 1 2) = (.ok (), e) ∧
        e.machine.display = smudged.machine.display ∧ e.machine.v 0xF = 1 := by
  obtain ⟨d, e, hd, he, hs, hf, -⟩ := smudged.draw_draw (x := 0) (y := 1) (by decide) (by decide) 2
  have hread : smudged.machine.memory.read ((smudged.machine.index + (0 : Nat)) % 4096) = 0xFF := by
    simp [smudged, Memory.writeBlock, Memory.read_write]
  have hc : smudged.machine.Covers smudged.machine.index 0 1 2 31 3 := by
    refine ⟨0, by decide, 7, by decide, rfl, rfl, ?_⟩
    rw [hread]
    decide
  exact ⟨by decide, d, e, hd, he, hs, hf.2 ⟨31, 3, hc, rfl⟩⟩

theorem executeAll_place (c : Console) (a : Address) (x y : Register) (n : Fin 16) :
    ∃ d, c.executeAll [0xA000 + a.val, code 0xD x y n] = (.ok (), d) ∧
      d.machine = c.machine.place a.val x y n := by
  obtain ⟨d, hd, hdm⟩ := c.execute_loadIndex a
  obtain ⟨e, he, hem⟩ := d.execute_draw x y n
  rw [hdm] at hem
  rw [executeAll_cons hd, executeAll_cons he]
  exact ⟨e, rfl, hem⟩

/-- Two sprites make the same picture in either order. Their flags may differ, but together they
tell in both orders whether the sprites meet each other or something that was on before. -/
theorem draws_in_either_order (c : Console) (a b : Address) {x₁ y₁ x₂ y₂ : Register}
    (hx₁ : x₁ ≠ 0xF) (hy₁ : y₁ ≠ 0xF) (hx₂ : x₂ ≠ 0xF) (hy₂ : y₂ ≠ 0xF) (n₁ n₂ : Fin 16) :
    ∃ d₁ d₂ e₁ e₂,
      c.executeAll [0xA000 + a.val, code 0xD x₁ y₁ n₁] = (.ok (), d₁) ∧
      d₁.executeAll [0xA000 + b.val, code 0xD x₂ y₂ n₂] = (.ok (), d₂) ∧
      c.executeAll [0xA000 + b.val, code 0xD x₂ y₂ n₂] = (.ok (), e₁) ∧
      e₁.executeAll [0xA000 + a.val, code 0xD x₁ y₁ n₁] = (.ok (), e₂) ∧
      d₂.machine.display = e₂.machine.display ∧
      (d₁.machine.v 0xF ||| d₂.machine.v 0xF) = (e₁.machine.v 0xF ||| e₂.machine.v 0xF) ∧
      (d₁.machine.v 0xF ||| d₂.machine.v 0xF) =
        if c.machine.display.Meet (c.machine.Covers a.val x₁ y₁ n₁)
          (c.machine.Covers b.val x₂ y₂ n₂) then 1 else 0 := by
  obtain ⟨d₁, hd₁, hm₁⟩ := c.executeAll_place a x₁ y₁ n₁
  obtain ⟨d₂, hd₂, hm₂⟩ := d₁.executeAll_place b x₂ y₂ n₂
  obtain ⟨e₁, he₁, hk₁⟩ := c.executeAll_place b x₂ y₂ n₂
  obtain ⟨e₂, he₂, hk₂⟩ := e₁.executeAll_place a x₁ y₁ n₁
  rw [hm₁] at hm₂
  rw [hk₁] at hk₂
  refine ⟨d₁, d₂, e₁, e₂, hd₁, hd₂, he₁, he₂, ?_, ?_, ?_⟩
  · rw [hm₂, hk₂, Machine.display_place_place hx₂ hy₂, Machine.display_place_place hx₁ hy₁,
      Display.xor_right_comm]
  · rw [hm₁, hm₂, hk₁, hk₂, Machine.or_flags_place hx₂ hy₂, Machine.or_flags_place hx₁ hy₁]
    exact if_congr Display.meet_comm rfl rfl
  · rw [hm₁, hm₂, Machine.or_flags_place hx₂ hy₂]

theorem draws_in_either_order_smudged :
    ((0 : Register) ≠ 0xF ∧ (1 : Register) ≠ 0xF ∧ (2 : Register) ≠ 0xF ∧ (3 : Register) ≠ 0xF) ∧
      ∃ d₁ d₂ e₁ e₂,
        smudged.executeAll [0xAFFF, code 0xD 0 1 1] = (.ok (), d₁) ∧
        d₁.executeAll [0xA000, code 0xD 2 3 1] = (.ok (), d₂) ∧
        smudged.executeAll [0xA000, code 0xD 2 3 1] = (.ok (), e₁) ∧
        e₁.executeAll [0xAFFF, code 0xD 0 1 1] = (.ok (), e₂) ∧
        d₂.machine.display = e₂.machine.display ∧
        (d₁.machine.v 0xF ||| d₂.machine.v 0xF) = 1 ∧
        (e₁.machine.v 0xF ||| e₂.machine.v 0xF) = 1 := by
  obtain ⟨d₁, d₂, e₁, e₂, hd₁, hd₂, he₁, he₂, hs, hf, hm⟩ :=
    @draws_in_either_order smudged 0xFFF 0x000 0 1 2 3
      (by decide) (by decide) (by decide) (by decide) 1 1
  have hread : smudged.machine.memory.read 4095 = 0xFF ∧ smudged.machine.memory.read 0 = 0x80 := by
    simp [smudged, Memory.writeBlock, Memory.read_write]
  have ha : smudged.machine.Covers 0xFFF 0 1 1 31 63 := by
    refine ⟨0, by decide, 3, by decide, rfl, rfl, ?_⟩
    rw [show (0xFFF + (0 : Nat) : Int) % 4096 = 4095 by decide, hread.1]
    decide
  have hb : smudged.machine.Covers 0 2 3 1 31 63 := by
    refine ⟨0, by decide, 0, by decide, rfl, rfl, ?_⟩
    rw [show (0 + (0 : Nat) : Int) % 4096 = 0 by decide, hread.2]
    decide
  have h1 : (d₁.machine.v 0xF ||| d₂.machine.v 0xF) = 1 :=
    hm.trans (if_pos ⟨31, 63, .inl ⟨ha, hb⟩⟩)
  exact ⟨by decide, d₁, d₂, e₁, e₂, hd₁, hd₂, he₁, he₂, hs, h1, hf ▸ h1⟩

theorem executeAll_lower (c : Console) (y z : Register) (k n : Fin 16) :
    ∃ d, c.executeAll [code 0xF z 0x1 0xE, code 0x7 y 0x0 k, code 0xD x y n] = (.ok (), d) ∧
      d.machine = (c.machine.lower y z (ofDigits 0x7 y 0x0 k).kk).draw x y n := by
  obtain ⟨d, hd, hdm⟩ := c.execute_addIndex z
  obtain ⟨e, he, hem⟩ := d.execute_addByte y 0x0 k
  obtain ⟨f, hf, hfm⟩ := e.execute_draw x y n
  rw [hdm] at hem
  rw [hem] at hfm
  rw [executeAll_cons hd, executeAll_cons he, executeAll_cons hf]
  exact ⟨f, rfl, hfm⟩

/-- A sprite may be drawn in two pieces, the second with the index and its row as far down as the
first is high. -/
theorem draw_in_pieces (c : Console) {k n : Fin 16} (hx : x ≠ 0xF) (hy : y ≠ 0xF) (hz : z ≠ 0xF)
    (hxy : x ≠ y) (hkn : k ≤ n) (hk : (c.machine.v z).toNat = k.val) :
    ∃ d e w, c.execute (code 0xD x y k) = (.ok (), d) ∧
      d.executeAll [code 0xF z 0x1 0xE, code 0x7 y 0x0 k, code 0xD x y (n - k)] = (.ok (), e) ∧
      c.execute (code 0xD x y n) = (.ok (), w) ∧
      e.machine.display = w.machine.display ∧
      w.machine.v 0xF = (d.machine.v 0xF ||| e.machine.v 0xF) := by
  obtain ⟨d, hd, hdm⟩ := c.execute_draw x y k
  obtain ⟨e, he, hem⟩ := d.executeAll_lower (x := x) y z k (n - k)
  obtain ⟨w, hw, hwm⟩ := c.execute_draw x y n
  have hkk : (ofDigits 0x7 y 0x0 k).kk.toNat = k.val := by
    rw [toNat_kk_ofDigits, Fin.val_zero, Nat.mul_zero, Nat.zero_add]
  have hb := Machine.below_lower (n := k) hx hy hz hxy (UInt8.toNat_inj.1 (hk.trans hkk.symm))
  rw [hkk, ← hdm] at hb
  have hl : n.val = k.val + (n - k).val := by
    rw [Fin.sub_val_of_le hkn]
    omega
  have hu : (d.machine.lower y z (ofDigits 0x7 y 0x0 k).kk).display =
      (c.machine.draw x y k).display := by
    rw [← hdm]
    rfl
  refine ⟨d, e, w, hd, he, hw, ?_, ?_⟩
  · rw [hem, hwm]
    exact hb.display_eq hl hu
  · rw [hwm, hb.flag_eq hl hu, hem, ← hdm]

theorem draw_in_pieces_smudged :
    (smudged.machine.v 4).toNat = (1 : Fin 16).val ∧
      ∃ d e w, smudged.execute (code 0xD 0 1 1) = (.ok (), d) ∧
        d.executeAll [code 0xF 4 0x1 0xE, code 0x7 1 0x0 1, code 0xD 0 1 (2 - 1)] = (.ok (), e) ∧
        smudged.execute (code 0xD 0 1 2) = (.ok (), w) ∧
        e.machine.display = w.machine.display ∧
        w.machine.v 0xF = (d.machine.v 0xF ||| e.machine.v 0xF) :=
  ⟨rfl, smudged.draw_in_pieces (by decide) (by decide) (by decide) (by decide) (by decide) rfl⟩

end Console

end Chip8

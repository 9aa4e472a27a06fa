import Chip8.Proofs.Footprint
import Chip8.Proofs.History

/-! The display as its history tells it: a clear puts out all pixels, and a draw turns over the ones
that its sprite covers. -/

namespace Chip8

namespace Moment

/-- A draw covers the pixel at row `p` and column `q`. Both axes wrap, and so does memory. -/
def Covers (m : Moment) (p : Fin 32) (q : Fin 64) : Prop :=
  m.instruction.op = .draw ∧ ∃ r < m.instruction.n.val, ∃ k < 8,
    p.val = ((m.machine.v m.instruction.y).toNat + r) % 32 ∧
    q.val = ((m.machine.v m.instruction.x).toNat + k) % 64 ∧
    (m.machine.memory.read (m.machine.index + r)).toNat.testBit (7 - k) = true

instance (m : Moment) (p : Fin 32) (q : Fin 64) : Decidable (m.Covers p q) :=
  inferInstanceAs (Decidable (_ ∧ _))

def paint (m : Moment) (p : Fin 32) (q : Fin 64) (b : Bool) : Bool :=
  if m.instruction.op = .clear then false else b ^^ decide (m.Covers p q)

def sinceClear (h : List Moment) : List Moment := h.reverse.takeWhile (·.instruction.op ≠ .clear)

variable {m : Moment} {p : Fin 32} {q : Fin 64}

theorem paint_of_other (hc : m.instruction.op ≠ .clear) (hd : m.instruction.op ≠ .draw) (b : Bool) :
    m.paint p q b = b := by
  have : ¬ m.Covers p q := fun h => hd h.1
  simp [paint, hc, this]

theorem odd_succ (n : Nat) : decide ((n + 1) % 2 = 1) = !decide (n % 2 = 1) := by
  rcases Nat.mod_two_eq_zero_or_one n with h | h <;> simp [Nat.add_mod, h]

/-- Here the latest moment comes first, so the induction meets it last. -/
theorem foldr_paint (l : List Moment) (b : Bool) :
    l.foldr (fun m b => m.paint p q b) b =
      ((if l.any (·.instruction.op = .clear) then false else b) ^^
        decide ((l.takeWhile (·.instruction.op ≠ .clear)).countP (·.Covers p q) % 2 = 1)) := by
  induction l with
  | nil => simp
  | cons m l ih =>
    rw [List.foldr_cons, ih]
    by_cases hc : m.instruction.op = .clear
    · simp [paint, hc]
    · rw [paint, if_neg hc, List.takeWhile_cons_of_pos (by simp [hc]), List.countP_cons,
        List.any_cons]
      by_cases hm : m.Covers p q
      · simp only [hc, hm, decide_false, decide_true, Bool.false_or, if_true, odd_succ,
          Bool.xor_true, Bool.xor_not]
      · simp only [hc, hm, decide_false, Bool.false_or, Bool.false_eq_true, if_false, Nat.add_zero,
          Bool.xor_false]

theorem foldl_paint (h : List Moment) (b : Bool) :
    h.foldl (fun b m => m.paint p q b) b =
      ((if h.any (·.instruction.op = .clear) then false else b) ^^
        decide ((sinceClear h).countP (·.Covers p q) % 2 = 1)) := by
  rw [← List.foldr_reverse, foldr_paint, List.any_reverse]
  rfl

theorem val_sub_ofNat_eq_iff {k : Nat} (p : Fin (k + 1)) (v r : Nat) (hr : r < k + 1) :
    (p - Fin.ofNat (k + 1) v).val = r ↔ p.val = (v + r) % (k + 1) := by
  have hp := p.isLt
  rw [Fin.sub_def, Fin.val_ofNat]
  dsimp only
  generalize k + 1 = n at *
  have hv := Nat.mod_lt v (Nat.zero_lt_of_lt hr)
  have hs : (n - v % n + p.val) % n =
      if v % n ≤ p.val then p.val - v % n else n - v % n + p.val := by
    split
    · rw [show n - v % n + p.val = p.val - v % n + n by omega, Nat.add_mod_right,
        Nat.mod_eq_of_lt (by omega)]
    · rw [Nat.mod_eq_of_lt (by omega)]
  rw [hs, Nat.add_mod_eq_ite, Nat.mod_eq_of_lt hr]
  split <;> split <;> omega

theorem getMsbD_toBitVec (b : UInt8) (k : Nat) :
    b.toBitVec.getMsbD k = (decide (k < 8) && b.toNat.testBit (7 - k)) :=
  BitVec.getMsbD_eq_getLsbD ..

/-- The sprite of a draw, as the display stamps it, covers what the draw covers: a sprite is smaller
than the display, so no pixel is covered twice. -/
theorem pixel_stamp_eq_covers (hop : m.instruction.op = .draw) :
    (Display.stamp (Fin.ofNat 64 (m.machine.v m.instruction.x).toNat)
      (Fin.ofNat 32 (m.machine.v m.instruction.y).toNat)
      (m.machine.memory.readBlock m.machine.index m.instruction.n)).pixel p q =
    decide (m.Covers p q) := by
  have hn := m.instruction.n.isLt
  rw [Display.pixel_stamp, Memory.getElem?_readBlock, Bool.eq_iff_iff, decide_eq_true_eq, Covers]
  generalize hr : (p - Fin.ofNat 32 (m.machine.v m.instruction.y).toNat).val = r
  generalize hk : (q - Fin.ofNat 64 (m.machine.v m.instruction.x).toNat).val = k
  have hr32 : r < 32 := hr ▸ Fin.isLt _
  have hk64 : k < 64 := hk ▸ Fin.isLt _
  replace hr := (val_sub_ofNat_eq_iff p _ r hr32).1 hr
  replace hk := (val_sub_ofNat_eq_iff q _ k hk64).1 hk
  constructor
  · intro h
    by_cases hrn : r < m.instruction.n.val
    · rw [if_pos hrn, Option.any_some, getMsbD_toBitVec, Bool.and_eq_true, decide_eq_true_eq] at h
      exact ⟨hop, r, hrn, k, h.1, hr, hk, h.2⟩
    · rw [if_neg hrn] at h
      cases h
  · rintro ⟨-, r', hrn, k', hk8, hp, hq, hb⟩
    obtain rfl : r' = r := by omega
    obtain rfl : k' = k := by omega
    rw [if_pos hrn, Option.any_some, getMsbD_toBitVec, Bool.and_eq_true, decide_eq_true_eq]
    exact ⟨hk8, hb⟩

end Moment

namespace Console

variable {c d : Console} {i : Instruction} {p : Fin 32} {q : Fin 64}

theorem pixel_perform (h : c.perform i = .ok d) :
    d.machine.display.pixel p q =
      Moment.paint ⟨c.machine, i⟩ p q (c.machine.display.pixel p q) := by
  by_cases hc : i.op = .clear
  · simp only [perform, hc, Except.ok.injEq] at h
    rw [← h, Moment.paint, if_pos hc]
    exact Display.pixel_blank p q
  by_cases hd : i.op = .draw
  · have hs := Moment.pixel_stamp_eq_covers (m := ⟨c.machine, i⟩) (p := p) (q := q) hd
    simp only [perform, hd, Except.ok.injEq] at h
    rw [← h, Moment.paint, if_neg hc, ← hs]
    exact Display.pixel_xor ..
  · have he : d.machine.display = c.machine.display := Decidable.by_contra fun hn =>
      ((perform_footprint h).display hn).elim hc hd
    rw [he, Moment.paint_of_other hc hd]

/-- What is refused is neither a clear nor a draw. -/
theorem paint_of_refused {f : Fault} (h : c.perform i = .error f) (m : Machine) (b : Bool) :
    Moment.paint ⟨m, i⟩ p q b = b := by
  rcases perform_eq_error_iff.1 h with ⟨hop, -⟩ | ⟨hop, -⟩ <;>
    exact Moment.paint_of_other (by simp [hop]) (by simp [hop]) b

theorem pixel_upToKey (h : UpToKey c d) :
    d.machine.display.pixel p q = c.machine.display.pixel p q := by
  obtain ⟨s, w, r, t, rfl⟩ := h
  rfl

theorem pixel_executes {m : Option Moment} (h : Executes c m d) :
    d.machine.display.pixel p q =
      m.toList.foldl (fun b m => m.paint p q b) (c.machine.display.pixel p q) := by
  cases h with
  | nothing hd => exact pixel_upToKey hd
  | refused n t i f hp => exact (paint_of_refused hp _ _).symm
  | done n t i e hp hd => exact (pixel_upToKey hd).trans (pixel_perform hp)

theorem pixel_moments (c : Console) (ds : List Command) (hd : ∀ n, .run n ∉ ds) :
    (c.after ds).machine.display.pixel p q =
      (c.moments ds).foldl (fun b m => m.paint p q b) (c.machine.display.pixel p q) := by
  induction ds generalizing c with
  | nil => rfl
  | cons e es ih =>
    have he : (c.apply e).2.machine.display.pixel p q =
        (c.moment? e).toList.foldl (fun b m => m.paint p q b)
          (c.machine.display.pixel p q) := by
      cases e with
      | step key => exact pixel_executes (c.executes_step key)
      | execute w => exact pixel_executes (c.executes_execute w)
      | run n => exact absurd List.mem_cons_self (hd n)
      | tick | press | release | seen => rfl
    rw [after, moments, List.foldl_append, ← he]
    exact ih _ fun n hn => hd n (List.mem_cons_of_mem e hn)

/-- A pixel is what its history makes of it: off after a clear, or else what it was at first, and
turned over by every draw since that covers it. -/
theorem pixel_after (c : Console) (ds : List Command) (p : Fin 32) (q : Fin 64) :
    (c.after ds).machine.display.pixel p q =
      ((if (c.history ds).any (·.instruction.op = .clear) then false
        else c.machine.display.pixel p q) ^^
        decide ((Moment.sinceClear (c.history ds)).countP (·.Covers p q) % 2 = 1)) := by
  rw [← Moment.foldl_paint, history, ← pixel_moments _ _ (c.run_not_mem_unrolled ds),
    after_unrolled]

end Console

end Chip8

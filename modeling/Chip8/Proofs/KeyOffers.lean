import Chip8.Proofs.KeyDelivery
import Chip8.Proofs.KeyWait

/-! A driver that offers a key with each step, or none. Only a program that is already waiting takes
an offer, so those that come too early might as well not have been made. -/

namespace Chip8.Console

def Takes (c : Console) (key : Option Int) : Prop := (c.step key).2.stores = c.stores + 1

instance (c : Console) (key : Option Int) : Decidable (c.Takes key) :=
  inferInstanceAs (Decidable (_ = _))

def taken (c : Console) : List (Option Int) → List (Option Int)
  | [] => []
  | key :: keys => (if c.Takes key then key else none) :: (c.step key).2.taken keys

def offered (c : Console) (keys : List (Option Int)) (n : Nat) : Console :=
  c.midway (keys.map .step) n

structure Resumable (c : Console) : Prop where
  reader : c.reader = none
  suspended : c.machine.waiting = true →
    c.machine.halted = false ∧ ∃ x : Register, c.machine.keyRegister = x.val

variable {c : Console} {key : Option Int} {keys : List (Option Int)} {n : Nat}

theorem step_awake (hw : c.machine.waiting = false) (key : Option Int) :
    c.step key = c.step none := by
  simp only [step, hw, Bool.false_eq_true, if_false]

theorem step_given (hh : c.machine.halted = false) (hw : c.machine.waiting = true) (x : Register)
    (hx : c.machine.keyRegister = x.val) (k : Int) :
    c.step (some k) = (.ok .executed, (c.withMachine { c.machine with
      registers := c.machine.registers.set x (UInt8.ofNat (k % 16).toNat),
      waiting := false }).note (.stored (Key.ofInt k) x.val)) := by
  rw [step_suspended hh hw, storeKey_eq x hx]

theorem Resumable.step (h : c.Resumable) (key : Option Int) : (c.step key).2.Resumable where
  reader := unread_stepInvariant.step h.reader key
  suspended := by
    cases hw : c.machine.waiting with
    | false =>
      rw [step_awake hw]
      rcases step_waits h.reader hw with ⟨-, hh, -, -, hx⟩ | ⟨-, hn, -⟩
      · exact fun _ => ⟨hh, hx⟩
      · exact fun hd => absurd (hn.symm.trans hd) nofun
    | true =>
      obtain ⟨hh, x, hx⟩ := h.suspended hw
      cases key with
      | none =>
        rw [step_suspended_none h.reader hh hw]
        exact h.suspended
      | some k =>
        rw [step_given hh hw x hx]
        exact nofun

theorem Resumable.takes_iff (h : c.Resumable) :
    c.Takes key ↔ c.machine.waiting = true ∧ key ≠ none := by
  rw [Takes]
  cases hw : c.machine.waiting with
  | false =>
    rw [step_awake hw, step_stores h.reader]
    simp
  | true =>
    obtain ⟨hh, x, hx⟩ := h.suspended hw
    cases key with
    | none =>
      rw [step_suspended_none h.reader hh hw]
      simp
    | some k =>
      have hs : (c.step (some k)).2.stores = c.stores + 1 := by
        rw [step_given hh hw x hx]
        exact List.countP_cons_of_pos rfl
      simp [hs]

/-- An offer that is not taken does nothing. -/
theorem Resumable.step_of_not_takes (h : c.Resumable) (ht : ¬ c.Takes key) :
    c.step key = c.step none := by
  cases hw : c.machine.waiting with
  | false => exact step_awake hw key
  | true =>
    have hk : key = none := Decidable.by_contra fun hn => ht (h.takes_iff.2 ⟨hw, hn⟩)
    rw [hk]

theorem Resumable.step_taken (h : c.Resumable) (key : Option Int) :
    c.step (if c.Takes key then key else none) = c.step key := by
  split
  case isTrue => rfl
  case isFalse ht => exact (h.step_of_not_takes ht).symm

theorem Resumable.taken_steps (h : c.Resumable) (keys : List (Option Int)) :
    c.after ((c.taken keys).map .step) = c.after (keys.map .step) ∧
      c.replies ((c.taken keys).map .step) = c.replies (keys.map .step) := by
  induction keys generalizing c with
  | nil => exact ⟨rfl, rfl⟩
  | cons key keys ih =>
    obtain ⟨ha, hr⟩ := ih (h.step key)
    simp only [taken, List.map_cons, after, replies, apply, h.step_taken]
    exact ⟨ha, by rw [hr]⟩

theorem take_taken (c : Console) (keys : List (Option Int)) (n : Nat) :
    (c.taken keys).take n = c.taken (keys.take n) := by
  induction keys generalizing c n with
  | nil => simp [taken]
  | cons key keys ih =>
    cases n with
    | zero => rfl
    | succ n => simp only [taken, List.take_succ_cons, ih]

theorem offered_eq (c : Console) (keys : List (Option Int)) (n : Nat) :
    c.offered keys n = c.after ((keys.take n).map .step) := by
  rw [offered, midway, List.map_take]

theorem Resumable.offered_taken (h : c.Resumable) (keys : List (Option Int)) (n : Nat) :
    c.offered (c.taken keys) n = c.offered keys n := by
  rw [offered_eq, offered_eq, take_taken]
  exact (h.taken_steps (keys.take n)).1

theorem offered_succ (hn : keys[n]? = some key) :
    c.offered keys (n + 1) = ((c.offered keys n).step key).2 := by
  rw [offered_eq, offered_eq, List.take_add_one, hn, Option.toList_some, List.map_append,
    after_append]
  rfl

theorem Resumable.offered (h : c.Resumable) (keys : List (Option Int)) (n : Nat) :
    (c.offered keys n).Resumable := by
  rw [offered_eq]
  induction keys.take n generalizing c with
  | nil => exact h
  | cons key _ ih => exact ih (h.step key)

/-- A suspended console stays as it is until it is offered a key. -/
theorem Resumable.offered_none (h : c.Resumable) {i : Nat}
    (hw : (c.offered keys i).machine.waiting = true) (d : Nat)
    (hn : ∀ l, i ≤ l → l < i + d → keys[l]? = some none) :
    c.offered keys (i + d) = c.offered keys i := by
  induction d with
  | zero => rfl
  | succ d ih =>
    have hd := ih fun l hl hl' => hn l hl (by omega)
    obtain ⟨hh, -⟩ := (h.offered keys i).suspended hw
    rw [← Nat.add_assoc, offered_succ (hn (i + d) (by omega) (by omega)), hd,
      step_suspended_none (h.offered keys i).reader hh hw]

/-- The instruction that awaits a key suspends the console, whatever is offered with it. -/
theorem step_asks {i : Instruction} (hr : c.reader = none) (hi : c.fetch? = some i)
    (hop : i.op = .awaitKey) (key : Option Int) :
    ∃ t, c.step key = (.ok .waiting, { c with
      machine := { c.machine with
        pc := c.machine.pc + 2, waiting := true, keyRegister := i.x.val }, trace := t }) := by
  have hh := (fetch?_eq_some_iff.1 hi).1.1
  have hp : (c.advance.announce i).perform i =
      .ok (((c.advance.announce i).withMachine { c.machine with
        pc := c.machine.pc + 2, waiting := true, keyRegister := i.x.val }).note (.awaiting i.x)) := by
    simp only [perform, hop, announce, advance, note, withMachine]
  have hm : Machine.mode { c.machine with
      pc := c.machine.pc + 2, waiting := true, keyRegister := i.x.val } = .waiting :=
    Machine.mode_eq_waiting.2 ⟨hh, rfl⟩
  refine ⟨.awaiting i.x :: (c.advance.announce i).trace, ?_⟩
  rw [step_of_perform hi hp, settle_unread (by exact hr), ← hm]
  rfl

/-- From the fetch of an instruction that awaits a key to the next offer nothing happens, and then
the key is stored. -/
theorem Resumable.wait (h : c.Resumable) {i j : Nat} {x : Instruction} {k : Int} (hij : i < j)
    (hi : (c.offered keys i).fetch? = some x) (hop : x.op = .awaitKey)
    (hn : ∀ l, i < l → l < j → keys[l]? = some none) (hj : keys[j]? = some (some k)) :
    (c.offered keys (i + 1)).machine.waiting = true ∧
      (∀ l, i < l → l ≤ j → c.offered keys l = c.offered keys (i + 1)) ∧
      c.offered keys (j + 1) = ((c.offered keys j).withMachine { (c.offered keys j).machine with
        registers := (c.offered keys j).machine.registers.set x.x (UInt8.ofNat (k % 16).toNat),
        waiting := false }).note (.stored (Key.ofInt k) x.x.val) := by
  have hlen : j < keys.length := (List.getElem?_eq_some_iff.1 hj).1
  have hkey : keys[i]? = some keys[i] := List.getElem?_eq_getElem (by omega)
  obtain ⟨t, ht⟩ := step_asks (h.offered keys i).reader hi hop keys[i]
  have hs := offered_succ (c := c) hkey
  rw [ht] at hs
  have hw : (c.offered keys (i + 1)).machine.waiting = true := by rw [hs]
  have same (l : Nat) (hl : i < l) (hl' : l ≤ j) : c.offered keys l = c.offered keys (i + 1) := by
    obtain ⟨d, rfl⟩ := Nat.exists_eq_add_of_lt hl
    rw [Nat.add_right_comm]
    exact h.offered_none hw d fun m hm hm' => hn m (by omega) (by omega)
  have hj' := same j hij (Nat.le_refl j)
  refine ⟨hw, same, ?_⟩
  rw [offered_succ hj, step_given]
  · rw [hj', hs]
    exact (fetch?_eq_some_iff.1 hi).1.1
  · rw [hj']
    exact hw
  · rw [hj', hs]

/-- A driver may offer keys whenever it likes. Those that come while no program waits are as good as
none, and a program that asks for a key gets the first one that is offered after that. -/
theorem offers_taken_by_waits (c : Console) (hr : c.reader = none)
    (hw : c.machine.waiting = false) (keys : List (Option Int)) :
    (∀ (i : Nat) key, keys[i]? = some key →
      ((c.offered keys i).Takes key ↔ (c.offered keys i).machine.waiting = true ∧ key ≠ none)) ∧
    (∀ n, c.offered (c.taken keys) n = c.offered keys n) ∧
    c.replies ((c.taken keys).map .step) = c.replies (keys.map .step) ∧
    ∀ (i j : Nat) (x : Instruction) (k : Int), i < j →
      (c.offered keys i).fetch? = some x → x.op = .awaitKey →
      (∀ l, i < l → l < j → keys[l]? = some none) → keys[j]? = some (some k) →
      c.offered keys (i + 1) = ((c.offered keys i).step none).2 ∧
      (∀ l, i < l → l ≤ j → c.offered keys l = c.offered keys (i + 1) ∧
        (c.offered keys l).machine.waiting = true) ∧
      (c.offered keys j).fetch? = none ∧
      c.offered keys (j + 1) = ((c.offered keys j).withMachine { (c.offered keys j).machine with
        registers := (c.offered keys j).machine.registers.set x.x (UInt8.ofNat (k % 16).toNat),
        waiting := false }).note (.stored (Key.ofInt k) x.x.val) := by
  have h : c.Resumable := ⟨hr, fun hn => absurd (hw.symm.trans hn) nofun⟩
  refine ⟨fun i key _ => (h.offered keys i).takes_iff, h.offered_taken keys,
    (h.taken_steps keys).2, ?_⟩
  intro i j x k hij hi hop hn hj
  have hlen : j < keys.length := (List.getElem?_eq_some_iff.1 hj).1
  obtain ⟨hwait, hsame, hstored⟩ := h.wait hij hi hop hn hj
  refine ⟨?_, ?_, ?_, hstored⟩
  · rw [offered_succ (List.getElem?_eq_getElem (by omega))]
    rw [step_awake (fetch?_eq_some_iff.1 hi).1.2]
  · intro l hl hl'
    have hsl := hsame l hl hl'
    exact ⟨hsl, by rw [hsl]; exact hwait⟩
  · refine fetch?_of_not_running fun hrun => ?_
    rw [hsame j hij (Nat.le_refl j)] at hrun
    exact absurd (hrun.2.symm.trans hwait) nofun

def early : List (Option Int) := [some 9, none, some 21, some 5, some (-1)]

set_option maxRecDepth 4000 in
theorem offers_taken_by_waits_early :
    asking.reader = none ∧ asking.machine.waiting = false ∧
      asking.taken early = [none, none, some 21, none, some (-1)] ∧
      asking.offered early 2 = asking.offered early 1 ∧
      (asking.offered early 3).machine.v 3 = 5 ∧ (asking.offered early 5).machine.v 1 = 15 := by
  have hfirst : (asking.offered early 0).fetch? = some (.ofWord 0xF30A) := by decide +kernel
  have hsecond : (asking.offered early 3).fetch? = some (.ofWord 0xF10A) := by decide +kernel
  obtain ⟨-, -, -, h⟩ := offers_taken_by_waits asking rfl rfl early
  obtain ⟨-, hsame, -, hv⟩ := h 0 2 _ 21 (by decide) hfirst rfl
    (fun l hl hl' => by obtain rfl : l = 1 := (by omega); rfl) rfl
  obtain ⟨-, -, -, hw⟩ := h 3 4 _ (-1) (by decide) hsecond rfl (fun l hl hl' => by omega) rfl
  refine ⟨rfl, rfl, by decide +kernel, (hsame 2 (by decide) (by decide)).1, ?_, ?_⟩
  · rw [hv]
    rfl
  · rw [hw]
    rfl

end Chip8.Console

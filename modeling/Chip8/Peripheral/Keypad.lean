import Chip8.Layout

/-! The built-in keypad, and the two ways somebody else can stand in for it. -/

namespace Chip8

structure Keypad where
  held : Vector Bool 16
deriving DecidableEq

namespace Keypad

def released : Keypad := ⟨Vector.replicate 16 false⟩

def isDown (p : Keypad) (k : Key) : Bool := p.held[k]

def put (p : Keypad) (k : Int) (down : Bool) : Keypad :=
  if h : 0 ≤ k ∧ k < 16 then ⟨p.held.set k.toNat down⟩ else p

def press (p : Keypad) (k : Int) : Keypad := p.put k true
def release (p : Keypad) (k : Int) : Keypad := p.put k false

theorem isDown_released (k : Key) : released.isDown k = false := by
  revert k
  decide

theorem ext_isDown {p q : Keypad} (h : ∀ k, p.isDown k = q.isDown k) : p = q := by
  cases p; cases q
  congr 1
  apply Vector.ext
  intro i hi
  exact h ⟨i, hi⟩

theorem isDown_put (p : Keypad) (k : Int) (down : Bool) (h : Key) :
    (p.put k down).isDown h = if k = h.val then down else p.isDown h := by
  unfold put isDown
  split
  · simp only [Fin.getElem_fin, Vector.getElem_set]
    split <;> split <;> first | rfl | omega
  · split
    · omega
    · rfl

theorem isDown_put_key (p : Keypad) (k : Key) (down : Bool) (h : Key) :
    (p.put k.val down).isDown h = if k = h then down else p.isDown h := by
  simp only [isDown_put, Int.natCast_inj, Fin.val_inj]

end Keypad

structure KeyWatcher where
  answer : Nat → Key → Bool
  asked : List Key := []

namespace KeyWatcher

def ask (w : KeyWatcher) (k : Key) : Bool × KeyWatcher :=
  (w.answer w.asked.length k, { w with asked := k :: w.asked })

end KeyWatcher

structure KeyReader where
  answer : Nat → Option Int
  taken : Nat := 0

namespace KeyReader

def next (r : KeyReader) : Option Int × KeyReader :=
  (r.answer r.taken, { r with taken := r.taken + 1 })

end KeyReader

end Chip8

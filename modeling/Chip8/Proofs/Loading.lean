import Chip8.Files.Rom
import Chip8.Machine.Basic

/-! A program in a new machine: which programs are taken, and what memory holds then. -/

namespace Chip8

namespace Memory

/-- The list with `block` in place of what it has from `start` up to `stop`. -/
def splice (l : List UInt8) (start stop : Nat) (block : List UInt8) : List UInt8 :=
  l.take start ++ block ++ l.drop (max start stop)

def loaded (program : List UInt8) : Memory :=
  (blank.writeBlock Layout.fontStart Font.bytes).writeBlock Layout.programStart program

variable {p : List UInt8} {a : Address}

theorem length_font : Font.bytes.length = 80 := rfl

theorem read_font (a : Address) :
    (blank.writeBlock Layout.fontStart Font.bytes).read a.val = Font.bytes[a.val]?.getD 0 := by
  have := a.isLt
  have h0 : (((a.val : Int) - Layout.fontStart) % 4096).toNat = a.val := by
    rw [Layout.fontStart]
    omega
  rw [read_writeBlock _ _ _ (by decide), h0, read_blank]

/-- The program does not come round to the font. -/
theorem read_loaded_below (hp : p.length ≤ 3584) (ha : a.val < 0x200) :
    (loaded p).read a.val = Font.bytes[a.val]?.getD 0 := by
  have h0 : 3584 ≤ (((a.val : Int) - Layout.programStart) % 4096).toNat := by
    rw [Layout.programStart]
    omega
  rw [loaded, read_writeBlock _ _ _ (by omega), List.getElem?_eq_none (by omega), Option.getD_none,
    read_font]

theorem read_loaded_above (hp : p.length ≤ 3584) (ha : 0x200 ≤ a.val) :
    (loaded p).read a.val = p[a.val - 0x200]?.getD 0 := by
  have := a.isLt
  have hl := length_font
  have h0 : (((a.val : Int) - Layout.programStart) % 4096).toNat = a.val - 0x200 := by
    rw [Layout.programStart]
    omega
  have hf : Font.bytes[a.val]? = none := List.getElem?_eq_none (by omega)
  rw [loaded, read_writeBlock _ _ _ (by omega), h0, read_font, hf, Option.getD_none]

theorem read_program (hp : p.length ≤ 3584) {k : Nat} (hk : k < p.length) :
    (loaded p).read (0x200 + k) = p[k] := by
  have hc : (0x200 + k : Int) = (0x200 + k : Nat) := by omega
  have ha := read_loaded_above (a := ⟨0x200 + k, by omega⟩) hp (Nat.le_add_right ..)
  rw [Nat.add_sub_cancel_left, List.getElem?_eq_getElem hk] at ha
  rw [hc]
  exact ha

/-- Zeros behind a program make no difference. -/
theorem loaded_append_zeros {n : Nat} (h : p.length + n ≤ 3584) :
    loaded (p ++ List.replicate n 0) = loaded p := by
  have hl : (p ++ List.replicate n 0).length = p.length + n := by simp
  apply ext_read
  intro a
  by_cases ha : a.val < 0x200
  · rw [read_loaded_below (by omega) ha, read_loaded_below (by omega) ha]
  · rw [read_loaded_above (by omega) (by omega), read_loaded_above (by omega) (by omega),
      List.getElem?_append]
    split
    case isTrue => rfl
    case isFalse hk =>
      rw [List.getElem?_eq_none (Nat.not_lt.1 hk), List.getElem?_replicate]
      split <;> rfl

theorem getElem?_toList (m : Memory) (a : Address) : m.toList[a.val]? = some (m.read a.val) := by
  have hw : Address.wrap a.val = a := Address.wrap_val a
  simp [toList, read, hw]

theorem length_splice (l : List UInt8) (start stop : Nat) (block : List UInt8) :
    (splice l start stop block).length =
      min start l.length + block.length + (l.length - max start stop) := by
  rw [splice, List.length_append, List.length_append, List.length_take, List.length_drop]

theorem getElem?_splice {l block : List UInt8} {start : Nat} (h : start ≤ l.length) (k : Nat) :
    (splice l start (start + block.length) block)[k]? =
      if start ≤ k ∧ k < start + block.length then block[k - start]? else l[k]? := by
  have htake : (l.take start).length = start := List.length_take_of_le h
  rw [splice, List.append_assoc, List.getElem?_append, htake]
  by_cases hk : k < start
  · rw [if_pos hk, if_neg (by omega), List.getElem?_take_of_lt hk]
  · rw [if_neg hk, List.getElem?_append]
    by_cases hb : k - start < block.length
    · rw [if_pos hb, if_pos (by omega)]
    · rw [if_neg hb, if_neg (by omega), List.getElem?_drop]
      congr 1
      omega

/-- A block that does not reach over the end takes the place of as many bytes. -/
theorem toList_writeBlock (m : Memory) {start : Nat} {block : List UInt8}
    (h : start + block.length ≤ 4096) :
    (m.writeBlock start block).toList = splice m.toList start (start + block.length) block := by
  have hl (m : Memory) : m.toList.length = 4096 := Vector.length_toList
  apply List.ext_getElem?
  intro k
  rw [getElem?_splice (by rw [hl]; omega)]
  by_cases hk : k < 4096
  · have hread (m : Memory) : m.toList[k]? = some (m.read k) := m.getElem?_toList ⟨k, hk⟩
    rw [hread, hread, read_writeBlock _ _ _ (by omega)]
    by_cases hs : start ≤ k ∧ k < start + block.length
    · have h0 : (((k : Int) - start) % 4096).toNat = k - start := by omega
      rw [if_pos hs, h0, List.getElem?_eq_getElem (by omega)]
      rfl
    · rw [if_neg hs, List.getElem?_eq_none (by omega)]
      rfl
  · have hnone (m : Memory) : m.toList[k]? = none :=
      List.getElem?_eq_none (by rw [hl]; omega)
    rw [hnone, hnone, if_neg (by omega)]

theorem toList_loaded (hp : p.length ≤ 3584) : (loaded p).toList =
    splice (splice (.replicate 4096 0) 0 80 Font.bytes) 0x200 (0x200 + p.length) p := by
  have hb : blank.toList = .replicate 4096 0 := Vector.toList_replicate
  have hf : Layout.fontStart + Font.bytes.length = 80 := rfl
  rw [loaded, toList_writeBlock _ (by rw [Layout.programStart]; omega),
    toList_writeBlock _ (by decide), hb, hf]
  rfl

theorem getElem?_loaded_below (hp : p.length ≤ 3584) {k : Nat} (hk : k < 0x200) :
    (loaded p).toList[k]? = some (Font.bytes[k]?.getD 0) := by
  have ha := getElem?_toList (loaded p) ⟨k, by omega⟩
  rw [read_loaded_below hp hk] at ha
  exact ha

theorem getElem?_loaded_above (hp : p.length ≤ 3584) {k : Nat} (hk : 0x200 ≤ k) (hk' : k < 4096) :
    (loaded p).toList[k]? = some (p[k - 0x200]?.getD 0) := by
  have ha := getElem?_toList (loaded p) ⟨k, hk'⟩
  rw [read_loaded_above hp hk] at ha
  exact ha

end Memory

namespace Machine

structure Loaded (m : Machine) (p : List UInt8) : Prop where
  length : m.memory.toList.length = 4096
  font (a : Nat) : a < 80 → m.memory.toList[a]? = Font.bytes[a]?
  program (i : Nat) : i < p.length → m.memory.toList[0x200 + i]? = p[i]?
  zero (a : Nat) : 80 ≤ a → a < 4096 → a < 0x200 ∨ 0x200 + p.length ≤ a →
    m.memory.toList[a]? = some 0
  word (i : Nat) (h : i + 1 < p.length) :
    m.readWord (0x200 + i) = .ok (256 * p[i].toNat + p[i + 1].toNat)

variable {p : List UInt8} {n : Nat} {capacity : Int} {f : Fault}

theorem ofProgram_eq : ofProgram p capacity =
    if 3584 < p.length then .error (.programTooLarge p.length 3584)
    else if capacity < 1 then .error (.badCapacity capacity)
    else .ok { memory := .loaded p, capacity := capacity.toNat } := rfl

theorem ofProgram_error_iff : ofProgram p capacity = .error f ↔
    3584 < p.length ∧ f = .programTooLarge p.length 3584 ∨
    p.length ≤ 3584 ∧ capacity < 1 ∧ f = .badCapacity capacity := by
  rw [ofProgram_eq]
  split
  case isTrue h => simp [h, Nat.not_le.2 h, eq_comm]
  case isFalse h =>
    split
    case isTrue hc => simp [h, Nat.not_lt.1 h, hc, eq_comm]
    case isFalse hc => simp [h, hc]

theorem ofProgram_ok (hp : p.length ≤ 3584) (hc : 1 ≤ capacity) :
    ofProgram p capacity = .ok { memory := .loaded p, capacity := capacity.toNat } := by
  rw [ofProgram_eq, if_neg (by omega), if_neg (by omega)]

theorem ofProgram_append_zeros (h : p.length + n ≤ 3584) :
    ofProgram (p ++ List.replicate n 0) capacity = ofProgram p capacity := by
  have hl : ¬ 3584 < (p ++ List.replicate n 0).length := by simpa using h
  have hp : ¬ 3584 < p.length := by omega
  rw [ofProgram_eq, ofProgram_eq, if_neg hl, if_neg hp, Memory.loaded_append_zeros h]

theorem loaded_of_memory {m : Machine} (hm : m.memory = .loaded p) (hp : p.length ≤ 3584) :
    m.Loaded p where
  length := by
    rw [hm, Memory.toList_loaded hp, Memory.length_splice, Memory.length_splice,
      Memory.length_font, List.length_replicate]
    omega
  font a ha := by
    have hl := Memory.length_font
    rw [hm, Memory.getElem?_loaded_below hp (by omega), List.getElem?_eq_getElem (by omega)]
    rfl
  program i hi := by
    rw [hm, Memory.getElem?_loaded_above hp (by omega) (by omega), Nat.add_sub_cancel_left,
      List.getElem?_eq_getElem hi]
    rfl
  zero a ha ha' hz := by
    have hl := Memory.length_font
    rcases hz with hz | hz
    · rw [hm, Memory.getElem?_loaded_below hp hz, List.getElem?_eq_none (by omega)]
      rfl
    · rw [hm, Memory.getElem?_loaded_above hp (by omega) ha', List.getElem?_eq_none (by omega)]
      rfl
  word i hi := by
    have hs : (0x200 + i + 1 : Int) = 0x200 + (i + 1 : Nat) := by omega
    rw [readWord, if_neg (by omega), hm, hs, Memory.read_program hp hi,
      Memory.read_program hp (by omega)]

/-- A program is refused for its size, else for the capacity of the stack, and else loaded as a
whole. Files are refused for their size exactly when the program in them would be. -/
theorem programs_load (p : List UInt8) (capacity : Int) :
    (∀ f, ofProgram p capacity = .error f ↔
      3584 < p.length ∧ f = .programTooLarge p.length 3584 ∨
      p.length ≤ 3584 ∧ capacity < 1 ∧ f = .badCapacity capacity) ∧
    (p.length ≤ 3584 → 1 ≤ capacity → ∃ m, ofProgram p capacity = .ok m ∧ m.Loaded p ∧
      m = { memory := m.memory, capacity := capacity.toNat }) ∧
    (∀ n, p.length + n ≤ 3584 →
      ofProgram (p ++ List.replicate n 0) capacity = ofProgram p capacity) ∧
    (∀ contents, loadRom contents = .ok p → 1 ≤ capacity → ∃ m, ofProgram p capacity = .ok m) ∧
    ∀ contents n, loadRom contents = .error (.tooLarge n) ↔
      ∃ bytes, contents = .ok bytes ∧
        ofProgram bytes capacity = .error (.programTooLarge n 3584) := by
  refine ⟨fun f => ofProgram_error_iff, fun hp hc => ?_, fun n => ofProgram_append_zeros,
    fun contents h hc => ?_, fun contents n => ?_⟩
  · exact ⟨_, ofProgram_ok hp hc, loaded_of_memory rfl hp, rfl⟩
  · exact ⟨_, ofProgram_ok (loadRom_ok_iff.1 h).2 hc⟩
  · rw [loadRom_tooLarge_iff]
    refine exists_congr fun bytes => and_congr_right fun _ => ?_
    rw [ofProgram_error_iff]
    simp

end Machine

end Chip8

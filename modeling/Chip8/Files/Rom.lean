import Chip8.Fault
import Chip8.Files.Path
import Chip8.Layout
import Chip8.Text.Quoted

/-! Program images in files. -/

namespace Chip8

inductive ReadFault
  | system (number : Int) (text : String) (path : Option Path)
  | zeroCharacter
deriving DecidableEq, Repr

namespace ReadFault

def message : ReadFault → String
  | system number text path =>
    "[Errno " ++ toString number ++ "] " ++ text ++
      (path.map fun p => ": " ++ Text.quoted p.toString).getD ""
  | zeroCharacter => "embedded null byte"

end ReadFault

inductive LoadFault
  | unreadable (f : ReadFault)
  | tooLarge (size : Nat)
deriving DecidableEq, Repr

namespace LoadFault

def message : LoadFault → String
  | unreadable f => f.message
  | tooLarge size => (Fault.programTooLarge size Layout.programLimit).message

end LoadFault

def loadRom (contents : Except ReadFault (List UInt8)) : Except LoadFault (List UInt8) :=
  match contents with
  | .error f => .error (.unreadable f)
  | .ok bytes =>
    if Layout.programLimit < bytes.length then .error (.tooLarge bytes.length) else .ok bytes

theorem loadRom_ok_iff {contents : Except ReadFault (List UInt8)} {program : List UInt8} :
    loadRom contents = .ok program ↔ contents = .ok program ∧ program.length ≤ 3584 := by
  cases contents with
  | error f => simp [loadRom]
  | ok bytes =>
    by_cases hl : Layout.programLimit < bytes.length
    · have hn : ¬ bytes.length ≤ 3584 := Nat.not_le.2 hl
      simp only [loadRom, if_pos hl, Except.ok.injEq, reduceCtorEq, false_iff, not_and]
      rintro rfl
      exact hn
    · have hn : bytes.length ≤ 3584 := Nat.not_lt.1 hl
      simp only [loadRom, if_neg hl, Except.ok.injEq, iff_self_and]
      rintro rfl
      exact hn

theorem loadRom_tooLarge_iff {contents : Except ReadFault (List UInt8)} {n : Nat} :
    loadRom contents = .error (.tooLarge n) ↔
      ∃ bytes, contents = .ok bytes ∧ 3584 < bytes.length ∧ n = bytes.length := by
  cases contents with
  | error f => simp [loadRom]
  | ok bytes =>
    by_cases hl : Layout.programLimit < bytes.length
    · have hn : 3584 < bytes.length := hl
      simp [loadRom, hl, hn, eq_comm]
    · have hn : ¬ 3584 < bytes.length := hl
      simp [loadRom, hl, hn]

end Chip8

/-! Hexadecimal numerals, padded with zeros. -/

namespace Chip8.Text

def lowerHex (width n : Nat) : List Char :=
  let digits := Nat.toDigits 16 n
  List.replicate (width - digits.length) '0' ++ digits

/-- Upper-case digits. A minus sign comes before the zeros and counts as part of the width. -/
def hex (width : Nat) (n : Int) : String :=
  let digits := if n < 0 then '-' :: lowerHex (width - 1) n.natAbs else lowerHex width n.natAbs
  String.ofList (digits.map Char.toUpper)

example : hex 3 0x2A = "02A" ∧ hex 3 (-2) = "-02" ∧ hex 4 0x12345 = "12345" := by decide

/-- The last digit comes off the end, unless no digit would be left. -/
theorem lowerHex_succ {width : Nat} (h : 0 < width) (n : Nat) :
    lowerHex (width + 1) n = lowerHex width (n / 16) ++ [Nat.digitChar (n % 16)] := by
  rw [lowerHex, lowerHex, Nat.toDigits_eq_if (by omega)]
  by_cases hn : n < 16
  · obtain ⟨k, rfl⟩ := Nat.exists_eq_add_of_lt h
    rw [if_pos hn, Nat.div_eq_of_lt hn, Nat.mod_eq_of_lt hn, Nat.toDigits_zero]
    simp [List.replicate_succ']
  · rw [if_neg hn]
    simp

theorem lowerHex_one {n : Nat} (h : n < 16) : lowerHex 1 n = [Nat.digitChar n] := by
  rw [lowerHex, Nat.toDigits_of_lt_base h]
  rfl

end Chip8.Text

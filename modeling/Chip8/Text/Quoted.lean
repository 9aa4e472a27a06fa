import Chip8.Text.Hex
import Chip8.Text.Printable

/-! Texts in quotes, on one line and in printable characters only. -/

namespace Chip8.Text

def singleQuote : Char := Char.ofNat 0x27
def doubleQuote : Char := Char.ofNat 0x22
def backslash : Char := Char.ofNat 0x5C

def escape (quote c : Char) : Option (List Char) :=
  if c = quote ∨ c = backslash then some [c]
  else if c = '\n' then some ['n']
  else if c = '\r' then some ['r']
  else if c = '\t' then some ['t']
  else if isPrintable c then none
  else if c.toNat < 0x100 then some ('x' :: lowerHex 2 c.toNat)
  else if c.toNat < 0x10000 then some ('u' :: lowerHex 4 c.toNat)
  else some ('U' :: lowerHex 8 c.toNat)

def escaped (quote c : Char) : List Char :=
  match escape quote c with
  | some l => backslash :: l
  | none => [c]

def quoteFor (s : List Char) : Char :=
  if singleQuote ∈ s ∧ doubleQuote ∉ s then doubleQuote else singleQuote

def quoted (s : String) : String :=
  let q := quoteFor s.toList
  String.ofList (q :: s.toList.flatMap (escaped q) ++ [q])

end Chip8.Text

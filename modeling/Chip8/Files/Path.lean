/-! Paths of files: a root, and names between slashes. -/

namespace Chip8

structure Path where
  root : String
  names : List String
deriving DecidableEq, Repr

namespace Path

/-- Two slashes at the start, and no more, are a root of their own. -/
def rootOf : List Char → String
  | '/' :: '/' :: '/' :: _ => "/"
  | '/' :: '/' :: _ => "//"
  | '/' :: _ => "/"
  | _ => ""

def namesOf (s : String) : List String :=
  (s.splitOn "/").filter fun n => n != "" && n != "."

def ofString (s : String) : Path := { root := rootOf s.toList, names := namesOf s }

def toString (p : Path) : String :=
  if p.root = "" ∧ p.names = [] then "." else p.root ++ "/".intercalate p.names

end Path

end Chip8

import Chip8.Files.Rom
import Chip8.Frontend.Loop

/-! The command line: loads the program named by the first argument and plays it. -/

namespace Chip8

namespace CommandLine

structure Ending where
  code : Nat
  output : String
  trace : List Record := []
  showing : Showing := {}

inductive Escape
  | read (f : ReadFault)
  | misuse (f : Fault)
deriving DecidableEq, Repr

def Escape.message : Escape → String
  | read f => f.message
  | misuse f => f.message

def usage : String := "usage: python -m chip8vm.host ROM\n"

def controls : String :=
  "Controls:\n  CHIP-8 Keypad: 1234 / QWER / ASDF / ZXCV\n  ESC = Exit\n\n"

def frontend (c : Console) : Frontend :=
  .ofConsole c Frontend.defaultClock Frontend.defaultScale Color.phosphor.ink none

def report (f : Fault) (trace : List Record) (s : Showing) : Except Escape Ending :=
  if f.isMachineFault then
    .ok { code := 1, output := controls, trace := .failed f :: trace, showing := s }
  else .error (.misuse f)

def play (g : Graphics) (program : List UInt8) (random : RandomSource)
    (frames : List (List Event)) : Except Escape Ending :=
  match Console.boot { program := program, random := random } with
  | .error f => report f [] {}
  | .ok c =>
    match (frontend c).play g frames with
    | (.error f, h, s) => report f h.console.trace s
    | (.ok (), h, s) => .ok { code := 0, output := controls, trace := h.console.trace, showing := s }

def run (g : Graphics) (args : List String) (read : String → Except ReadFault (List UInt8))
    (random : RandomSource) (frames : List (List Event)) : Except Escape Ending :=
  match args with
  | [] => .ok { code := 2, output := usage }
  | path :: _ =>
    match loadRom (read path) with
    | .error (.unreadable .zeroCharacter) => .error (.read .zeroCharacter)
    | .error f => .ok { code := 1, output := controls ++ "Failed to load ROM: " ++ f.message ++ "\n" }
    | .ok program => play g program random frames

def Ending.log (e : Ending) : String :=
  String.join ((e.trace.reverse.filter (·.level != .debug)).map fun r =>
    "[" ++ r.level.name ++ "]:  " ++ r.message ++ "\n")

end CommandLine

end Chip8

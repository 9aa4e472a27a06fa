import Chip8.CommandLine
import Chip8.Frontend.Stock

/-! The program. Standard input holds the events, a line for each frame, with spaces between them;
at its end the user quits. -/

namespace Chip8

def systemError : IO.Error → Int × String
  | .alreadyExists _ code text | .otherError code text | .resourceBusy code text
  | .resourceVanished code text | .unsupportedOperation code text | .hardwareFault code text
  | .unsatisfiedConstraints code text | .illegalOperation code text | .protocolError code text
  | .timeExpired code text | .interrupted _ code text | .noFileOrDirectory _ code text
  | .invalidArgument _ code text | .permissionDenied _ code text | .resourceExhausted _ code text
  | .inappropriateType _ code text | .noSuchThing _ code text => (code.toInt32.toInt.natAbs, text)
  | .unexpectedEof => (5, "Input/output error")
  | .userError text => (22, text)

def readFile (path : String) : IO (Except ReadFault (List UInt8)) := do
  if path.toList.contains (Char.ofNat 0) then return .error .zeroCharacter
  let p := Path.ofString path
  try
    let bytes ← IO.FS.readBinFile p.toString
    return .ok bytes.toList
  catch e =>
    let (number, text) := systemError e
    return .error (.system number text p)

partial def readLines (input : IO.FS.Stream) : IO (List String) := do
  let line ← input.getLine
  if line.isEmpty then return [] else return line :: (← readLines input)

def frameOfLine (line : String) : List Event :=
  ((line.splitToList Char.isWhitespace).filter (· ≠ "")).map Event.ofString

def freshSeed : IO Int := do
  return (← IO.getRandomBytes 8).foldl (fun n b => 256 * n + b.toNat) 0

def inputs : List String → IO (Except ReadFault (List UInt8) × List (List Event))
  | [] => return (.ok [], [])
  | path :: _ => do
    let contents ← readFile path
    return (contents, (← readLines (← IO.getStdin)).map frameOfLine)

end Chip8

def main (args : List String) : IO UInt32 := do
  let (contents, frames) ← Chip8.inputs args
  match Chip8.CommandLine.run .stock args (fun _ => contents) (.ofSeed (← Chip8.freshSeed)) frames
    with
  | .ok e =>
    IO.print e.output
    IO.eprint e.log
    return UInt32.ofNat e.code
  | .error e =>
    IO.eprintln e.message
    return 1

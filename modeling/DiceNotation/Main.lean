import DiceNotation.CommandLine

/-!
# The Program

Asks for the expression and reads the first line of standard input if it comes from there,
draws a fresh seed, and does what the command line says.
-/

namespace DiceNotation.CommandLine

/-- Reads bytes until a line is complete or the input ends. -/
partial def readLine (stream : IO.FS.Stream) (bytes : ByteArray) : IO ByteArray := do
  let chunk ← stream.read 4096
  let bytes := bytes ++ chunk
  if chunk.isEmpty || chunk.toList.contains 10 then return bytes else readLine stream bytes

/-- A seed from the entropy of the system. -/
def freshSeed : IO UInt64 := do
  let bytes ← IO.getRandomBytes 8
  return bytes.toList.foldl (fun seed byte => seed * 256 + byte.toUInt64) 0

/-- Whether the expression of a request comes from standard input. -/
def readsInput : Request → Bool
  | .roll options => options.words.isEmpty
  | _ => false

end DiceNotation.CommandLine

open DiceNotation.CommandLine

/-- The program. -/
def main (arguments : List String) : IO UInt32 := do
  let request := Request.ofArguments arguments
  let stdin ← IO.getStdin
  let stdout ← IO.getStdout
  stdout.putStr (request.prompt (← stdin.isTty))
  stdout.flush
  let input ← if readsInput request then readLine stdin .empty else pure .empty
  let answer := request.answer input.toList (← freshSeed)
  stdout.putStr answer.stdout
  (← IO.getStderr).putStr answer.complaint.text
  return answer.code.toUInt32

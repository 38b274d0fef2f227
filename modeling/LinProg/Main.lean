import LinProg.CommandLine.Run
import LinProg.Json.Float

/-!
# The program

Reads the arguments and the file that they name, and prints what the command answers.
-/

namespace LinProg

/-- The content of a file, or why it cannot be read. -/
def readContent (path : String) : IO (Except String String) := do
  match ← (IO.FS.readBinFile path).toBaseIO with
  | .ok bytes =>
      match String.fromUTF8? bytes with
      | some text => return .ok text
      | none => return .error "stream did not contain valid UTF-8"
  | .error (.noFileOrDirectory ..) => return .error "No such file or directory (os error 2)"
  | .error e => return .error e.toString

end LinProg

open LinProg in
def main (arguments : List String) : IO UInt32 := do
  let output ← match CommandLine.Command.ofArguments? arguments with
    | none => pure CommandLine.Output.usage
    | some command =>
        let content ← readContent command.file
        pure (command.run Json.floatText content)
  (← IO.getStdout).putStr output.stdout
  (← IO.getStderr).putStr output.stderr
  return output.exitCode.toUInt32

import Reckon.CommandLine.Run

/-! The command line. -/

open Reckon.CommandLine

def main (arguments : List String) : IO UInt32 := do
  let request := Request.ofArguments arguments
  let stdout ← IO.getStdout
  let stderr ← IO.getStderr
  let surroundings : Surroundings := {
    noColor? := ← IO.getEnv "NO_COLOR"
    force? := ← IO.getEnv "CLICOLOR_FORCE"
    color? := ← IO.getEnv "CLICOLOR"
    isTerminal := ← stdout.isTty
    complaint := "Error: stream did not contain valid UTF-8\n" }
  let mut input := ByteArray.empty
  if request.readsInput then
    input ← (← IO.getStdin).readBinToEnd
  let outcome := request.perform surroundings input.toList
  stdout.putStr outcome.stdout
  stderr.putStr outcome.stderr
  return outcome.exitCode.toUInt32

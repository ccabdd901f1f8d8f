/-
The program: its arguments in, its output out.
-/
import SqlBridge.CommandLine

def main (arguments : List String) : IO UInt32 := do
  let output := SqlBridge.CommandLine.run arguments
  IO.print output.stdout
  IO.eprint output.stderr
  return output.exitCode

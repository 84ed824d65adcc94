import ShaderReflection.CommandLine

/-!
The program: it reads the files, writes the reports to standard output and failures to standard
error. It ends with status 1 after a failure and 2 after a misuse.
-/

namespace ShaderReflection

/-- The environment variable that names a grammar to use. -/
def grammarVariable : String := "PLUMBER_GRAMMAR"

/-- How the program is used. -/
def usage : String :=
  "usage: shader-reflection [--grammar PATH] [--input LOCATIONS]... [--descriptors] [--trace] INPUT"

/-- The contents of a file. -/
def readContents (path : String) : IO CommandLine.Contents := do
  try
    let bytes ← IO.FS.readBinFile path
    return .ok bytes.toList
  catch error =>
    match error with
    | .noFileOrDirectory .. => return .error "No such file or directory (os error 2)"
    | .permissionDenied .. => return .error "Permission denied (os error 13)"
    | .inappropriateType _ 21 _ => return .error "Is a directory (os error 21)"
    | .inappropriateType .. => return .error "Not a directory (os error 20)"
    | other => return .error (toString other)

end ShaderReflection

open ShaderReflection in
/-- Runs the program. -/
def main (arguments : List String) : IO UInt32 := do
  match CommandLine.Options.ofArguments? (← IO.getEnv grammarVariable) arguments with
  | none =>
    IO.eprintln usage
    return 2
  | some options =>
    let grammar ← options.grammar.mapM readContents
    let input ← readContents options.input
    let outcome := CommandLine.run options grammar input
    IO.eprint outcome.log
    IO.print outcome.output
    match outcome.failure with
    | none => return 0
    | some failure =>
      IO.eprint failure.report
      return 1

import KernelImage.Command.Run

/-! # The program on a real system -/

namespace KernelImage.Command

def usageText : String :=
  "usage: image-check (--elf FILE | --print script|entry) [--board qemu|k210]\n"

def versionText : String := "image-check 0.1.0\n"

def UsageError.text : UsageError → String
  | helpDisplayed => usageText
  | versionDisplayed => versionText
  | unknownArgument => "error: an argument was not expected\n" ++ usageText
  | emptyValue => "error: an option needs a value\n" ++ usageText
  | invalidValue => "error: a value is not one of the possible ones\n" ++ usageText
  | unexpectedMultipleUsage => "error: an option was given more than once\n" ++ usageText
  | missingRequiredArgument => "error: a required argument is missing\n" ++ usageText

/-- The number of a reason, which some systems report as its negative. -/
def systemNumber (number : UInt32) : Nat :=
  if number < 0x80000000 then number.toNat else (0 - number).toNat

/-- The reason that the system gave for a failed read. -/
def ReadError.ofSystem : IO.Error → ReadError
  | .noFileOrDirectory _ number text => .ofNumber (systemNumber number) text
  | .inappropriateType _ number text => .ofNumber (systemNumber number) text
  | .permissionDenied _ number text => .ofNumber (systemNumber number) text
  | .invalidArgument _ number text => .ofNumber (systemNumber number) text
  | .otherError number text => .ofNumber (systemNumber number) text
  | e => ⟨toString e, 0⟩

def readFile (path : String) : IO (Except ReadError ByteArray) := do
  try
    return .ok (← IO.FS.readBinFile path)
  catch e =>
    return .error (.ofSystem e)

/-- Reads the image, unless something is only to be printed, and runs the program on it. -/
def runOnSystem (options : Options) : IO Finish := do
  let contents ←
    match options.print, options.elf with
    | none, some path => readFile path
    | _, _ => pure (.error .notFound)
  return run options fun _ => contents

end KernelImage.Command

open KernelImage.Command in
def main (args : List String) : IO UInt32 := do
  match Options.parse args with
  | .error e =>
    if e.exitCode = 0 then IO.print e.text else IO.eprint e.text
    return UInt32.ofNat e.exitCode
  | .ok options =>
    let finish ← runOnSystem options
    IO.print finish.stdout
    IO.eprint (finish.stderr.getD "")
    return UInt32.ofNat finish.exitCode

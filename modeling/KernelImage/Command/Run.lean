import KernelImage.Audit.Report
import KernelImage.Boot.Assembly
import KernelImage.Command.Options
import KernelImage.Command.Store

/-!
# A run of the program

The program prints a generated file, or checks an image and prints the report on it. It ends with
exit code 0, with 1 when the image is rejected, and with 2 when it cannot be read.
-/

namespace KernelImage.Command

/-- What a run leaves behind. -/
structure Finish where
  exitCode : Nat
  stdout : String
  /-- The error text, or `none` for a run that a fault ended. -/
  stderr : Option String
deriving DecidableEq

namespace Finish

def success (stdout : String) : Finish := ⟨0, stdout, some ""⟩

/-- An error is one line of text. -/
def failure (exitCode : Nat) (message : String) : Finish := ⟨exitCode, "", some (message ++ "\n")⟩

/-- A fault ends a run before anything is printed. -/
def fault : Finish := ⟨101, "", none⟩

end Finish

def Printable.text (board : Board) : Printable → String
  | script => board.linkerScript
  | entry => Assembly.render Boot.entryFile

/-- The report on the image in a file. -/
def checkImage (path : String) (board : Board) (bytes : ByteArray) : Outcome String := do
  let audit ← Audit.ofImage bytes board
  audit.report path

/-- Runs the program; `read` gives the bytes of a file. -/
def run (options : Options) (read : String → Except ReadError ByteArray) : Finish :=
  match options.print, options.elf with
  | some printable, _ => .success (printable.text options.board)
  | none, none => .fault
  | none, some path =>
    match read path with
    | .error e => .failure 2 ("cannot read " ++ path ++ ": " ++ e.message)
    | .ok bytes =>
      match checkImage path options.board bytes with
      | .ok text => .success text
      | .error (.defect d) => .failure 1 (path ++ ": " ++ d.message)
      | .error (.fault _) => .fault

end KernelImage.Command

import KernelImage.Boot.Program
import KernelImage.Layout.Basic

/-!
# The entry file

Assembly text for the boot program and the boot stack. `entryFile` is a list of lines, and
`Assembly.render` writes it out.
-/

namespace KernelImage

namespace Assembly

inductive Line where
  | blank
  | enterSection (name : String)
  | global (symbol : String)
  | label (symbol : String)
  | instr (i : Boot.Instr)
  /-- Advances to a multiple of `n`. -/
  | align (n : Nat)
  /-- Reserves `n` bytes. -/
  | space (n : Nat)
deriving DecidableEq

def Line.text : Line → String
  | blank => ""
  | enterSection name => "    .section " ++ name
  | global symbol => "    .globl " ++ symbol
  | label symbol => symbol ++ ":"
  | instr i => "    " ++ i.text
  | align n => "    .balign " ++ toString n
  | space n => "    .space " ++ toString n

def render (lines : List Line) : String := String.join (lines.map fun line => line.text ++ "\n")

end Assembly

/-- The boot program goes to the start of the code, the boot stack to the start of zeroed memory. -/
def Boot.entryFile : List Assembly.Line :=
  [.enterSection ".text.entry", .global entryName, .label entryName] ++
  program.map .instr ++
  [.blank,
    .enterSection ".bss.stack",
    .align pageSize.toNat,
    .global Symbol.bootStack.name,
    .label Symbol.bootStack.name,
    .space bootStackSize.toNat,
    .global Symbol.bootStackTop.name,
    .label Symbol.bootStackTop.name]

end KernelImage

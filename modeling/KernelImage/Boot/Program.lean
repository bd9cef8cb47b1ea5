import KernelImage.Symbol

/-!
# The boot program

The first two instructions of an image: they set the stack pointer and call the kernel.
-/

namespace KernelImage.Boot

/-- The name of the image's entry point. -/
def entryName : String := "_start"

/-- The function that takes over from the boot program. -/
def kernelMain : String := "rust_main"

inductive Instr where
  /-- Loads the address of a symbol into the stack pointer. -/
  | loadStackPointer (symbol : String)
  /-- Calls a symbol and keeps the return address. -/
  | call (symbol : String)
deriving DecidableEq

namespace Instr

/-- The length of the code, which is two machine instructions for either kind. -/
def size : Instr → UInt64
  | loadStackPointer _ => 8
  | call _ => 8

def text : Instr → String
  | loadStackPointer symbol => "la sp, " ++ symbol
  | call symbol => "call " ++ symbol

end Instr

def program : List Instr := [.loadStackPointer Symbol.bootStackTop.name, .call kernelMain]

def programSize : UInt64 := program.foldl (fun n i => n + i.size) 0

end KernelImage.Boot

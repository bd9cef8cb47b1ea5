/-!
# Boundary symbols

The fifteen symbols that mark the boundaries of an image, in the order of their addresses.
-/

namespace KernelImage

inductive Symbol where
  | skernel
  | stext
  | strampoline
  | etrampoline
  | etext
  | srodata
  | erodata
  | sdata
  | edata
  | sbssWithStack
  | bootStack
  | bootStackTop
  | sbss
  | ebss
  | ekernel
deriving DecidableEq, Inhabited

namespace Symbol

def all : List Symbol :=
  [skernel, stext, strampoline, etrampoline, etext, srodata, erodata, sdata, edata,
    sbssWithStack, bootStack, bootStackTop, sbss, ebss, ekernel]

/-- The position in the order of addresses. -/
def index (s : Symbol) : Nat := all.idxOf s

/-- The name in the linker script and in the symbol table. -/
def name : Symbol → String
  | skernel => "skernel"
  | stext => "stext"
  | strampoline => "strampoline"
  | etrampoline => "etrampoline"
  | etext => "etext"
  | srodata => "srodata"
  | erodata => "erodata"
  | sdata => "sdata"
  | edata => "edata"
  | sbssWithStack => "sbss_with_stack"
  | bootStack => "boot_stack"
  | bootStackTop => "boot_stack_top"
  | sbss => "sbss"
  | ebss => "ebss"
  | ekernel => "ekernel"

def ofName? (t : String) : Option Symbol := all.find? (fun s => s.name = t)

/-- Every boundary lies on a page boundary except `sbss`, which follows the boot stack. -/
def OnPageBoundary (s : Symbol) : Prop := s ≠ sbss

instance (s : Symbol) : Decidable s.OnPageBoundary := inferInstanceAs (Decidable (s ≠ sbss))

/-- Each symbol with the next one. -/
def neighbours : List (Symbol × Symbol) := all.zip all.tail

section Tabulate

variable {m : Type → Type} [Monad m] {α : Type}

/-- Asks for a value for every symbol, once and in order, and keeps the answers. -/
def tabulateM (f : Symbol → m α) : m (Symbol → α) := do
  let skernelValue ← f skernel
  let stextValue ← f stext
  let strampolineValue ← f strampoline
  let etrampolineValue ← f etrampoline
  let etextValue ← f etext
  let srodataValue ← f srodata
  let erodataValue ← f erodata
  let sdataValue ← f sdata
  let edataValue ← f edata
  let sbssWithStackValue ← f sbssWithStack
  let bootStackValue ← f bootStack
  let bootStackTopValue ← f bootStackTop
  let sbssValue ← f sbss
  let ebssValue ← f ebss
  let ekernelValue ← f ekernel
  return fun
    | skernel => skernelValue
    | stext => stextValue
    | strampoline => strampolineValue
    | etrampoline => etrampolineValue
    | etext => etextValue
    | srodata => srodataValue
    | erodata => erodataValue
    | sdata => sdataValue
    | edata => edataValue
    | sbssWithStack => sbssWithStackValue
    | bootStack => bootStackValue
    | bootStackTop => bootStackTopValue
    | sbss => sbssValue
    | ebss => ebssValue
    | ekernel => ekernelValue

end Tabulate

end Symbol

end KernelImage

import KernelImage.Board
import KernelImage.Boot.Program
import KernelImage.Layout.Basic

/-!
# Planned layouts

`plan` gives every group of input sections its place, by the rules of the linker script, and so
finds the layout of an image that is not linked yet.
-/

namespace KernelImage

/-- The sizes of the groups of input sections, without padding. -/
structure InputSizes where
  /-- The boot program. -/
  entry : UInt64 := 0
  trampoline : UInt64 := 0
  /-- The rest of the code. -/
  text : UInt64 := 0
  rodata : UInt64 := 0
  data : UInt64 := 0
  /-- Zeroed memory besides the boot stack. -/
  bss : UInt64 := 0
deriving DecidableEq

namespace InputSizes

/-- An image that holds only the boot program. -/
def minimal : InputSizes := { entry := Boot.programSize }

end InputSizes

namespace Layout

/-- The planned layout, unless it reaches past the top of the address space. -/
def plan? (board : Board) (sizes : InputSizes) : Option Layout := do
  let base := board.base
  let strampoline ← base.afterPadded? sizes.entry
  let etrampoline ← strampoline.afterPadded? sizes.trampoline
  let etext ← etrampoline.afterPadded? sizes.text
  let erodata ← etext.afterPadded? sizes.rodata
  let edata ← erodata.afterPadded? sizes.data
  let bootStackTop ← edata.offset? bootStackSize
  let ebss ← bootStackTop.afterPadded? sizes.bss
  return {
    skernel := base
    stext := base
    strampoline
    etrampoline
    etext
    srodata := etext
    erodata
    sdata := erodata
    edata
    sbssWithStack := edata
    bootStack := edata
    bootStackTop
    sbss := bootStackTop
    ebss
    ekernel := ebss }

/-- The planned layout. Whether it fits into the board's memory is left to `Layout.check`. -/
def plan (board : Board) (sizes : InputSizes) : Except Defect Layout :=
  match plan? board sizes with
  | some l => .ok l
  | none => .error .addressOverflow

end Layout

end KernelImage

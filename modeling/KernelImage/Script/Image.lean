import KernelImage.Board
import KernelImage.Boot.Program
import KernelImage.Layout.Basic
import KernelImage.Script.Basic

/-!
# The linker script of an image

The regions follow each other in a fixed order, and each one ends on a page boundary. The code
starts with the boot program and then the trampoline, alone on its pages; zeroed memory starts with
the boot stack. Four conditions are left to the linker to check.
-/

namespace KernelImage

/-- The starts of the names of input sections that have no use in a running image. -/
def discardedSections : List String := [".eh_frame", ".debug", ".comment"]

namespace Script

def alignToPage : Statement := .moveTo (.align pageSize.toNat)

/-- Gives a boundary symbol the value of the location counter. -/
def mark (s : Symbol) : Statement := .define s.name .here

def textSection : Part :=
  .output ".text" [
    .place [".text.entry"] false,
    alignToPage,
    mark .strampoline,
    .place [".text.trampoline"] true,
    alignToPage,
    mark .etrampoline,
    .place [".text", ".text.*"] false]

def rodataSection : Part :=
  .output ".rodata" [
    .place [".rodata", ".rodata.*"] false,
    .place [".srodata", ".srodata.*"] false]

def dataSection : Part :=
  .output ".data" [
    .place [".data", ".data.*"] false,
    .place [".sdata", ".sdata.*"] false]

def bssSection : Part :=
  .output ".bss" [
    .place [".bss.stack"] false,
    mark .sbss,
    .place [".bss", ".bss.*"] false,
    .place [".sbss", ".sbss.*"] false]

def discardSection : Part :=
  .output "/DISCARD/" (discardedSections.map fun start => .place [start ++ "*"] false)

/-- Two boundaries at the next page boundary: the end of one region and the start of the next. -/
def boundary (s t : Symbol) : List Part :=
  [.statement .blank, .statement alignToPage, .statement (mark s), .statement (mark t)]

def sections : List Part :=
  [.statement (.moveTo (.name "BASE_ADDRESS")), .statement (mark .skernel), .statement .blank,
    .statement (mark .stext), textSection] ++
  boundary .etext .srodata ++ [rodataSection] ++
  boundary .erodata .sdata ++ [dataSection] ++
  boundary .edata .sbssWithStack ++ [bssSection] ++
  boundary .ebss .ekernel ++
  [.statement .blank, discardSection]

/-- The conditions that the linker checks. -/
def requirements : List Command :=
  [.require (.binary .eq (.name Symbol.skernel.name) (.name "BASE_ADDRESS"))
      "image does not start at the base address",
    .require
      (.binary .eq (.binary .mod (.name Symbol.strampoline.name) (.decimal pageSize.toNat))
        (.decimal 0))
      "trampoline is not page aligned",
    .require
      (.binary .eq
        (.binary .sub (.name Symbol.bootStackTop.name) (.name Symbol.bootStack.name))
        (.decimal bootStackSize.toNat))
      "boot stack size mismatch",
    .require (.binary .le (.name Symbol.ekernel.name) (.name "MEMORY_END"))
      "kernel image exceeds platform memory"]

def ofBoard (board : Board) : List Command :=
  [.outputArch "riscv", .entry Boot.entryName,
    .define "BASE_ADDRESS" (.hexadecimal board.base.toNat),
    .define "MEMORY_END" (.hexadecimal board.memoryEnd.toNat),
    .blank, .sections sections, .blank] ++
  requirements

end Script

/-- The linker script for a board. -/
def Board.linkerScript (board : Board) : String := Script.render (Script.ofBoard board)

end KernelImage

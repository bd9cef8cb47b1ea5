import KernelImage.Board
import KernelImage.Layout.Basic
import KernelImage.Outcome

/-!
# The rules for a layout

`Layout.check` applies the rules in a fixed order and reports the first one that is broken:

1. the image, and with it the code, starts at the board's base address;
2. the boundaries are in order, and the boot stack is not empty;
3. every boundary but `sbss` lies on a page boundary;
4. at each seam less than a page is left free;
5. the boot stack has its fixed size, and the image ends within memory.
-/

namespace KernelImage.Layout

/-- The places where one part of the image ends and the next one starts. -/
def seams : List (Symbol × Symbol) :=
  [(.etext, .srodata), (.erodata, .sdata), (.edata, .sbssWithStack),
    (.sbssWithStack, .bootStack), (.ebss, .ekernel)]

def checkBase (l : Layout) (board : Board) : Outcome Unit :=
  match [l.skernel, l.stext].find? (fun a => a ≠ board.base) with
  | some a => .defect (.baseMismatch board.base a)
  | none => .ok ()

def checkOrder (l : Layout) : Outcome Unit :=
  match Symbol.neighbours.find? (fun p => l.get p.2 < l.get p.1) with
  | some p => .defect (.outOfOrder p.1 p.2)
  | none => .ok ()

/-- An empty boot stack is reported as one that is upside down. -/
def checkStackNonempty (l : Layout) : Outcome Unit :=
  ensure (l.bootStack ≠ l.bootStackTop) (.defect (.outOfOrder .bootStackTop .bootStack))

def checkAlignment (l : Layout) : Outcome Unit :=
  match Symbol.all.find? (fun s => s.OnPageBoundary ∧ ¬ (l.get s).PageAligned) with
  | some s => .defect (.unaligned s (l.get s))
  | none => .ok ()

/-- The bytes from one boundary to another. The order of the boundaries is not checked again. -/
def span (l : Layout) (first last : Symbol) : Outcome UInt64 :=
  .orFault .overflow ((l.get first).distance? (l.get last))

def checkSeams (l : Layout) : Outcome Unit :=
  seams.forM fun (after, before) => do
    let length ← l.span after before
    ensure (length < pageSize) (.defect (.gap after before length))

def checkStackSize (l : Layout) : Outcome Unit := do
  let size ← l.span .bootStack .bootStackTop
  ensure (size = bootStackSize) (.defect (.stackSize bootStackSize size))

def checkMemory (l : Layout) (board : Board) : Outcome Unit :=
  ensure (l.ekernel ≤ board.memoryEnd) (.defect (.exceedsMemory l.ekernel board.memoryEnd))

def check (l : Layout) (board : Board) : Outcome Unit := do
  l.checkBase board
  l.checkOrder
  l.checkStackNonempty
  l.checkAlignment
  l.checkSeams
  l.checkStackSize
  l.checkMemory board

end KernelImage.Layout

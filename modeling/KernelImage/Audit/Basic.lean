import KernelImage.Elf.Symbols
import KernelImage.Layout.Check
import KernelImage.Script.Image

/-!
# The audit of an image

`Audit.ofImage` reads a linked image and accepts it for a board if no discarded section is left,
its boundary symbols form a layout that passes `Layout.check`, and it is entered at its start.
-/

namespace KernelImage

structure SectionSummary where
  name : String
  address : Address
  size : UInt64
  /-- The section takes up memory when the image runs. -/
  allocated : Bool
deriving DecidableEq

/-- What an accepted image holds. -/
structure Audit where
  board : Board
  entry : Address
  sections : List SectionSummary
  layout : Layout
deriving DecidableEq

/-- The start of a name that the linker should have discarded. -/
def forbiddenStart? (name : String) : Option String :=
  discardedSections.find? fun start => start.toList.isPrefixOf name.toList

namespace Elf

/-- All sections but the null ones, with their names, unless one should have been discarded. -/
def File.keptSections (f : File) (table : File.SectionTable) : Outcome (List Section) :=
  (table.headers.filter fun s => s.type? ≠ some .null).mapM fun s => do
    let name ← stringAt f.bytes (table.namesOffset + s.nameOffset)
    match forbiddenStart? name with
    | some start => .defect (.forbiddenSection start)
    | none => return ⟨name, s⟩

def Section.summary (s : Section) : SectionSummary :=
  ⟨s.name, s.header.address, .ofNat s.header.size, s.header.allocated⟩

end Elf

namespace Audit

/-- The sections that are loaded into memory. -/
def loaded (a : Audit) : List SectionSummary := a.sections.filter SectionSummary.allocated

/-- Of several symbols with the name of a boundary, the last one counts. -/
def layoutOf (symbols : List Elf.NamedSymbol) : Except Defect Layout :=
  Layout.resolve fun s => Elf.lastValue? symbols s.name

def ofImage (bytes : ByteArray) (board : Board) : Outcome Audit := do
  let file ← Elf.File.ofBytes bytes
  let table ← file.sectionTable
  let sections ← file.keptSections table
  let symbols ← file.symbols sections
  let layout ← .ofResult (layoutOf symbols)
  layout.check board
  let entry := file.header.entry
  ensure (entry = layout.skernel) (.defect (.entryMismatch layout.skernel entry))
  return ⟨board, entry, sections.map Elf.Section.summary, layout⟩

end Audit

end KernelImage

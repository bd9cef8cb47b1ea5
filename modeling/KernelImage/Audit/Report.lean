import KernelImage.Audit.Basic
import KernelImage.Layout.Region
import KernelImage.Text.Column

/-! # The report on an accepted image -/

namespace KernelImage

/-- The number of pages that cover a region whose ends are in order. -/
def Region.pageCount (r : Region) : Outcome UInt64 := .orFault .overflow r.range.pageCount?

namespace Audit

def sectionLine (s : SectionSummary) : String :=
  "    " ++ alignLeft 16 s.name ++ " " ++
    AddressRange.text ⟨s.address, s.address.offsetOrTop s.size⟩

def regionLine (r : Region) : Outcome String := do
  let pages ← r.pageCount
  return "    " ++ r.text ++ " " ++ toString pages.toNat ++ " pages " ++ r.access.text

def reportLines (a : Audit) (path : String) : Outcome (List String) := do
  let regionLines ← a.layout.regions.mapM regionLine
  return [path ++ ": entry " ++ a.entry.hex ++ ", board " ++ a.board.name, "loaded sections:"] ++
    a.loaded.map sectionLine ++
    ["regions:"] ++ regionLines ++
    ["trampoline " ++ a.layout.trampoline.text,
      "boot_stack " ++ a.layout.bootStackRange.text ++ " " ++
        toString a.layout.bootStackRange.size.toNat ++ " bytes",
      "image " ++ hex a.layout.imageSize.toNat ++ " bytes, ekernel " ++ a.layout.ekernel.hex ++
        ": ok"]

/-- The report under the name of the file that was read. -/
def report (a : Audit) (path : String) : Outcome String := do
  let lines ← a.reportLines path
  return String.join (lines.map fun line => line ++ "\n")

end Audit

end KernelImage

import KernelImage.Layout.Basic
import KernelImage.Memory.Access

/-! # The four regions of an image and their access rights -/

namespace KernelImage

/-- The output sections, in the order of their addresses. -/
inductive OutputSection where
  | text
  | rodata
  | data
  /-- Zeroed memory, with the boot stack at its start. -/
  | bss
deriving DecidableEq

namespace OutputSection

def all : List OutputSection := [text, rodata, data, bss]

def name : OutputSection → String
  | text => ".text"
  | rodata => ".rodata"
  | data => ".data"
  | bss => ".bss"

def ofName? (s : String) : Option OutputSection := all.find? (fun o => o.name = s)

/-- The rights with which the kernel maps a region: none is both writable and executable. -/
def access : OutputSection → Access
  | text => ⟨true, false, true⟩
  | rodata => ⟨true, false, false⟩
  | data => ⟨true, true, false⟩
  | bss => ⟨true, true, false⟩

end OutputSection

structure Region where
  output : OutputSection
  range : AddressRange
deriving DecidableEq

namespace Region

def access (r : Region) : Access := r.output.access

def text (r : Region) : String := r.output.name ++ " " ++ r.range.text

end Region

namespace Layout

def region (l : Layout) : OutputSection → Region
  | .text => ⟨.text, l.stext, l.etext⟩
  | .rodata => ⟨.rodata, l.srodata, l.erodata⟩
  | .data => ⟨.data, l.sdata, l.edata⟩
  | .bss => ⟨.bss, l.sbssWithStack, l.ebss⟩

def regions (l : Layout) : List Region := OutputSection.all.map l.region

end Layout

end KernelImage

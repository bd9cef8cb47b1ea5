import KernelImage.Memory.Address

/-!
# Pages

Pages have 4096 bytes. `Address.floor` and `Address.ceil` give the page numbers around an address,
`Address.alignUp?` the next page boundary. An address above the last boundary has none, although
its `ceil` is still a page number: that page starts past the top of the address space.
-/

namespace KernelImage

def pageSizeBits : UInt64 := 12

def pageSize : UInt64 := 4096

structure PageNumber where
  val : UInt64
deriving DecidableEq, Inhabited

instance : Ord PageNumber where
  compare p q := compare p.val q.val

namespace Address

def pageOffset (a : Address) : UInt64 := a.val &&& (pageSize - 1)

def PageAligned (a : Address) : Prop := a.pageOffset = 0

instance (a : Address) : Decidable a.PageAligned := inferInstanceAs (Decidable (a.pageOffset = 0))

/-- The page that holds the address. -/
def floor (a : Address) : PageNumber := ⟨a.val >>> pageSizeBits⟩

/-- The first page that starts at or after the address. -/
def ceil (a : Address) : PageNumber :=
  ⟨(a.val >>> pageSizeBits) + if a.PageAligned then 0 else 1⟩

/-- The first page boundary at or after the address, if it is an address. -/
def alignUp? (a : Address) : Option Address :=
  if a.PageAligned then some a else a.offset? (pageSize - a.pageOffset)

/-- The page boundary that follows `length` bytes placed at the address. -/
def afterPadded? (a : Address) (length : UInt64) : Option Address :=
  (a.offset? length).bind alignUp?

/-- The first address of a page. Bits of the page number that do not fit are lost. -/
def ofPage (p : PageNumber) : Address := ⟨p.val <<< pageSizeBits⟩

/-- How a virtual address is shown. -/
def label (a : Address) : String := "VA:" ++ a.hex

end Address

/-- How a virtual page number is shown. -/
def PageNumber.label (p : PageNumber) : String := "VPN:" ++ hex p.val.toNat

end KernelImage

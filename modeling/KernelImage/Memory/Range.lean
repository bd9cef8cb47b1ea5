import KernelImage.Memory.Page

/-! # Half-open address ranges -/

namespace KernelImage

/-- The addresses from `start` up to, but not including, `stop`. -/
structure AddressRange where
  start : Address
  stop : Address
deriving DecidableEq

namespace AddressRange

instance : Membership Address AddressRange where
  mem r a := r.start ≤ a ∧ a < r.stop

instance (a : Address) (r : AddressRange) : Decidable (a ∈ r) :=
  inferInstanceAs (Decidable (r.start ≤ a ∧ a < r.stop))

/-- The number of addresses. A range that ends before it starts has none. -/
def size (r : AddressRange) : UInt64 := (r.start.distance? r.stop).getD 0

/-- Both ends lie on page boundaries. -/
def PageAligned (r : AddressRange) : Prop := r.start.PageAligned ∧ r.stop.PageAligned

instance (r : AddressRange) : Decidable r.PageAligned :=
  inferInstanceAs (Decidable (r.start.PageAligned ∧ r.stop.PageAligned))

/-- The pages that cover the range: the first one, and the one after the last. -/
def pages (r : AddressRange) : PageNumber × PageNumber := (r.start.floor, r.stop.ceil)

/-- The number of covering pages, if the first does not lie above the end. -/
def pageCount? (r : AddressRange) : Option UInt64 :=
  if r.pages.1.val ≤ r.pages.2.val then some (r.pages.2.val - r.pages.1.val) else none

def text (r : AddressRange) : String := "[" ++ r.start.hex ++ ", " ++ r.stop.hex ++ ")"

end AddressRange

end KernelImage

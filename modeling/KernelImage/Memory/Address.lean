import KernelImage.Text.Hex

/-!
# Addresses

A 64-bit address, its text, and the sums and differences of addresses. A sum that leaves the
64-bit range is refused; it never wraps around.
-/

namespace KernelImage

structure Address where
  val : UInt64
deriving DecidableEq, Inhabited

namespace Address

instance : LT Address where
  lt a b := a.val < b.val

instance : LE Address where
  le a b := a.val ≤ b.val

instance (a b : Address) : Decidable (a < b) := inferInstanceAs (Decidable (a.val < b.val))

instance (a b : Address) : Decidable (a ≤ b) := inferInstanceAs (Decidable (a.val ≤ b.val))

instance : Ord Address where
  compare a b := compare a.val b.val

def toNat (a : Address) : Nat := a.val.toNat

def ofNat (n : Nat) : Address := ⟨UInt64.ofNat n⟩

def hex (a : Address) : String := KernelImage.hex a.toNat

/-- The address `length` bytes on, unless that lies past the top of the address space. -/
def offset? (a : Address) (length : UInt64) : Option Address :=
  if a.toNat + length.toNat < UInt64.size then some ⟨a.val + length⟩ else none

/-- The address `length` bytes on, or the highest address. -/
def offsetOrTop (a : Address) (length : UInt64) : Address :=
  (a.offset? length).getD (ofNat (UInt64.size - 1))

/-- The number of bytes from `a` up to `b`, unless `b` lies below `a`. -/
def distance? (a b : Address) : Option UInt64 :=
  if a ≤ b then some (b.val - a.val) else none

end Address

end KernelImage

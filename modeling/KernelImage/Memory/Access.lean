/-!
# Access rights

The rights with which a part of memory is mapped: read, write and execute, with the bit that each
one has in a page table entry.
-/

namespace KernelImage

structure Access where
  read : Bool
  write : Bool
  execute : Bool
deriving DecidableEq

namespace Access

def empty : Access := ⟨false, false, false⟩

def all : Access := ⟨true, true, true⟩

/-- The bits 1, 2 and 3 of a page table entry. -/
def bits (a : Access) : Nat :=
  (if a.read then 2 else 0) + (if a.write then 4 else 0) + (if a.execute then 8 else 0)

/-- The rights among the bits of a number; other bits are ignored. -/
def ofBits (n : Nat) : Access := ⟨n.testBit 1, n.testBit 2, n.testBit 3⟩

/-- The rights with exactly these bits, if every bit is a right. -/
def ofBits? (n : Nat) : Option Access :=
  if (ofBits n).bits = n then some (ofBits n) else none

def union (a b : Access) : Access :=
  ⟨a.read || b.read, a.write || b.write, a.execute || b.execute⟩

def diff (a b : Access) : Access :=
  ⟨a.read && !b.read, a.write && !b.write, a.execute && !b.execute⟩

def inter (a b : Access) : Access :=
  ⟨a.read && b.read, a.write && b.write, a.execute && b.execute⟩

def symmDiff (a b : Access) : Access := (a.diff b).union (b.diff a)

def complement (a : Access) : Access := all.diff a

/-- Every right of `b` is one of `a`. -/
def Contains (a b : Access) : Prop := b.diff a = empty

instance (a b : Access) : Decidable (a.Contains b) := inferInstanceAs (Decidable (_ = _))

/-- Some right of `b` is one of `a`. -/
def Meets (a b : Access) : Prop := a.inter b ≠ empty

instance (a b : Access) : Decidable (a.Meets b) := inferInstanceAs (Decidable (_ ≠ _))

/-- The letters of the rights, in the order R, W, X. -/
def text (a : Access) : String :=
  let letters := (if a.read then ["R"] else []) ++ (if a.write then ["W"] else []) ++
    (if a.execute then ["X"] else [])
  if letters.isEmpty then "(empty)" else " | ".intercalate letters

end Access

end KernelImage

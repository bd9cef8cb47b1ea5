import KernelImage.Outcome

/-!
# Bytes of an image

Numbers, ranges and terminated strings inside a file. Offsets are natural numbers, so a range whose
end would not fit into a machine word simply lies outside the file.
-/

namespace KernelImage.Elf

/-- The number in `width` bytes from `offset` on, lowest byte first. -/
def number? (bytes : ByteArray) (offset : Nat) : Nat → Option Nat
  | 0 => some 0
  | width + 1 => do
    let low ← bytes[offset]?
    let high ← number? bytes (offset + 1) width
    return low.toNat + 256 * high

def number (bytes : ByteArray) (offset width : Nat) : Outcome Nat :=
  .orFault .outOfBounds (number? bytes offset width)

/-- All `size` bytes from `offset` on lie within the bytes. -/
def HasRange (bytes : ByteArray) (offset size : Nat) : Prop := offset + size ≤ bytes.size

instance (bytes : ByteArray) (offset size : Nat) : Decidable (HasRange bytes offset size) :=
  inferInstanceAs (Decidable (offset + size ≤ bytes.size))

/-- The first zero byte at or after `start`. -/
def terminator? (bytes : ByteArray) (start : Nat) : Option Nat :=
  if h : start < bytes.size then
    if bytes[start] = 0 then some start else terminator? bytes (start + 1)
  else
    none
termination_by bytes.size - start

/-- The text from `start` up to the next zero byte. -/
def stringAt (bytes : ByteArray) (start : Nat) : Outcome String :=
  match terminator? bytes start with
  | none => .fault .outOfBounds
  | some stop => .orFault .invalidText (String.fromUTF8? (bytes.extract start stop))

end KernelImage.Elf

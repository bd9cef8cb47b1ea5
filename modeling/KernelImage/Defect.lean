import KernelImage.Memory.Address
import KernelImage.Symbol

/-! # Defects: what is wrong with an image, and the text that reports it -/

namespace KernelImage

inductive Defect where
  /-- The image does not start at the board's base address. -/
  | baseMismatch (expected found : Address)
  /-- The entry point is not the start of the image. -/
  | entryMismatch (expected found : Address)
  /-- A boundary that must lie on a page boundary does not. -/
  | unaligned (symbol : Symbol) (address : Address)
  /-- Two boundaries that must be in order are not. -/
  | outOfOrder (before after : Symbol)
  /-- The space between two parts is more than alignment padding. -/
  | gap (after before : Symbol) (length : UInt64)
  | stackSize (expected found : UInt64)
  | exceedsMemory (stop limit : Address)
  /-- The image does not fit below the top of the address space. -/
  | addressOverflow
  | missingSymbol (symbol : Symbol)
  /-- A boot instruction refers to a symbol without an address. -/
  | unresolvedSymbol (name : String)
  /-- A section remains that the linker should have discarded. -/
  | forbiddenSection (start : String)
  | malformedElf (reason : String)
deriving DecidableEq

/-- The text in which a defect is reported. -/
def Defect.message : Defect → String
  | baseMismatch expected found =>
    "image starts at " ++ found.hex ++ ", expected base address " ++ expected.hex
  | entryMismatch expected found =>
    "entry point " ++ found.hex ++ " is not the image start " ++ expected.hex
  | unaligned symbol address => symbol.name ++ " = " ++ address.hex ++ " is not page aligned"
  | outOfOrder before after => before.name ++ " must not lie above " ++ after.name
  | gap after before length =>
    hex length.toNat ++ " bytes between " ++ after.name ++ " and " ++ before.name ++
      " exceed alignment padding"
  | stackSize expected found =>
    "boot stack is " ++ hex found.toNat ++ " bytes, expected " ++ hex expected.toNat
  | exceedsMemory stop limit =>
    "image ends at " ++ stop.hex ++ ", beyond memory end " ++ limit.hex
  | addressOverflow => "address computation overflowed"
  | missingSymbol symbol => "boundary symbol " ++ symbol.name ++ " is not defined"
  | unresolvedSymbol name => "unresolved symbol " ++ name
  | forbiddenSection start => "image still contains " ++ start ++ "* sections"
  | malformedElf reason => "malformed elf: " ++ reason

end KernelImage

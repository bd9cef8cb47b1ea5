import KernelImage.Memory.Address

/-! # Boards: where an image is loaded, and where memory ends -/

namespace KernelImage

inductive Board where
  | qemu
  | k210
deriving DecidableEq, Inhabited

namespace Board

/-- The address at which an image starts. -/
def base : Board → Address
  | qemu => ⟨0x80200000⟩
  | k210 => ⟨0x80020000⟩

/-- The first address past the memory that an image may use. -/
def memoryEnd : Board → Address
  | qemu => ⟨0x80800000⟩
  | k210 => ⟨0x80600000⟩

def name : Board → String
  | qemu => "qemu"
  | k210 => "k210"

def all : List Board := [qemu, k210]

def ofName? (s : String) : Option Board := all.find? (fun b => b.name = s)

end Board

end KernelImage

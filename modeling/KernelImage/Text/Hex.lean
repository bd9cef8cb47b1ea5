/-! # Hexadecimal numbers -/

namespace KernelImage

/-- Lower-case hexadecimal digits after `0x`, without leading zeros. -/
def hex (n : Nat) : String := "0x" ++ String.ofList (Nat.toDigits 16 n)

end KernelImage

/-! # Columns: text filled up with blanks to a width, counted in characters -/

namespace KernelImage

def blanks (n : Nat) : String := String.ofList (List.replicate n ' ')

/-- Text that starts at the left edge of its column. Longer text is not cut. -/
def alignLeft (width : Nat) (text : String) : String := text ++ blanks (width - text.length)

/-- Text that ends at the right edge of its column. -/
def alignRight (width : Nat) (text : String) : String := blanks (width - text.length) ++ text

end KernelImage

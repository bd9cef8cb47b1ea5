import KernelImage.Boot.Hart
import KernelImage.Layout.Basic

/-! # Booting an image with a given layout -/

namespace KernelImage.Layout

/-- The addresses that the boot program can refer to: the boundaries, and the kernel if it is known. -/
def resolver (l : Layout) (kernel : Option Address) : Boot.Resolver := fun name =>
  if name = Boot.kernelMain then kernel else l.address? name

/-- Executes the boot program at the start of the code. -/
def boot (l : Layout) (kernel : Option Address) : Outcome Boot.Handover :=
  Boot.run l.stext (l.resolver kernel)

end KernelImage.Layout
